/-!
The operators of expressions. Each is told by the way it is written; a minus can be of either sort.
-/
namespace DecafTac

inductive BinaryOp where
  | add
  | sub
  | mul
  | div
  | mod
  | lt
  | le
  | gt
  | ge
  | eq
  | ne
  | and
  | or
  deriving DecidableEq, Inhabited

namespace BinaryOp

def text : BinaryOp → String
  | .add => "+"
  | .sub => "-"
  | .mul => "*"
  | .div => "/"
  | .mod => "%"
  | .lt => "<"
  | .le => "<="
  | .gt => ">"
  | .ge => ">="
  | .eq => "=="
  | .ne => "!="
  | .and => "&&"
  | .or => "||"

def all : List BinaryOp := [.add, .sub, .mul, .div, .mod, .lt, .le, .gt, .ge, .eq, .ne, .and, .or]

/-- The operator that is written so. -/
def ofText? (word : String) : Option BinaryOp := all.find? (·.text == word)

/-- Whether the operator compares by order. -/
def isRelational : BinaryOp → Bool
  | .lt | .le | .gt | .ge => true
  | _ => false

/-- Whether the operator compares for sameness. -/
def isEquality : BinaryOp → Bool
  | .eq | .ne => true
  | _ => false

end BinaryOp

inductive UnaryOp where
  | neg
  | not
  deriving DecidableEq, Inhabited

namespace UnaryOp

def text : UnaryOp → String
  | .neg => "-"
  | .not => "!"

/-- The operator that is written so. -/
def ofText? (word : String) : Option UnaryOp := [neg, not].find? (·.text == word)

end UnaryOp

end DecafTac
