import DecafTac.Source.Span

/-!
Types as they are written. A named type refers to a class or an interface by its name alone; whether
there is one, and which, is decided later. Equivalence looks through the places where names stand.
-/
namespace DecafTac

/-- A name together with the place where it is written. -/
structure Ident where
  name : String
  span : Span
  deriving DecidableEq, Inhabited

/-- The built-in types. `error` stands where no type could be determined. -/
inductive Primitive where
  | int
  | double
  | bool
  | string
  | void
  | null
  | error
  deriving DecidableEq, Inhabited

namespace Primitive

def text : Primitive → String
  | .int => "int"
  | .double => "double"
  | .bool => "bool"
  | .string => "string"
  | .void => "void"
  | .null => "null"
  | .error => "error"

def all : List Primitive := [.int, .double, .bool, .string, .void, .null, .error]

/-- The type that is written so. -/
def ofText? (word : String) : Option Primitive := all.find? (·.text == word)

end Primitive

/-- A type as it is written. -/
inductive TypeExpr where
  | primitive (type : Primitive)
  | named (name : Ident)
  | array (element : TypeExpr)
  deriving DecidableEq, Inhabited

namespace TypeExpr

/-- The same type up to the places where its name is written. -/
def equivalent : TypeExpr → TypeExpr → Bool
  | .primitive a, .primitive b => a == b
  | .named a, .named b => a.name == b.name
  | .array a, .array b => a.equivalent b
  | _, _ => false

/-- The named type under all arrays, if there is one. -/
def innermostNamed : TypeExpr → Option Ident
  | .primitive _ => none
  | .named name => some name
  | .array element => element.innermostNamed

def element? : TypeExpr → Option TypeExpr
  | .array element => some element
  | _ => none

def isVoid : TypeExpr → Bool
  | .primitive .void => true
  | _ => false

def text : TypeExpr → String
  | .primitive type => type.text
  | .named name => name.name
  | .array element => element.text ++ "[]"

end TypeExpr

end DecafTac
