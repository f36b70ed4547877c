import DecafTac.Source.TypeExpr

/-!
Tags of values. A tag is all that code generation knows about the type of a value: enough to choose
how to print it, how to compare it, where its class is laid out and what its elements are.
-/
namespace DecafTac

inductive Tag where
  | int
  | double
  | bool
  | string
  | void
  | null
  | error
  | array (element : Tag)
  /-- An object of the named class or interface. -/
  | object (cls : String)
  deriving DecidableEq, Inhabited

namespace Tag

def ofPrimitive : Primitive → Tag
  | .int => .int
  | .double => .double
  | .bool => .bool
  | .string => .string
  | .void => .void
  | .null => .null
  | .error => .error

/-- The tag of a value of a declared type. -/
def ofType : TypeExpr → Tag
  | .primitive type => ofPrimitive type
  | .named name => .object name.name
  | .array element => .array (ofType element)

def element? : Tag → Option Tag
  | .array element => some element
  | _ => none

def className? : Tag → Option String
  | .object cls => some cls
  | _ => none

def isArray : Tag → Bool
  | .array _ => true
  | _ => false

def isString : Tag → Bool
  | .string => true
  | _ => false

def isVoid : Tag → Bool
  | .void => true
  | _ => false

/-- Arrays of all kinds are written alike, and an object by the name of its class. -/
def text : Tag → String
  | .int => "int"
  | .double => "double"
  | .bool => "bool"
  | .string => "string"
  | .void => "void"
  | .null => "null"
  | .error => "error"
  | .array _ => "array"
  | .object cls => cls

end Tag

end DecafTac
