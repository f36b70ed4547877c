import DecafTac.Source.Span

/-!
Faults in a program and how they are reported. Every fault that analysis finds is a `SemanticError`
with the place where it is; reports keep the order in which they are found.
-/
namespace DecafTac

/-- The kinds of faults, those of analysis first and those of code generation last. -/
inductive ErrorKind where
  | declConflict
  | identifierNotDeclared
  | thisOutsideClassScope
  | overrideMismatch
  | cyclicInheritance
  | noMainFound
  | unsupportedPrintType
  /-- Code generation met a program that analysis should have refused. -/
  | internal
  deriving DecidableEq, Inhabited

namespace ErrorKind

def text : ErrorKind → String
  | .declConflict => "DeclConflict"
  | .identifierNotDeclared => "IdentifierNotDeclared"
  | .thisOutsideClassScope => "ThisOutsideClassScope"
  | .overrideMismatch => "OverrideMismatch"
  | .cyclicInheritance => "CyclicInheritance"
  | .noMainFound => "NoMainFound"
  | .unsupportedPrintType => "UnsupportedPrintType"
  | .internal => "Internal"

def all : List ErrorKind :=
  [.declConflict, .identifierNotDeclared, .thisOutsideClassScope, .overrideMismatch,
    .cyclicInheritance, .noMainFound, .unsupportedPrintType, .internal]

/-- The kind that is written so. -/
def ofText? (word : String) : Option ErrorKind := all.find? (·.text == word)

end ErrorKind

/-- What a name that was not found should have been. -/
inductive Expected where
  | cls
  | interface
  deriving DecidableEq, Inhabited

namespace Expected

def text : Expected → String
  | .cls => "class"
  | .interface => "interface"

/-- The expectation that is written so. -/
def ofText? (word : String) : Option Expected := [cls, interface].find? (·.text == word)

end Expected

/-- A fault that analysis finds. -/
inductive SemanticError where
  /-- Two declarations of one name in one scope; `previous` is where the one that stands is. -/
  | declConflict (name : String) (span previous : Span)
  /-- A name that refers to no type. -/
  | identifierNotDeclared (name : String) (expected : Expected) (span : Span)
  | thisOutsideClassScope (span : Span)
  /-- A method whose signature differs from one that it inherits. -/
  | overrideMismatch (cls name : String) (span : Span)
  /-- A class that is its own ancestor. -/
  | cyclicInheritance (name : String) (span : Span)
  deriving DecidableEq, Inhabited

namespace SemanticError

def kind : SemanticError → ErrorKind
  | .declConflict .. => .declConflict
  | .identifierNotDeclared .. => .identifierNotDeclared
  | .thisOutsideClassScope _ => .thisOutsideClassScope
  | .overrideMismatch .. => .overrideMismatch
  | .cyclicInheritance .. => .cyclicInheritance

def span : SemanticError → Span
  | .declConflict _ span _ => span
  | .identifierNotDeclared _ _ span => span
  | .thisOutsideClassScope span => span
  | .overrideMismatch _ _ span => span
  | .cyclicInheritance _ span => span

def message : SemanticError → String
  | .declConflict name span previous =>
    "at " ++ span.text ++ ": declaration of '" ++ name ++ "' conflicts with declaration at " ++
      previous.text
  | .identifierNotDeclared name expected span =>
    "at " ++ span.text ++ ": identifier '" ++ name ++ "' not declared, expected " ++ expected.text
  | .thisOutsideClassScope span => "at " ++ span.text ++ ": 'this' used outside class scope"
  | .overrideMismatch cls name span =>
    "at " ++ span.text ++ ": method '" ++ cls ++ "." ++ name ++
      "' must match inherited type signature"
  | .cyclicInheritance name span =>
    "at " ++ span.text ++ ": class '" ++ name ++ "' has a cyclic inheritance chain"

end SemanticError

/-- Reports in the order in which they were made. -/
abbrev Diagnostics := List SemanticError

namespace Diagnostics

def ofKind (reports : Diagnostics) (kind : ErrorKind) : Diagnostics :=
  reports.filter (·.kind == kind)

def countOf (reports : Diagnostics) (kind : ErrorKind) : Nat := (reports.ofKind kind).length

/-- All messages, one on each line. -/
def text (reports : Diagnostics) : String := String.join (reports.map (·.message ++ "\n"))

/-- What is said when reports keep a program from being compiled. -/
def refusal (reports : Diagnostics) : String :=
  toString reports.length ++ " semantic error(s); code generation skipped"

end Diagnostics

end DecafTac
