import DecafTac.Diagnostic

/-!
Faults that end code generation. Apart from a program without an entry point, they are met only when a
program is lowered that analysis did not accept, or against layouts that are not its own.
-/
namespace DecafTac

inductive LowerError where
  /-- There is no `main` that takes nothing. -/
  | noMainFound
  /-- A value that has no way of being printed, by its tag. -/
  | unsupportedPrintType (tag : String)
  | unknownClass (name : String)
  | unknownMember (cls member : String)
  | unboundName (name : String)
  /-- A call that gives nothing where a value is needed. -/
  | voidValue (name : String)
  | breakOutsideLoop
  deriving DecidableEq, Inhabited

namespace LowerError

def kind : LowerError → ErrorKind
  | .noMainFound => .noMainFound
  | .unsupportedPrintType _ => .unsupportedPrintType
  | _ => .internal

def message : LowerError → String
  | .noMainFound => "linker: function 'main' not defined"
  | .unsupportedPrintType tag => "internal error: cannot print value of type '" ++ tag ++ "'"
  | .unknownClass name => "internal error: no layout for class '" ++ name ++ "'"
  | .unknownMember cls member => "internal error: '" ++ cls ++ "' has no member '" ++ member ++ "'"
  | .unboundName name => "internal error: '" ++ name ++ "' is not bound at this point"
  | .voidValue name => "internal error: void result of '" ++ name ++ "' used as a value"
  | .breakOutsideLoop => "internal error: break outside of a loop"

end LowerError

end DecafTac
