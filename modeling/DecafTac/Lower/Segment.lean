import DecafTac.Lower.Statement

/-!
Functions, classes and whole programs. Global variables get their storage first; then each function
gives a segment from its label to its end, and each class the segments of its methods and then its
method table. A segment is closed even when its body fails.
-/
namespace DecafTac.Lower

/-- Binds the formals of a function to parameter slots, from `slot` on. -/
def bindFormals (emitter : Emitter) : List Decl → (slot : Nat) → Bindings → Bindings
  | [], _, bindings => bindings
  | .var _ name type :: rest, slot, bindings =>
    bindFormals emitter rest (slot + 1)
      (bindings.declare name.name ⟨emitter.param name.name slot, Tag.ofType type⟩)
  | _ :: rest, slot, bindings => bindFormals emitter rest (slot + 1) bindings

/-- The state in which the body of a function starts. The receiver of a method comes in the first
parameter slot. -/
def openFrame (layout : Option ClassLayout) (formals : List Decl) (s : LowerState) : LowerState :=
  match layout with
  | some layout =>
    { s with
      method := some ⟨layout, ⟨s.emitter.param "this" 0, .object layout.name⟩⟩
      bindings := bindFormals s.emitter formals 1 {} }
  | none =>
    { s with
      method := none
      bindings := bindFormals s.emitter formals 0 {} }

/-- Closes a function. -/
def closeFrame : Emission LowerState Unit := fun s =>
  let closed := Emitter.endFunction s.emitter
  ⟨(), { s with emitter := closed.state, method := none, functions := s.functions + 1 },
    closed.code⟩

/-- The segment of a function: its label, its body, its end. -/
def segment (label : String) (layout : Option ClassLayout) (formals : List Decl)
    (body : Lower Unit) : Lower Unit := do
  emit (Emitter.beginFunction label)
  modify (openFrame layout formals)
  ensuring body closeFrame

/-- The label of a function, by the class that declares it. -/
def functionLabel (layout : Option ClassLayout) (name : String) : String :=
  match layout with
  | some layout => ClassLayout.methodLabel layout.name name
  | none => name

/-- Lowers a function, and nothing else. -/
def function (arena : Arena) (layouts : Layouts) (layout : Option ClassLayout) : Decl → Lower Unit
  | .prototype _ name _ formals =>
    segment (functionLabel layout name.name) layout formals (return ())
  | .function _ name _ formals body =>
    segment (functionLabel layout name.name) layout formals (stmt arena layouts body)
  | .var .. | .cls .. | .interface .. => return ()

/-- Lowers the methods among some members. -/
def methods (arena : Arena) (layouts : Layouts) (layout : ClassLayout) : List Decl → Lower Unit
  | [] => return ()
  | member :: rest => do
    function arena layouts (some layout) member
    methods arena layouts layout rest

/-- Issues the method table of a class. -/
def methodTable (layout : ClassLayout) : Lower Unit := do
  emit (Emitter.methodTable layout.name layout.table)
  modify fun s => { s with tables := s.tables + 1 }

/-- Lowers a top-level declaration. -/
def topLevel (arena : Arena) (layouts : Layouts) : Decl → Lower Unit
  | .cls _ name _ _ members => do
    let layout ← classLayout layouts name.name
    methods arena layouts layout members
    methodTable layout
  | decl => function arena layouts none decl

def topLevels (arena : Arena) (layouts : Layouts) : List Decl → Lower Unit
  | [] => return ()
  | decl :: rest => do
    topLevel arena layouts decl
    topLevels arena layouts rest

/-- Gives storage to the variables among the top-level declarations. -/
def declareGlobals : List Decl → Lower Unit
  | [] => return ()
  | .var _ name type :: rest => do
    let loc ← emit (Emitter.allocate name.name)
    modify fun s => { s with globals := (name.name, ⟨loc, Tag.ofType type⟩) :: s.globals }
    declareGlobals rest
  | _ :: rest => declareGlobals rest

/-- Lowers a program. -/
def program (layouts : Layouts) (program : Program) : Lower Unit := do
  declareGlobals program.top
  topLevels program.arena layouts program.top

end DecafTac.Lower

namespace DecafTac

/-- Counts of what was issued for a program. -/
structure Summary where
  instructions : Nat
  functions : Nat
  tables : Nat
  deriving DecidableEq, Inhabited

/-- What code generation gives: the instructions issued, and whether it got to the end. -/
structure Generated where
  outcome : Except LowerError Summary
  code : List Instruction

/-- Generates the code of a program against given layouts. Nothing is issued for a program that has no
entry point. -/
def Program.generate (program : Program) (layouts : Layouts) (shape : FrameShape) : Generated :=
  if layouts.functions.hasEntryPoint then
    let run := Lower.program layouts program { emitter := { shape } }
    let summary : Summary := ⟨run.state.emitter.issued, run.state.functions, run.state.tables⟩
    ⟨run.value.map fun _ => summary, run.code⟩
  else ⟨.error .noMainFound, []⟩

end DecafTac
