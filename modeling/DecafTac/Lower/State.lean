import DecafTac.Lower.Bindings
import DecafTac.Lower.Error
import DecafTac.Lower.LoopExits
import DecafTac.Storage.Layouts
import DecafTac.Tac.Emitter

/-!
Steps of lowering. A step can fail, and a failed step ends those that follow it; what was issued before
stays issued, and the state stays as it was at the failure.
-/
namespace DecafTac

/-- The method being lowered: the layout of its class, and its receiver. -/
structure Method where
  layout : ClassLayout
  this : Value
  deriving DecidableEq, Inhabited

/-- What is known while a program is lowered. -/
structure LowerState where
  emitter : Emitter
  /-- Global variables by name, latest first. -/
  globals : List (String × Value) := []
  /-- Formals and locals of the open function. -/
  bindings : Bindings := {}
  /-- The open method, when the open function is one. -/
  method : Option Method := none
  loops : LoopExits := {}
  /-- Functions closed. -/
  functions : Nat := 0
  /-- Method tables issued. -/
  tables : Nat := 0
  deriving DecidableEq, Inhabited

/-- Changes the tag of a name: of its binding in the function if it has one, else of the global. -/
def LowerState.retag (s : LowerState) (name : String) (tag : Tag) : LowerState :=
  if (s.bindings.lookup name).isSome then { s with bindings := s.bindings.retag name tag }
  else { s with
    globals := s.globals.map fun entry =>
      if entry.1 == name then (name, { entry.2 with tag }) else entry }

/-- A step of lowering. -/
def Lower (α : Type) : Type := Emission LowerState (Except LowerError α)

namespace Lower

variable {α β : Type}

protected def pure (a : α) : Lower α := fun s => ⟨.ok a, s, []⟩

protected def bind (x : Lower α) (f : α → Lower β) : Lower β := fun s =>
  let first := x s
  match first.value with
  | .error e => ⟨.error e, first.state, first.code⟩
  | .ok a =>
    let second := f a first.state
    ⟨second.value, second.state, first.code ++ second.code⟩

instance : Monad Lower where
  pure := Lower.pure
  bind := Lower.bind

@[simp] theorem pure_apply (a : α) (s : LowerState) :
    (Pure.pure a : Lower α) s = ⟨.ok a, s, []⟩ := rfl

theorem bind_apply (x : Lower α) (f : α → Lower β) (s : LowerState) :
    (x >>= f) s = match (x s).value with
      | .error e => ⟨.error e, (x s).state, (x s).code⟩
      | .ok a =>
        ⟨(f a (x s).state).value, (f a (x s).state).state, (x s).code ++ (f a (x s).state).code⟩ :=
  rfl

/-- Fails, issuing nothing. -/
def fail (e : LowerError) : Lower α := fun s => ⟨.error e, s, []⟩

def get : Lower LowerState := fun s => ⟨.ok s, s, []⟩

def modify (f : LowerState → LowerState) : Lower Unit := fun s => ⟨.ok (), f s, []⟩

/-- Issues instructions. -/
def emit (x : Emit α) : Lower α := fun s =>
  let issued := x s.emitter
  ⟨.ok issued.value, { s with emitter := issued.state }, issued.code⟩

/-- The value of an option, or a failure. -/
def ofOption (e : LowerError) : Option α → Lower α
  | some a => return a
  | none => fail e

/-- Runs `x`, then `after` whether or not `x` failed. -/
def ensuring (x : Lower α) (after : Emission LowerState Unit) : Lower α := fun s =>
  let first := x s
  let second := after first.state
  ⟨first.value, second.state, first.code ++ second.code⟩

/-- The shape of frames and objects. -/
def shape : Lower FrameShape := fun s => ⟨.ok s.emitter.shape, s, []⟩

/-- The layout of a class by name. -/
def classLayout (layouts : Layouts) (name : String) : Lower ClassLayout :=
  ofOption (.unknownClass name) (layouts.class? name)

/-- The layout of the class of an object. What is no object is named by its tag. -/
def layoutOf (layouts : Layouts) (value : Value) : Lower ClassLayout :=
  match value.tag.className? with
  | some name => classLayout layouts name
  | none => fail (.unknownClass value.tag.text)

end Lower

end DecafTac
