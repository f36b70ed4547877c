import DecafTac.Storage.Tag
import DecafTac.Tac.Instruction

/-!
Names bound in the function being lowered. Formals are bound at depth zero and locals at the depth of
their block. One table holds what is visible; what a block hides is kept aside with the depth of that
block and comes back when the block is left.
-/
namespace DecafTac

/-- A value: where it is kept, and its tag. -/
structure Value where
  loc : Location
  tag : Tag
  deriving DecidableEq, Inhabited

/-- A bound name's value and the depth at which it is bound. -/
structure Binding where
  value : Value
  depth : Nat
  deriving DecidableEq, Inhabited

/-- A binding that a block at `depth` hides. -/
structure Hidden where
  depth : Nat
  name : String
  binding : Binding
  deriving DecidableEq, Inhabited

structure Bindings where
  /-- The visible bindings, one for each name. -/
  visible : List (String × Binding) := []
  /-- How many blocks are open. -/
  depth : Nat := 0
  /-- The hidden bindings, latest first. -/
  hidden : List Hidden := []
  deriving DecidableEq, Inhabited

namespace Bindings

/-- Puts a binding in the place of the one that the name had. -/
def put (visible : List (String × Binding)) (name : String) (binding : Binding) :
    List (String × Binding) :=
  (name, binding) :: visible.filter (·.1 != name)

/-- Opens a block. -/
def enter (b : Bindings) : Bindings := { b with depth := b.depth + 1 }

/-- Leaves a block: its bindings go, and those it hid come back. Outside all blocks there is nothing to
come back to, and the formals go. -/
def leave (b : Bindings) : Bindings where
  visible := (b.hidden.takeWhile (·.depth == b.depth)).foldl
    (fun visible hidden => put visible hidden.name hidden.binding)
    (b.visible.filter (·.2.depth < b.depth))
  depth := b.depth - 1
  hidden := b.hidden.dropWhile (·.depth == b.depth)

/-- Binds a name in the open block, hiding a binding from further out. -/
def declare (b : Bindings) (name : String) (value : Value) : Bindings :=
  { b with
    visible := put b.visible name ⟨value, b.depth⟩
    hidden := match b.visible.lookup name with
      | some old => if old.depth < b.depth then ⟨b.depth, name, old⟩ :: b.hidden else b.hidden
      | none => b.hidden }

/-- The innermost value of a name. -/
def lookup (b : Bindings) (name : String) : Option Value :=
  (b.visible.lookup name).map Binding.value

/-- Changes the tag of the innermost value of a name; nothing happens to a name that is not bound. -/
def retag (b : Bindings) (name : String) (tag : Tag) : Bindings :=
  { b with
    visible := b.visible.map fun entry =>
      if entry.1 == name then (name, { entry.2 with value := { entry.2.value with tag } })
      else entry }

end Bindings

end DecafTac
