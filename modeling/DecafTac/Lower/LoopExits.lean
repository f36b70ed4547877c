import DecafTac.Source.Node

/-!
Where the open loops end. While the body of a loop is lowered, the label that follows the loop is kept
under its statement, so that leaving the loop finds it.
-/
namespace DecafTac

/-- The labels that follow the open loops, latest first. -/
structure LoopExits where
  exits : List (StmtId × String) := []
  deriving DecidableEq, Inhabited

namespace LoopExits

/-- Opens a loop. -/
def enter (loops : LoopExits) (loop : StmtId) (exit : String) : LoopExits :=
  ⟨(loop, exit) :: loops.exits.filter (·.1 != loop)⟩

/-- Closes a loop. -/
def leave (loops : LoopExits) (loop : StmtId) : LoopExits := ⟨loops.exits.filter (·.1 != loop)⟩

/-- The label that follows a loop, when it is open. -/
def exit? (loops : LoopExits) (loop : StmtId) : Option String := loops.exits.lookup loop

/-- How many loops are open. -/
def depth (loops : LoopExits) : Nat := loops.exits.length

end LoopExits

end DecafTac
