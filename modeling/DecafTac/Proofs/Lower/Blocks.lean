import Mathlib.Logic.Function.Basic
import DecafTac.Proofs.Lower.Scoping

/-!
Bindings against the plain stack of blocks that they stand for. A plain stack keeps one map from names
to values for each open block, and looks a name up in the innermost map that binds it. Whatever is done
to bindings, from the empty ones on, they have the depth of the plain stack, and every name means the
same in both.
-/
namespace DecafTac

/-- What a block binds. -/
abbrev Block := String → Option Value

/-- A plain stack of blocks. The outermost one, which has the formals, is never missing. -/
structure Blocks where
  inner : Block := fun _ => none
  /-- The blocks around the innermost one, from the inside out. -/
  outer : List Block := []

namespace Blocks

/-- The blocks, innermost first. -/
def all (blocks : Blocks) : List Block := blocks.inner :: blocks.outer

/-- How many blocks are open inside the outermost one. -/
def depth (blocks : Blocks) : Nat := blocks.outer.length

def enter (blocks : Blocks) : Blocks where
  outer := blocks.all

/-- Drops the innermost block. The outermost one is emptied instead. -/
def leave (blocks : Blocks) : Blocks :=
  match blocks.outer with
  | [] => {}
  | next :: rest => ⟨next, rest⟩

def declare (blocks : Blocks) (name : String) (value : Value) : Blocks :=
  { blocks with inner := Function.update blocks.inner name (some value) }

/-- The value of a name in the innermost block that binds it. -/
def lookup (blocks : Blocks) (name : String) : Option Value :=
  blocks.all.findSome? fun block => block name

/-- Changes the tag of a name in the first of some blocks that binds it. -/
def retagFirst (name : String) (tag : Tag) : List Block → List Block
  | [] => []
  | block :: rest =>
    match block name with
    | some value => Function.update block name (some { value with tag }) :: rest
    | none => block :: retagFirst name tag rest

/-- Changes the tag of a name in the innermost block that binds it. -/
def retag (blocks : Blocks) (name : String) (tag : Tag) : Blocks :=
  match blocks.inner name with
  | some value =>
    { blocks with inner := Function.update blocks.inner name (some { value with tag }) }
  | none => { blocks with outer := retagFirst name tag blocks.outer }

theorem all_retag (blocks : Blocks) (name : String) (tag : Tag) :
    (blocks.retag name tag).all = retagFirst name tag blocks.all := by
  rw [retag, all, all, retagFirst]
  cases blocks.inner name <;> rfl

end Blocks

/-- What can be done to bindings. -/
inductive ScopeStep where
  | enter
  | leave
  | declare (name : String) (value : Value)
  | retag (name : String) (tag : Tag)
  | clear

/-- Bindings after a step. -/
def Bindings.step (b : Bindings) : ScopeStep → Bindings
  | .enter => b.enter
  | .leave => b.leave
  | .declare name value => b.declare name value
  | .retag name tag => b.retag name tag
  | .clear => {}

/-- A plain stack after a step. -/
def Blocks.step (blocks : Blocks) : ScopeStep → Blocks
  | .enter => blocks.enter
  | .leave => blocks.leave
  | .declare name value => blocks.declare name value
  | .retag name tag => blocks.retag name tag
  | .clear => {}

namespace Bindings

/-- The map that a table stands for. -/
def block (table : List (String × Value)) : Block := fun name => table.lookup name

/-- Bindings and a plain stack that one stack of tables stands for. -/
def Represents (b : Bindings) (blocks : Blocks) : Prop :=
  ∃ stack, b.Models stack ∧ blocks.all = stack.map block

theorem block_cons (table : List (String × Value)) (name : String) (value : Value) :
    block ((name, value) :: table) = Function.update (block table) name (some value) := by
  funext wanted
  rw [block, Table.lookup_cons, Function.update_apply, block]

theorem block_retagIn {table : List (String × Value)} {name : String} {value : Value} (tag : Tag)
    (bound : table.lookup name = some value) :
    block (retagIn table name tag) = Function.update (block table) name (some { value with tag }) := by
  funext wanted
  rw [block, retagIn_lookup, Function.update_apply]
  by_cases same : wanted = name
  · rw [same, bound, if_pos rfl]
    simp [retagValue]
  · simp [same, block]

theorem map_retagged (name : String) (tag : Tag) (stack : List (List (String × Value))) :
    (retagged name tag stack).map block = Blocks.retagFirst name tag (stack.map block) := by
  induction stack with
  | nil => rfl
  | cons top rest ih =>
    rw [retagged, List.map_cons, Blocks.retagFirst]
    cases bound : top.lookup name with
    | none => simp [block, bound, ih]
    | some value => simp [block, bound, block_retagIn tag bound]

/-- The first map that binds a name is that of the first table that has it. -/
theorem findSome?_block (stack : List (List (String × Value))) (name : String) :
    ((stack.map block).findSome? fun table => table name) = stack.flatten.lookup name := by
  induction stack with
  | nil => rfl
  | cons top rest ih =>
    rw [List.flatten_cons, List.lookup_append, List.map_cons, List.findSome?_cons, ih]
    simp only [block]
    cases top.lookup name <;> rfl

namespace Represents

variable {b : Bindings} {blocks : Blocks}

theorem empty : Represents {} {} := ⟨[[]], models_empty, rfl⟩

theorem depth (alike : b.Represents blocks) : b.depth = blocks.depth := by
  obtain ⟨stack, models, same⟩ := alike
  have counted := congrArg List.length same
  rw [List.length_map, models.depth] at counted
  exact (Nat.succ.inj counted).symm

theorem lookup (alike : b.Represents blocks) (name : String) : b.lookup name = blocks.lookup name := by
  obtain ⟨stack, models, same⟩ := alike
  rw [models.lookup, Blocks.lookup, same, findSome?_block]

/-- What is done to bindings is done to the plain stack. -/
theorem step (alike : b.Represents blocks) (step : ScopeStep) :
    (b.step step).Represents (blocks.step step) := by
  obtain ⟨stack, models, same⟩ := alike
  obtain ⟨top, rest, rfl⟩ : ∃ top rest, stack = top :: rest :=
    List.exists_cons_of_length_eq_add_one models.depth
  obtain ⟨inner, outer⟩ := List.cons.inj same
  cases step with
  | enter => exact ⟨_, models.enter, by rw [Blocks.step, Blocks.enter, Blocks.all, same]; rfl⟩
  | leave =>
    refine ⟨_, models.leave, ?_⟩
    rw [Blocks.step, Blocks.leave, outer]
    cases rest <;> rfl
  | declare name value =>
    refine ⟨_, models.declare name value, ?_⟩
    rw [List.map_cons, block_cons, ← inner, ← outer]
    rfl
  | retag name tag =>
    refine ⟨_, models.retag name tag, ?_⟩
    rw [map_retagged, ← same]
    exact blocks.all_retag name tag
  | clear => exact empty

/-- A run of steps from bindings and a plain stack that are alike ends with such. -/
theorem run (alike : b.Represents blocks) (steps : List ScopeStep) :
    (steps.foldl Bindings.step b).Represents (steps.foldl Blocks.step blocks) := by
  induction steps generalizing b blocks with
  | nil => exact alike
  | cons first rest ih => exact ih (alike.step first)

end Represents

/-- Bindings are a stack of blocks: after any steps from the empty ones, they have the depth of the plain
stack that took the same steps, and every name has the value it has there. -/
theorem stack_of_blocks (steps : List ScopeStep) :
    (steps.foldl step {}).depth = (steps.foldl Blocks.step {}).depth ∧
      ∀ name, (steps.foldl step {}).lookup name = (steps.foldl Blocks.step {}).lookup name := by
  have alike := Represents.empty.run steps
  exact ⟨alike.depth, alike.lookup⟩

end Bindings

end DecafTac
