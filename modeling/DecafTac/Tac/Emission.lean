import DecafTac.Tac.Instruction

/-!
Steps of code production. A step takes a state and gives a value, the next state and the instructions
it issues; the instructions of two steps in a row follow one another. The code of a step is thus its
own and does not depend on what was issued before.
-/
namespace DecafTac

/-- What a step of code production gives. -/
structure Emitted (σ α : Type) where
  value : α
  state : σ
  code : List Instruction

/-- A step of code production. -/
def Emission (σ α : Type) : Type := σ → Emitted σ α

namespace Emission

variable {σ α β : Type}

protected def pure (a : α) : Emission σ α := fun s => ⟨a, s, []⟩

protected def bind (x : Emission σ α) (f : α → Emission σ β) : Emission σ β := fun s =>
  let first := x s
  let second := f first.value first.state
  ⟨second.value, second.state, first.code ++ second.code⟩

instance : Monad (Emission σ) where
  pure := Emission.pure
  bind := Emission.bind

@[simp] theorem pure_apply (a : α) (s : σ) : (Pure.pure a : Emission σ α) s = ⟨a, s, []⟩ := rfl

@[simp] theorem bind_apply (x : Emission σ α) (f : α → Emission σ β) (s : σ) :
    (x >>= f) s =
      ⟨(f (x s).value (x s).state).value, (f (x s).value (x s).state).state,
        (x s).code ++ (f (x s).value (x s).state).code⟩ := rfl

/-- Reads the state. -/
def get : Emission σ σ := fun s => ⟨s, s, []⟩

/-- Changes the state and issues nothing. -/
def modify (f : σ → σ) : Emission σ Unit := fun s => ⟨(), f s, []⟩

end Emission

end DecafTac
