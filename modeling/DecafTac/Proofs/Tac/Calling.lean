import DecafTac.Proofs.Storage.Wrapping
import DecafTac.Proofs.Tac.Form
import DecafTac.Proofs.Tac.Machine

/-!
A machine that runs code without jumps and calls functions by label. What is pushed is kept apart from the
store, latest first. A function that is called has a frame of its own: it works on the pushed words and
on the global segment, and leaves the frame of its caller alone.
-/
namespace DecafTac

namespace Store

/-- A store with another global segment. -/
def withGlobals (m : Store) (globals : Int → Option Word) : Store
  | .frame => m .frame
  | .global => globals

theorem read_withGlobals_frame {m : Store} {globals : Int → Option Word} {loc : Location}
    (framed : loc.segment = .frame) : (m.withGlobals globals).read loc = m.read loc := by
  rw [read, framed, read, framed]
  rfl

/-- Writing elsewhere changes nothing. -/
theorem read_write_apart {m : Store} {loc other : Location} {word : Word}
    (apart : other.segment = loc.segment → other.position ≠ loc.position) :
    (m.write loc word).read other = m.read other :=
  if_neg fun same => apart same.1 same.2

end Store

namespace Machine

/-- What functions do when they are called by label, with the words that are pushed and the global
segment: the result, and the global segment after the call. -/
abbrev Linkage : Type :=
  String → List Word → (Int → Option Word) → Option (Word × (Int → Option Word))

/-- The state of a function that calls others. -/
structure Caller where
  store : Store
  /-- The words that are pushed, latest first. -/
  pushed : List Word

/-- What an instruction that does not jump does. What is printed is not kept. -/
def act (arith : Arithmetic) (slotSize : Int) (linkage : Linkage) (c : Caller) :
    Instruction → Option Caller
  | .pushParam param => (c.store.read param).map fun word => { c with pushed := word :: c.pushed }
  | .popParams bytes => some { c with pushed := c.pushed.drop (bytes / slotSize).toNat }
  | .callLabel label dst =>
    (linkage label c.pushed (c.store .global)).map fun done =>
      let after := c.store.withGlobals done.2
      { c with store := dst.elim after fun loc => after.write loc done.1 }
  | i => (effect arith c.store i).map fun done => { c with store := done.1 }

/-- What some instructions in a row do. -/
def acts (arith : Arithmetic) (slotSize : Int) (linkage : Linkage) (code : List Instruction)
    (c : Caller) : Option Caller :=
  code.foldlM (act arith slotSize linkage) c

variable {arith : Arithmetic} {slotSize : Int} {linkage : Linkage}

/-- What an instruction does to the store, it does in a function that calls others too. -/
theorem act_of_effect {c : Caller} {i : Instruction} {done : Store × List Printed}
    (plain : effect arith c.store i = some done) :
    act arith slotSize linkage c i = some { c with store := done.1 } := by
  unfold act
  split
  · cases plain
  · cases plain
  · cases plain
  · rw [plain]
    rfl

theorem acts_append (first second : List Instruction) (c : Caller) :
    acts arith slotSize linkage (first ++ second) c =
      (acts arith slotSize linkage first c).bind (acts arith slotSize linkage second) :=
  List.foldlM_append

theorem acts_cons (i : Instruction) (rest : List Instruction) (c : Caller) :
    acts arith slotSize linkage (i :: rest) c =
      (act arith slotSize linkage c i).bind (acts arith slotSize linkage rest) :=
  List.foldlM_cons

theorem acts_single (i : Instruction) (c : Caller) :
    acts arith slotSize linkage [i] c = act arith slotSize linkage c i := by
  rw [acts_cons]
  exact Option.bind_fun_some _

/-- Parameters are pushed so that the first is the latest. -/
theorem acts_pushes {params : List Location} {words : List Word} {m : Store}
    (held : List.Forall₂ (fun param word => m.read param = some word) params words)
    (pushed : List Word) :
    acts arith slotSize linkage (params.reverse.map .pushParam) ⟨m, pushed⟩ =
      some ⟨m, words ++ pushed⟩ := by
  induction held with
  | nil => rfl
  | @cons param word _ words there _ ih =>
    have last : act arith slotSize linkage ⟨m, words ++ pushed⟩ (.pushParam param) =
        some ⟨m, word :: (words ++ pushed)⟩ := by
      rw [act, there]
      rfl
    rw [List.reverse_cons, List.map_append, acts_append, ih, Option.bind_some]
    exact (acts_single ..).trans last

/-- A call takes off no more words than it has parameters. -/
theorem dropped_le (wide : 0 < slotSize) (count : Nat) :
    (slotBytes slotSize count / slotSize).toNat ≤ count := by
  have bytes : slotBytes slotSize count ≤ count * slotSize := by
    rw [slotBytes_eq, Int.mul_comm (count : Int)]
    exact wrap32_le (Int.mul_nonneg (by omega) (by omega))
  have slots := Int.ediv_le_of_le_mul wide bytes
  omega

/-- A call sequence hands the words at its parameters to the function and keeps the result. Of what it
pushed, some may be left. -/
theorem acts_passing (wide : 0 < slotSize) {params : List Location} {words : List Word} {m : Store}
    (held : List.Forall₂ (fun param word => m.read param = some word) params words)
    {pushed : List Word} {label : String} {result : Word} {globals : Int → Option Word}
    (called : linkage label (words ++ pushed) (m .global) = some (result, globals)) (dst : Location) :
    ∃ left, acts arith slotSize linkage (passing slotSize params (.callLabel label (some dst)))
      ⟨m, pushed⟩ = some ⟨(m.withGlobals globals).write dst result, left ++ pushed⟩ := by
  have call : act arith slotSize linkage ⟨m, words ++ pushed⟩ (.callLabel label (some dst)) =
      some ⟨(m.withGlobals globals).write dst result, words ++ pushed⟩ := by
    rw [act, called]
    rfl
  rw [passing, acts_append, acts_pushes held, Option.bind_some, acts_cons, call, Option.bind_some]
  by_cases some : 0 < slotBytes slotSize params.length
  · refine ⟨words.drop (slotBytes slotSize params.length / slotSize).toNat, ?_⟩
    have taken := dropped_le wide params.length
    rw [held.length_eq] at taken
    rw [if_pos some, acts_single, act, held.length_eq, List.drop_append_of_le_length taken]
  · exact ⟨words, by rw [if_neg some]; rfl⟩

end Machine

end DecafTac
