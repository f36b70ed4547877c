import Mathlib.Data.List.Pairwise
import DecafTac.Proofs.Tac.Machine

/-!
A machine with memory. Beside the slots of a function it has extents of memory, each handed out on one
request and apart from all those before. A load and a store reach one word, which has to lie in an extent.
What a new extent holds at first, and what a store makes of words that it covers in part, is left open.

The machine keeps account of what it does, in order: what it prints, which extents it takes, and what it
stores where. A piece of the code of a function runs until control comes to its end or the machine halts;
an instruction that has no meaning here (calls of functions, returns) stops it short. Numbers are exact.
-/
namespace DecafTac

/-! ## Memory -/

/-- The bytes from an address on. -/
structure Extent where
  base : Int
  size : Int
  deriving DecidableEq

namespace Extent

/-- The word of a width at an address lies in the extent. -/
def Covers (extent : Extent) (width addr : Int) : Prop :=
  extent.base ≤ addr ∧ addr + width ≤ extent.base + extent.size

instance (extent : Extent) (width addr : Int) : Decidable (extent.Covers width addr) :=
  inferInstanceAs (Decidable (_ ∧ _))

/-- No byte lies in both extents. -/
def Apart (a b : Extent) : Prop := a.base + a.size ≤ b.base ∨ b.base + b.size ≤ a.base

instance : Std.Symm Apart := ⟨fun _ _ => Or.symm⟩

/-- Words of extents that are apart do not overlap. -/
theorem Apart.words {a b : Extent} (apart : a.Apart b) {width x y : Int} (left : a.Covers width x)
    (right : b.Covers width y) : x + width ≤ y ∨ y + width ≤ x := by
  unfold Covers at left right
  rcases apart with before | after
  · exact .inl (by omega)
  · exact .inr (by omega)

end Extent

structure Memory where
  /-- The extents that were handed out, latest first. -/
  extents : List Extent
  /-- The word at each address. -/
  words : Int → Word

namespace Memory

/-- The word at an address lies in some extent. -/
def Has (memory : Memory) (width addr : Int) : Prop :=
  ∃ extent ∈ memory.extents, extent.Covers width addr

instance (memory : Memory) (width addr : Int) : Decidable (memory.Has width addr) :=
  inferInstanceAs (Decidable (∃ extent ∈ memory.extents, extent.Covers width addr))

/-- No two extents share a byte. -/
def Separate (memory : Memory) : Prop := memory.extents.Pairwise Extent.Apart

theorem Separate.apart {memory : Memory} (separate : memory.Separate) {a b : Extent}
    (first : a ∈ memory.extents) (second : b ∈ memory.extents) (different : a ≠ b) : a.Apart b :=
  List.Pairwise.forall separate first second different

end Memory

/-- Something the machine does that can be told from outside. -/
inductive Deed where
  | printed (what : Printed)
  | took (extent : Extent)
  | stored (addr : Int) (word : Word)
  deriving DecidableEq

/-- All that code works on. -/
structure World where
  store : Store
  memory : Memory
  /-- What was done so far. -/
  deeds : List Deed

/-- What is left open about memory. -/
structure Platform where
  /-- The bytes of a word. -/
  width : Int
  /-- Where an extent of so many bytes is placed. -/
  place : Memory → Int → Int
  fresh : ∀ (memory : Memory) (size : Int), ∀ extent ∈ memory.extents,
    extent.Apart ⟨place memory size, size⟩
  /-- What a new extent of so many bytes holds at first. -/
  filled : Memory → Int → Int → Word
  /-- What becomes of words that a store at an address covers in part. -/
  spilt : Memory → Int → Word → Int → Word

namespace Platform

variable (p : Platform)

/-- Hands out an extent of so many bytes. Words outside it stay. -/
def take (memory : Memory) (size : Int) : Memory where
  extents := ⟨p.place memory size, size⟩ :: memory.extents
  words addr :=
    if addr + p.width ≤ p.place memory size ∨ p.place memory size + size ≤ addr then memory.words addr
    else p.filled memory size addr

/-- Stores a word at an address. Words that it does not overlap stay. -/
def put (memory : Memory) (addr : Int) (word : Word) : Memory where
  extents := memory.extents
  words other :=
    if other = addr then word
    else if other + p.width ≤ addr ∨ addr + p.width ≤ other then memory.words other
    else p.spilt memory addr word other

section Memory

variable {p} {memory : Memory} {size addr other : Int} {word : Word} {extent : Extent}

@[simp] theorem words_put_self : (p.put memory addr word).words addr = word := if_pos rfl

theorem words_put_apart (wide : 0 < p.width) (apart : other + p.width ≤ addr ∨ addr + p.width ≤ other) :
    (p.put memory addr word).words other = memory.words other := by
  have different : other ≠ addr := by omega
  simp only [put, if_neg different, if_pos apart]

/-- A store in one extent leaves the words of the others. -/
theorem words_put_extent (wide : 0 < p.width) {target : Extent} (apart : extent.Apart target)
    (inside : target.Covers p.width addr) (covered : extent.Covers p.width other) :
    (p.put memory addr word).words other = memory.words other :=
  words_put_apart wide (apart.words covered inside)

/-- Taking an extent leaves the words of those that were there. -/
theorem words_take_extent (there : extent ∈ memory.extents) (covered : extent.Covers p.width other) :
    (p.take memory size).words other = memory.words other := by
  refine if_pos ?_
  unfold Extent.Covers at covered
  rcases p.fresh memory size extent there with before | after
  · exact .inl (by simp only at before; omega)
  · exact .inr (by simp only at after; omega)

theorem separate_take (separate : memory.Separate) : (p.take memory size).Separate :=
  List.pairwise_cons.mpr ⟨fun extent there => Std.Symm.symm _ _ (p.fresh memory size extent there), separate⟩

end Memory

/-- The end of the last of some extents, or zero. -/
def top (extents : List Extent) : Int :=
  extents.foldr (fun extent top => max (extent.base + extent.size) top) 0

theorem end_le_top {extents : List Extent} {extent : Extent} (there : extent ∈ extents) :
    extent.base + extent.size ≤ top extents := by
  induction extents with
  | nil => cases there
  | cons first rest ih =>
    rw [top, List.foldr_cons]
    rcases List.mem_cons.mp there with rfl | there
    · exact Int.le_max_left ..
    · exact Int.le_trans (ih there) (Int.le_max_right ..)

/-- A platform that places each extent behind all others and fills it with zeros. -/
def stacking (width : Int) : Platform where
  width
  place memory _ := top memory.extents
  fresh _ _ _ there := .inl (end_le_top there)
  filled _ _ _ := .int 0
  spilt _ _ word _ := word

/-! ## The machine -/

/-- One step, to a place in the code or to a halt. A double is the word of its bits. -/
def step (code : List Instruction) (pc : Nat) (w : World) : Option ((Nat × World) ⊕ World) :=
  match code[pc]? with
  | some (.load dst addr offset) =>
    (w.store.int? addr).bind fun base =>
      if w.memory.Has p.width (base + offset) then
        some (.inl (pc + 1, { w with store := w.store.write dst (w.memory.words (base + offset)) }))
      else none
  | some (.store addr src offset) =>
    (w.store.int? addr).bind fun base => (w.store.read src).bind fun word =>
      if w.memory.Has p.width (base + offset) then
        some (.inl (pc + 1, { w with
          memory := p.put w.memory (base + offset) word
          deeds := w.deeds ++ [.stored (base + offset) word] }))
      else none
  | some (.callRoutine .alloc [bytes] (some dst)) =>
    (w.store.int? bytes).map fun size =>
      let base := p.place w.memory size
      .inl (pc + 1, ⟨w.store.write dst (.int base), p.take w.memory size,
        w.deeds ++ [.took ⟨base, size⟩]⟩)
  | some (.callRoutine .halt [] none) => some (.inr w)
  | some (.loadConstant dst (.double bits)) =>
    some (.inl (pc + 1, { w with store := w.store.write dst (.int bits.toNat) }))
  | _ =>
    (Machine.step .exact code ⟨pc, w.store, []⟩).bind <| Sum.elim
      (fun c => some (.inl (c.pc, { w with
        store := c.store, deeds := w.deeds ++ c.printed.map .printed })))
      fun _ => none

/-- How a piece of code ends. -/
inductive Outcome where
  /-- Control comes to its end. -/
  | through (w : World)
  | halted (w : World)

/-- A step that starts from `lo` or behind it and before `hi`. -/
def Moves (code : List Instruction) (lo hi : Nat) (c next : Nat × World) : Prop :=
  lo ≤ c.1 ∧ c.1 < hi ∧ p.step code c.1 c.2 = some (.inl next)

/-- The piece of code from `lo` up to `hi` has come to an outcome. -/
def Ends (code : List Instruction) (lo hi : Nat) (last : Nat × World) : Outcome → Prop
  | .through w => last = (hi, w)
  | .halted w => lo ≤ last.1 ∧ last.1 < hi ∧ p.step code last.1 last.2 = some (.inr w)

/-- What the piece of code from `lo` up to `hi` does when control comes to its start. -/
def Runs (code : List Instruction) (lo hi : Nat) (w : World) (out : Outcome) : Prop :=
  ∃ last, Relation.ReflTransGen (p.Moves code lo hi) (lo, w) last ∧ p.Ends code lo hi last out

/-- The piece of code says something and halts, and has done nothing else. -/
def Refuses (code : List Instruction) (lo hi : Nat) (w : World) (message : String) : Prop :=
  ∃ w', p.Runs code lo hi w (.halted w') ∧ w'.memory = w.memory ∧
    w'.deeds = w.deeds ++ [.printed (.text message)]

/-- Wherever it stands in a function, a piece of code takes a world to an outcome. -/
def Does (part : List Instruction) (w : World) (out : Outcome) : Prop :=
  ∀ code pc, Machine.CodeAt code pc part → (labels code).Nodup →
    p.Runs code pc (pc + part.length) w out

section Running

variable {p} {code first second : List Instruction} {lo mid hi pc : Nat} {w w' : World} {out other : Outcome}

theorem Moves.widen {lo' hi' : Nat} (low : lo' ≤ lo) (high : hi ≤ hi') {c last : Nat × World}
    (go : Relation.ReflTransGen (p.Moves code lo hi) c last) :
    Relation.ReflTransGen (p.Moves code lo' hi') c last := by
  refine Relation.ReflTransGen.mono (fun c next moves => ?_) _ _ go
  exact ⟨Nat.le_trans low moves.1, Nat.lt_of_lt_of_le moves.2.1 high, moves.2.2⟩

theorem Ends.stuck {last next : Nat × World} (ends : p.Ends code lo hi last out) :
    ¬ p.Moves code lo hi last next := by
  intro moves
  cases out with
  | through =>
    cases ends
    exact Nat.lt_irrefl _ moves.2.1
  | halted => cases ends.2.2.symm.trans moves.2.2

theorem Ends.unique {last : Nat × World} (one : p.Ends code lo hi last out)
    (two : p.Ends code lo hi last other) : out = other := by
  cases out with
  | through =>
    cases one
    cases other with
    | through =>
      cases two
      rfl
    | halted => exact absurd two.2.1 (Nat.lt_irrefl _)
  | halted =>
    cases other with
    | through =>
      cases two
      exact absurd one.2.1 (Nat.lt_irrefl _)
    | halted =>
      cases one.2.2.symm.trans two.2.2
      rfl

/-- The machine has no choice. -/
theorem Runs.unique (one : p.Runs code lo hi w out) (two : p.Runs code lo hi w other) : out = other := by
  obtain ⟨last, one, ends⟩ := one
  obtain ⟨last', two, ends'⟩ := two
  have chosen : Relator.RightUnique (p.Moves code lo hi) := by
    intro c next again left right
    cases left.2.2.symm.trans right.2.2
    rfl
  have same : last = last' := by
    rcases one.total_of_right_unique chosen two with go | go
    · rcases go.cases_head with same | ⟨_, moves, -⟩
      · exact same
      · exact absurd moves ends.stuck
    · rcases go.cases_head with same | ⟨_, moves, -⟩
      · exact same.symm
      · exact absurd moves ends'.stuck
  subst same
  exact ends.unique ends'

/-- A piece of code, and the next piece. -/
theorem Runs.append (low : lo ≤ mid) (high : mid ≤ hi) (one : p.Runs code lo mid w (.through w'))
    (two : p.Runs code mid hi w' out) : p.Runs code lo hi w out := by
  obtain ⟨_, one, rfl⟩ := one
  obtain ⟨last, two, ends⟩ := two
  refine ⟨last, (Moves.widen (Nat.le_refl _) high one).trans (Moves.widen low (Nat.le_refl _) two), ?_⟩
  cases out with
  | through => exact ends
  | halted => exact ⟨Nat.le_trans low ends.1, ends.2⟩

theorem Runs.halted_append (high : mid ≤ hi) (one : p.Runs code lo mid w (.halted w')) :
    p.Runs code lo hi w (.halted w') := by
  obtain ⟨last, go, above, below, halts⟩ := one
  exact ⟨last, Moves.widen (Nat.le_refl _) high go, above, Nat.lt_of_lt_of_le below high, halts⟩

theorem Does.nothing (w : World) : p.Does [] w (.through w) := fun _ _ _ _ => ⟨_, .refl, rfl⟩

theorem Does.append (one : p.Does first w (.through w')) (two : p.Does second w' out) :
    p.Does (first ++ second) w out := by
  intro code pc at_ distinct
  rw [List.length_append, ← Nat.add_assoc]
  exact (one code pc at_.left distinct).append (Nat.le_add_right ..) (Nat.le_add_right ..)
    (two code _ at_.right distinct)

theorem Does.halted_append (one : p.Does first w (.halted w')) :
    p.Does (first ++ second) w (.halted w') := by
  intro code pc at_ distinct
  refine (one code pc at_.left distinct).halted_append ?_
  rw [List.length_append]
  omega

/-- Code that comes through when all is well and refuses when not refuses only then. -/
theorem Does.refuses_iff {part : List Instruction} {bad : Prop} {message : String}
    (cases : (¬ bad ∧ ∃ w', p.Does part w (.through w')) ∨
      (bad ∧ ∃ w', p.Does part w (.halted w') ∧ w'.memory = w.memory ∧
        w'.deeds = w.deeds ++ [.printed (.text message)]))
    (at_ : Machine.CodeAt code pc part) (distinct : (labels code).Nodup) :
    p.Refuses code pc (pc + part.length) w message ↔ bad := by
  rcases cases with ⟨fine, w', does⟩ | ⟨bad, w', does, told⟩
  · refine iff_of_false (fun ⟨_, halts, _⟩ => ?_) fine
    cases halts.unique (does code pc at_ distinct)
  · exact iff_of_true ⟨w', does code pc at_ distinct, told⟩ bad

/-! ## Instructions -/

variable {i : Instruction}

/-- One instruction that the machine goes on behind. -/
theorem Does.one (acts : ∀ code pc, code[pc]? = some i → p.step code pc w = some (.inl (pc + 1, w'))) :
    p.Does [i] w (.through w') := by
  intro code pc at_ _
  exact ⟨_, .single ⟨Nat.le_refl _, Nat.lt_succ_self _, acts code pc at_.fetch⟩, rfl⟩

/-- An instruction that has an effect on the store alone has it here too. -/
theorem step_effect {m : Store} {out : List Printed} (acts : Machine.effect .exact w.store i = some (m, out))
    (fetched : code[pc]? = some i) :
    p.step code pc w = some (.inl (pc + 1,
      { w with store := m, deeds := w.deeds ++ out.map .printed })) := by
  have moves : Machine.step .exact code ⟨pc, w.store, []⟩ = some (.inl ⟨pc + 1, m, out⟩) := by
    simpa using @Machine.step_effect .exact code pc w.store m [] out i fetched acts
  unfold step
  rw [fetched]
  split
  case h_6 => simp [moves]
  -- what this machine does in its own way has no effect on the store alone
  all_goals
    rename_i same
    cases same
    cases acts

theorem Does.effect {m : Store} {out : List Printed}
    (acts : Machine.effect .exact w.store i = some (m, out)) :
    p.Does [i] w (.through { w with store := m, deeds := w.deeds ++ out.map .printed }) :=
  .one fun _ _ => step_effect acts

variable {dst addr src test bytes : Location} {offset base size n : Int} {word : Word}
  {label message : String}

theorem Does.load (known : w.store.int? addr = some base) (has : w.memory.Has p.width (base + offset)) :
    p.Does [.load dst addr offset] w
      (.through { w with store := w.store.write dst (w.memory.words (base + offset)) }) :=
  .one fun _ _ fetched => by simp [step, fetched, known, has]

theorem Does.store (known : w.store.int? addr = some base) (there : w.store.read src = some word)
    (has : w.memory.Has p.width (base + offset)) :
    p.Does [.store addr src offset] w (.through { w with
      memory := p.put w.memory (base + offset) word
      deeds := w.deeds ++ [.stored (base + offset) word] }) :=
  .one fun _ _ fetched => by simp [step, fetched, known, there, has]

theorem Does.take (known : w.store.int? bytes = some size) :
    p.Does [.callRoutine .alloc [bytes] (some dst)] w (.through
      ⟨w.store.write dst (.int (p.place w.memory size)), p.take w.memory size,
        w.deeds ++ [.took ⟨p.place w.memory size, size⟩]⟩) :=
  .one fun _ _ fetched => by simp [step, fetched, known]

/-- Code that says something and halts unless a test is zero. -/
def guarded (test dst : Location) (message label : String) : List Instruction :=
  [.jumpIfZero test label, .loadConstant dst (.string message), .callRoutine .printString [dst] none,
    .callRoutine .halt [] none, .label label]

/-- With a zero the message is jumped over. -/
theorem Does.guard_zero (zero : w.store.int? test = some 0) :
    p.Does (guarded test dst message label) w (.through w) := by
  intro code pc at_ distinct
  have last : Machine.CodeAt code (pc + 4) [.label label] := at_.tail.tail.tail.tail
  have jumps : p.step code pc w = some (.inl (pc + 4, w)) := by
    have fetched : code[pc]? = some (.jumpIfZero test label) := at_.fetch
    simp [step, Machine.step, fetched, zero, last.position distinct]
  have passes : p.step code (pc + 4) w = some (.inl (pc + 5, w)) := by
    have acts : Machine.effect .exact w.store (.label label) = some (w.store, []) := rfl
    simpa using @step_effect p code _ w _ _ _ acts last.fetch
  exact ⟨_, .tail (.single ⟨Nat.le_refl _, Nat.lt_add_of_pos_right (Nat.succ_pos _), jumps⟩)
    ⟨Nat.le_add_right .., Nat.lt_succ_self _, passes⟩, rfl⟩

/-- With anything else the message is all that is done. -/
theorem Does.guard_halts (known : w.store.int? test = some n) (other : n ≠ 0) :
    p.Does (guarded test dst message label) w (.halted ⟨w.store.write dst (.text message), w.memory,
      w.deeds ++ [.printed (.text message)]⟩) := by
  have past : p.Does [.jumpIfZero test label] w (.through w) :=
    .one fun _ _ fetched => by simp [step, Machine.step, fetched, known, other]
  have loads : Machine.effect .exact w.store (.loadConstant dst (.string message)) =
      some (w.store.write dst (.text message), []) := rfl
  have tells : Machine.effect .exact (w.store.write dst (.text message))
      (.callRoutine .printString [dst] none) =
      some (w.store.write dst (.text message), [.text message]) := by
    simp [Machine.effect, Store.read, Store.write]
  have halts (w : World) : p.Does ([.callRoutine .halt [] none] ++ [.label label]) w (.halted w) := by
    refine Does.halted_append fun code pc at_ _ => ?_
    exact ⟨_, .refl, Nat.le_refl _, Nat.lt_succ_self _, by simp [step, at_.fetch]⟩
  simpa [guarded] using past.append ((Does.effect loads).append ((Does.effect tells).append (halts _)))

end Running

end Platform

end DecafTac
