import Mathlib.Logic.Relation
import DecafTac.Proofs.Tac.Accounting

/-!
A machine that runs the code of one function. Its store has a word for each segment and offset, or
none where nothing was stored; it goes from one instruction to the next, jumps to labels of the same
code, and keeps what it prints. An instruction that has no meaning here (calls, memory) stops it short.

What numbers a word can hold is left open: an exact result becomes a word, the same or another, or the
machine stops short. Only the numbers from zero to two must be words.
-/
namespace DecafTac

/-- The arithmetic of a machine. -/
structure Arithmetic where
  /-- The word for an exact result, if there is one. -/
  fit : Int → Option Int
  small : ∀ n, 0 ≤ n → n ≤ 2 → fit n = some n

namespace Arithmetic

/-- Words that hold every number. -/
def exact : Arithmetic := ⟨some, fun _ _ _ => rfl⟩

/-- Words of 32 bits, where a result that does not fit stops the machine. -/
def checked : Arithmetic where
  fit n := if -0x80000000 ≤ n ∧ n < 0x80000000 then some n else none
  small n low high := if_pos (by omega)

variable (arith : Arithmetic)

/-- Division rounds toward zero, and there is none by zero. -/
def quotient (a b : Int) : Option Int := if b = 0 then none else arith.fit (a.tdiv b)

/-- The remainder that belongs to the quotient. -/
def remainder (a b : Int) : Option Int := (arith.quotient a b).bind fun _ => arith.fit (a.tmod b)

end Arithmetic

/-- Truth values as numbers. -/
def truth (b : Bool) : Int := if b then 1 else 0

/-- The result of an operator of the machine. -/
def TacOp.eval (arith : Arithmetic) : TacOp → Int → Int → Option Int
  | .add, a, b => arith.fit (a + b)
  | .sub, a, b => arith.fit (a - b)
  | .mul, a, b => arith.fit (a * b)
  | .div, a, b => arith.quotient a b
  | .mod, a, b => arith.remainder a b
  | .less, a, b => some (truth (a < b))
  | .equal, a, b => some (truth (a = b))
  | .and, a, b => some (truth (a ≠ 0 ∧ b ≠ 0))
  | .or, a, b => some (truth (a ≠ 0 ∨ b ≠ 0))

/-- What a slot holds. -/
inductive Word where
  | int (value : Int)
  | text (value : String)
  deriving DecidableEq

/-- The contents of all slots, by segment and position. -/
def Store : Type := Segment → Int → Option Word

namespace Store

def read (m : Store) (loc : Location) : Option Word := m loc.segment loc.position

def write (m : Store) (loc : Location) (word : Word) : Store := fun segment position =>
  if segment = loc.segment ∧ position = loc.position then some word else m segment position

/-- The number in a slot. -/
def int? (m : Store) (loc : Location) : Option Int :=
  match m.read loc with
  | some (.int n) => some n
  | _ => none

end Store

/-- Something that was printed. -/
inductive Printed where
  | int (value : Int)
  | bool (value : Bool)
  | text (value : String)
  deriving DecidableEq

namespace Machine

/-- What an instruction that does not jump does to the store, and what it prints. -/
def effect (arith : Arithmetic) (m : Store) : Instruction → Option (Store × List Printed)
  | .loadConstant dst (.int n) => some (m.write dst (.int n), [])
  | .loadConstant dst (.string s) => some (m.write dst (.text s), [])
  | .assign dst src => (m.read src).map fun word => (m.write dst word, [])
  | .binary op dst left right =>
    (m.int? left).bind fun a => (m.int? right).bind fun b =>
      (op.eval arith a b).map fun n => (m.write dst (.int n), [])
  | .label _ | .beginFunc => some (m, [])
  | .callRoutine .printInt [arg] none => (m.int? arg).map fun n => (m, [.int n])
  | .callRoutine .printBool [arg] none => (m.int? arg).map fun n => (m, [.bool (n ≠ 0)])
  | .callRoutine .printString [arg] none =>
    match m.read arg with
    | some (.text s) => some (m, [.text s])
    | _ => none
  | _ => none

/-- The effects of some instructions in a row. -/
def effects (arith : Arithmetic) : List Instruction → Store → Option (Store × List Printed)
  | [], m => some (m, [])
  | i :: rest, m =>
    (effect arith m i).bind fun first =>
      (effects arith rest first.1).map fun second => (second.1, first.2 ++ second.2)

/-- A machine at work. -/
structure Config where
  pc : Nat
  store : Store
  printed : List Printed

/-- What a function leaves behind. -/
structure Finished where
  value : Option Word
  store : Store
  printed : List Printed

/-- Where a label stands. -/
def position? (code : List Instruction) (label : String) : Option Nat :=
  code.findIdx? (· = .label label)

/-- One step, which may be the last. -/
def step (arith : Arithmetic) (code : List Instruction) (c : Config) : Option (Config ⊕ Finished) :=
  match code[c.pc]? with
  | none => none
  | some (.jump label) => (position? code label).map fun pc => .inl { c with pc }
  | some (.jumpIfZero test label) =>
    (c.store.int? test).bind fun n =>
      if n = 0 then (position? code label).map fun pc => .inl { c with pc }
      else some (.inl { c with pc := c.pc + 1 })
  | some (.ret (some loc)) =>
    (c.store.read loc).map fun word => .inr ⟨some word, c.store, c.printed⟩
  | some (.ret none) | some (.endFunc _) => some (.inr ⟨none, c.store, c.printed⟩)
  | some i =>
    (effect arith c.store i).map fun done => .inl ⟨c.pc + 1, done.1, c.printed ++ done.2⟩

/-- The machine gets from one state to another. -/
def Reaches (arith : Arithmetic) (code : List Instruction) : Config → Config → Prop :=
  Relation.ReflTransGen fun c next => step arith code c = some (.inl next)

/-- The machine gets from one state to its end. -/
def Finishes (arith : Arithmetic) (code : List Instruction) (c : Config) (result : Finished) : Prop :=
  ∃ last, Reaches arith code c last ∧ step arith code last = some (.inr result)

/-! ## Code in its place -/

/-- Some code stands in larger code from `pc` on. -/
def CodeAt (code : List Instruction) (pc : Nat) (part : List Instruction) : Prop :=
  ∃ before rest, code = before ++ (part ++ rest) ∧ before.length = pc

namespace CodeAt

variable {code first second : List Instruction} {pc : Nat} {i : Instruction}

theorem left (at_ : CodeAt code pc (first ++ second)) : CodeAt code pc first := by
  obtain ⟨before, rest, split, length⟩ := at_
  exact ⟨before, second ++ rest, by rw [split, List.append_assoc], length⟩

theorem right (at_ : CodeAt code pc (first ++ second)) : CodeAt code (pc + first.length) second := by
  obtain ⟨before, rest, split, length⟩ := at_
  refine ⟨before ++ first, rest, by simp [split], ?_⟩
  rw [List.length_append, length]

theorem tail (at_ : CodeAt code pc (i :: second)) : CodeAt code (pc + 1) second :=
  @right code [i] second pc at_

theorem fetch (at_ : CodeAt code pc (i :: second)) : code[pc]? = some i := by
  obtain ⟨before, rest, rfl, rfl⟩ := at_
  simp

/-- A label is found where it stands. -/
theorem position {label : String} (at_ : CodeAt code pc (.label label :: second))
    (distinct : (labels code).Nodup) : position? code label = some pc := by
  obtain ⟨before, rest, rfl, rfl⟩ := at_
  have missing : ∀ i ∈ before, i ≠ .label label := by
    rintro i member rfl
    have early : label ∈ labels before := List.mem_filterMap.mpr ⟨_, member, rfl⟩
    have late : label ∈ labels (.label label :: second ++ rest) :=
      List.mem_filterMap.mpr ⟨_, List.mem_cons_self, rfl⟩
    rw [labels_append] at distinct
    exact (List.nodup_append.mp distinct).2.2 label early label late rfl
  unfold position?
  rw [List.findIdx?_append, List.findIdx?_eq_none_iff.mpr fun i member => by simpa using missing i member]
  simp [List.findIdx?_cons]

end CodeAt

/-! ## Running code -/

section Running

variable {arith : Arithmetic} {code part : List Instruction} {pc target : Nat} {m m' : Store}
  {printed out : List Printed} {i : Instruction} {label : String} {test : Location} {n : Int}

theorem Reaches.one {c next : Config} (moves : step arith code c = some (.inl next)) :
    Reaches arith code c next :=
  Relation.ReflTransGen.single moves

theorem Reaches.refl (c : Config) : Reaches arith code c c := Relation.ReflTransGen.refl

theorem Reaches.trans {a b c : Config} (first : Reaches arith code a b)
    (second : Reaches arith code b c) : Reaches arith code a c :=
  Relation.ReflTransGen.trans first second

theorem Reaches.finishes {c next : Config} {result : Finished} (first : Reaches arith code c next)
    (last : Finishes arith code next result) : Finishes arith code c result := by
  obtain ⟨final, rest, ends⟩ := last
  exact ⟨final, first.trans rest, ends⟩

/-- An instruction that has an effect is no jump and no end, so the machine goes on behind it. -/
theorem step_effect (fetched : code[pc]? = some i) (acts : effect arith m i = some (m', out)) :
    step arith code ⟨pc, m, printed⟩ = some (.inl ⟨pc + 1, m', printed ++ out⟩) := by
  unfold step
  rw [fetched]
  cases i with
  | jump | jumpIfZero | endFunc => cases acts
  | ret value => cases value <;> cases acts
  | loadConstant | loadLabel | assign | load | store | binary | label | beginFunc | pushParam
  | popParams | callLabel | callAddress | callRoutine | methodTable => simp [acts]

theorem reaches_effect (fetched : code[pc]? = some i) (acts : effect arith m i = some (m', out)) :
    Reaches arith code ⟨pc, m, printed⟩ ⟨pc + 1, m', printed ++ out⟩ :=
  .one (step_effect fetched acts)

theorem reaches_effects (at_ : CodeAt code pc part) (act : effects arith part m = some (m', out)) :
    Reaches arith code ⟨pc, m, printed⟩ ⟨pc + part.length, m', printed ++ out⟩ := by
  induction part generalizing pc m printed out with
  | nil =>
    cases act
    simpa using Reaches.refl _
  | cons i rest ih =>
    obtain ⟨⟨middle, out₁⟩, first, act⟩ := Option.bind_eq_some_iff.mp act
    obtain ⟨⟨final, out₂⟩, second, same⟩ := Option.map_eq_some_iff.mp act
    cases same
    have later := @ih (pc + 1) middle (printed ++ out₁) out₂ at_.tail second
    rw [List.append_assoc, Nat.add_right_comm] at later
    exact (reaches_effect at_.fetch first).trans later

theorem reaches_jump (fetched : code[pc]? = some (.jump label))
    (there : position? code label = some target) :
    Reaches arith code ⟨pc, m, printed⟩ ⟨target, m, printed⟩ := by
  refine .one ?_
  simp [step, fetched, there]

theorem reaches_jumpIfZero (fetched : code[pc]? = some (.jumpIfZero test label))
    (there : position? code label = some target) (zero : m.int? test = some 0) :
    Reaches arith code ⟨pc, m, printed⟩ ⟨target, m, printed⟩ := by
  refine .one ?_
  simp [step, fetched, there, zero]

theorem reaches_past (fetched : code[pc]? = some (.jumpIfZero test label))
    (known : m.int? test = some n) (other : n ≠ 0) :
    Reaches arith code ⟨pc, m, printed⟩ ⟨pc + 1, m, printed⟩ := by
  refine .one ?_
  simp [step, fetched, known, other]

end Running

end Machine

end DecafTac
