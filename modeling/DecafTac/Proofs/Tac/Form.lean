import Mathlib.Data.List.Perm.Basic
import DecafTac.Proofs.Tac.Accounting

/-!
The form of generated code. A body is put together from plain instructions, calls with their parameters
around them, and a few patterns of jumps; each pattern takes the next label numbers and places each of
them once. All that is said below about labels, jumps and calls is read off from this form.
-/
namespace DecafTac

namespace Instruction

/-- Whether an instruction neither calls code, nor names code or a table, nor is a mark or a jump. -/
def isPlain : Instruction → Bool
  | .loadConstant .. | .assign .. | .load .. | .store .. | .binary .. | .ret _ | .callRoutine .. => true
  | _ => false

/-- Whether an instruction calls a function. -/
def isCall : Instruction → Bool
  | .callLabel .. | .callAddress .. => true
  | _ => false

/-- The label that an instruction may jump to. -/
def target? : Instruction → Option String
  | .jump name | .jumpIfZero _ name => some name
  | _ => none

/-- Whether an instruction is part of a call sequence. -/
def isPassing : Instruction → Bool
  | .pushParam _ | .popParams _ | .callLabel .. | .callAddress .. => true
  | _ => false

end Instruction

/-- The labels that some code may jump to, in order. -/
def targets (code : List Instruction) : List String := code.filterMap Instruction.target?

theorem targets_append (first second : List Instruction) :
    targets (first ++ second) = targets first ++ targets second :=
  List.filterMap_append

@[simp] theorem labels_nil : labels [] = [] := rfl

@[simp] theorem targets_nil : targets [] = [] := rfl

theorem labels_cons (i : Instruction) (rest : List Instruction) :
    labels (i :: rest) = i.label?.toList ++ labels rest := by
  cases found : i.label? <;> simp [labels, found]

theorem targets_cons (i : Instruction) (rest : List Instruction) :
    targets (i :: rest) = i.target?.toList ++ targets rest := by
  cases found : i.target? <;> simp [targets, found]

/-- An instruction of two pieces of code in a row stands in the first or in the second. -/
theorem split_append {first second before rest : List Instruction} {i : Instruction}
    (found : first ++ second = before ++ i :: rest) :
    (∃ after, first = before ++ i :: after ∧ rest = after ++ second) ∨
      ∃ between, before = first ++ between ∧ second = between ++ i :: rest := by
  rcases List.append_eq_append_iff.mp found with ⟨between, rfl, same⟩ | ⟨after, rfl, same⟩
  · exact .inr ⟨between, rfl, same⟩
  · cases after with
    | nil => exact .inr ⟨[], by simp, same.symm⟩
    | cons head after =>
      obtain ⟨rfl, rfl⟩ := List.cons.inj same
      exact .inl ⟨after, rfl, rfl⟩

/-- A call with its parameters: they are pushed from the last to the first, and taken off again after
the call when the target counts a positive number of bytes for them. -/
def passing (slotSize : Int) (params : List Location) (call : Instruction) : List Instruction :=
  params.reverse.map .pushParam ++ call ::
    (if 0 < slotBytes slotSize params.length then [.popParams (slotBytes slotSize params.length)]
      else [])

/-- What the instructions of a call sequence are. -/
theorem mem_passing {slotSize : Int} {params : List Location} {call i : Instruction}
    (member : i ∈ passing slotSize params call) :
    (∃ param, i = .pushParam param) ∨ i = call ∨ ∃ bytes, i = .popParams bytes := by
  rcases List.mem_append.mp member with pushed | member
  · obtain ⟨param, -, rfl⟩ := List.mem_map.mp pushed
    exact .inl ⟨param, rfl⟩
  · rcases List.mem_cons.mp member with rfl | popped
    · exact .inr (.inl rfl)
    · split at popped
      · exact .inr (.inr ⟨_, List.mem_singleton.mp popped⟩)
      · cases popped

/-- What code may refer to: the calls it may make, by the code that gives the parameters their values,
the parameters and the calling instruction, the method tables it may name, and the loops it may stand
for. -/
structure References where
  slotSize : Int
  calls : List Instruction → List Location → Instruction → Prop
  tables : String → Prop
  opens : StmtId → Prop

open Emitter (labelName) in
/-- Code that takes the labels from one number to another, within loops that end at `exits`. -/
inductive Formed (refs : References) : List String → Nat → List Instruction → Nat → Prop where
  | nil {exits : List String} {n : Nat} : Formed refs exits n [] n
  | append {exits : List String} {n m k : Nat} {first second : List Instruction}
      (one : Formed refs exits n first m) (two : Formed refs exits m second k) :
      Formed refs exits n (first ++ second) k
  | plain {exits : List String} {n : Nat} (i : Instruction) (isPlain : i.isPlain = true) :
      Formed refs exits n [i] n
  | table {exits : List String} {n : Nat} (dst : Location) {name : String} (known : refs.tables name) :
      Formed refs exits n [.loadLabel dst name] n
  /-- A call comes right after the code that its parameters have their values from. -/
  | call {exits : List String} {n m : Nat} {giving : List Instruction} {params : List Location}
      {call : Instruction} (inside : Formed refs exits n giving m) (isCall : call.isCall = true)
      (made : refs.calls giving params call) :
      Formed refs exits n (giving ++ passing refs.slotSize params call) m
  | leave {exits : List String} {n : Nat} {exit : String} (isOpen : exit ∈ exits) :
      Formed refs exits n [.jump exit] n
  /-- Code that is skipped when the test is zero. -/
  | skip {exits : List String} {n m : Nat} {code : List Instruction} (test : Location)
      (inside : Formed refs exits (n + 1) code m) :
      Formed refs exits n
        (.jumpIfZero test (labelName n) :: (code ++ [.label (labelName n)])) m
  /-- One piece of code or another. -/
  | either {exits : List String} {n m k : Nat} {yes no : List Instruction} (test : Location)
      (one : Formed refs exits (n + 1) yes m) (other : Formed refs exits (m + 1) no k) :
      Formed refs exits n
        (.jumpIfZero test (labelName n) :: (yes ++ (.jump (labelName m) :: .label (labelName n) ::
          (no ++ [.label (labelName m)])))) k
  /-- A loop with its test, body and step; only the body can leave it. -/
  | loop {exits : List String} {n m k l : Nat} {test body step : List Instruction} (value : Location)
      (before : Formed refs exits (n + 2) test m)
      (inside : Formed refs (labelName (n + 1) :: exits) m body k)
      (after : Formed refs exits k step l) :
      Formed refs exits n
        (.label (labelName n) :: (test ++ (.jumpIfZero value (labelName (n + 1)) ::
          (body ++ (step ++ [.jump (labelName n), .label (labelName (n + 1))]))))) l

namespace Formed

open Emitter (labelName)

variable {refs : References} {exits : List String} {n m : Nat} {code : List Instruction}

/-- Labels are taken in order. -/
theorem le (formed : Formed refs exits n code m) : n ≤ m := by
  induction formed with
  | nil | plain | table | leave => exact Nat.le_refl _
  | call _ _ _ ih => exact ih
  | append _ _ ih₁ ih₂ => exact Nat.le_trans ih₁ ih₂
  | skip _ _ ih => omega
  | either _ _ _ ih₁ ih₂ => omega
  | loop _ _ _ _ ih₁ ih₂ ih₃ => omega

/-- Code without labels and jumps. -/
private theorem unmarked {code : List Instruction}
    (each : ∀ i ∈ code, i.label? = none ∧ i.target? = none) : labels code = [] ∧ targets code = [] :=
  ⟨List.filterMap_eq_nil_iff.mpr fun i member => (each i member).1,
    List.filterMap_eq_nil_iff.mpr fun i member => (each i member).2⟩

private theorem plain_unmarked {i : Instruction} (isPlain : i.isPlain = true) :
    ∀ j ∈ [i], j.label? = none ∧ j.target? = none := by
  intro j member
  rw [List.mem_singleton.mp member]
  cases i <;> first | exact ⟨rfl, rfl⟩ | cases isPlain

private theorem call_unmarked {i : Instruction} (isCall : i.isCall = true) :
    i.label? = none ∧ i.target? = none := by
  cases i <;> first | exact ⟨rfl, rfl⟩ | cases isCall

/-- The instructions of a call sequence are neither labels nor jumps. -/
private theorem passing_unmarked {slotSize : Int} {params : List Location} {call : Instruction}
    (isCall : call.isCall = true) :
    ∀ i ∈ passing slotSize params call, i.label? = none ∧ i.target? = none := by
  intro i member
  rcases mem_passing member with ⟨param, rfl⟩ | rfl | ⟨bytes, rfl⟩
  · exact ⟨rfl, rfl⟩
  · exact call_unmarked isCall
  · exact ⟨rfl, rfl⟩

/-- The labels from one number to another. -/
def labelsBetween (n m : Nat) : List String := (List.range' n (m - n)).map labelName

theorem labelsBetween_append {n m k : Nat} (low : n ≤ m) (high : m ≤ k) :
    labelsBetween n k = labelsBetween n m ++ labelsBetween m k := by
  have met : n + (m - n) = m := by omega
  have counted : k - n = (m - n) + (k - m) := by omega
  rw [labelsBetween, counted, ← List.range'_append_1, met, List.map_append]
  rfl

theorem labelsBetween_succ {n m : Nat} (below : n < m) :
    labelsBetween n m = labelName n :: labelsBetween (n + 1) m := by
  have counted : m - n = (m - (n + 1)) + 1 := by omega
  rw [labelsBetween, counted, List.range'_succ, List.map_cons]
  rfl

theorem labelsBetween_self (n : Nat) : labelsBetween n n = [] := by simp [labelsBetween]

theorem mem_labelsBetween {n m k : Nat} : labelName k ∈ labelsBetween n m ↔ n ≤ k ∧ k < m := by
  rw [labelsBetween, List.mem_map_of_injective Emitter.labelName_injective, List.mem_range'_1]
  omega

section Patterns

variable (test : Location) (first second third : List Instruction) (one other : String)

private theorem skip_marks :
    labels (.jumpIfZero test one :: (first ++ [.label one])) = labels first ++ [one] ∧
      targets (.jumpIfZero test one :: (first ++ [.label one])) = one :: targets first := by
  simp [labels_cons, labels_append, targets_cons, targets_append, Instruction.label?,
    Instruction.target?]

private theorem either_marks :
    labels (.jumpIfZero test one :: (first ++ (.jump other :: .label one ::
        (second ++ [.label other])))) = labels first ++ one :: (labels second ++ [other]) ∧
      targets (.jumpIfZero test one :: (first ++ (.jump other :: .label one ::
        (second ++ [.label other])))) = one :: (targets first ++ other :: targets second) := by
  simp [labels_cons, labels_append, targets_cons, targets_append, Instruction.label?,
    Instruction.target?]

private theorem loop_marks :
    labels (.label one :: (first ++ (.jumpIfZero test other :: (second ++ (third ++
        [.jump one, .label other]))))) =
      one :: (labels first ++ labels second ++ labels third ++ [other]) ∧
    targets (.label one :: (first ++ (.jumpIfZero test other :: (second ++ (third ++
        [.jump one, .label other]))))) =
      targets first ++ other :: (targets second ++ (targets third ++ [one])) := by
  simp [labels_cons, labels_append, targets_cons, targets_append, Instruction.label?,
    Instruction.target?]

end Patterns

/-- From zero on, a label is among those taken when its number is below the next. -/
theorem count_labelsBetween (m n : Nat) :
    (labelsBetween 0 m).count (labelName n) = if n < m then 1 else 0 := by
  have distinct : (labelsBetween 0 m).Nodup :=
    (List.nodup_range' (h := by decide)).map Emitter.labelName_injective
  rw [distinct.count]
  simp [mem_labelsBetween]

/-- Every label that is taken is placed once, and no other. -/
theorem labels_perm (formed : Formed refs exits n code m) :
    (labels code).Perm (labelsBetween n m) := by
  induction formed with
  | nil => rw [labelsBetween_self]; rfl
  | append one two ih₁ ih₂ =>
    rw [labels_append, labelsBetween_append one.le two.le]
    exact ih₁.append ih₂
  | plain i isPlain => rw [labelsBetween_self, (unmarked (plain_unmarked isPlain)).1]
  | table | leave => rw [labelsBetween_self]; rfl
  | call _ isCall _ ih =>
    rw [labels_append, (unmarked (passing_unmarked isCall)).1, List.append_nil]
    exact ih
  | skip test inside ih =>
    rw [(skip_marks ..).1, labelsBetween_succ inside.le]
    exact (List.perm_append_singleton ..).trans (ih.cons _)
  | either test one other ih₁ ih₂ =>
    have low := one.le
    have high := other.le
    rw [(either_marks ..).1, labelsBetween_succ (by omega), labelsBetween_append low (by omega),
      labelsBetween_succ high]
    refine List.perm_middle.trans (List.Perm.cons _ ?_)
    exact ih₁.append ((List.perm_append_singleton ..).trans (ih₂.cons _))
  | loop value before inside after ih₁ ih₂ ih₃ =>
    have low := before.le
    have mid := inside.le
    have high := after.le
    rw [(loop_marks ..).1, labelsBetween_succ (by omega), labelsBetween_succ (by omega),
      labelsBetween_append low (by omega), labelsBetween_append mid high, ← List.append_assoc]
    exact ((List.perm_append_singleton ..).trans (((ih₁.append ih₂).append ih₃).cons _)).cons _

/-- Every jump goes to a label that is placed, or leaves a loop around the code. -/
theorem targets_placed (formed : Formed refs exits n code m) :
    ∀ target ∈ targets code, target ∈ labels code ∨ target ∈ exits := by
  induction formed with
  | nil => simp
  | append _ _ ih₁ ih₂ =>
    intro target member
    rw [targets_append] at member
    rw [labels_append, List.mem_append]
    rcases List.mem_append.mp member with member | member
    · exact (ih₁ target member).imp_left .inl
    · exact (ih₂ target member).imp_left .inr
  | plain i isPlain => simp [(unmarked (plain_unmarked isPlain)).2]
  | table => simp [targets_cons, Instruction.target?]
  | call _ isCall _ ih =>
    obtain ⟨placed, gone⟩ := unmarked (passing_unmarked isCall)
    rw [targets_append, labels_append, placed, gone, List.append_nil, List.append_nil]
    exact ih
  | leave isOpen => simpa [targets_cons, Instruction.target?] using .inr isOpen
  | skip test inside ih =>
    intro target member
    rw [(skip_marks ..).2] at member
    rw [(skip_marks ..).1, List.mem_append]
    rcases List.mem_cons.mp member with rfl | member
    · exact .inl (.inr List.mem_cons_self)
    · exact (ih target member).imp_left .inl
  | either test one other ih₁ ih₂ =>
    intro target member
    rw [(either_marks ..).2] at member
    rw [(either_marks ..).1]
    simp only [List.mem_append, List.mem_cons, List.not_mem_nil, or_false] at member ⊢
    rcases member with here | member | here | member
    · exact .inl (.inr (.inl here))
    · exact (ih₁ target member).imp_left .inl
    · exact .inl (.inr (.inr (.inr here)))
    · exact (ih₂ target member).imp_left fun placed => .inr (.inr (.inl placed))
  | loop value before inside after ih₁ ih₂ ih₃ =>
    intro target member
    rw [(loop_marks ..).2] at member
    rw [(loop_marks ..).1]
    simp only [List.mem_append, List.mem_cons, List.not_mem_nil, or_false] at member ⊢
    rcases member with member | here | member | member | here
    · exact (ih₁ target member).imp_left fun placed => .inr (.inl (.inl (.inl placed)))
    · exact .inl (.inr (.inr here))
    · -- the body may leave the loop, whose end is placed after it
      rcases ih₂ target member with placed | out
      · exact .inl (.inr (.inl (.inl (.inr placed))))
      · rcases List.mem_cons.mp out with here | out
        · exact .inl (.inr (.inr here))
        · exact .inr out
    · exact (ih₃ target member).imp_left fun placed => .inr (.inl (.inr placed))
    · exact .inl (.inl here)

/-- What stands in formed code. -/
inductive Allowed (refs : References) : Instruction → Prop where
  | plain {i : Instruction} (isPlain : i.isPlain = true) : Allowed refs i
  | table (dst : Location) {name : String} (known : refs.tables name) : Allowed refs (.loadLabel dst name)
  | call {giving : List Instruction} {params : List Location} {i : Instruction}
      (isCall : i.isCall = true) (made : refs.calls giving params i) : Allowed refs i
  | push (param : Location) : Allowed refs (.pushParam param)
  | pop (bytes : Int) : Allowed refs (.popParams bytes)
  | label (name : String) : Allowed refs (.label name)
  | jump (name : String) : Allowed refs (.jump name)
  | jumpIfZero (test : Location) (name : String) : Allowed refs (.jumpIfZero test name)

theorem allowed (formed : Formed refs exits n code m) : ∀ i ∈ code, Allowed refs i := by
  induction formed with
  | nil => simp
  | append _ _ ih₁ ih₂ => exact List.forall_mem_append.mpr ⟨ih₁, ih₂⟩
  | plain i isPlain => simpa using Allowed.plain isPlain
  | table dst known => simpa using Allowed.table dst known
  | call _ isCall made ih =>
    refine List.forall_mem_append.mpr ⟨ih, fun i member => ?_⟩
    rcases mem_passing member with ⟨param, rfl⟩ | rfl | ⟨bytes, rfl⟩
    · exact .push param
    · exact .call isCall made
    · exact .pop bytes
  | leave => simpa using Allowed.jump _
  | skip test _ ih =>
    simp only [List.forall_mem_cons, List.forall_mem_append]
    exact ⟨.jumpIfZero .., ih, .label _, by simp⟩
  | either test _ _ ih₁ ih₂ =>
    simp only [List.forall_mem_cons, List.forall_mem_append]
    exact ⟨.jumpIfZero .., ih₁, .jump _, .label _, ih₂, .label _, by simp⟩
  | loop value _ _ _ ih₁ ih₂ ih₃ =>
    simp only [List.forall_mem_cons, List.forall_mem_append]
    exact ⟨.label _, ih₁, .jumpIfZero .., ih₂, ih₃, .jump _, .label _, by simp⟩

/-- No bracket stands in formed code. -/
theorem unbracketed (formed : Formed refs exits n code m) : ∀ i ∈ code, i.isBracket = false := by
  intro i member
  cases formed.allowed i member with
  | plain isPlain => cases i <;> first | rfl | cases isPlain
  | call isCall => cases i <;> first | rfl | cases isCall
  | table | push | pop | label | jump | jumpIfZero => rfl

end Formed

end DecafTac
