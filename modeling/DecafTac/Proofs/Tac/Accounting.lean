import Mathlib.Data.List.Nodup
import Mathlib.Data.List.Perm.Basic
import DecafTac.Lower.Heap
import DecafTac.Tac.Emitter

/-!
What issuing code takes from the emitter. Local slots are handed out one by one, to variables and to
temporaries alike, so the storage that a piece of code uses is a run of slots that nothing else has;
labels are numbered in the same way. A step is accounted for when the code it issues writes each
temporary it took once, places no label but its own and those it owes, and names only storage that is
there.
-/
namespace DecafTac

namespace Instruction

/-- The temporary that an instruction gives its value to. Variables are written by assignment alone. -/
def temporary? : Instruction → Option Location
  | .loadConstant dst _ | .loadLabel dst _ | .load dst _ _ | .binary _ dst _ _ => some dst
  | .callLabel _ dst | .callAddress _ dst | .callRoutine _ _ dst => dst
  | _ => none

/-- The label that an instruction places. -/
def label? : Instruction → Option String
  | .label name => some name
  | _ => none

/-- Whether an instruction stands outside all bodies of functions. -/
def isBracket : Instruction → Bool
  | .beginFunc | .endFunc _ | .methodTable .. => true
  | _ => false

end Instruction

/-- The temporaries that some code writes, in order. -/
def temporaries (code : List Instruction) : List Location := code.filterMap Instruction.temporary?

/-- The labels that some code places, in order. -/
def labels (code : List Instruction) : List String := code.filterMap Instruction.label?

theorem temporaries_append (first second : List Instruction) :
    temporaries (first ++ second) = temporaries first ++ temporaries second :=
  List.filterMap_append

theorem labels_append (first second : List Instruction) :
    labels (first ++ second) = labels first ++ labels second :=
  List.filterMap_append

namespace Emitter

/-- Labels of different numbers differ. -/
theorem labelName_injective : Function.Injective labelName := by
  intro a b same
  unfold labelName at same
  rw [String.append_right_inj, Nat.toString_eq_ofList_toDigits, Nat.toString_eq_ofList_toDigits,
    String.ofList_inj] at same
  rw [← @Nat.ofDigitChars_ten_toDigits a, same, Nat.ofDigitChars_ten_toDigits]

/-- Storage that is there for a function with `arity` parameter slots: a parameter, a local slot that
was taken, or a global one. -/
def Holds (e : Emitter) (arity : Nat) (loc : Location) : Prop :=
  match loc.segment with
  | .frame =>
    (∃ i : Nat, i < arity ∧ loc.position = e.shape.paramPosition i) ∨
      ∃ j : Nat, j < e.locals ∧ loc.position = e.shape.localPosition j
  | .global => ∃ g : Nat, g < e.globals ∧ loc.position = e.shape.globalPosition g

/-- What a step takes from the emitter for the code it issues and the variables it gives storage to.
The labels `owed` were taken before and may be placed by it. -/
structure Advance (before after : Emitter) (code : List Instruction) (vars : List Location)
    (owed : List Nat) : Prop where
  shape : after.shape = before.shape
  globals : after.globals = before.globals
  inFunction : after.inFunction = before.inFunction
  issued : after.issued = before.issued + code.length
  temps : before.nextTemp ≤ after.nextTemp
  locals : before.locals ≤ after.locals
  slots : ((temporaries code ++ vars).map Location.position).Perm
    ((List.range' before.locals (after.locals - before.locals)).map fun (slot : Nat) =>
      before.shape.localPosition slot)
  framed : ∀ loc ∈ temporaries code ++ vars, loc.segment = .frame
  labels : before.nextLabel ≤ after.nextLabel
  placed : ∃ numbers : List Nat, DecafTac.labels code = numbers.map labelName ∧ numbers.Nodup ∧
    ∀ n ∈ numbers, n < after.nextLabel ∧ (before.nextLabel ≤ n ∨ n ∈ owed)
  plain : ∀ i ∈ code, i.isBracket = false

namespace Advance

variable {before middle after : Emitter} {code first second : List Instruction}
  {vars : List Location} {owed : List Nat} {arity : Nat}

/-- What is there stays there. -/
theorem holds (advance : Advance before after code vars owed) {loc : Location}
    (there : before.Holds arity loc) : after.Holds arity loc := by
  unfold Holds at there ⊢
  cases segment : loc.segment with
  | frame =>
    simp only [segment, advance.shape] at there ⊢
    rcases there with param | ⟨slot, taken, place⟩
    · exact .inl param
    · exact .inr ⟨slot, Nat.lt_of_lt_of_le taken advance.locals, place⟩
  | global =>
    simp only [segment, advance.shape, advance.globals] at there ⊢
    exact there

theorem refl (e : Emitter) (owed : List Nat) : Advance e e [] [] owed where
  shape := rfl
  globals := rfl
  inFunction := rfl
  issued := rfl
  temps := Nat.le_refl _
  locals := Nat.le_refl _
  slots := by simp [temporaries]
  framed := by simp [temporaries]
  labels := Nat.le_refl _
  placed := ⟨[], rfl, List.nodup_nil, by simp⟩
  plain := by simp

/-- The slots of two steps in a row are those from the first to the last. -/
private theorem slots_join {vars₁ vars₂ : List Location} (place : Nat → Int) {low mid high : Nat}
    (lower : low ≤ mid) (upper : mid ≤ high)
    (one : ((temporaries first ++ vars₁).map Location.position).Perm
      ((List.range' low (mid - low)).map place))
    (two : ((temporaries second ++ vars₂).map Location.position).Perm
      ((List.range' mid (high - mid)).map place)) :
    ((temporaries (first ++ second) ++ (vars₁ ++ vars₂)).map Location.position).Perm
      ((List.range' low (high - low)).map place) := by
  have runs : List.range' low (high - low) =
      List.range' low (mid - low) ++ List.range' mid (high - mid) := by
    have met : low + (mid - low) = mid := by omega
    have counted : high - low = (mid - low) + (high - mid) := by omega
    rw [counted, ← List.range'_append_1, met]
  have sorted : (temporaries (first ++ second) ++ (vars₁ ++ vars₂)).Perm
      ((temporaries first ++ vars₁) ++ (temporaries second ++ vars₂)) := by
    rw [temporaries_append, List.append_assoc, List.append_assoc]
    exact List.Perm.append_left _ (List.perm_append_comm_assoc ..)
  have both := (sorted.map Location.position).trans
    ((List.Perm.of_eq List.map_append).trans (one.append two))
  rwa [← List.map_append, ← runs] at both

/-- Labels of two steps in a row: the second places none that the first placed. -/
private theorem numbers_join {owed₁ owed₂ numbers₁ numbers₂ : List Nat} {low mid high : Nat}
    (lower : low ≤ mid) (upper : mid ≤ high) (old : ∀ n ∈ owed₂, n < low)
    (apart : ∀ n ∈ owed₁, n ∉ owed₂) (distinct₁ : numbers₁.Nodup) (distinct₂ : numbers₂.Nodup)
    (bound₁ : ∀ n ∈ numbers₁, n < mid ∧ (low ≤ n ∨ n ∈ owed₁))
    (bound₂ : ∀ n ∈ numbers₂, n < high ∧ (mid ≤ n ∨ n ∈ owed₂)) :
    (numbers₁ ++ numbers₂).Nodup ∧
      ∀ n ∈ numbers₁ ++ numbers₂, n < high ∧ (low ≤ n ∨ n ∈ owed₁ ++ owed₂) := by
  constructor
  · refine List.nodup_append.mpr ⟨distinct₁, distinct₂, ?_⟩
    rintro n member₁ _ member₂ rfl
    have below := bound₁ n member₁
    rcases (bound₂ n member₂).2 with above | due
    · omega
    · have early := old n due
      rcases below.2 with own | due₁
      · omega
      · exact apart n due₁ due
  · intro n member
    rcases List.mem_append.mp member with member | member
    · obtain ⟨below, own | due⟩ := bound₁ n member
      · exact ⟨by omega, .inl own⟩
      · exact ⟨by omega, .inr (List.mem_append_left _ due)⟩
    · obtain ⟨below, own | due⟩ := bound₂ n member
      · exact ⟨below, .inl (by omega)⟩
      · exact ⟨below, .inr (List.mem_append_right _ due)⟩

/-- Two steps in a row. What the second owes was taken before the first, which does not place it. -/
theorem trans {owed₁ owed₂ : List Nat} {vars₁ vars₂ : List Location}
    (one : Advance before middle first vars₁ owed₁)
    (two : Advance middle after second vars₂ owed₂)
    (old : ∀ n ∈ owed₂, n < before.nextLabel) (apart : ∀ n ∈ owed₁, n ∉ owed₂) :
    Advance before after (first ++ second) (vars₁ ++ vars₂) (owed₁ ++ owed₂) where
  shape := two.shape.trans one.shape
  globals := two.globals.trans one.globals
  inFunction := two.inFunction.trans one.inFunction
  issued := by rw [two.issued, one.issued, List.length_append, Nat.add_assoc]
  temps := Nat.le_trans one.temps two.temps
  locals := Nat.le_trans one.locals two.locals
  slots := by
    have later := two.slots
    rw [one.shape] at later
    exact slots_join _ one.locals two.locals one.slots later
  framed := by
    intro loc member
    rw [temporaries_append] at member
    have split : loc ∈ temporaries first ++ vars₁ ∨ loc ∈ temporaries second ++ vars₂ := by
      simp only [List.mem_append] at member ⊢
      tauto
    rcases split with member | member
    · exact one.framed loc member
    · exact two.framed loc member
  labels := Nat.le_trans one.labels two.labels
  placed := by
    obtain ⟨numbers₁, placed₁, distinct₁, bound₁⟩ := one.placed
    obtain ⟨numbers₂, placed₂, distinct₂, bound₂⟩ := two.placed
    refine ⟨numbers₁ ++ numbers₂, by rw [labels_append, placed₁, placed₂, List.map_append], ?_⟩
    exact numbers_join one.labels two.labels old apart distinct₁ distinct₂ bound₁ bound₂
  plain := by
    intro i member
    rcases List.mem_append.mp member with member | member
    · exact one.plain i member
    · exact two.plain i member

/-- A step owes what it takes itself. -/
theorem fresh (rest : Advance { before with nextLabel := before.nextLabel + 1 } after code vars
    (before.nextLabel :: owed)) : Advance before after code vars owed where
  shape := rest.shape
  globals := rest.globals
  inFunction := rest.inFunction
  issued := rest.issued
  temps := rest.temps
  locals := rest.locals
  slots := rest.slots
  framed := rest.framed
  labels := Nat.le_of_succ_le rest.labels
  placed := by
    obtain ⟨numbers, placed, distinct, bound⟩ := rest.placed
    refine ⟨numbers, placed, distinct, fun n member => ?_⟩
    obtain ⟨below, own | due⟩ := bound n member
    · exact ⟨below, .inl (Nat.le_of_succ_le own)⟩
    · rcases List.mem_cons.mp due with rfl | due
      · exact ⟨below, .inl (Nat.le_refl _)⟩
      · exact ⟨below, .inr due⟩
  plain := rest.plain

theorem owing {more : List Nat} (advance : Advance before after code vars owed)
    (within : owed ⊆ more) : Advance before after code vars more :=
  { advance with
    placed := by
      obtain ⟨numbers, placed, distinct, bound⟩ := advance.placed
      exact ⟨numbers, placed, distinct, fun n member =>
        ⟨(bound n member).1, (bound n member).2.imp_right fun due => within due⟩⟩ }

/-- No label is placed twice. -/
theorem labels_distinct (advance : Advance before after code vars owed) :
    (DecafTac.labels code).Nodup := by
  obtain ⟨numbers, placed, distinct, -⟩ := advance.placed
  rw [placed]
  exact List.Nodup.map labelName_injective distinct

end Advance

/-! ## Steps of the emitter -/

/-- A step is accounted for in every state in which the locations `known` are there and the labels
`owed` were taken; then the locations it gives are there, too. -/
def Accounted {α : Type} (arity : Nat) (known : List Location) (owed : List Nat) (step : Emit α)
    (gives : α → List Location) : Prop :=
  ∀ e : Emitter, e.inFunction = true → (∀ loc ∈ known, e.Holds arity loc) →
    (∀ n ∈ owed, n < e.nextLabel) →
    Advance e (step e).state (step e).code [] owed ∧
    (∀ i ∈ (step e).code, ∀ loc ∈ i.operands, (step e).state.Holds arity loc) ∧
    ∀ loc ∈ gives (step e).value, (step e).state.Holds arity loc

namespace Accounted

variable {α β : Type} {arity : Nat} {known : List Location} {owed : List Nat}

/-- Steps that know or owe more are accounted for, too, and may give less. -/
theorem weaken {more : List Location} {dues : List Nat} {step : Emit α}
    {gives fewer : α → List Location} (sound : Accounted arity known owed step gives)
    (knows : known ⊆ more) (owes : owed ⊆ dues) (fits : ∀ a, fewer a ⊆ gives a) :
    Accounted arity more dues step fewer := by
  intro e opened there taken
  obtain ⟨advance, operands, given⟩ :=
    sound e opened (fun loc member => there loc (knows member)) fun n member => taken n (owes member)
  exact ⟨advance.owing owes, operands, fun loc member => given loc (fits _ member)⟩

theorem pure (a : α) (gives : α → List Location) (within : gives a ⊆ known) :
    Accounted arity known owed (Pure.pure a) gives := by
  intro e _ there _
  exact ⟨.refl e owed, by simp, fun loc member => there loc (within member)⟩

/-- One step after another, the second knowing what the first gives. -/
theorem bind {owed₁ owed₂ : List Nat} {step : Emit α} {rest : α → Emit β}
    {gives : α → List Location} {gives' : β → List Location}
    (first : Accounted arity known owed₁ step gives)
    (second : ∀ a, Accounted arity (gives a ++ known) owed₂ (rest a) gives')
    (apart : ∀ n ∈ owed₁, n ∉ owed₂) :
    Accounted arity known (owed₁ ++ owed₂) (step >>= rest) gives' := by
  intro e opened there taken
  obtain ⟨one, operands₁, given₁⟩ := first e opened there
    fun n member => taken n (List.mem_append_left _ member)
  have known' : ∀ loc ∈ gives (step e).value ++ known, (step e).state.Holds arity loc := by
    intro loc member
    rcases List.mem_append.mp member with given | old
    · exact given₁ loc given
    · exact one.holds (there loc old)
  have old : ∀ n ∈ owed₂, n < e.nextLabel := fun n member => taken n (List.mem_append_right _ member)
  obtain ⟨two, operands₂, given₂⟩ := second (step e).value (step e).state
    (one.inFunction.trans opened) known' fun n member => Nat.lt_of_lt_of_le (old n member) one.labels
  refine ⟨one.trans two old apart, ?_, given₂⟩
  intro i member loc operand
  rcases List.mem_append.mp member with member | member
  · exact two.holds (operands₁ i member loc operand)
  · exact operands₂ i member loc operand

/-- A step that owes nothing before another. -/
theorem andThen {step : Emit α} {rest : α → Emit β} {gives : α → List Location}
    {gives' : β → List Location} (first : Accounted arity known [] step gives)
    (second : ∀ a, Accounted arity (gives a ++ known) owed (rest a) gives') :
    Accounted arity known owed (step >>= rest) gives' :=
  bind first second (by simp)

/-- Taking a label and owing it. -/
theorem withLabel {rest : String → Emit β} {gives : β → List Location}
    (sound : ∀ n, n ∉ owed → Accounted arity known (n :: owed) (rest (labelName n)) gives) :
    Accounted arity known owed (freshLabel >>= rest) gives := by
  intro e opened there taken
  have new : e.nextLabel ∉ owed := fun member => Nat.lt_irrefl _ (taken _ member)
  obtain ⟨advance, operands, given⟩ := sound e.nextLabel new
    { e with nextLabel := e.nextLabel + 1 } opened there (by
      intro n member
      rcases List.mem_cons.mp member with rfl | member
      · exact Nat.lt_succ_self _
      · exact Nat.lt_succ_of_lt (taken n member))
  exact ⟨advance.fresh, operands, given⟩

/-- Reading the emitter gives no location. -/
theorem read : Accounted arity known owed Emission.get fun _ => [] := by
  intro e _ _ _
  exact ⟨.refl e owed, by simp [Emission.get], by simp⟩

/-- An instruction that writes no temporary and places no label. -/
theorem issue (i : Instruction) (quiet : i.temporary? = none) (unlabelled : i.label? = none)
    (plain : i.isBracket = false) (within : i.operands ⊆ known) :
    Accounted arity known owed (Emitter.issue i) fun _ => [] := by
  intro e _ there _
  refine ⟨?_, ?_, by simp⟩
  · exact {
      shape := rfl
      globals := rfl
      inFunction := rfl
      issued := rfl
      temps := Nat.le_refl _
      locals := Nat.le_refl _
      slots := by simp [Emitter.issue, temporaries, quiet]
      framed := by simp [Emitter.issue, temporaries, quiet]
      labels := Nat.le_refl _
      placed := ⟨[], by simp [Emitter.issue, DecafTac.labels, unlabelled], List.nodup_nil, by simp⟩
      plain := by simp [Emitter.issue, plain] }
  · intro j member loc operand
    rw [List.mem_singleton.mp member] at operand
    exact there loc (within operand)

/-- Placing a label that is owed. -/
theorem label (n : Nat) : Accounted arity known [n] (Emitter.label (labelName n)) fun _ => [] := by
  intro e _ _ taken
  refine ⟨?_, by simp [Emitter.label, Emitter.issue, Instruction.operands], by simp⟩
  exact {
    shape := rfl
    globals := rfl
    inFunction := rfl
    issued := rfl
    temps := Nat.le_refl _
    locals := Nat.le_refl _
    slots := by simp [Emitter.label, Emitter.issue, temporaries, Instruction.temporary?]
    framed := by simp [Emitter.label, Emitter.issue, temporaries, Instruction.temporary?]
    labels := Nat.le_refl _
    placed := by
      refine ⟨[n], rfl, by simp, ?_⟩
      intro m member
      rw [List.mem_singleton.mp member]
      exact ⟨taken n List.mem_cons_self, .inr List.mem_cons_self⟩
    plain := by simp [Emitter.label, Emitter.issue, Instruction.isBracket] }

end Accounted

/-- A temporary takes the next local slot of the open function. -/
theorem temp_apply {e : Emitter} (opened : e.inFunction = true) :
    temp e = ⟨⟨tempName e.nextTemp, .frame, e.shape.localPosition e.locals⟩,
      { e with nextTemp := e.nextTemp + 1, locals := e.locals + 1 }, []⟩ := by
  simp [temp, allocate, Emission.bind_apply, Emission.get, Emission.modify, opened]

/-- What an instruction that writes a temporary gives. -/
def written {α : Type} (e : Emitter) (make : Location → Instruction) (result : Location → α) :
    Emitted Emitter α :=
  let dst : Location := ⟨tempName e.nextTemp, .frame, e.shape.localPosition e.locals⟩
  ⟨result dst, { e with nextTemp := e.nextTemp + 1, locals := e.locals + 1, issued := e.issued + 1 },
    [make dst]⟩

/-- An instruction that writes a new temporary. -/
theorem Accounted.produce {α : Type} {arity : Nat} {known : List Location} {step : Emit α}
    {gives : α → List Location} (make : Location → Instruction) (result : Location → α)
    (issues : ∀ e : Emitter, e.inFunction = true → step e = written e make result)
    (writes : ∀ dst, (make dst).temporary? = some dst) (unlabelled : ∀ dst, (make dst).label? = none)
    (plain : ∀ dst, (make dst).isBracket = false)
    (within : ∀ dst, (make dst).operands ⊆ dst :: known) (fits : ∀ dst, gives (result dst) ⊆ [dst]) :
    Accounted arity known [] step gives := by
  intro e opened there _
  rw [issues e opened]
  have advance : Advance e (written e make result).state (written e make result).code [] [] := {
    shape := rfl
    globals := rfl
    inFunction := rfl
    issued := rfl
    temps := Nat.le_succ _
    locals := Nat.le_succ _
    slots := by simp [written, temporaries, writes]
    framed := by simp [written, temporaries, writes]
    labels := Nat.le_refl _
    placed := ⟨[], by simp [written, DecafTac.labels, unlabelled], List.nodup_nil, by simp⟩
    plain := by simp [written, plain] }
  have own : (written e make result).state.Holds arity
      ⟨tempName e.nextTemp, .frame, e.shape.localPosition e.locals⟩ :=
    .inr ⟨e.locals, Nat.lt_succ_self _, rfl⟩
  refine ⟨advance, ?_, ?_⟩
  · intro i member loc operand
    rw [List.mem_singleton.mp member] at operand
    rcases List.mem_cons.mp (within _ operand) with rfl | old
    · exact own
    · exact advance.holds (there loc old)
  · intro loc member
    rw [List.mem_singleton.mp (fits _ member)]
    exact own

section Steps

variable {arity : Nat} {known : List Location} {owed : List Nat}

theorem loadConstant_accounted (value : Constant) :
    Accounted arity known [] (loadConstant value) fun dst => [dst] :=
  .produce (.loadConstant · value) id
    (fun e opened => by simp [loadConstant, temp_apply opened, issue, written])
    (fun _ => rfl) (fun _ => rfl) (fun _ => rfl) (by simp [Instruction.operands]) (by simp)

theorem loadLabel_accounted (name : String) :
    Accounted arity known [] (loadLabel name) fun dst => [dst] :=
  .produce (.loadLabel · name) id
    (fun e opened => by simp [loadLabel, temp_apply opened, issue, written])
    (fun _ => rfl) (fun _ => rfl) (fun _ => rfl) (by simp [Instruction.operands]) (by simp)

theorem load_accounted (addr : Location) (offset : Int) (there : addr ∈ known) :
    Accounted arity known [] (load addr offset) fun dst => [dst] :=
  .produce (.load · addr offset) id
    (fun e opened => by simp [load, temp_apply opened, issue, written])
    (fun _ => rfl) (fun _ => rfl) (fun _ => rfl) (by simp [Instruction.operands, there]) (by simp)

theorem binary_accounted (op : TacOp) (left right : Location) (leftThere : left ∈ known)
    (rightThere : right ∈ known) :
    Accounted arity known [] (binary op left right) fun dst => [dst] :=
  .produce (.binary op · left right) id
    (fun e opened => by simp [binary, temp_apply opened, issue, written])
    (fun _ => rfl) (fun _ => rfl) (fun _ => rfl)
    (by simp [Instruction.operands, leftThere, rightThere]) (by simp)

/-- A call that gives a value when there is one. -/
private theorem call_accounted {step : Emit (Option Location)} (hasResult : Bool)
    (make : Option Location → Instruction)
    (steps : step = do
      let dst ← resultTemp hasResult
      issue (make dst)
      return dst)
    (writes : ∀ dst, (make dst).temporary? = dst) (unlabelled : ∀ dst, (make dst).label? = none)
    (plain : ∀ dst, (make dst).isBracket = false)
    (within : ∀ dst, (make dst).operands ⊆ dst.toList ++ known) :
    Accounted arity known [] step Option.toList := by
  subst steps
  cases hasResult with
  | true =>
    refine .produce (fun dst => make (some dst)) some ?_ (fun dst => writes (some dst))
      (fun dst => unlabelled (some dst)) (fun dst => plain (some dst))
      (fun dst => within (some dst)) (by simp)
    intro e opened
    have taken : resultTemp true e = ⟨some (temp e).value, (temp e).state, (temp e).code ++ []⟩ := rfl
    simp [taken, temp_apply opened, issue, written]
  | false =>
    have quiet : Accounted arity known [] (issue (make none)) fun _ => [] :=
      .issue (make none) (writes none) (unlabelled none) (plain none) (within none)
    exact quiet.andThen fun _ => .pure none Option.toList (by simp)

theorem callLabel_accounted (label : String) (hasResult : Bool) :
    Accounted arity known [] (callLabel label hasResult) Option.toList :=
  call_accounted hasResult (.callLabel label) rfl (fun _ => rfl) (fun _ => rfl) (fun _ => rfl)
    (by simp [Instruction.operands])

theorem callAddress_accounted (addr : Location) (hasResult : Bool) (there : addr ∈ known) :
    Accounted arity known [] (callAddress addr hasResult) Option.toList :=
  call_accounted hasResult (.callAddress addr) rfl (fun _ => rfl) (fun _ => rfl) (fun _ => rfl)
    (by simp [Instruction.operands, there])

theorem popParams_accounted (bytes : Int) :
    Accounted arity known [] (popParams bytes) fun _ => [] := by
  unfold popParams
  split
  · exact .issue _ rfl rfl rfl (by simp [Instruction.operands])
  · exact .pure () _ (by simp)

end Steps

end Emitter

namespace Lower

open Emitter

variable {arity : Nat} {known : List Location}

/-! ## Operators, objects and arrays -/

theorem request_accounted (routine : Routine) (args : List Location) (there : args ⊆ known) :
    Accounted arity known [] (request routine args) fun dst => [dst] :=
  .produce (fun dst => .callRoutine routine args (some dst)) id
    (fun e opened => by simp [request, temp_apply opened, issue, written])
    (fun _ => rfl) (fun _ => rfl) (fun _ => rfl)
    (fun dst => by
      simpa [Instruction.operands] using List.Subset.trans there (List.subset_cons_self ..)) (by simp)

theorem either_accounted {left right : Emit Location}
    (first : Accounted arity known [] left fun dst => [dst])
    (second : Accounted arity known [] right fun dst => [dst]) :
    Accounted arity known [] (either left right) fun dst => [dst] :=
  first.andThen fun _ =>
    (second.weaken (by simp) (by simp) fun _ => List.Subset.refl _).andThen fun _ =>
      binary_accounted .or _ _ (by simp) (by simp)

theorem equality_accounted (negated : Bool) (left right : Value) (leftThere : left.loc ∈ known)
    (rightThere : right.loc ∈ known) :
    Accounted arity known [] (equality negated left right) fun dst => [dst] := by
  unfold equality
  split
  · exact request_accounted _ _ (by simp [leftThere, rightThere])
  · refine (request_accounted _ _ (by simp [leftThere, rightThere])).andThen fun _ => ?_
    exact (loadConstant_accounted _).andThen fun _ => binary_accounted .equal _ _ (by simp) (by simp)
  · exact binary_accounted .equal _ _ leftThere rightThere
  · exact either_accounted (binary_accounted .less _ _ rightThere leftThere)
      (binary_accounted .less _ _ leftThere rightThere)

/-- The location of a value, where a location is given. -/
theorem tagged_accounted {step : Emit Location} (tag : Tag)
    (sound : Accounted arity known [] step fun dst => [dst]) :
    Accounted arity known [] (do return (⟨← step, tag⟩ : Value)) fun value => [value.loc] :=
  sound.andThen fun _ => .pure _ _ (by simp)

theorem binary_accounted (op : BinaryOp) (left right : Value) (leftThere : left.loc ∈ known)
    (rightThere : right.loc ∈ known) :
    Accounted arity known [] (binary op left right) fun value => [value.loc] := by
  cases op with
  | add | sub | mul | div | mod | and | or | lt =>
    exact tagged_accounted _ (Emitter.binary_accounted _ _ _ leftThere rightThere)
  | gt => exact tagged_accounted _ (Emitter.binary_accounted _ _ _ rightThere leftThere)
  | le =>
    exact tagged_accounted _ (either_accounted (Emitter.binary_accounted _ _ _ leftThere rightThere)
      (Emitter.binary_accounted _ _ _ leftThere rightThere))
  | ge =>
    exact tagged_accounted _ (either_accounted (Emitter.binary_accounted _ _ _ rightThere leftThere)
      (Emitter.binary_accounted _ _ _ leftThere rightThere))
  | eq | ne => exact tagged_accounted _ (equality_accounted _ left right leftThere rightThere)

theorem unary_accounted (op : UnaryOp) (operand : Value) (there : operand.loc ∈ known) :
    Accounted arity known [] (unary op operand) fun value => [value.loc] := by
  cases op with
  | neg =>
    refine (loadConstant_accounted _).andThen fun _ => tagged_accounted _ ?_
    exact Emitter.binary_accounted _ _ _ (by simp) (by simp [there])
  | not =>
    refine (loadConstant_accounted _).andThen fun _ => ?_
    refine (Emitter.binary_accounted _ _ _ (by simp [there]) (by simp)).andThen fun _ => ?_
    refine (loadConstant_accounted _).andThen fun _ => tagged_accounted _ ?_
    exact Emitter.binary_accounted _ _ _ (by simp) (by simp)

theorem stop_accounted (message : String) :
    Accounted arity known [] (stop message) fun _ => [] := by
  refine (loadConstant_accounted _).andThen fun _ => ?_
  refine (Accounted.issue _ rfl rfl rfl (by simp [Instruction.operands])).andThen fun _ => ?_
  exact .issue _ rfl rfl rfl (by simp [Instruction.operands])

theorem stopUnlessZero_accounted (test : Location) (message : String) (there : test ∈ known) :
    Accounted arity known [] (stopUnlessZero test message) fun _ => [] := by
  refine .withLabel fun fine _ => ?_
  refine (Accounted.issue _ rfl rfl rfl (by simp [Instruction.operands, there])).andThen fun _ => ?_
  exact (stop_accounted message).andThen fun _ => .label fine

theorem newObject_accounted (layout : ClassLayout) (cls : String) :
    Accounted arity known [] (newObject layout cls) fun value => [value.loc] := by
  refine Accounted.read.andThen fun _ => ?_
  refine (loadConstant_accounted _).andThen fun _ => ?_
  refine (request_accounted _ _ (by simp)).andThen fun _ => ?_
  refine (loadLabel_accounted _).andThen fun _ => ?_
  refine (Accounted.issue _ rfl rfl rfl (by simp [Instruction.operands])).andThen fun _ => ?_
  exact .pure _ _ (by simp)

theorem newArray_accounted (size : Value) (element : Tag) (there : size.loc ∈ known) :
    Accounted arity known [] (newArray size element) fun value => [value.loc] := by
  refine Accounted.read.andThen fun _ => ?_
  refine (loadConstant_accounted _).andThen fun _ => ?_
  refine (Emitter.binary_accounted _ _ _ (by simp [there]) (by simp)).andThen fun _ => ?_
  refine (stopUnlessZero_accounted _ _ (by simp)).andThen fun _ => ?_
  refine (loadConstant_accounted _).andThen fun _ => ?_
  refine (Emitter.binary_accounted _ _ _ (by simp) (by simp [there])).andThen fun _ => ?_
  refine (loadConstant_accounted _).andThen fun _ => ?_
  refine (Emitter.binary_accounted _ _ _ (by simp) (by simp)).andThen fun _ => ?_
  refine (request_accounted _ _ (by simp)).andThen fun _ => ?_
  refine (Accounted.issue _ rfl rfl rfl (by simp [Instruction.operands, there])).andThen fun _ => ?_
  exact .pure _ _ (by simp)

theorem elementAddress_accounted (array index : Value) (arrayThere : array.loc ∈ known)
    (indexThere : index.loc ∈ known) :
    Accounted arity known [] (elementAddress array index) fun dst => [dst] := by
  refine Accounted.read.andThen fun _ => ?_
  refine (load_accounted _ _ (by simp [arrayThere])).andThen fun _ => ?_
  refine (either_accounted (Emitter.binary_accounted _ _ _ (by simp) (by simp [indexThere]))
    (Emitter.binary_accounted _ _ _ (by simp) (by simp [indexThere]))).andThen fun _ => ?_
  refine (loadConstant_accounted _).andThen fun _ => ?_
  refine (Emitter.binary_accounted _ _ _ (by simp [indexThere]) (by simp)).andThen fun _ => ?_
  refine (Emitter.binary_accounted _ _ _ (by simp) (by simp)).andThen fun _ => ?_
  refine (stopUnlessZero_accounted _ _ (by simp)).andThen fun _ => ?_
  refine (loadConstant_accounted _).andThen fun _ => ?_
  refine (Emitter.binary_accounted _ _ _ (by simp [indexThere]) (by simp)).andThen fun _ => ?_
  exact Emitter.binary_accounted _ _ _ (by simp [arrayThere]) (by simp)

end Lower

end DecafTac
