import DecafTac.Lower.Call
import DecafTac.Proofs.Tac.Paths

/-!
Issued code reads what is known. An instruction that takes a new temporary writes it, so the temporary
is known from there on; the tests of sizes and of bounds jump over the code that stops the program, and
what was known before them is known behind them.
-/
namespace DecafTac

namespace Emitter

/-- Taking a temporary issues nothing. -/
theorem temp_code (e : Emitter) : (temp e).code = [] := by
  cases opened : e.inFunction <;>
    simp [temp, allocate, Emission.bind_apply, Emission.get, Emission.modify, opened]

/-- A step that issues assigned code where the locations `known` are known, and with which those it gives
become known. -/
def Computes {α : Type} (vars known : List Location) (step : Emit α) (gives : α → List Location) : Prop :=
  ∀ e : Emitter, Assigned vars [] known (step e).code (gives (step e).value ++ known)

namespace Computes

variable {α β : Type} {vars known : List Location}

theorem pure (a : α) (gives : α → List Location) (within : gives a ⊆ known) :
    Computes vars known (Pure.pure a) gives := by
  intro e
  refine Assigned.nil.weaken (List.Subset.refl _) ?_ (List.Subset.refl _)
  exact List.append_subset.mpr ⟨within, List.Subset.refl _⟩

/-- One step after another, the second knowing what the first gives. -/
theorem bind {step : Emit α} {rest : α → Emit β} {gives : α → List Location}
    {gives' : β → List Location} (first : Computes vars known step gives)
    (second : ∀ a, Computes vars (gives a ++ known) (rest a) gives') :
    Computes vars known (step >>= rest) gives' := by
  intro e
  refine (first e).append ((second _ (step e).state).weaken (List.Subset.refl _) ?_ (List.Subset.refl _))
  exact List.append_subset.mpr ⟨List.subset_append_left .., fun _ old => by simp [old]⟩

/-- Reading the emitter gives no location. -/
theorem read : Computes vars known Emission.get fun _ => [] := fun _ => .nil

/-- An instruction that does not jump. -/
theorem issue (i : Instruction) (within : i.reads ⊆ known) (stays : i.target? = none) :
    Computes vars known (Emitter.issue i) fun _ => i.writes :=
  fun _ => .straight i within stays

/-- An instruction that writes a new temporary. -/
theorem produce (make : Location → Instruction) (within : ∀ dst, (make dst).reads ⊆ known)
    (stays : ∀ dst, (make dst).target? = none) (writes : ∀ dst, (make dst).writes = [dst]) :
    Computes vars known (do
      let dst ← temp
      Emitter.issue (make dst)
      return dst) fun dst => [dst] := by
  intro e
  simp only [Emission.bind_apply, Emission.pure_apply, Emitter.issue, temp_code, List.nil_append,
    List.append_nil]
  rw [← writes]
  exact .straight _ (within _) (stays _)

theorem loadConstant (value : Constant) :
    Computes vars known (Emitter.loadConstant value) fun dst => [dst] :=
  produce (.loadConstant · value) (fun _ => List.nil_subset _) (fun _ => rfl) fun _ => rfl

theorem loadLabel (name : String) : Computes vars known (Emitter.loadLabel name) fun dst => [dst] :=
  produce (.loadLabel · name) (fun _ => List.nil_subset _) (fun _ => rfl) fun _ => rfl

theorem load (addr : Location) (offset : Int) (there : addr ∈ known) :
    Computes vars known (Emitter.load addr offset) fun dst => [dst] :=
  produce (.load · addr offset) (by simp [Instruction.reads, there]) (fun _ => rfl) fun _ => rfl

theorem binary (op : TacOp) (left right : Location) (leftThere : left ∈ known)
    (rightThere : right ∈ known) :
    Computes vars known (Emitter.binary op left right) fun dst => [dst] :=
  produce (.binary op · left right) (by simp [Instruction.reads, leftThere, rightThere])
    (fun _ => rfl) fun _ => rfl

/-- A call writes the temporary for its result, when it has one. -/
private theorem call (hasResult : Bool) (make : Option Location → Instruction)
    (within : ∀ dst, (make dst).reads ⊆ known) (stays : ∀ dst, (make dst).target? = none)
    (writes : ∀ dst, (make dst).writes = dst.toList) :
    Computes vars known (do
      let dst ← resultTemp hasResult
      Emitter.issue (make dst)
      return dst) Option.toList := by
  cases hasResult with
  | true =>
    intro e
    have taken : resultTemp true e = ⟨some (temp e).value, (temp e).state, (temp e).code ++ []⟩ := rfl
    simp only [Emission.bind_apply, Emission.pure_apply, Emitter.issue, taken, temp_code,
      List.nil_append, List.append_nil]
    rw [← writes]
    exact .straight _ (within _) (stays _)
  | false =>
    have issued := @issue vars known (make none) (within none) (stays none)
    rw [writes none] at issued
    exact issued.bind fun _ => .pure none _ (List.nil_subset _)

theorem callLabel (label : String) (hasResult : Bool) :
    Computes vars known (Emitter.callLabel label hasResult) Option.toList :=
  call hasResult (.callLabel label) (fun _ => List.nil_subset _) (fun _ => rfl) fun _ => rfl

theorem callAddress (addr : Location) (hasResult : Bool) (there : addr ∈ known) :
    Computes vars known (Emitter.callAddress addr hasResult) Option.toList :=
  call hasResult (.callAddress addr) (by simp [Instruction.reads, there]) (fun _ => rfl) fun _ => rfl

theorem popParams (bytes : Int) : Computes vars known (Emitter.popParams bytes) fun _ => [] := by
  unfold Emitter.popParams
  split
  · exact issue _ (List.nil_subset _) rfl
  · exact .pure () _ (List.nil_subset _)

end Computes

end Emitter

namespace Lower

open Emitter

variable {vars known : List Location}

/-! ## Operators, objects and arrays -/

theorem request_computes (routine : Routine) (args : List Location) (there : args ⊆ known) :
    Computes vars known (request routine args) fun dst => [dst] :=
  .produce (fun dst => .callRoutine routine args (some dst)) (fun _ => there) (fun _ => rfl)
    fun _ => rfl

theorem either_computes {left right : Emit Location}
    (first : Computes vars known left fun dst => [dst])
    (second : ∀ dst, Computes vars ([dst] ++ known) right fun dst => [dst]) :
    Computes vars known (either left right) fun dst => [dst] :=
  first.bind fun _ => (second _).bind fun _ => .binary .or _ _ (by simp) (by simp)

theorem equality_computes (negated : Bool) (left right : Value) (leftThere : left.loc ∈ known)
    (rightThere : right.loc ∈ known) :
    Computes vars known (equality negated left right) fun dst => [dst] := by
  unfold equality
  split
  · exact request_computes _ _ (by simp [leftThere, rightThere])
  · refine (request_computes _ _ (by simp [leftThere, rightThere])).bind fun _ => ?_
    exact (Computes.loadConstant _).bind fun _ => .binary .equal _ _ (by simp) (by simp)
  · exact .binary .equal _ _ leftThere rightThere
  · exact either_computes (.binary .less _ _ rightThere leftThere) fun _ =>
      .binary .less _ _ (by simp [leftThere]) (by simp [rightThere])

/-- The location of a value, where a location is given. -/
private theorem tagged_computes {step : Emit Location} (tag : Tag)
    (computes : Computes vars known step fun dst => [dst]) :
    Computes vars known (do return (⟨← step, tag⟩ : Value)) fun value => [value.loc] :=
  computes.bind fun _ => .pure _ _ (by simp)

theorem binary_computes (op : BinaryOp) (left right : Value) (leftThere : left.loc ∈ known)
    (rightThere : right.loc ∈ known) :
    Computes vars known (binary op left right) fun value => [value.loc] := by
  cases op with
  | add | sub | mul | div | mod | and | or | lt =>
    exact tagged_computes _ (.binary _ _ _ leftThere rightThere)
  | gt => exact tagged_computes _ (.binary _ _ _ rightThere leftThere)
  | le =>
    exact tagged_computes _ (either_computes (.binary _ _ _ leftThere rightThere) fun _ =>
      .binary _ _ _ (by simp [leftThere]) (by simp [rightThere]))
  | ge =>
    exact tagged_computes _ (either_computes (.binary _ _ _ rightThere leftThere) fun _ =>
      .binary _ _ _ (by simp [leftThere]) (by simp [rightThere]))
  | eq | ne => exact tagged_computes _ (equality_computes _ left right leftThere rightThere)

theorem unary_computes (op : UnaryOp) (operand : Value) (there : operand.loc ∈ known) :
    Computes vars known (unary op operand) fun value => [value.loc] := by
  cases op with
  | neg =>
    refine (Computes.loadConstant _).bind fun _ => tagged_computes _ ?_
    exact .binary _ _ _ (by simp) (by simp [there])
  | not =>
    refine (Computes.loadConstant _).bind fun _ => ?_
    refine (Computes.binary _ _ _ (by simp [there]) (by simp)).bind fun _ => ?_
    refine (Computes.loadConstant _).bind fun _ => tagged_computes _ ?_
    exact .binary _ _ _ (by simp) (by simp)

theorem stop_computes (message : String) : Computes vars known (stop message) fun _ => [] := by
  refine (Computes.loadConstant _).bind fun _ => ?_
  refine (Computes.issue _ (by simp [Instruction.reads]) rfl).bind fun _ => ?_
  exact .issue _ (List.nil_subset _) rfl

/-- What is known before a test is known behind it, for the code that stops is skipped. -/
theorem stopUnlessZero_computes (test : Location) (message : String) (there : test ∈ known) :
    Computes vars known (stopUnlessZero test message) fun _ => [] :=
  fun e => .skip there (List.Subset.refl _) (stop_computes message { e with
    nextLabel := e.nextLabel + 1, issued := e.issued + 1 }) (List.Subset.refl _)

theorem newObject_computes (layout : ClassLayout) (cls : String) :
    Computes vars known (newObject layout cls) fun value => [value.loc] := by
  refine Computes.read.bind fun _ => ?_
  refine (Computes.loadConstant _).bind fun _ => ?_
  refine (request_computes _ _ (by simp)).bind fun _ => ?_
  refine (Computes.loadLabel _).bind fun _ => ?_
  refine (Computes.issue _ (by simp [Instruction.reads]) rfl).bind fun _ => ?_
  exact .pure _ _ (by simp)

theorem newArray_computes (size : Value) (element : Tag) (there : size.loc ∈ known) :
    Computes vars known (newArray size element) fun value => [value.loc] := by
  refine Computes.read.bind fun _ => ?_
  refine (Computes.loadConstant _).bind fun _ => ?_
  refine (Computes.binary _ _ _ (by simp [there]) (by simp)).bind fun _ => ?_
  refine (stopUnlessZero_computes _ _ (by simp)).bind fun _ => ?_
  refine (Computes.loadConstant _).bind fun _ => ?_
  refine (Computes.binary _ _ _ (by simp) (by simp [there])).bind fun _ => ?_
  refine (Computes.loadConstant _).bind fun _ => ?_
  refine (Computes.binary _ _ _ (by simp) (by simp)).bind fun _ => ?_
  refine (request_computes _ _ (by simp)).bind fun _ => ?_
  refine (Computes.issue _ (by simp [Instruction.reads, there]) rfl).bind fun _ => ?_
  exact .pure _ _ (by simp)

theorem elementAddress_computes (array index : Value) (arrayThere : array.loc ∈ known)
    (indexThere : index.loc ∈ known) :
    Computes vars known (elementAddress array index) fun dst => [dst] := by
  refine Computes.read.bind fun _ => ?_
  refine (Computes.load _ _ (by simp [arrayThere])).bind fun _ => ?_
  refine (either_computes (.binary _ _ _ (by simp) (by simp [indexThere])) fun _ =>
    .binary _ _ _ (by simp) (by simp [indexThere])).bind fun _ => ?_
  refine (Computes.loadConstant _).bind fun _ => ?_
  refine (Computes.binary _ _ _ (by simp [indexThere]) (by simp)).bind fun _ => ?_
  refine (Computes.binary _ _ _ (by simp) (by simp)).bind fun _ => ?_
  refine (stopUnlessZero_computes _ _ (by simp)).bind fun _ => ?_
  refine (Computes.loadConstant _).bind fun _ => ?_
  refine (Computes.binary _ _ _ (by simp [indexThere]) (by simp)).bind fun _ => ?_
  exact .binary _ _ _ (by simp [arrayThere]) (by simp)

theorem pushAll_computes (params : List Location) (there : params ⊆ known) :
    Computes vars known (pushAll params) fun _ => [] := by
  induction params with
  | nil => exact .pure _ _ (List.nil_subset _)
  | cons param rest ih =>
    rw [List.cons_subset] at there
    exact (Computes.issue _ (by simp [Instruction.reads, there.1]) rfl).bind fun _ => ih there.2

end Lower

end DecafTac
