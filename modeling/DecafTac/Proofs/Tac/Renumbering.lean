import Mathlib.Data.List.Forall2
import DecafTac.Lower.Call
import DecafTac.Lower.Heap

/-!
The same code with other numbers. Temporaries and labels are numbered through the whole program, so what
is issued depends on what was issued before it. It depends on nothing else of that: from two emitters
that differ in their next numbers only, a step issues the same instructions, up to the numbers from which
the two count.
-/
namespace DecafTac

/-- From where two listings count their temporaries and their labels, and the names that are the same in
both. -/
structure Renumbering where
  /-- The names of variables. -/
  names : List String
  temps : Nat × Nat
  labels : Nat × Nat

namespace Renumbering

/-- Labels that stand at the same place of the two counts. -/
def Label (r : Renumbering) (one other : String) : Prop :=
  ∃ n, one = Emitter.labelName (r.labels.1 + n) ∧ other = Emitter.labelName (r.labels.2 + n)

/-- Locations that are the same up to the numbers: a variable is where it is, and temporaries stand at the
same place of the two counts and have the same slot. -/
inductive Loc (r : Renumbering) : Location → Location → Prop where
  | kept {loc : Location} (named : loc.name ∈ r.names) : Loc r loc loc
  | temp (n : Nat) (segment : Segment) (offset : Int) :
      Loc r ⟨Emitter.tempName (r.temps.1 + n), segment, offset⟩
        ⟨Emitter.tempName (r.temps.2 + n), segment, offset⟩

/-- Instructions of a body that are the same up to the numbers. Labels of functions and tables have no
number. -/
inductive Instr (r : Renumbering) : Instruction → Instruction → Prop where
  | loadConstant {dst dst' : Location} (value : Constant) (stored : r.Loc dst dst') :
      Instr r (.loadConstant dst value) (.loadConstant dst' value)
  | loadLabel {dst dst' : Location} (label : String) (stored : r.Loc dst dst') :
      Instr r (.loadLabel dst label) (.loadLabel dst' label)
  | assign {dst dst' src src' : Location} (stored : r.Loc dst dst') (source : r.Loc src src') :
      Instr r (.assign dst src) (.assign dst' src')
  | load {dst dst' addr addr' : Location} (offset : Int) (stored : r.Loc dst dst')
      (source : r.Loc addr addr') : Instr r (.load dst addr offset) (.load dst' addr' offset)
  | store {addr addr' src src' : Location} (offset : Int) (stored : r.Loc addr addr')
      (source : r.Loc src src') : Instr r (.store addr src offset) (.store addr' src' offset)
  | binary {dst dst' left left' right right' : Location} (op : TacOp) (stored : r.Loc dst dst')
      (first : r.Loc left left') (second : r.Loc right right') :
      Instr r (.binary op dst left right) (.binary op dst' left' right')
  | label {name name' : String} (numbered : r.Label name name') : Instr r (.label name) (.label name')
  | jump {name name' : String} (numbered : r.Label name name') : Instr r (.jump name) (.jump name')
  | jumpIfZero {test test' : Location} {name name' : String} (tested : r.Loc test test')
      (numbered : r.Label name name') : Instr r (.jumpIfZero test name) (.jumpIfZero test' name')
  | ret {value value' : Option Location} (given : Option.Rel r.Loc value value') :
      Instr r (.ret value) (.ret value')
  | pushParam {param param' : Location} (pushed : r.Loc param param') :
      Instr r (.pushParam param) (.pushParam param')
  | popParams (bytes : Int) : Instr r (.popParams bytes) (.popParams bytes)
  | callLabel {dst dst' : Option Location} (label : String) (stored : Option.Rel r.Loc dst dst') :
      Instr r (.callLabel label dst) (.callLabel label dst')
  | callAddress {addr addr' : Location} {dst dst' : Option Location} (called : r.Loc addr addr')
      (stored : Option.Rel r.Loc dst dst') :
      Instr r (.callAddress addr dst) (.callAddress addr' dst')
  | callRoutine {args args' : List Location} {dst dst' : Option Location} (routine : Routine)
      (passed : List.Forall₂ r.Loc args args') (stored : Option.Rel r.Loc dst dst') :
      Instr r (.callRoutine routine args dst) (.callRoutine routine args' dst')

/-- Values of one tag whose locations are the same up to the numbers. -/
inductive Val (r : Renumbering) : Value → Value → Prop where
  | mk {loc loc' : Location} {tag : Tag} (kept : r.Loc loc loc') : Val r ⟨loc, tag⟩ ⟨loc', tag⟩

theorem Val.loc {r : Renumbering} {v v' : Value} (alike : r.Val v v') : r.Loc v.loc v'.loc := by
  cases alike
  assumption

/-- Emitters that differ in their next numbers only, which stand at the same place of the two counts. -/
structure Emitters (r : Renumbering) (one other : Emitter) : Prop where
  shape : one.shape = other.shape
  locals : one.locals = other.locals
  globals : one.globals = other.globals
  inFunction : one.inFunction = other.inFunction
  temps : ∃ n, one.nextTemp = r.temps.1 + n ∧ other.nextTemp = r.temps.2 + n
  labels : ∃ n, one.nextLabel = r.labels.1 + n ∧ other.nextLabel = r.labels.2 + n

variable {α β : Type} {r : Renumbering} {gives : α → α → Prop} {gives' : β → β → Prop}

/-- Two steps that issue the same from such emitters, up to the numbers, and whose values are related. -/
def Emits (r : Renumbering) (gives : α → α → Prop) (step step' : Emit α) : Prop :=
  ∀ e e', r.Emitters e e' → r.Emitters (step e).state (step' e').state ∧
    List.Forall₂ r.Instr (step e).code (step' e').code ∧ gives (step e).value (step' e').value

namespace Emits

theorem pure {a a' : α} (given : gives a a') : r.Emits gives (Pure.pure a) (Pure.pure a') :=
  fun _ _ alike => ⟨alike, .nil, given⟩

theorem bind {step step' : Emit α} {rest rest' : α → Emit β} (first : r.Emits gives step step')
    (second : ∀ a a', gives a a' → r.Emits gives' (rest a) (rest' a')) :
    r.Emits gives' (step >>= rest) (step' >>= rest') := by
  intro e e' alike
  obtain ⟨alike₁, code₁, given₁⟩ := first e e' alike
  obtain ⟨alike₂, code₂, given₂⟩ := second _ _ given₁ _ _ alike₁
  exact ⟨alike₂, List.rel_append code₁ code₂, given₂⟩

theorem issue {i i' : Instruction} (alike : r.Instr i i') :
    r.Emits (fun _ _ => True) (Emitter.issue i) (Emitter.issue i') :=
  fun _ _ same => ⟨⟨same.shape, same.locals, same.globals, same.inFunction, same.temps, same.labels⟩,
    .cons alike .nil, trivial⟩

theorem get : r.Emits r.Emitters Emission.get Emission.get :=
  fun _ _ alike => ⟨alike, .nil, alike⟩

end Emits

open Emitter

/-! ## Storage and labels -/

theorem freshLabel_emits : r.Emits r.Label freshLabel freshLabel := by
  intro e e' alike
  obtain ⟨n, one, other⟩ := alike.labels
  refine ⟨{ alike with labels := ⟨n + 1, ?_, ?_⟩ }, .nil, n, ?_, ?_⟩
  · exact congrArg (· + 1) one
  · exact congrArg (· + 1) other
  · exact congrArg labelName one
  · exact congrArg labelName other

/-- The slot that is given does not depend on the name that it is given to. -/
theorem allocate_alike {e e' : Emitter} (alike : r.Emitters e e') (name name' : String) :
    r.Emitters (allocate name e).state (allocate name' e').state ∧
      (allocate name e).code = [] ∧ (allocate name' e').code = [] ∧
      ∃ segment offset, (allocate name e).value = ⟨name, segment, offset⟩ ∧
        (allocate name' e').value = ⟨name', segment, offset⟩ := by
  obtain ⟨shape, _, _, locals, globals, inFunction, _⟩ := e
  obtain ⟨shape', _, _, locals', globals', inFunction', _⟩ := e'
  obtain ⟨rfl, rfl, rfl, rfl, temps, labels⟩ := alike
  cases inFunction with
  | true => exact ⟨⟨rfl, rfl, rfl, rfl, temps, labels⟩, rfl, rfl, _, _, rfl, rfl⟩
  | false => exact ⟨⟨rfl, rfl, rfl, rfl, temps, labels⟩, rfl, rfl, _, _, rfl, rfl⟩

/-- A variable is given the same location. -/
theorem allocate_emits {name : String} (named : name ∈ r.names) :
    r.Emits (fun loc loc' => loc = loc' ∧ loc.name ∈ r.names) (allocate name) (allocate name) := by
  intro e e' alike
  obtain ⟨after, quiet, quiet', segment, offset, one, other⟩ := allocate_alike alike name name
  rw [quiet, quiet', one, other]
  exact ⟨after, .nil, rfl, named⟩

theorem temp_emits : r.Emits r.Loc temp temp := by
  intro e e' alike
  obtain ⟨n, one, other⟩ := alike.temps
  have counted : r.Emitters { e with nextTemp := e.nextTemp + 1 }
      { e' with nextTemp := e'.nextTemp + 1 } :=
    { alike with temps := ⟨n + 1, congrArg (· + 1) one, congrArg (· + 1) other⟩ }
  obtain ⟨after, quiet, quiet', segment, offset, given, given'⟩ :=
    allocate_alike counted (tempName e.nextTemp) (tempName e'.nextTemp)
  simp only [temp, Emission.bind_apply, Emission.get, Emission.modify, quiet, quiet', given, given']
  rw [one, other] at *
  exact ⟨after, .nil, .temp n segment offset⟩

/-! ## Values and calls -/

/-- An instruction that writes a new temporary. -/
theorem produce_emits {make make' : Location → Instruction}
    (alike : ∀ dst dst', r.Loc dst dst' → r.Instr (make dst) (make' dst')) :
    r.Emits r.Loc (do let dst ← temp; issue (make dst); return dst)
      (do let dst ← temp; issue (make' dst); return dst) :=
  temp_emits.bind fun dst dst' stored =>
    (Emits.issue (alike dst dst' stored)).bind fun _ _ _ => .pure stored

theorem loadConstant_emits (value : Constant) :
    r.Emits r.Loc (loadConstant value) (loadConstant value) :=
  produce_emits fun _ _ => .loadConstant value

theorem loadLabel_emits (name : String) : r.Emits r.Loc (loadLabel name) (loadLabel name) :=
  produce_emits fun _ _ => .loadLabel name

theorem load_emits {addr addr' : Location} (source : r.Loc addr addr') (offset : Int) :
    r.Emits r.Loc (load addr offset) (load addr' offset) :=
  produce_emits fun _ _ stored => .load offset stored source

theorem binary_emits (op : TacOp) {left left' right right' : Location} (first : r.Loc left left')
    (second : r.Loc right right') : r.Emits r.Loc (binary op left right) (binary op left' right') :=
  produce_emits fun _ _ stored => .binary op stored first second

/-- A call that gives a value when there is one. -/
theorem call_emits (hasResult : Bool) {make make' : Option Location → Instruction}
    (alike : ∀ dst dst', Option.Rel r.Loc dst dst' → r.Instr (make dst) (make' dst')) :
    r.Emits (Option.Rel r.Loc) (do let dst ← resultTemp hasResult; issue (make dst); return dst)
      (do let dst ← resultTemp hasResult; issue (make' dst); return dst) := by
  have taken : r.Emits (Option.Rel r.Loc) (resultTemp hasResult) (resultTemp hasResult) := by
    cases hasResult with
    | true => exact temp_emits.bind fun _ _ stored => .pure (.some stored)
    | false => exact .pure .none
  exact taken.bind fun dst dst' stored =>
    (Emits.issue (alike dst dst' stored)).bind fun _ _ _ => .pure stored

theorem callLabel_emits (label : String) (hasResult : Bool) :
    r.Emits (Option.Rel r.Loc) (callLabel label hasResult) (callLabel label hasResult) :=
  call_emits hasResult fun _ _ => .callLabel label

theorem callAddress_emits {addr addr' : Location} (called : r.Loc addr addr') (hasResult : Bool) :
    r.Emits (Option.Rel r.Loc) (callAddress addr hasResult) (callAddress addr' hasResult) :=
  call_emits hasResult fun _ _ => .callAddress called

theorem popParams_emits (bytes : Int) :
    r.Emits (fun _ _ => True) (popParams bytes) (popParams bytes) := by
  unfold popParams
  split
  · exact .issue (.popParams bytes)
  · exact .pure trivial

theorem pushAll_emits {params params' : List Location} (alike : List.Forall₂ r.Loc params params') :
    r.Emits (fun _ _ => True) (Lower.pushAll params) (Lower.pushAll params') := by
  induction alike with
  | nil => exact .pure trivial
  | cons pushed _ ih => exact (Emits.issue (.pushParam pushed)).bind fun _ _ _ => ih

/-! ## Operators, objects and arrays -/

open Lower (request either equality unary stop stopUnlessZero newObject newArray elementAddress)

theorem request_emits (routine : Routine) {args args' : List Location}
    (passed : List.Forall₂ r.Loc args args') :
    r.Emits r.Loc (request routine args) (request routine args') :=
  produce_emits fun _ _ stored => .callRoutine routine passed (.some stored)

theorem either_emits {left left' right right' : Emit Location} (first : r.Emits r.Loc left left')
    (second : r.Emits r.Loc right right') :
    r.Emits r.Loc (either left right) (either left' right') :=
  first.bind fun _ _ one => second.bind fun _ _ two => binary_emits .or one two

theorem equality_emits (negated : Bool) {left left' right right' : Value} (first : r.Val left left')
    (second : r.Val right right') :
    r.Emits r.Loc (equality negated left right) (equality negated left' right') := by
  obtain ⟨one⟩ := first
  have two := second.loc
  simp only [equality]
  split
  · exact request_emits _ (.cons one (.cons two .nil))
  · refine (request_emits _ (.cons one (.cons two .nil))).bind fun _ _ same => ?_
    exact (loadConstant_emits _).bind fun _ _ zero => binary_emits .equal same zero
  · exact binary_emits .equal one two
  · exact either_emits (binary_emits .less two one) (binary_emits .less one two)

/-- A location with a tag, where a location is given. -/
theorem tagged_emits (tag : Tag) {step step' : Emit Location} (given : r.Emits r.Loc step step') :
    r.Emits r.Val (do return (⟨← step, tag⟩ : Value)) (do return (⟨← step', tag⟩ : Value)) :=
  given.bind fun _ _ kept => .pure ⟨kept⟩

theorem operator_emits (op : BinaryOp) {left left' right right' : Value} (first : r.Val left left')
    (second : r.Val right right') :
    r.Emits r.Val (Lower.binary op left right) (Lower.binary op left' right') := by
  have operands := And.intro first second
  obtain ⟨one⟩ := first
  have two := second.loc
  cases op with
  | add | sub | mul | div | mod | and | or | lt => exact tagged_emits _ (binary_emits _ one two)
  | gt => exact tagged_emits _ (binary_emits _ two one)
  | le => exact tagged_emits _ (either_emits (binary_emits _ one two) (binary_emits _ one two))
  | ge => exact tagged_emits _ (either_emits (binary_emits _ two one) (binary_emits _ one two))
  | eq | ne => exact tagged_emits _ (equality_emits _ operands.1 operands.2)

theorem unary_emits (op : UnaryOp) {operand operand' : Value} (alike : r.Val operand operand') :
    r.Emits r.Val (unary op operand) (unary op operand') := by
  obtain ⟨kept⟩ := alike
  cases op with
  | neg => exact (loadConstant_emits _).bind fun _ _ zero => tagged_emits _ (binary_emits _ zero kept)
  | not =>
    refine (loadConstant_emits _).bind fun _ _ one => ?_
    refine (binary_emits _ kept one).bind fun _ _ sum => ?_
    exact (loadConstant_emits _).bind fun _ _ two => tagged_emits _ (binary_emits _ sum two)

theorem stop_emits (message : String) : r.Emits (fun _ _ => True) (stop message) (stop message) := by
  refine (loadConstant_emits _).bind fun _ _ text => ?_
  refine (Emits.issue (.callRoutine _ (.cons text .nil) .none)).bind fun _ _ _ => ?_
  exact .issue (.callRoutine _ .nil .none)

theorem stopUnlessZero_emits {test test' : Location} (tested : r.Loc test test') (message : String) :
    r.Emits (fun _ _ => True) (stopUnlessZero test message) (stopUnlessZero test' message) := by
  refine freshLabel_emits.bind fun _ _ fine => ?_
  refine (Emits.issue (.jumpIfZero tested fine)).bind fun _ _ _ => ?_
  exact (stop_emits message).bind fun _ _ _ => .issue (.label fine)

theorem newObject_emits (layout : ClassLayout) (cls : String) :
    r.Emits r.Val (newObject layout cls) (newObject layout cls) := by
  refine Emits.get.bind fun e e' alike => ?_
  rw [alike.shape]
  refine (loadConstant_emits _).bind fun _ _ size => ?_
  refine (request_emits _ (.cons size .nil)).bind fun _ _ object => ?_
  refine (loadLabel_emits _).bind fun _ _ table => ?_
  exact (Emits.issue (.store _ object table)).bind fun _ _ _ => .pure ⟨object⟩

theorem newArray_emits {size size' : Value} (element : Tag) (alike : r.Val size size') :
    r.Emits r.Val (newArray size element) (newArray size' element) := by
  have kept := alike.loc
  refine Emits.get.bind fun e e' same => ?_
  rw [same.shape]
  refine (loadConstant_emits _).bind fun _ _ zero => ?_
  refine (binary_emits _ kept zero).bind fun _ _ negative => ?_
  refine (stopUnlessZero_emits negative _).bind fun _ _ _ => ?_
  refine (loadConstant_emits _).bind fun _ _ one => ?_
  refine (binary_emits _ one kept).bind fun _ _ count => ?_
  refine (loadConstant_emits _).bind fun _ _ width => ?_
  refine (binary_emits _ count width).bind fun _ _ bytes => ?_
  refine (request_emits _ (.cons bytes .nil)).bind fun _ _ array => ?_
  exact (Emits.issue (.store _ array kept)).bind fun _ _ _ => .pure ⟨array⟩

theorem elementAddress_emits {array array' index index' : Value} (first : r.Val array array')
    (second : r.Val index index') :
    r.Emits r.Loc (elementAddress array index) (elementAddress array' index') := by
  have base := first.loc
  have position := second.loc
  refine Emits.get.bind fun e e' same => ?_
  rw [same.shape]
  refine (load_emits base _).bind fun _ _ length => ?_
  refine (either_emits (binary_emits _ length position) (binary_emits _ length position)).bind
    fun _ _ tooBig => ?_
  refine (loadConstant_emits _).bind fun _ _ zero => ?_
  refine (binary_emits _ position zero).bind fun _ _ negative => ?_
  refine (binary_emits _ tooBig negative).bind fun _ _ outside => ?_
  refine (stopUnlessZero_emits outside _).bind fun _ _ _ => ?_
  refine (loadConstant_emits _).bind fun _ _ width => ?_
  refine (binary_emits _ position width).bind fun _ _ scaled => ?_
  exact binary_emits _ base scaled

end Renumbering

end DecafTac
