import DecafTac.Proofs.Lower.Bracketing
import DecafTac.Proofs.Tac.Assignment

/-!
Temporaries are written before they are read. Within an expression, what was computed stays known to its
end, across the tests of sizes and of bounds; from one statement to the next only the variables are known,
however control came there. So whatever the lowered code of a function reads is a variable of it, or was
written on the way.
-/
namespace DecafTac

namespace Lower

/-! ## Expressions -/

section Steps

variable {α β : Type} {vars known : List Location}

/-- What is declared after a step that succeeds. -/
theorem declared_after {step : Lower α} {rest : α → LowerState → List (DeclId × Location)}
    {s t : LowerState} {a : α} {code : List Instruction} (run : step s = ⟨.ok a, t, code⟩)
    (within : (after step rest s).map Prod.snd ⊆ vars) : (rest a t).map Prod.snd ⊆ vars := by
  rwa [after_ok (by rw [run]), run] at within

/-- A step of lowering an expression that issues assigned code when it succeeds: where the bindings are
variables and variables are known, the locations that it gives become known. -/
def Computes (vars known : List Location) (step : Lower α) (gives : α → List Location) : Prop :=
  vars ⊆ known → ∀ s a t code, step s = ⟨.ok a, t, code⟩ → s.locations ⊆ vars →
    Assigned vars [] known code (gives a ++ known) ∧ t.locations ⊆ vars ∧ t.loops = s.loops

namespace Computes

/-- A step that issues nothing and keeps the state. -/
private theorem still {step : Lower α} {gives : α → List Location}
    (same : ∀ s a t code, step s = ⟨.ok a, t, code⟩ → t = s ∧ code = [])
    (within : ∀ s a t code, step s = ⟨.ok a, t, code⟩ → vars ⊆ known → s.locations ⊆ vars →
      gives a ⊆ known) : Computes vars known step gives := by
  intro knows s a t code run fits
  obtain ⟨rfl, rfl⟩ := same s a t code run
  refine ⟨Assigned.nil.weaken (List.Subset.refl _) ?_ (List.Subset.refl _), fits, rfl⟩
  exact List.append_subset.mpr ⟨within _ a _ [] run knows fits, List.Subset.refl _⟩

theorem pure (a : α) (gives : α → List Location) (within : gives a ⊆ known) :
    Computes vars known (Pure.pure a) gives :=
  still (fun _ _ _ _ run => by cases run; exact ⟨rfl, rfl⟩) fun _ _ _ _ run _ _ => by
    cases run
    exact within

theorem fail (error : LowerError) (gives : α → List Location) :
    Computes vars known (Lower.fail error) gives := fun _ _ _ _ _ run => nomatch run

theorem ofOption (error : LowerError) (found : Option α) (gives : α → List Location)
    (within : ∀ a, found = some a → gives a ⊆ known) :
    Computes vars known (Lower.ofOption error found) gives := by
  cases found with
  | none => exact .fail error gives
  | some a => exact .pure a gives (within a rfl)

/-- The locations of a state are known. -/
theorem get : Computes vars known Lower.get LowerState.locations :=
  still (fun _ _ _ _ run => by cases run; exact ⟨rfl, rfl⟩) fun _ _ _ _ run knows fits => by
    cases run
    exact List.Subset.trans fits knows

theorem shape : Computes vars known Lower.shape fun _ => [] :=
  still (fun _ _ _ _ run => by cases run; exact ⟨rfl, rfl⟩) fun _ _ _ _ _ _ _ => List.nil_subset _

/-- One step after another, the second knowing what the first gives. -/
theorem bind {step : Lower α} {rest : α → Lower β} {gives : α → List Location}
    {gives' : β → List Location} (first : Computes vars known step gives)
    (second : ∀ a, Computes vars (gives a ++ known) (rest a) gives') :
    Computes vars known (step >>= rest) gives' := by
  intro knows s b u code run fits
  obtain ⟨a, t, code₁, code₂, one, two, rfl⟩ := bind_run run
  obtain ⟨assigned₁, fits₁, loops₁⟩ := first knows s a t code₁ one fits
  obtain ⟨assigned₂, fits₂, loops₂⟩ := second a (List.subset_append_of_subset_right _ knows) t b u code₂
    two fits₁
  refine ⟨assigned₁.append (assigned₂.weaken (List.Subset.refl _) ?_ (List.Subset.refl _)), fits₂,
    loops₂.trans loops₁⟩
  exact List.append_subset.mpr ⟨List.subset_append_left .., fun _ old => by simp [old]⟩

theorem emit {step : Emit α} {gives : α → List Location}
    (computes : Emitter.Computes vars known step gives) : Computes vars known (Lower.emit step) gives := by
  intro _ s a t code run fits
  obtain ⟨rfl, rfl, rfl⟩ := emit_run run
  exact ⟨computes s.emitter, fits, rfl⟩

/-- Giving a name another tag changes no location. -/
theorem retag (name : String) (tag : Tag) :
    Computes vars known (Lower.modify fun s => s.retag name tag) fun _ => [] := by
  intro _ s _ _ _ run fits
  cases run
  have loops : (s.retag name tag).loops = s.loops := by
    unfold LowerState.retag
    split <;> rfl
  exact ⟨.nil, (retag_locations s name tag).symm ▸ fits, loops⟩

end Computes

end Steps

section Expressions

variable {vars known : List Location} (layouts : Layouts)

theorem classLayout_computes (name : String) :
    Computes vars known (classLayout layouts name) fun _ => [] :=
  .ofOption _ _ _ (by simp)

theorem layoutOf_computes (value : Value) :
    Computes vars known (layoutOf layouts value) fun _ => [] := by
  unfold layoutOf
  split
  · exact classLayout_computes layouts _
  · exact .fail _ _

theorem fieldPlace_computes (layout : ClassLayout) (object : Location) (field : String)
    (there : object ∈ known) :
    Computes vars known (fieldPlace layout object field) Place.locations := by
  refine (Computes.ofOption _ _ (fun _ => []) (by simp)).bind fun _ => ?_
  refine Computes.shape.bind fun _ => ?_
  exact .pure _ _ (by simp [Place.locations, there])

theorem namePlace_computes (name : String) : Computes vars known (namePlace name) Place.locations := by
  refine Computes.get.bind fun s => ?_
  have globalPlace : Computes vars (s.locations ++ known) (namePlace.globalPlace name s)
      Place.locations := by
    unfold namePlace.globalPlace
    split
    · rename_i value found
      refine .pure _ _ ?_
      simp only [Place.locations, LowerState.locations, List.cons_subset, List.nil_subset, and_true]
      exact List.mem_append_left _ (List.mem_append_right _ (global_location found))
    · exact .fail _ _
  split
  · rename_i value found
    refine .pure _ _ ?_
    simp only [Place.locations, LowerState.locations, List.cons_subset, List.nil_subset, and_true]
    exact List.mem_append_left _ (List.mem_append_left _ (List.mem_append_left _ (lookup_location found)))
  · split
    · rename_i method found
      split
      · refine fieldPlace_computes _ _ _ ?_
        simp [LowerState.locations, found]
      · exact globalPlace
    · exact globalPlace

theorem elementPlace_computes (array index : Value) (arrayThere : array.loc ∈ known)
    (indexThere : index.loc ∈ known) :
    Computes vars known (elementPlace array index) Place.locations := by
  refine (Computes.emit (elementAddress_computes array index arrayThere indexThere)).bind fun _ => ?_
  refine Computes.shape.bind fun _ => ?_
  exact .pure _ _ (by simp [Place.locations])

theorem read_computes (place : Place) (there : place.locations ⊆ known) :
    Computes vars known (read place) fun value => [value.loc] := by
  cases place with
  | «variable» name value => exact .pure _ _ there
  | computed value => exact .pure _ _ there
  | memory addr offset tag =>
    have there : addr ∈ known := there List.mem_cons_self
    refine (Computes.emit (.load addr offset there)).bind fun _ => ?_
    exact .pure _ _ (by simp)

theorem write_computes (place : Place) (value : Value) (placeThere : place.locations ⊆ known)
    (valueThere : value.loc ∈ known) : Computes vars known (write place value) fun _ => [] := by
  have assigned (dst : Location) :
      Computes vars known (emit (Emitter.assign dst value.loc)) fun _ => [dst] :=
    .emit (.issue _ (by simp [Instruction.reads, valueThere]) rfl)
  cases place with
  | «variable» name dst =>
    refine (assigned dst.loc).bind fun _ => ?_
    split
    · exact .retag name value.tag
    · exact .pure _ _ (by simp)
  | memory addr offset tag =>
    have addrThere : addr ∈ known := placeThere List.mem_cons_self
    exact .emit (.issue _ (by simp [Instruction.reads, addrThere, valueThere]) rfl)
  | computed dst => exact (assigned dst.loc).bind fun _ => .pure _ _ (by simp)

theorem callMethod_computes (receiver : Value) (name : String) (args : List Value)
    (receiverThere : receiver.loc ∈ known) (argsThere : args.map Value.loc ⊆ known) :
    Computes vars known (callMethod layouts receiver name args)
      fun result => (result.map Value.loc).toList := by
  refine (layoutOf_computes layouts receiver).bind fun layout => ?_
  refine (Computes.ofOption _ _ (fun _ => []) (by simp)).bind fun slot => ?_
  refine Computes.shape.bind fun shape => ?_
  have pushed : args.reverse.map Value.loc ++ [receiver.loc] ⊆ known := by
    rw [List.map_reverse]
    refine List.append_subset.mpr ⟨fun _ member => argsThere (List.mem_reverse.mp member), ?_⟩
    simpa using receiverThere
  refine (Computes.emit (?_ : Emitter.Computes vars known _ Option.toList)).bind fun dst => ?_
  · refine (Emitter.Computes.load _ _ receiverThere).bind fun _ => ?_
    refine (Emitter.Computes.load _ _ (by simp)).bind fun _ => ?_
    refine (pushAll_computes _ fun loc member => by simp [pushed member]).bind fun _ => ?_
    refine (Emitter.Computes.callAddress _ _ (by simp)).bind fun _ => ?_
    refine (Emitter.Computes.popParams _).bind fun _ => ?_
    exact .pure _ _ (by simp)
  · exact .pure _ _ (by cases dst <;> simp)

theorem callFunction_computes (name : String) (args : List Value)
    (argsThere : args.map Value.loc ⊆ known) :
    Computes vars known (callFunction layouts name args)
      fun result => (result.map Value.loc).toList := by
  refine (Computes.ofOption _ _ (fun _ => []) (by simp)).bind fun function => ?_
  refine Computes.shape.bind fun shape => ?_
  refine (Computes.emit (?_ : Emitter.Computes vars known _ Option.toList)).bind fun dst => ?_
  · refine (pushAll_computes _ ?_).bind fun _ => ?_
    · rw [List.map_reverse]
      exact fun _ member => argsThere (List.mem_reverse.mp member)
    · refine (Emitter.Computes.callLabel _ _).bind fun _ => ?_
      refine (Emitter.Computes.popParams _).bind fun _ => ?_
      exact .pure _ _ (by simp)
  · exact .pure _ _ (by cases dst <;> simp)

theorem callBare_computes (name : String) {args : Lower (List Value)}
    (argsCompute : ∀ known, Computes vars known args fun values => values.map Value.loc) :
    Computes vars known (callBare layouts name args) fun result => (result.map Value.loc).toList := by
  refine Computes.get.bind fun s => ?_
  refine (argsCompute _).bind fun values => ?_
  split
  · rename_i method found
    split
    · exact callMethod_computes layouts _ _ _ (by simp [LowerState.locations, found]) (by simp)
    · exact callFunction_computes layouts _ _ (by simp)
  · exact callFunction_computes layouts _ _ (by simp)

theorem callOn_computes (name : String) (noArgs : Bool) {receiver : Lower Value}
    {args : Lower (List Value)} (receiverComputes : Computes vars known receiver fun value => [value.loc])
    (argsCompute : ∀ known, Computes vars known args fun values => values.map Value.loc) :
    Computes vars known (callOn layouts receiver name noArgs args)
      fun result => (result.map Value.loc).toList := by
  refine receiverComputes.bind fun object => ?_
  split
  · refine (Computes.emit (.load _ _ (by simp))).bind fun _ => ?_
    exact .pure _ _ (by simp)
  · refine (argsCompute _).bind fun values => ?_
    exact callMethod_computes layouts _ _ _ (by simp) (by simp)

theorem needed_computes (name : String) {call : Lower (Option Value)}
    (callComputes : Computes vars known call fun result => (result.map Value.loc).toList) :
    Computes vars known (needed name call) fun value => [value.loc] := by
  refine callComputes.bind fun result => ?_
  refine .ofOption _ _ _ ?_
  rintro value rfl
  simp

mutual

/-- Lowering an expression gives assigned code, and the place that it names is known. -/
theorem place_computes (known : List Location) :
    ∀ e : Expr, Computes vars known (place layouts e) Place.locations
  | .int .. | .double .. | .bool .. | .string .. =>
    (Computes.emit (.loadConstant _)).bind fun _ => .pure _ _ (by simp [Place.locations])
  | .null _ =>
    Computes.shape.bind fun _ =>
      (Computes.emit (.loadConstant _)).bind fun _ =>
        (Computes.emit (request_computes _ _ (by simp))).bind fun _ =>
          .pure _ _ (by simp [Place.locations])
  | .binary _ op left right =>
    (operand_computes known left).bind fun l =>
      (operand_computes _ right).bind fun r =>
        (Computes.emit (binary_computes op l r (by simp) (by simp))).bind fun _ =>
          .pure _ _ (by simp [Place.locations])
  | .unary _ op operand =>
    (operand_computes known operand).bind fun value =>
      (Computes.emit (unary_computes op value (by simp))).bind fun _ =>
        .pure _ _ (by simp [Place.locations])
  | .assign _ target value =>
    (place_computes known target).bind fun dst =>
      (operand_computes _ value).bind fun v =>
        (write_computes dst v (by simp) (by simp)).bind fun _ =>
          .pure _ _ (by simp [Place.locations])
  | .name _ name => namePlace_computes name.name
  | .field _ object name =>
    (operand_computes known object).bind fun value =>
      (layoutOf_computes layouts value).bind fun _ => fieldPlace_computes _ _ _ (by simp)
  | .element _ array index =>
    (operand_computes known array).bind fun a =>
      (operand_computes _ index).bind fun i => elementPlace_computes a i (by simp) (by simp)
  | .call _ name actuals =>
    (needed_computes name.name (callBare_computes layouts name.name fun known =>
      values_computes known actuals)).bind fun _ => .pure _ _ (by simp [Place.locations])
  | .send _ receiver name actuals =>
    (needed_computes name.name (callOn_computes layouts name.name actuals.isEmpty
      (operand_computes known receiver) fun known => values_computes known actuals)).bind
      fun _ => .pure _ _ (by simp [Place.locations])
  | .new _ cls =>
    (classLayout_computes layouts cls.name).bind fun layout =>
      (Computes.emit (newObject_computes layout cls.name)).bind fun _ =>
        .pure _ _ (by simp [Place.locations])
  | .newArray _ size element =>
    (operand_computes known size).bind fun value =>
      (Computes.emit (newArray_computes value _ (by simp))).bind fun _ =>
        .pure _ _ (by simp [Place.locations])
  | .this _ =>
    Computes.get.bind fun s =>
      (Computes.ofOption _ s.method (fun method => [method.this.loc]) (by
        intro method found
        simp [LowerState.locations, found])).bind fun _ => .pure _ _ (by simp [Place.locations])
  | .readInteger _ | .readLine _ =>
    (Computes.emit (request_computes _ _ (by simp))).bind fun _ => .pure _ _ (by simp [Place.locations])
  | .knot id => .fail _ _

/-- The value of an expression is known. -/
theorem operand_computes (known : List Location) :
    ∀ e : Expr, Computes vars known (place layouts e >>= read) fun value => [value.loc]
  | e => (place_computes known e).bind fun made => read_computes made (by simp)

theorem values_computes (known : List Location) :
    ∀ es : List Expr, Computes vars known (values layouts es) fun values => values.map Value.loc
  | [] => .pure _ _ (by simp)
  | e :: rest =>
    (operand_computes known e).bind fun _ =>
      (values_computes _ rest).bind fun _ => .pure _ _ (by simp)

end

theorem effect_computes (e : Expr) : Computes vars known (effect layouts e) fun _ => [] := by
  unfold effect
  split
  · exact (callBare_computes layouts _ fun known => values_computes layouts known _).bind
      fun _ => .pure _ _ (by simp)
  · exact (callOn_computes layouts _ _ (operand_computes layouts known _)
      fun known => values_computes layouts known _).bind fun _ => .pure _ _ (by simp)
  · exact (operand_computes layouts known e).bind fun _ => .pure _ _ (by simp)

theorem optionalEffect_computes (e : Option Expr) :
    Computes vars known (optionalEffect layouts e) fun _ => [] := by
  cases e with
  | none => exact .pure _ _ (by simp)
  | some e => exact effect_computes layouts e

theorem printAll_computes (known : List Location) (args : List Expr) :
    Computes vars known (printAll layouts args) fun _ => [] := by
  induction args generalizing known with
  | nil => exact .pure _ _ (by simp)
  | cons e rest ih =>
    refine (operand_computes layouts known e).bind fun v => ?_
    refine (Computes.ofOption _ _ (fun _ => []) (by simp)).bind fun routine => ?_
    refine (Computes.emit (.issue _ (by simp [Instruction.reads]) rfl)).bind fun _ => ?_
    exact ih _

end Expressions

/-! ## Statements -/

section Statements

variable {vars : List Location} {exits : List String}

/-- A statement that gives assigned code when it is lowered to its end, where the bindings and what it
declares are variables and the open loops end at the exits. Only the variables are known before it and
behind it. -/
def Settles (vars : List Location) (exits : List String) (body : Lower Unit)
    (declared : LowerState → List (DeclId × Location)) : Prop :=
  ∀ s u t code, body s = ⟨.ok u, t, code⟩ → s.locations ⊆ vars →
    (declared s).map Prod.snd ⊆ vars → (∀ entry ∈ s.loops.exits, entry.2 ∈ exits) →
    Assigned vars exits vars code vars ∧ t.locations ⊆ vars ∧ t.loops.exits ⊆ s.loops.exits

namespace Settles

/-- An expression for what it does. -/
theorem of_computes {body : Lower Unit} (computes : Computes vars vars body fun _ => []) :
    Settles vars exits body fun _ => [] := by
  intro s u t code run fits _ _
  obtain ⟨assigned, fits', loops⟩ := computes (List.Subset.refl _) s u t code run fits
  refine ⟨assigned.among_exits exits, fits', ?_⟩
  rw [loops]
  exact List.Subset.refl _

/-- One statement after another. -/
theorem bind {first second : Lower Unit} {declared₁ declared₂ : LowerState → List (DeclId × Location)}
    (one : Settles vars exits first declared₁) (two : Settles vars exits second declared₂) :
    Settles vars exits (do first; second)
      fun s => declared₁ s ++ after first (fun _ => declared₂) s := by
  intro s u v code run fits within ends
  obtain ⟨_, t, code₁, code₂, run₁, run₂, rfl⟩ := bind_run run
  rw [List.map_append, List.append_subset] at within
  obtain ⟨assigned₁, fits₁, loops₁⟩ := one s _ t code₁ run₁ fits within.1 ends
  obtain ⟨assigned₂, fits₂, loops₂⟩ := two t u v code₂ run₂ fits₁ (declared_after run₁ within.2)
    fun entry member => ends entry (loops₁ member)
  exact ⟨assigned₁.append assigned₂, fits₂, List.Subset.trans loops₂ loops₁⟩

/-- An expression before a statement. -/
theorem afterward {first second : Lower Unit} {declared : LowerState → List (DeclId × Location)}
    (computes : Computes vars vars first fun _ => []) (settles : Settles vars exits second declared) :
    Settles vars exits (do first; second) (after first fun _ => declared) :=
  (of_computes computes).bind settles

end Settles

/-- The variables of a block are bound to the storage that they get. -/
theorem declareLocals_settles (decls : List Decl) :
    Settles vars exits (declareLocals decls) fun s => storage s.emitter decls := by
  induction decls with
  | nil => exact .of_computes (.pure _ _ (List.nil_subset _))
  | cons decl rest ih =>
    cases decl with
    | var id name type =>
      intro s u t code run fits within ends
      obtain ⟨later, run₁, rfl⟩ := emit_bind_run run
      obtain ⟨_, s₁, none, _, bound, run₂, rfl⟩ := bind_run run₁
      cases bound
      have issued : (Emitter.allocate name.name s.emitter).code = [] := by
        unfold Emitter.allocate
        split <;> rfl
      rw [issued]
      obtain ⟨own, within⟩ := List.cons_subset.mp within
      have later := ih _ u t _ run₂
      refine later ?_ within ends
      intro loc member
      simp only [LowerState.locations, List.mem_append] at member
      rcases member with (member | member) | member
      · rcases List.mem_cons.mp (declare_locations _ _ _ member) with rfl | old
        · exact own
        · exact fits (by simp [LowerState.locations, old])
      · exact fits (by simp [LowerState.locations, member])
      · exact fits (by simp [LowerState.locations, member])
    | cls | interface | prototype | function => exact ih

/-- A block brings back bindings that it hid. -/
theorem inBlock_settles {body : Lower Unit} {declared : LowerState → List (DeclId × Location)}
    (settles : Settles vars exits body declared) :
    Settles vars exits (inBlock body)
      (after (modify fun s => { s with bindings := s.bindings.enter }) fun _ => declared) := by
  intro s u t code run fits within ends
  obtain ⟨value, rfl, rfl⟩ := Emitted.mk.inj run
  let entered : LowerState := { s with bindings := s.bindings.enter }
  obtain ⟨assigned, fits', loops⟩ := settles entered u (body entered).state (body entered).code
    (by rw [← value]; rfl) fits within ends
  refine ⟨by simpa [ensuring, modify, Emission.modify] using assigned, ?_, loops⟩
  intro loc member
  refine fits' ?_
  simp only [LowerState.locations, List.mem_append] at member ⊢
  rcases member with (member | member) | member
  · exact .inl (.inl (leave_locations _ member))
  · exact .inl (.inr member)
  · exact .inr member

section Tests

variable {test : Lower Value} (testing : Computes vars vars test fun value => [value.loc])
include testing

/-- A test before a statement. -/
theorem ifThen_settles {body : Lower Unit} {declared : LowerState → List (DeclId × Location)}
    (settles : Settles vars exits body declared) :
    Settles vars exits (do
      let condition ← test
      let skip ← emit Emitter.freshLabel
      emit (Emitter.jumpIfZero condition.loc skip)
      body
      emit (Emitter.label skip))
      (after test fun condition =>
        after (emit Emitter.freshLabel) fun skip =>
        after (emit (Emitter.jumpIfZero condition.loc skip)) fun _ => declared) := by
  intro s _ _ _ run fits within ends
  obtain ⟨condition, s₁, _, _, testRun, run₁, rfl⟩ := bind_run run
  obtain ⟨_, run₂, rfl⟩ := emit_bind_run run₁
  obtain ⟨_, run₃, rfl⟩ := emit_bind_run run₂
  obtain ⟨_, _, _, _, inside, last, rfl⟩ := bind_run run₃
  obtain ⟨-, rfl, rfl⟩ := emit_run last
  have within := declared_after testRun within
  obtain ⟨tested, fits₁, loops₁⟩ := testing (List.Subset.refl _) _ _ _ _ testRun fits
  obtain ⟨assigned, fits₂, loops₂⟩ := settles _ _ _ _ inside fits₁ within (by rw [loops₁]; exact ends)
  rw [loops₁] at loops₂
  refine ⟨?_, fits₂, loops₂⟩
  refine (tested.among_exits exits).append ?_
  refine .skip List.mem_cons_self (List.subset_cons_self ..) ?_ (List.Subset.refl _)
  exact assigned.knowing (List.subset_cons_self ..)

/-- A test before one of two statements. -/
theorem ifElse_settles {yes no : Lower Unit} {declared₁ declared₂ : LowerState → List (DeclId × Location)}
    (one : Settles vars exits yes declared₁) (two : Settles vars exits no declared₂) :
    Settles vars exits (do
      let condition ← test
      let other ← emit Emitter.freshLabel
      emit (Emitter.jumpIfZero condition.loc other)
      yes
      let done ← emit Emitter.freshLabel
      emit (Emitter.jump done)
      emit (Emitter.label other)
      no
      emit (Emitter.label done))
      (after test fun condition =>
        after (emit Emitter.freshLabel) fun other =>
        after (emit (Emitter.jumpIfZero condition.loc other)) fun _ s =>
          declared₁ s ++ after yes (fun _ =>
            after (emit Emitter.freshLabel) fun done =>
            after (emit (Emitter.jump done)) fun _ =>
            after (emit (Emitter.label other)) fun _ => declared₂) s) := by
  intro s _ _ _ run fits within ends
  obtain ⟨condition, s₁, _, _, testRun, run₁, rfl⟩ := bind_run run
  obtain ⟨_, run₂, rfl⟩ := emit_bind_run run₁
  obtain ⟨_, run₃, rfl⟩ := emit_bind_run run₂
  obtain ⟨_, s₂, _, _, yesRun, run₄, rfl⟩ := bind_run run₃
  obtain ⟨_, run₅, rfl⟩ := emit_bind_run run₄
  obtain ⟨_, run₆, rfl⟩ := emit_bind_run run₅
  obtain ⟨_, run₇, rfl⟩ := emit_bind_run run₆
  obtain ⟨_, _, _, _, noRun, last, rfl⟩ := bind_run run₇
  obtain ⟨-, rfl, rfl⟩ := emit_run last
  have within := declared_after testRun within
  obtain ⟨tested, fits₁, loops₁⟩ := testing (List.Subset.refl _) _ _ _ _ testRun fits
  have within : (declared₁ _ ++ after yes _ _).map Prod.snd ⊆ vars := within
  rw [List.map_append, List.append_subset] at within
  obtain ⟨assigned₁, fits₂, loops₂⟩ := one _ _ _ _ yesRun fits₁ within.1 (by rw [loops₁]; exact ends)
  rw [loops₁] at loops₂
  obtain ⟨assigned₂, fits₃, loops₃⟩ := two _ _ _ _ noRun fits₂ (declared_after yesRun within.2)
    fun entry member => ends entry (loops₂ member)
  refine ⟨?_, fits₃, List.Subset.trans loops₃ loops₂⟩
  refine (tested.among_exits exits).append ?_
  exact .either List.mem_cons_self
    (assigned₁.knowing (List.subset_cons_self ..))
    (assigned₂.knowing (List.subset_cons_self ..))
    (List.Subset.refl _) (List.Subset.refl _)

end Tests

/-- The body of a loop may leave it, and the loop is closed behind it. -/
theorem inLoop_settles {id : StmtId} {exit : String} {body : Lower Unit}
    {declared : LowerState → List (DeclId × Location)}
    (settles : Settles vars (exit :: exits) body declared) {s t : LowerState} {u : Unit}
    {code : List Instruction} (run : inLoop id exit body s = ⟨.ok u, t, code⟩)
    (fits : s.locations ⊆ vars)
    (within : (declared { s with loops := s.loops.enter id exit }).map Prod.snd ⊆ vars)
    (ends : ∀ entry ∈ s.loops.exits, entry.2 ∈ exits) :
    Assigned vars (exit :: exits) vars code vars ∧ t.locations ⊆ vars ∧
      t.loops.exits ⊆ s.loops.exits := by
  let entered : LowerState := { s with loops := s.loops.enter id exit }
  obtain ⟨value, rfl, rfl⟩ := Emitted.mk.inj run
  have opened : ∀ entry ∈ entered.loops.exits, entry.2 ∈ exit :: exits := by
    intro entry member
    rcases List.mem_cons.mp member with rfl | member
    · exact List.mem_cons_self
    · exact List.mem_cons_of_mem _ (ends entry (List.mem_filter.mp member).1)
  obtain ⟨assigned, fits', loops⟩ := settles entered u (body entered).state (body entered).code
    (by rw [← value]; rfl) fits within opened
  refine ⟨by simpa [ensuring, modify, Emission.modify] using assigned, fits', ?_⟩
  -- what is left are the loops around, for the loop itself is closed
  intro entry member
  obtain ⟨member, other⟩ := List.mem_filter.mp member
  rcases List.mem_cons.mp (loops member) with rfl | member
  · simp at other
  · exact (List.mem_filter.mp member).1

/-- Only the variables are known at the top of a loop and at its end. -/
theorem loop_settles {id : StmtId} {test : Lower Value} {body step : Lower Unit}
    {declared : LowerState → List (DeclId × Location)}
    (testing : Computes vars vars test fun value => [value.loc])
    (settles : ∀ exit, Settles vars (exit :: exits) body declared)
    (stepping : Computes vars vars step fun _ => []) :
    Settles vars exits (loop id test body step) (loopLocals id test declared) := by
  intro s _ _ _ run fits within ends
  obtain ⟨_, run₁, rfl⟩ := emit_bind_run run
  obtain ⟨_, run₂, rfl⟩ := emit_bind_run run₁
  obtain ⟨_, run₃, rfl⟩ := emit_bind_run run₂
  obtain ⟨value, s₁, _, _, testRun, run₄, rfl⟩ := bind_run run₃
  obtain ⟨_, run₅, rfl⟩ := emit_bind_run run₄
  obtain ⟨_, s₂, _, _, bodyRun, run₆, rfl⟩ := bind_run run₅
  obtain ⟨_, s₃, _, _, stepRun, run₇, rfl⟩ := bind_run run₆
  obtain ⟨_, last, rfl⟩ := emit_bind_run run₇
  obtain ⟨-, rfl, rfl⟩ := emit_run last
  have within := declared_after testRun within
  obtain ⟨tested, fits₁, loops₁⟩ := testing (List.Subset.refl _) _ _ _ _ testRun fits
  obtain ⟨inside, fits₂, loops₂⟩ := inLoop_settles (settles _) bodyRun fits₁ within
    (by rw [loops₁]; exact ends)
  rw [loops₁] at loops₂
  obtain ⟨stepped, fits₃, loops₃⟩ := stepping (List.Subset.refl _) _ _ _ _ stepRun fits₂
  rw [← loops₃] at loops₂
  refine ⟨?_, fits₃, loops₂⟩
  exact .loop (tested.among_exits exits)
    (List.subset_cons_self ..) List.mem_cons_self inside
    (stepped.among_exits exits)

/-- Leaving a loop jumps to the end of one that is open. -/
theorem leave_settles (around : Option StmtId) : Settles vars exits (do
    let s ← get
    let target ← ofOption .breakOutsideLoop (around.bind s.loops.exit?)
    emit (Emitter.jump target)) fun _ => [] := by
  intro s _ _ _ run fits _ ends
  obtain ⟨_, _, _, _, here, run₁, rfl⟩ := bind_run run
  cases here
  obtain ⟨target, _, _, _, given, run₂, rfl⟩ := bind_run run₁
  obtain ⟨found, rfl, rfl⟩ := ofOption_run given
  obtain ⟨-, rfl, rfl⟩ := emit_run run₂
  obtain ⟨loop, -, opened⟩ := Option.bind_eq_some_iff.mp found
  have isOpen : target ∈ exits := ends (loop, target) (Table.mem_of_lookup opened)
  exact ⟨.leave isOpen (List.Subset.refl _), fits, List.Subset.refl _⟩

variable (arena : Arena) (layouts : Layouts)

mutual

/-- Lowering a statement gives assigned code. -/
theorem stmt_settles (exits : List String) :
    ∀ s : Stmt, Settles vars exits (stmt arena layouts s) (locals arena layouts s)
  | .block _ decls body => inBlock_settles ((declareLocals_settles decls).bind (stmts_settles exits body))
  | .ifThen _ test body => ifThen_settles (operand_computes layouts vars test) (stmt_settles exits body)
  | .ifElse _ test yes no =>
    ifElse_settles (operand_computes layouts vars test) (stmt_settles exits yes) (stmt_settles exits no)
  | .whileLoop site test body =>
    loop_settles (operand_computes layouts vars test) (fun exit => stmt_settles (exit :: exits) body)
      (.pure _ _ (List.nil_subset _))
  | .forLoop site init test step body =>
    .afterward (optionalEffect_computes layouts init)
      (loop_settles (operand_computes layouts vars test) (fun exit => stmt_settles (exit :: exits) body)
        (optionalEffect_computes layouts step))
  | .ret _ none => .of_computes (.emit (.issue _ (List.nil_subset _) rfl))
  | .ret _ (some e) =>
    .of_computes ((operand_computes layouts vars e).bind fun _ =>
      .emit (.issue _ (by simp [Instruction.reads]) rfl))
  | .print _ args => .of_computes (printAll_computes layouts vars args)
  | .leave site => leave_settles _
  | .expr _ e => .of_computes (effect_computes layouts e)
  | .knot _ => .of_computes (.pure _ _ (List.nil_subset _))

theorem stmts_settles (exits : List String) :
    ∀ body : List Stmt, Settles vars exits (stmts arena layouts body) (localsAll arena layouts body)
  | [] => .of_computes (.pure _ _ (List.nil_subset _))
  | s :: rest => (stmt_settles exits s).bind (stmts_settles exits rest)

end

theorem bodyOf_settles (decl : Decl) :
    Settles vars [] (bodyOf arena layouts decl) (localsOf arena layouts decl) := by
  cases decl with
  | function id name result formals body => exact stmt_settles arena layouts [] body
  | var | cls | interface | prototype => exact .of_computes (.pure _ _ (List.nil_subset _))

end Statements

/-! ## Functions -/

/-- The storage of a variable that a function can name: a global, a parameter of it, or one that it
declares. -/
inductive OfVariable (shape : FrameShape) (globals params : Nat) (vars : List (DeclId × Location))
    (loc : Location) : Prop where
  | global (n : Nat) (bound : n < globals) (segment : loc.segment = .global)
      (place : loc.position = shape.globalPosition n)
  | param (n : Nat) (bound : n < params) (segment : loc.segment = .frame)
      (place : loc.position = shape.paramPosition n)
  | declared (id : DeclId) (member : (id, loc) ∈ vars)

/-- The code of a function with the given variables, from its start to its end, writes temporaries before
it reads them. -/
structure WritesFirst (shape : FrameShape) (globals params : Nat) (vars : List (DeclId × Location))
    (code : List Instruction) : Prop where
  /-- What is read is a variable, or was written on the way. -/
  read : ∀ earlier pc i, Path code earlier pc → code[pc]? = some i → ∀ loc ∈ i.reads,
    OfVariable shape globals params vars loc ∨ WrittenAt code earlier loc
  /-- Where slots do not overlap, temporaries have slots of the frame that no variable has, -/
  apart : 0 < shape.slotSize → shape.firstLocal < shape.firstParam → ∀ tmp ∈ temporaries code,
    tmp.segment = .frame ∧ ∃ slot : Nat, tmp.position = shape.localPosition slot ∧
      ∀ entry ∈ vars, entry.2.position ≠ shape.localPosition slot
  /-- and such a slot is written on every way to where it is read. -/
  temporary : 0 < shape.slotSize → shape.firstLocal < shape.firstParam → ∀ slot : Nat,
    (∀ entry ∈ vars, entry.2.position ≠ shape.localPosition slot) →
    ∀ earlier pc i, Path code earlier pc → code[pc]? = some i → ∀ loc ∈ i.reads,
      loc.segment = .frame → loc.position = shape.localPosition slot → WrittenAt code earlier loc

section Functions

variable {shape : FrameShape} {globals params : Nat}

/-- The temporaries of a safe frame have slots that no variable has. -/
theorem SafeFrame.temporary_slot {slots : Nat} {vars : List (DeclId × Location)}
    {body : List Instruction} (frame : SafeFrame shape globals params slots vars body) {tmp : Location}
    (member : tmp ∈ temporaries body) :
    tmp.segment = .frame ∧ ∃ slot : Nat, tmp.position = shape.localPosition slot ∧
      ∀ entry ∈ vars, entry.2.position ≠ shape.localPosition slot := by
  obtain ⟨framed, slot, -, place⟩ := frame.slotted tmp (List.mem_append_left _ member)
  refine ⟨framed, slot, place, fun entry among same => ?_⟩
  have distinct := frame.distinct
  rw [List.map_append] at distinct
  have own : tmp.position ∈ (temporaries body).map Location.position := List.mem_map_of_mem member
  have others : entry.2.position ∈ (vars.map Prod.snd).map Location.position :=
    List.mem_map_of_mem (List.mem_map_of_mem among)
  rw [same, ← place] at others
  exact List.disjoint_of_nodup_append distinct own others

/-- What is on the frame where no variable has a slot is no variable. -/
theorem OfVariable.not_temporary {vars : List (DeclId × Location)} {loc : Location}
    (named : OfVariable shape globals params vars loc) (wide : 0 < shape.slotSize)
    (below : shape.firstLocal < shape.firstParam) {slot : Nat}
    (other : ∀ entry ∈ vars, entry.2.position ≠ shape.localPosition slot) (framed : loc.segment = .frame)
    (place : loc.position = shape.localPosition slot) : False := by
  cases named with
  | global n _ segment => cases framed.symm.trans segment
  | param n _ _ place' => exact localPosition_ne_paramPosition wide below slot n (place.symm.trans place')
  | declared id member => exact other _ member place

/-- A state in which a function starts: its parameters and the globals are there, its frame is empty, and
no loop is open. -/
structure Begun (shape : FrameShape) (globals params : Nat) (start : LowerState) : Prop where
  kept : start.Kept params
  shaped : start.emitter.shape = shape
  counted : start.emitter.globals = globals
  empty : start.emitter.locals = 0
  closed : start.loops.exits = []

theorem Between.begun {s : LowerState} (between : Between shape globals s) (closed : s.loops.exits = [])
    (layout : Option ClassLayout) {decl : Decl} {result : TypeExpr} {formals : List Decl}
    (signed : decl.signature? = some ⟨result, formals⟩) :
    Begun shape globals (paramSlots layout decl) (Lower.started layout formals s) where
  kept := by
    rw [paramSlots, signed]
    exact between.started layout formals
  shaped := by
    rw [started_emitter]
    exact between.shaped
  counted := by
    rw [started_emitter]
    exact between.counted
  empty := by rw [started_emitter]
  closed := by rw [started_loops, closed]

/-- What a function knows at its start is a variable. -/
theorem Begun.ofVariable {start : LowerState} (begun : Begun shape globals params start)
    (vars : List (DeclId × Location)) {loc : Location} (member : loc ∈ start.locations) :
    OfVariable shape globals params vars loc := by
  have holds := begun.kept.holds loc member
  unfold Emitter.Holds at holds
  split at holds
  · rename_i segment
    rcases holds with ⟨n, bound, place⟩ | ⟨n, bound, -⟩
    · exact .param n bound segment (by rw [place, begun.shaped])
    · rw [begun.empty] at bound
      exact absurd bound (Nat.not_lt_zero n)
  · rename_i segment
    obtain ⟨n, bound, place⟩ := holds
    exact .global n (by rw [← begun.counted]; exact bound) segment (by rw [place, begun.shaped])

/-- A body that is lowered to its end gives assigned code and leaves no loop open. -/
theorem Begun.settled {arena : Arena} {layouts : Layouts} {decl : Decl} {start t : LowerState}
    (begun : Begun shape globals params start) {u : Unit} {body : List Instruction}
    (run : bodyOf arena layouts decl start = ⟨.ok u, t, body⟩) :
    let known := start.locations ++ (localsOf arena layouts decl start).map Prod.snd
    Assigned known [] known body known ∧ t.loops.exits = [] := by
  obtain ⟨assigned, -, loops⟩ := bodyOf_settles arena layouts decl start u t body run
    (List.subset_append_left ..) (List.subset_append_right ..) (by simp [begun.closed])
  rw [begun.closed] at loops
  exact ⟨assigned, List.subset_nil.mp loops⟩

/-- A body that is lowered to its end, between the start and the end of its function. -/
theorem Begun.writesFirst {arena : Arena} {layouts : Layouts} {decl : Decl} {start t : LowerState}
    (begun : Begun shape globals params start) {u : Unit} {body : List Instruction}
    (run : bodyOf arena layouts decl start = ⟨.ok u, t, body⟩) (size : Int) :
    WritesFirst shape globals params (localsOf arena layouts decl start)
      (.beginFunc :: (body ++ [.endFunc size])) := by
  let declared := localsOf arena layouts decl start
  let known := start.locations ++ declared.map Prod.snd
  obtain ⟨settled, -⟩ := begun.settled run
  have opening : Assigned known [] known [.beginFunc] known := .straight _ (List.nil_subset _) rfl
  have closing : Assigned known [] known [.endFunc size] known := .straight _ (List.nil_subset _) rfl
  have assigned := opening.append (settled.append closing)
  have single : (labels (.beginFunc :: (body ++ [.endFunc size]))).Nodup := by
    obtain ⟨advance, -⟩ := bodyOf_sound arena layouts params decl start begun.kept (by simp) (by simp)
    rw [run] at advance
    simpa [labels_cons, labels_append, Instruction.label?] using advance.labels_distinct
  have read : ∀ earlier pc i, Path (.beginFunc :: (body ++ [.endFunc size])) earlier pc →
      (Instruction.beginFunc :: (body ++ [.endFunc size]))[pc]? = some i → ∀ loc ∈ i.reads,
      OfVariable shape globals params declared loc ∨
        WrittenAt (.beginFunc :: (body ++ [.endFunc size])) earlier loc := by
    intro earlier pc i path here loc reads
    refine (assigned.read_written single path here loc reads).imp_left fun member => ?_
    rcases List.mem_append.mp member with member | member
    · exact begun.ofVariable _ member
    · obtain ⟨⟨id, _⟩, among, rfl⟩ := List.mem_map.mp member
      exact .declared id among
  refine ⟨read, ?_, ?_⟩
  · intro wide below tmp member
    obtain ⟨frame, -⟩ := (bodyOf_sound arena layouts params decl).safeFrame wide below begun.kept
      begun.shaped begun.counted begun.empty
    rw [run] at frame
    exact frame.temporary_slot (by simpa [temporaries, Instruction.temporary?] using member)
  · intro wide below slot other earlier pc i path here loc reads framed place
    refine (read earlier pc i path here loc reads).resolve_left fun named => ?_
    exact named.not_temporary wide below other framed place

end Functions

end Lower

/-! ## Programs -/

/-- A segment of a program that belongs to one of its functions and writes temporaries before it reads
them. -/
def Program.WrittenSegment (program : Program) (layouts : Layouts) (shape : FrameShape)
    (body : List Instruction) (size : Int) : Prop :=
  ∃ (layout : Option ClassLayout) (decl : Decl) (start : LowerState),
    program.Lowers layouts layout decl ∧
    body = (Lower.bodyOf program.arena layouts decl start).code ∧
    Lower.WritesFirst shape (Lower.varsAmong program.top).length (Lower.paramSlots layout decl)
      (Lower.localsOf program.arena layouts decl start) (.beginFunc :: (body ++ [.endFunc size]))

/-- A function among the targets is one that code is generated for. -/
theorem Program.lowers_of_target {program : Program} {layouts : Layouts} {cls : Option String}
    {layout : Option ClassLayout} {decl : Decl} (member : .function cls decl ∈ program.targets)
    (inside : Target.InClass layouts cls layout) : program.Lowers layouts layout decl := by
  obtain ⟨top, among, member⟩ := List.mem_flatMap.mp member
  cases top with
  | cls id name superclass interfaces members =>
    rcases List.mem_append.mp member with member | member
    · obtain ⟨method, chosen, same⟩ := List.mem_map.mp member
      cases same
      cases inside with
      | some laidOut =>
        obtain ⟨member, isFunction⟩ := List.mem_filter.mp chosen
        exact .method among laidOut member isFunction
    · cases List.mem_singleton.mp member
  | var | interface | prototype | function =>
    unfold Decl.targets at member
    obtain ⟨f, chosen, same⟩ := List.mem_map.mp member
    cases same
    cases inside
    obtain ⟨itself, isFunction⟩ := List.mem_filter.mp chosen
    cases List.mem_singleton.mp itself
    exact .top among isFunction

namespace Lower

variable {program : Program} {layouts : Layouts} {shape : FrameShape}

/-- A target that is lowered to its end, with no loop open before it, gives a written segment and leaves
no loop open. -/
theorem target_written {target : Target} (member : target ∈ program.targets) {s t : LowerState}
    {u : Unit} {code : List Instruction}
    (run : Lower.target program.arena layouts target s = ⟨.ok u, t, code⟩)
    (between : Between shape (varsAmong program.top).length s) (closed : s.loops.exits = []) :
    Listing (fun _ => program.WrittenSegment layouts shape) code ∧ t.loops.exits = [] := by
  have lowering := target_lowering program.arena layouts (Program.targets_proper member)
  generalize Lower.target program.arena layouts target = step at lowering run
  cases lowering with
  | unknown missing => cases run
  | table laidOut =>
    cases run
    exact ⟨.outside (by simp) rfl .nil, closed⟩
  | @function cls layout decl signature inside signed =>
    obtain ⟨result, formals⟩ := signature
    rw [segment_apply] at run
    obtain ⟨value, rfl, rfl⟩ := Emitted.mk.inj run
    have begun := between.begun closed layout signed
    obtain ⟨advance, -⟩ := bodyOf_sound program.arena layouts _ decl _ begun.kept (by simp) (by simp)
    have bodyRun : bodyOf program.arena layouts decl (started layout formals s) =
        ⟨.ok u, (bodyOf program.arena layouts decl (started layout formals s)).state,
          (bodyOf program.arena layouts decl (started layout formals s)).code⟩ := by rw [← value]
    refine ⟨.segment advance.plain ?_ .nil, (begun.settled bodyRun).2⟩
    exact ⟨layout, decl, started layout formals s, Program.lowers_of_target member inside, rfl,
      begun.writesFirst bodyRun _⟩

/-- Targets that are lowered to their end give written segments, one after the other. -/
theorem targets_written {list : List Target} (within : list ⊆ program.targets) {s t : LowerState}
    {u : Unit} {code : List Instruction} (run : targets program.arena layouts list s = ⟨.ok u, t, code⟩)
    (between : Between shape (varsAmong program.top).length s) (closed : s.loops.exits = []) :
    Listing (fun _ => program.WrittenSegment layouts shape) code := by
  induction list generalizing s code with
  | nil =>
    cases run
    exact .nil
  | cons first rest ih =>
    rw [List.cons_subset] at within
    obtain ⟨_, s₁, code₁, code₂, one, two, rfl⟩ := bind_run run
    obtain ⟨listing, closed₁⟩ := target_written within.1 one between closed
    have between₁ := (target_brackets program.arena layouts (Program.targets_proper within.1) s between).1
    rw [one] at between₁
    exact listing.append (ih within.2 two between₁ closed₁)

end Lower

/-- The code of a program that is lowered to its end is made of written segments. -/
theorem Program.generate_written {program : Program} {layouts : Layouts} {shape : FrameShape}
    {summary : Summary} (succeeds : (program.generate layouts shape).outcome = .ok summary) :
    Lower.Listing (fun _ => program.WrittenSegment layouts shape) (program.generate layouts shape).code := by
  unfold Program.generate at succeeds ⊢
  split at succeeds
  · rename_i entry
    rw [if_pos entry]
    have between := Lower.opening_between program.top shape
    obtain ⟨globals, opened⟩ := Lower.opening_eq program.top shape
    simp only [Lower.program_apply, Lower.topLevels_eq] at succeeds ⊢
    cases result : Lower.targets program.arena layouts (program.top.flatMap Decl.targets)
        (Lower.opening program.top shape) with
    | mk value t code =>
      rw [result] at succeeds
      cases value with
      | error e => cases succeeds
      | ok u => exact Lower.targets_written (List.Subset.refl _) result between (by rw [opened])
  · cases succeeds

/-- Temporaries are written before they are read. In every segment of the code of a program that is lowered
to its end, on every way that control can take from the start of the segment, whatever an instruction
reads is a global, a parameter, or a variable that the function declares, or was written before. Where
slots do not overlap, temporaries have slots that no variable has, and each read of such a slot comes
after a write to it. -/
theorem Program.temporaries_written_first {program : Program} {layouts : Layouts} {shape : FrameShape}
    {summary : Summary} (succeeds : (program.generate layouts shape).outcome = .ok summary)
    (before body : List Instruction) (size : Int) (rest : List Instruction)
    (found : (program.generate layouts shape).code =
      before ++ .beginFunc :: (body ++ .endFunc size :: rest))
    (plain : ∀ i ∈ body, i.isBracket = false) : program.WrittenSegment layouts shape body size := by
  obtain ⟨-, -, -, written⟩ := (Program.generate_written succeeds).safe found plain
  exact written

/-- A loop that tests an element of an array and is left at once. -/
def Program.searching : List Step :=
  let word (name : String) : Ident := ⟨name, default⟩
  [ .var (word "a") (.array (.primitive .int)), .name (word "a"), .int 0 default, .element ⟨0⟩ ⟨1⟩,
    .int 1 default, .binary .lt ⟨2⟩ ⟨3⟩, .leave default, .whileLoop ⟨4⟩ ⟨0⟩ default,
    .block [⟨0⟩] [⟨1⟩] default, .function (word "main") (.primitive .void) [] (some ⟨2⟩) ]

/-- What is issued for its body: the test of the bounds stands amid the expression, whose temporaries are
read behind it. -/
def Program.searchingBody : List Instruction :=
  let a : Location := ⟨"a", .frame, -8⟩
  let tmp (n : Nat) : Location := ⟨Emitter.tempName n, .frame, -12 - 4 * n⟩
  [ .label "_L0", .loadConstant (tmp 0) (.int 0), .load (tmp 1) a 0,
    .binary .less (tmp 2) (tmp 1) (tmp 0), .binary .equal (tmp 3) (tmp 1) (tmp 0),
    .binary .or (tmp 4) (tmp 2) (tmp 3), .loadConstant (tmp 5) (.int 0),
    .binary .less (tmp 6) (tmp 0) (tmp 5), .binary .or (tmp 7) (tmp 4) (tmp 6),
    .jumpIfZero (tmp 7) "_L2",
    .loadConstant (tmp 8) (.string "Decaf runtime error: Array subscript out of bounds\n"),
    .callRoutine .printString [tmp 8] none, .callRoutine .halt [] none, .label "_L2",
    .loadConstant (tmp 9) (.int 4), .binary .mul (tmp 10) (tmp 0) (tmp 9),
    .binary .add (tmp 11) a (tmp 10), .load (tmp 12) (tmp 11) 4, .loadConstant (tmp 13) (.int 1),
    .binary .less (tmp 14) (tmp 12) (tmp 13), .jumpIfZero (tmp 14) "_L1", .jump "_L1", .jump "_L0",
    .label "_L1" ]

theorem Program.temporaries_written_first_searching :
    ∃ program summary, Program.assemble Program.searching [⟨1⟩] = some program ∧
      (program.generate { functions := .ofDecls program.top } {}).outcome = .ok summary ∧
      (program.generate { functions := .ofDecls program.top } {}).code =
        [.label "main"] ++ .beginFunc :: (Program.searchingBody ++ .endFunc 64 :: []) ∧
      program.WrittenSegment { functions := .ofDecls program.top } {} Program.searchingBody 64 := by
  have run : ((Program.assemble Program.searching [⟨1⟩]).map fun program =>
      ((program.generate { functions := .ofDecls program.top } {}).outcome.toOption.isSome,
        (program.generate { functions := .ofDecls program.top } {}).code)) =
        some (true, [.label "main"] ++ .beginFunc :: (Program.searchingBody ++ .endFunc 64 :: [])) := by
    decide +kernel
  obtain ⟨program, made, same⟩ := Option.map_eq_some_iff.mp run
  obtain ⟨succeeds, code⟩ := Prod.mk.inj same
  cases outcome : (program.generate { functions := .ofDecls program.top } {}).outcome with
  | error e =>
    rw [outcome] at succeeds
    cases succeeds
  | ok summary =>
    exact ⟨program, summary, made, outcome, code,
      Program.temporaries_written_first outcome _ _ _ _ code (by decide +kernel)⟩

end DecafTac
