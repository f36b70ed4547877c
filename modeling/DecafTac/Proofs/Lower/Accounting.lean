import DecafTac.Lower.Segment
import DecafTac.Proofs.Tables
import DecafTac.Proofs.Tac.Accounting

/-!
What lowering takes from the emitter. Every location that lowering can come upon again stands in its
state: as a visible or hidden binding, as the receiver, or as a global. As long as all of these are
there, a step of lowering is accounted for whether or not it fails, and they are all there afterwards.
-/
namespace DecafTac

/-- The locations of all bindings, hidden ones among them. -/
def Bindings.locations (b : Bindings) : List Location :=
  b.visible.map (·.2.value.loc) ++ b.hidden.map (·.binding.value.loc)

/-- The locations that a state of lowering knows. -/
def LowerState.locations (s : LowerState) : List Location :=
  s.bindings.locations ++ (s.method.map (·.this.loc)).toList ++ s.globals.map (·.2.loc)

/-- A state within a function of `arity` parameter slots in which all known locations are there. -/
structure LowerState.Kept (arity : Nat) (s : LowerState) : Prop where
  inFunction : s.emitter.inFunction = true
  holds : ∀ loc ∈ s.locations, s.emitter.Holds arity loc
  global : ∀ loc ∈ s.globals.map (·.2.loc), loc.segment = .global

namespace Lower

variable {α β : Type}

/-- What is made after a step that succeeds; nothing is after one that fails. -/
def after (step : Lower α) (rest : α → LowerState → List β) (s : LowerState) : List β :=
  match (step s).value with
  | .ok a => rest a (step s).state
  | .error _ => []

theorem after_ok {step : Lower α} {rest : α → LowerState → List β} {s : LowerState} {a : α}
    (succeeds : (step s).value = .ok a) : after step rest s = rest a (step s).state := by
  unfold after
  rw [succeeds]

theorem after_error {step : Lower α} {rest : α → LowerState → List β} {s : LowerState}
    {error : LowerError} (fails : (step s).value = .error error) : after step rest s = [] := by
  unfold after
  rw [fails]

theorem after_nil (step : Lower α) (s : LowerState) : after step (fun _ _ => ([] : List β)) s = [] := by
  unfold after
  split <;> rfl

/-- The variables among some declarations, with the storage that they get in order. -/
def storage : Emitter → List Decl → List (DeclId × Location)
  | _, [] => []
  | e, .var id name _ :: rest =>
    (id, (Emitter.allocate name.name e).value) :: storage (Emitter.allocate name.name e).state rest
  | e, _ :: rest => storage e rest

/-- The variables that a loop declares in its body. -/
def loopLocals (id : StmtId) (test : Lower Value) (body : LowerState → List (DeclId × Location)) :
    LowerState → List (DeclId × Location) :=
  after (emit Emitter.freshLabel) fun top =>
  after (emit Emitter.freshLabel) fun exit =>
  after (emit (Emitter.label top)) fun _ =>
  after test fun condition =>
  after (emit (Emitter.jumpIfZero condition.loc exit)) fun _ =>
  after (modify fun s => { s with loops := s.loops.enter id exit }) fun _ => body

mutual

/-- The variables declared in a statement, with the storage that they get when it is lowered. What
comes after a failure gets none. -/
def locals (arena : Arena) (layouts : Layouts) : Stmt → LowerState → List (DeclId × Location)
  | .block _ decls body =>
    after (modify fun s => { s with bindings := s.bindings.enter }) fun _ s =>
      storage s.emitter decls ++ after (declareLocals decls) (fun _ => localsAll arena layouts body) s
  | .ifThen _ test body =>
    after (value layouts test) fun condition =>
    after (emit Emitter.freshLabel) fun skip =>
    after (emit (Emitter.jumpIfZero condition.loc skip)) fun _ => locals arena layouts body
  | .ifElse _ test yes no =>
    after (value layouts test) fun condition =>
    after (emit Emitter.freshLabel) fun other =>
    after (emit (Emitter.jumpIfZero condition.loc other)) fun _ s =>
      locals arena layouts yes s ++
        after (stmt arena layouts yes) (fun _ =>
        after (emit Emitter.freshLabel) fun done =>
        after (emit (Emitter.jump done)) fun _ =>
        after (emit (Emitter.label other)) fun _ => locals arena layouts no) s
  | .whileLoop site test body =>
    loopLocals site.id (value layouts test) (locals arena layouts body)
  | .forLoop site init test _ body =>
    after (optionalEffect layouts init) fun _ =>
      loopLocals site.id (value layouts test) (locals arena layouts body)
  | .ret .. | .print .. | .leave .. | .expr .. | .knot .. => fun _ => []

def localsAll (arena : Arena) (layouts : Layouts) : List Stmt → LowerState → List (DeclId × Location)
  | [] => fun _ => []
  | s :: rest => fun state =>
    locals arena layouts s state ++
      after (stmt arena layouts s) (fun _ => localsAll arena layouts rest) state

end

/-- A step of lowering is accounted for in every state that is kept, where the locations `known` are
there and the labels `owed` were taken. It declares the variables `vars`, and the locations that its
value names are there. -/
def Sound (arity : Nat) (known : List Location) (owed : List Nat) (step : Lower α)
    (gives : α → List Location) (vars : LowerState → List (DeclId × Location)) : Prop :=
  ∀ s : LowerState, s.Kept arity → (∀ loc ∈ known, s.emitter.Holds arity loc) →
    (∀ n ∈ owed, n < s.emitter.nextLabel) →
    s.emitter.Advance (step s).state.emitter (step s).code ((vars s).map Prod.snd) owed ∧
    (step s).state.Kept arity ∧
    (∀ i ∈ (step s).code, ∀ loc ∈ i.operands, (step s).state.emitter.Holds arity loc) ∧
    ∀ a, (step s).value = .ok a → ∀ loc ∈ gives a, (step s).state.emitter.Holds arity loc

/-- A step that declares nothing and owes no label. -/
abbrev Quiet (arity : Nat) (known : List Location) (step : Lower α) (gives : α → List Location) : Prop :=
  Sound arity known [] step gives fun _ => []

namespace Sound

variable {arity : Nat} {known : List Location} {owed : List Nat}

theorem owing {dues : List Nat} {step : Lower α} {gives : α → List Location}
    {vars : LowerState → List (DeclId × Location)} (sound : Sound arity known owed step gives vars)
    (owes : owed ⊆ dues) : Sound arity known dues step gives vars := by
  intro s kept there taken
  obtain ⟨advance, rest⟩ := sound s kept there fun n member => taken n (owes member)
  exact ⟨advance.owing owes, rest⟩

/-- One step after another, the second knowing what the first gives. -/
theorem bind {owed₁ owed₂ : List Nat} {step : Lower α} {rest : α → Lower β}
    {gives : α → List Location} {gives' : β → List Location}
    {vars : LowerState → List (DeclId × Location)} {vars' : α → LowerState → List (DeclId × Location)}
    (first : Sound arity known owed₁ step gives vars)
    (second : ∀ a, Sound arity (gives a ++ known) owed₂ (rest a) gives' (vars' a))
    (apart : ∀ n ∈ owed₁, n ∉ owed₂) :
    Sound arity known (owed₁ ++ owed₂) (step >>= rest) gives' fun s =>
      vars s ++ after step vars' s := by
  intro s kept there taken
  obtain ⟨one, kept₁, operands₁, given₁⟩ := first s kept there
    fun n member => taken n (List.mem_append_left _ member)
  rw [Lower.bind_apply]
  cases result : (step s).value with
  | error e =>
    simp only [after_error result, List.append_nil]
    exact ⟨one.owing (List.subset_append_left ..), kept₁, operands₁, fun _ found => nomatch found⟩
  | ok a =>
    have known' : ∀ loc ∈ gives a ++ known, (step s).state.emitter.Holds arity loc := by
      intro loc member
      rcases List.mem_append.mp member with given | old
      · exact given₁ a result loc given
      · exact one.holds (there loc old)
    have old : ∀ n ∈ owed₂, n < s.emitter.nextLabel :=
      fun n member => taken n (List.mem_append_right _ member)
    obtain ⟨two, kept₂, operands₂, given₂⟩ := second a (step s).state kept₁ known'
      fun n member => Nat.lt_of_lt_of_le (old n member) one.labels
    simp only [after_ok result, List.map_append]
    refine ⟨one.trans two old apart, kept₂, ?_, given₂⟩
    intro i member loc operand
    rcases List.mem_append.mp member with member | member
    · exact two.holds (operands₁ i member loc operand)
    · exact operands₂ i member loc operand

/-- A step that declares nothing and owes nothing before another. -/
theorem andThen {step : Lower α} {rest : α → Lower β} {gives : α → List Location}
    {gives' : β → List Location} {vars' : α → LowerState → List (DeclId × Location)}
    (first : Quiet arity known step gives)
    (second : ∀ a, Sound arity (gives a ++ known) owed (rest a) gives' (vars' a)) :
    Sound arity known owed (step >>= rest) gives' (after step vars') :=
  bind first second (by simp)

/-- A step that owes nothing before one that declares nothing. -/
theorem thenQuiet {step : Lower α} {rest : α → Lower β} {gives : α → List Location}
    {gives' : β → List Location} {vars : LowerState → List (DeclId × Location)}
    (first : Sound arity known [] step gives vars)
    (second : ∀ a, Sound arity (gives a ++ known) owed (rest a) gives' fun _ => []) :
    Sound arity known owed (step >>= rest) gives' vars := by
  have both := bind first second (by simp)
  simp only [after_nil, List.append_nil] at both
  exact both

/-- Two steps that declare nothing. -/
theorem quietly {step : Lower α} {rest : α → Lower β} {gives : α → List Location}
    {gives' : β → List Location} (first : Quiet arity known step gives)
    (second : ∀ a, Quiet arity (gives a ++ known) (rest a) gives') :
    Quiet arity known (step >>= rest) gives' :=
  first.thenQuiet second

theorem pure (a : α) (gives : α → List Location) (within : gives a ⊆ known) :
    Quiet arity known (Pure.pure a) gives := by
  intro s kept there _
  refine ⟨.refl _ _, kept, by simp, ?_⟩
  intro b found loc member
  cases found
  exact there loc (within member)

theorem fail (error : LowerError) (gives : α → List Location) :
    Quiet arity known (Lower.fail error) gives := by
  intro s kept _ _
  exact ⟨.refl _ _, kept, by simp [Lower.fail], fun _ found => nomatch found⟩

theorem ofOption (error : LowerError) (found : Option α) (gives : α → List Location)
    (within : ∀ a, found = some a → gives a ⊆ known) :
    Quiet arity known (Lower.ofOption error found) gives := by
  cases found with
  | some a => exact .pure a gives (within a rfl)
  | none => exact .fail error gives

/-- Reading the state gives all locations that it knows. -/
theorem get : Quiet arity known Lower.get LowerState.locations := by
  intro s kept _ _
  refine ⟨.refl _ _, kept, by simp [Lower.get], ?_⟩
  intro a found loc member
  cases found
  exact kept.holds loc member

theorem shape : Quiet arity known Lower.shape fun _ => [] := by
  intro s kept _ _
  exact ⟨.refl _ _, kept, by simp [Lower.shape], by simp⟩

/-- A change of what is known that adds only locations that are there. -/
theorem modify (change : LowerState → LowerState) (same : ∀ s, (change s).emitter = s.emitter)
    (fixed : ∀ s, (change s).globals.map (·.2.loc) = s.globals.map (·.2.loc))
    (within : ∀ s, (change s).locations ⊆ s.locations ++ known) :
    Quiet arity known (Lower.modify change) fun _ => [] := by
  intro s kept there _
  have kept' : (change s).Kept arity := by
    refine ⟨by rw [same]; exact kept.inFunction, ?_, by rw [fixed]; exact kept.global⟩
    intro loc member
    rw [same]
    rcases List.mem_append.mp (within s member) with old | new
    · exact kept.holds loc old
    · exact there loc new
  refine ⟨?_, kept', by simp [Lower.modify], by simp⟩
  simp only [Lower.modify, same]
  exact .refl _ _

theorem emit {step : Emit α} {gives : α → List Location}
    (sound : Emitter.Accounted arity known owed step gives) :
    Sound arity known owed (Lower.emit step) gives fun _ => [] := by
  intro s kept there taken
  obtain ⟨advance, operands, given⟩ := sound s.emitter kept.inFunction there taken
  refine ⟨advance, ⟨advance.inFunction.trans kept.inFunction, ?_, kept.global⟩, operands, ?_⟩
  · intro loc member
    exact advance.holds (kept.holds loc member)
  · intro a found loc member
    cases found
    exact given loc member

/-- A change of what is known that is made even when the step before it fails. -/
theorem ensuring {step : Lower α} {gives : α → List Location}
    {vars : LowerState → List (DeclId × Location)} (sound : Sound arity known owed step gives vars)
    (change : LowerState → LowerState) (same : ∀ s, (change s).emitter = s.emitter)
    (fixed : ∀ s, (change s).globals.map (·.2.loc) = s.globals.map (·.2.loc))
    (within : ∀ s, (change s).locations ⊆ s.locations) :
    Sound arity known owed (Lower.ensuring step (Emission.modify change)) gives vars := by
  intro s kept there taken
  obtain ⟨advance, kept', operands, given⟩ := sound s kept there taken
  simp only [Lower.ensuring, Emission.modify, List.append_nil, same]
  refine ⟨advance, ⟨?_, ?_, ?_⟩, operands, given⟩
  · rw [same]
    exact kept'.inFunction
  · intro loc member
    rw [same]
    exact kept'.holds loc (within _ member)
  · rw [fixed]
    exact kept'.global

/-- Placing a label that is owed before going on. -/
theorem placing {rest : Unit → Lower β} {gives : β → List Location} {n : Nat}
    {vars : Unit → LowerState → List (DeclId × Location)} (new : n ∉ owed)
    (sound : ∀ u, Sound arity known owed (rest u) gives (vars u)) :
    Sound arity known (n :: owed) (Lower.emit (Emitter.label (Emitter.labelName n)) >>= rest) gives
      (after (Lower.emit (Emitter.label (Emitter.labelName n))) vars) := by
  have placed : Sound arity known [n] (Lower.emit (Emitter.label (Emitter.labelName n)))
      (fun _ => []) fun _ => [] := .emit (.label n)
  exact placed.bind sound (by simpa using new)

/-- Taking a label and owing it. -/
theorem withLabel {rest : String → Lower β} {gives : β → List Location}
    {vars : String → LowerState → List (DeclId × Location)}
    (sound : ∀ n, n ∉ owed →
      Sound arity known (n :: owed) (rest (Emitter.labelName n)) gives (vars (Emitter.labelName n))) :
    Sound arity known owed (Lower.emit Emitter.freshLabel >>= rest) gives
      (after (Lower.emit Emitter.freshLabel) vars) := by
  intro s kept there taken
  have new : s.emitter.nextLabel ∉ owed := fun member => Nat.lt_irrefl _ (taken _ member)
  obtain ⟨advance, kept', operands, given⟩ := sound s.emitter.nextLabel new
    { s with emitter := { s.emitter with nextLabel := s.emitter.nextLabel + 1 } }
    ⟨kept.inFunction, kept.holds, kept.global⟩ there (by
      intro n member
      rcases List.mem_cons.mp member with rfl | member
      · exact Nat.lt_succ_self _
      · exact Nat.lt_succ_of_lt (taken n member))
  exact ⟨advance.fresh, kept', operands, given⟩

end Sound

/-! ## Expressions -/

/-- The locations that a place names. -/
def Place.locations : Place → List Location
  | .variable _ value | .computed value => [value.loc]
  | .memory addr _ _ => [addr]

section Expressions

variable {arity : Nat} {known : List Location} (layouts : Layouts)

theorem lookup_location {bindings : Bindings} {name : String} {value : Value}
    (found : bindings.lookup name = some value) : value.loc ∈ bindings.locations := by
  unfold Bindings.lookup at found
  obtain ⟨binding, bound, rfl⟩ := Option.map_eq_some_iff.mp found
  exact List.mem_append_left _ (List.mem_map_of_mem (Table.mem_of_lookup bound))

theorem global_location {globals : List (String × Value)} {name : String} {value : Value}
    (found : globals.lookup name = some value) : value.loc ∈ globals.map (·.2.loc) :=
  List.mem_map_of_mem (Table.mem_of_lookup found)

theorem classLayout_quiet (name : String) :
    Quiet arity known (classLayout layouts name) fun _ => [] :=
  .ofOption _ _ _ (by simp)

theorem layoutOf_quiet (value : Value) : Quiet arity known (layoutOf layouts value) fun _ => [] := by
  unfold layoutOf
  split
  · exact classLayout_quiet layouts _
  · exact .fail _ _

theorem fieldPlace_quiet (layout : ClassLayout) (object : Location) (field : String)
    (there : object ∈ known) : Quiet arity known (fieldPlace layout object field) Place.locations := by
  refine (Sound.ofOption _ _ (fun _ => []) (by simp)).quietly fun _ => ?_
  refine Sound.shape.quietly fun _ => ?_
  exact .pure _ _ (by simp [Place.locations, there])

theorem namePlace_quiet (name : String) : Quiet arity known (namePlace name) Place.locations := by
  refine Sound.get.quietly fun s => ?_
  have globalPlace : Quiet arity (s.locations ++ known) (namePlace.globalPlace name s)
      Place.locations := by
    unfold namePlace.globalPlace
    split
    · rename_i value found
      refine .pure _ _ ?_
      simp only [Place.locations, LowerState.locations, List.cons_subset, List.nil_subset, and_true]
      exact List.mem_append_left _ (List.mem_append_right _ (global_location found))
    · exact .fail _ _
  split
  · rename_i value found
    refine .pure _ _ ?_
    simp only [Place.locations, LowerState.locations, List.cons_subset, List.nil_subset, and_true]
    exact List.mem_append_left _ (List.mem_append_left _ (List.mem_append_left _ (lookup_location found)))
  · split
    · rename_i method found
      split
      · refine fieldPlace_quiet _ _ _ ?_
        simp [LowerState.locations, found]
      · exact globalPlace
    · exact globalPlace

theorem memberPlace_quiet (object : Value) (field : String) (there : object.loc ∈ known) :
    Quiet arity known (memberPlace layouts object field) Place.locations :=
  (layoutOf_quiet layouts object).quietly fun _ => fieldPlace_quiet _ _ _ (by simp [there])

theorem elementPlace_quiet (array index : Value) (arrayThere : array.loc ∈ known)
    (indexThere : index.loc ∈ known) :
    Quiet arity known (elementPlace array index) Place.locations := by
  refine (Sound.emit (elementAddress_accounted array index arrayThere indexThere)).quietly fun _ => ?_
  refine Sound.shape.quietly fun _ => ?_
  exact .pure _ _ (by simp [Place.locations])

theorem read_quiet (place : Place) (there : place.locations ⊆ known) :
    Quiet arity known (read place) fun value => [value.loc] := by
  cases place with
  | «variable» name value => exact .pure _ _ there
  | computed value => exact .pure _ _ there
  | memory addr offset tag =>
    have there : addr ∈ known := there List.mem_cons_self
    refine (Sound.emit (Emitter.load_accounted addr offset there)).quietly fun _ => ?_
    exact .pure _ _ (by simp)

theorem retag_locations (s : LowerState) (name : String) (tag : Tag) :
    (s.retag name tag).locations = s.locations := by
  unfold LowerState.retag
  split
  · simp only [LowerState.locations, Bindings.locations, Bindings.retag, List.map_map]
    congr 4
    funext entry
    simp only [Function.comp_apply]
    split <;> rfl
  · simp only [LowerState.locations, List.map_map]
    congr 2
    funext entry
    simp only [Function.comp_apply]
    split <;> rfl

private theorem retag_globals (s : LowerState) (name : String) (tag : Tag) :
    (s.retag name tag).globals.map (·.2.loc) = s.globals.map (·.2.loc) := by
  unfold LowerState.retag
  split
  · rfl
  · simp only [List.map_map]
    congr 1
    funext entry
    simp only [Function.comp_apply]
    split <;> rfl

private theorem retag_emitter (s : LowerState) (name : String) (tag : Tag) :
    (s.retag name tag).emitter = s.emitter := by
  unfold LowerState.retag
  split <;> rfl

theorem write_quiet (place : Place) (value : Value) (placeThere : place.locations ⊆ known)
    (valueThere : value.loc ∈ known) : Quiet arity known (write place value) fun _ => [] := by
  cases place with
  | «variable» name dst =>
    have dstThere : dst.loc ∈ known := placeThere List.mem_cons_self
    refine (Sound.emit (Emitter.Accounted.issue _ rfl rfl rfl ?_)).quietly fun _ => ?_
    · simp [Instruction.operands, dstThere, valueThere]
    · split
      · exact .modify _ (fun s => retag_emitter s name value.tag)
          (fun s => retag_globals s name value.tag) fun s => by simp [retag_locations]
      · exact .pure _ _ (by simp)
  | memory addr offset tag =>
    have addrThere : addr ∈ known := placeThere List.mem_cons_self
    exact .emit (.issue _ rfl rfl rfl (by simp [Instruction.operands, addrThere, valueThere]))
  | computed dst =>
    have dstThere : dst.loc ∈ known := placeThere List.mem_cons_self
    exact .emit (.issue _ rfl rfl rfl (by simp [Instruction.operands, dstThere, valueThere]))

/-! ## Calls -/

theorem pushAll_accounted (params : List Location) (there : params ⊆ known) :
    Emitter.Accounted arity known [] (pushAll params) fun _ => [] := by
  induction params with
  | nil => exact .pure _ _ (by simp)
  | cons param rest ih =>
    rw [List.cons_subset] at there
    refine (Emitter.Accounted.issue _ rfl rfl rfl ?_).andThen fun _ => ih there.2
    simp [Instruction.operands, there.1]

/-- The locations of some values. -/
private def valueLocations (values : List Value) : List Location := values.map Value.loc

/-- The location of a value that a call may give. -/
private def resultLocation (result : Option Value) : List Location := (result.map Value.loc).toList

theorem callMethod_quiet (receiver : Value) (name : String) (args : List Value)
    (receiverThere : receiver.loc ∈ known) (argsThere : valueLocations args ⊆ known) :
    Quiet arity known (callMethod layouts receiver name args) resultLocation := by
  refine (layoutOf_quiet layouts receiver).quietly fun layout => ?_
  refine (Sound.ofOption _ _ (fun _ => []) (by simp)).quietly fun slot => ?_
  refine Sound.shape.quietly fun shape => ?_
  have pushed : args.reverse.map Value.loc ++ [receiver.loc] ⊆ known := by
    intro loc member
    rcases List.mem_append.mp member with arg | own
    · refine argsThere ?_
      simpa [valueLocations] using arg
    · rw [List.mem_singleton.mp own]
      exact receiverThere
  have issued : Emitter.Accounted arity known [] (do
      let table ← Emitter.load receiver.loc 0
      let method ← Emitter.load table (slotBytes shape.slotSize slot)
      pushAll (args.reverse.map Value.loc ++ [receiver.loc])
      let dst ← Emitter.callAddress method !((layout.memberType? name).getD .void).isVoid
      Emitter.popParams (slotBytes shape.slotSize (args.length + 1))
      return dst) Option.toList := by
    refine (Emitter.load_accounted _ _ receiverThere).andThen fun _ => ?_
    refine (Emitter.load_accounted _ _ (by simp)).andThen fun _ => ?_
    refine (pushAll_accounted _ (fun loc member => by simp [pushed member])).andThen fun _ => ?_
    refine (Emitter.callAddress_accounted _ _ (by simp)).andThen fun _ => ?_
    refine (Emitter.popParams_accounted _).andThen fun _ => ?_
    exact .pure _ _ (by simp)
  refine (Sound.emit issued).quietly fun dst => ?_
  exact .pure _ _ (by cases dst <;> simp [resultLocation])

theorem callFunction_quiet (name : String) (args : List Value)
    (argsThere : valueLocations args ⊆ known) :
    Quiet arity known (callFunction layouts name args) resultLocation := by
  refine (Sound.ofOption _ _ (fun _ => []) (by simp)).quietly fun function => ?_
  refine Sound.shape.quietly fun shape => ?_
  have pushed : args.reverse.map Value.loc ⊆ known := by
    intro loc member
    refine argsThere ?_
    simpa [valueLocations] using member
  have issued : Emitter.Accounted arity known [] (do
      pushAll (args.reverse.map Value.loc)
      let dst ← Emitter.callLabel function.label
        !((layouts.functions.resultType? name).getD .void).isVoid
      Emitter.popParams (slotBytes shape.slotSize args.length)
      return dst) Option.toList := by
    refine (pushAll_accounted _ pushed).andThen fun _ => ?_
    refine (Emitter.callLabel_accounted _ _).andThen fun _ => ?_
    refine (Emitter.popParams_accounted _).andThen fun _ => ?_
    exact .pure _ _ (by simp)
  refine (Sound.emit issued).quietly fun dst => ?_
  exact .pure _ _ (by cases dst <;> simp [resultLocation])

theorem callBare_quiet (name : String) {args : Lower (List Value)}
    (argsQuiet : ∀ known, Quiet arity known args valueLocations) :
    Quiet arity known (callBare layouts name args) resultLocation := by
  refine Sound.get.quietly fun s => ?_
  refine (argsQuiet _).quietly fun values => ?_
  have there : valueLocations values ⊆ valueLocations values ++ (s.locations ++ known) := by simp
  split
  · rename_i method found
    split
    · exact callMethod_quiet layouts _ _ _ (by simp [LowerState.locations, found]) there
    · exact callFunction_quiet layouts _ _ there
  · exact callFunction_quiet layouts _ _ there

theorem callOn_quiet (name : String) (noArgs : Bool) {receiver : Lower Value}
    {args : Lower (List Value)} (receiverQuiet : Quiet arity known receiver fun value => [value.loc])
    (argsQuiet : ∀ known, Quiet arity known args valueLocations) :
    Quiet arity known (callOn layouts receiver name noArgs args) resultLocation := by
  refine receiverQuiet.quietly fun object => ?_
  split
  · refine (Sound.emit (Emitter.load_accounted _ _ (by simp))).quietly fun _ => ?_
    exact .pure _ _ (by simp [resultLocation])
  · refine (argsQuiet _).quietly fun values => ?_
    exact callMethod_quiet layouts _ _ _ (by simp) (by simp)

theorem needed_quiet (name : String) {call : Lower (Option Value)}
    (callQuiet : Quiet arity known call resultLocation) :
    Quiet arity known (needed name call) fun value => [value.loc] := by
  refine callQuiet.quietly fun result => ?_
  refine .ofOption _ _ _ ?_
  rintro value rfl
  simp [resultLocation]

/-- The value of a place that is made first. -/
private theorem readAfter {place : Lower Place} (placeQuiet : Quiet arity known place Place.locations) :
    Quiet arity known (place >>= read) fun value => [value.loc] :=
  placeQuiet.quietly fun made => read_quiet made (by simp)

mutual

/-- Lowering an expression is accounted for, and the place it names is there. -/
theorem place_quiet (known : List Location) :
    ∀ e : Expr, Quiet arity known (place layouts e) Place.locations
  | .int .. | .double .. | .bool .. | .string .. =>
    (Sound.emit (Emitter.loadConstant_accounted _)).quietly fun _ =>
      .pure _ _ (by simp [Place.locations])
  | .null _ =>
    Sound.shape.quietly fun _ =>
      (Sound.emit (Emitter.loadConstant_accounted _)).quietly fun _ =>
        (Sound.emit (request_accounted _ _ (by simp))).quietly fun _ =>
          .pure _ _ (by simp [Place.locations])
  | .binary _ op left right =>
    (readAfter (place_quiet known left)).quietly fun l =>
      (readAfter (place_quiet _ right)).quietly fun r =>
        (Sound.emit (binary_accounted op l r (by simp) (by simp))).quietly fun _ =>
          .pure _ _ (by simp [Place.locations])
  | .unary _ op operand =>
    (readAfter (place_quiet known operand)).quietly fun value =>
      (Sound.emit (unary_accounted op value (by simp))).quietly fun _ =>
        .pure _ _ (by simp [Place.locations])
  | .assign _ target value =>
    (place_quiet known target).quietly fun dst =>
      (readAfter (place_quiet _ value)).quietly fun v =>
        (write_quiet dst v (by simp) (by simp)).quietly fun _ =>
          .pure _ _ (by simp [Place.locations])
  | .name _ name => namePlace_quiet name.name
  | .field _ object name =>
    (readAfter (place_quiet known object)).quietly fun value =>
      memberPlace_quiet layouts value name.name (by simp)
  | .element _ array index =>
    (readAfter (place_quiet known array)).quietly fun a =>
      (readAfter (place_quiet _ index)).quietly fun i =>
        elementPlace_quiet a i (by simp) (by simp)
  | .call _ name actuals =>
    (needed_quiet name.name (callBare_quiet layouts name.name fun known =>
      values_quiet known actuals)).quietly fun _ => .pure _ _ (by simp [Place.locations])
  | .send _ receiver name actuals =>
    (needed_quiet name.name (callOn_quiet layouts name.name actuals.isEmpty
      (readAfter (place_quiet known receiver)) fun known => values_quiet known actuals)).quietly
      fun _ => .pure _ _ (by simp [Place.locations])
  | .new _ cls =>
    (classLayout_quiet layouts cls.name).quietly fun layout =>
      (Sound.emit (newObject_accounted layout cls.name)).quietly fun _ =>
        .pure _ _ (by simp [Place.locations])
  | .newArray _ size element =>
    (readAfter (place_quiet known size)).quietly fun value =>
      (Sound.emit (newArray_accounted value _ (by simp))).quietly fun _ =>
        .pure _ _ (by simp [Place.locations])
  | .this _ =>
    Sound.get.quietly fun s =>
      (Sound.ofOption _ s.method (fun method => [method.this.loc]) (by
        intro method found
        simp [LowerState.locations, found])).quietly fun _ =>
          .pure _ _ (by simp [Place.locations])
  | .readInteger _ | .readLine _ =>
    (Sound.emit (request_accounted _ _ (by simp))).quietly fun _ =>
      .pure _ _ (by simp [Place.locations])
  | .knot id => .fail _ _

theorem values_quiet (known : List Location) :
    ∀ es : List Expr, Quiet arity known (values layouts es) valueLocations
  | [] => .pure _ _ (by simp [valueLocations])
  | e :: rest =>
    (readAfter (place_quiet known e)).quietly fun _ =>
      (values_quiet _ rest).quietly fun _ => .pure _ _ (by simp [valueLocations])

end

theorem value_quiet (e : Expr) : Quiet arity known (value layouts e) fun value => [value.loc] :=
  readAfter (place_quiet layouts known e)

/-- A step whose value is thrown away. -/
private theorem discard_quiet {α : Type} {step : Lower α} {gives : α → List Location}
    (quiet : Quiet arity known step gives) : Quiet arity known (discard step) fun _ => [] :=
  quiet.quietly fun _ => .pure _ _ (by simp)

theorem effect_quiet (e : Expr) : Quiet arity known (effect layouts e) fun _ => [] := by
  unfold effect
  split
  · exact discard_quiet (callBare_quiet layouts _ fun known => values_quiet layouts known _)
  · exact discard_quiet (callOn_quiet layouts _ _ (value_quiet layouts _)
      fun known => values_quiet layouts known _)
  · exact discard_quiet (value_quiet layouts e)

end Expressions

/-! ## Statements -/

section Statements

variable {arity : Nat} {known : List Location} {owed : List Nat}

private theorem branch_quiet (test : Location) (target : String) (there : test ∈ known) :
    Quiet arity known (emit (Emitter.jumpIfZero test target)) fun _ => [] :=
  .emit (.issue _ rfl rfl rfl (by simp [Instruction.operands, there]))

private theorem jump_quiet (target : String) :
    Quiet arity known (emit (Emitter.jump target)) fun _ => [] :=
  .emit (.issue _ rfl rfl rfl (by simp [Instruction.operands]))

private theorem enter_locations (s : LowerState) :
    ({ s with bindings := s.bindings.enter } : LowerState).locations = s.locations := rfl

private theorem put_subset (visible : List (String × Binding)) (name : String) (binding : Binding) :
    (Bindings.put visible name binding).map (·.2.value.loc) ⊆
      binding.value.loc :: visible.map (·.2.value.loc) := by
  unfold Bindings.put
  rw [List.map_cons]
  refine List.cons_subset_cons _ ?_
  exact (List.filter_sublist.map _).subset

/-- Leaving a block brings back bindings that were known. -/
theorem leave_locations (b : Bindings) : b.leave.locations ⊆ b.locations := by
  have restored (hidden : List Hidden) (visible : List (String × Binding)) :
      (hidden.foldl (fun visible h => Bindings.put visible h.name h.binding) visible).map
        (·.2.value.loc) ⊆ visible.map (·.2.value.loc) ++ hidden.map (·.binding.value.loc) := by
    induction hidden generalizing visible with
    | nil => simp
    | cons h rest ih =>
      refine List.Subset.trans (ih _) ?_
      intro loc member
      rcases List.mem_append.mp member with shown | later
      · rcases List.mem_cons.mp (put_subset _ _ _ shown) with rfl | old
        · simp
        · exact List.mem_append_left _ old
      · simp [later]
  intro loc member
  rcases List.mem_append.mp member with shown | kept
  · rcases List.mem_append.mp (restored _ _ shown) with old | back
    · exact List.mem_append_left _ ((List.filter_sublist.map _).subset old)
    · exact List.mem_append_right _ (((List.takeWhile_sublist _).map _).subset back)
  · exact List.mem_append_right _ (((List.dropWhile_sublist _).map _).subset kept)

theorem declare_locations (b : Bindings) (name : String) (value : Value) :
    (b.declare name value).locations ⊆ value.loc :: b.locations := by
  intro loc member
  rcases List.mem_append.mp member with shown | hidden
  · rcases List.mem_cons.mp (put_subset _ _ _ shown) with rfl | old
    · exact List.mem_cons_self
    · exact List.mem_cons_of_mem _ (List.mem_append_left _ old)
  · refine List.mem_cons_of_mem _ ?_
    simp only [Bindings.declare] at hidden
    split at hidden
    · rename_i old found
      split at hidden
      · rcases List.mem_cons.mp hidden with rfl | hidden
        · exact List.mem_append_left _ (List.mem_map_of_mem (Table.mem_of_lookup found))
        · exact List.mem_append_right _ hidden
      · exact List.mem_append_right _ hidden
    · exact List.mem_append_right _ hidden

/-- Storage for a variable takes the next local slot. -/
theorem allocate_sound (name : String) (id : DeclId) :
    Sound arity known [] (emit (Emitter.allocate name)) (fun loc => [loc])
      fun s => [(id, (Emitter.allocate name s.emitter).value)] := by
  intro s kept _ _
  have opened := kept.inFunction
  have advance : s.emitter.Advance { s.emitter with locals := s.emitter.locals + 1 } []
      [⟨name, .frame, s.emitter.shape.localPosition s.emitter.locals⟩] [] := {
    shape := rfl
    globals := rfl
    inFunction := rfl
    issued := rfl
    temps := Nat.le_refl _
    locals := Nat.le_succ _
    slots := by simp [temporaries]
    framed := by simp [temporaries]
    labels := Nat.le_refl _
    placed := ⟨[], rfl, List.nodup_nil, by simp⟩
    plain := by simp }
  have taken : Emitter.allocate name s.emitter =
      ⟨⟨name, .frame, s.emitter.shape.localPosition s.emitter.locals⟩,
        { s.emitter with locals := s.emitter.locals + 1 }, []⟩ := by
    unfold Emitter.allocate
    rw [if_pos opened]
  simp only [emit, taken, List.map_cons, List.map_nil]
  refine ⟨advance, ⟨opened, fun loc member => advance.holds (kept.holds loc member), kept.global⟩,
    by simp, ?_⟩
  intro loc found other member
  cases found
  rw [List.mem_singleton.mp member]
  exact .inr ⟨s.emitter.locals, Nat.lt_succ_self _, rfl⟩

/-- The variables of a block get their storage in order. -/
theorem declareLocals_sound (known : List Location) (decls : List Decl) :
    Sound arity known [] (declareLocals decls) (fun _ => []) fun s => storage s.emitter decls := by
  induction decls generalizing known with
  | nil => exact .pure _ _ (by simp)
  | cons decl rest ih =>
    cases decl with
    | var id name type =>
      have bound (loc : Location) : Quiet arity ([loc] ++ known) (modify fun s =>
          { s with bindings := s.bindings.declare name.name ⟨loc, Tag.ofType type⟩ }) fun _ => [] := by
        refine .modify _ (fun _ => rfl) (fun _ => rfl) fun s => ?_
        intro other member
        simp only [LowerState.locations, List.mem_append] at member
        rcases member with (member | member) | member
        · rcases List.mem_cons.mp (declare_locations _ _ _ member) with rfl | old
          · simp
          · simp [LowerState.locations, old]
        · simp [LowerState.locations, member]
        · simp [LowerState.locations, member]
      exact (allocate_sound name.name id).bind (fun loc => (bound loc).andThen fun _ => ih _) (by simp)
    | cls | interface | prototype | function => exact ih known

/-- A block declares what is declared inside it. -/
theorem inBlock_sound {body : Lower Unit} {vars : LowerState → List (DeclId × Location)}
    (sound : Sound arity known [] body (fun _ => []) vars) :
    Sound arity known [] (inBlock body) (fun _ => [])
      (after (modify fun s => { s with bindings := s.bindings.enter }) fun _ => vars) := by
  have entered : Quiet arity known (modify fun s => { s with bindings := s.bindings.enter })
      fun _ => [] := .modify _ (fun _ => rfl) (fun _ => rfl) fun s => by simp [enter_locations]
  refine entered.andThen fun _ => sound.ensuring _ (fun _ => rfl) (fun _ => rfl) fun s => ?_
  intro loc member
  simp only [LowerState.locations, List.mem_append] at member ⊢
  rcases member with (member | member) | member
  · exact .inl (.inl (leave_locations _ member))
  · exact .inl (.inr member)
  · exact .inr member

theorem inLoop_sound (id : StmtId) (exit : String) {body : Lower Unit}
    {vars : LowerState → List (DeclId × Location)}
    (sound : ∀ known, Sound arity known [] body (fun _ => []) vars) :
    Sound arity known [] (inLoop id exit body) (fun _ => [])
      (after (modify fun s => { s with loops := s.loops.enter id exit }) fun _ => vars) := by
  have entered : Quiet arity known (modify fun s => { s with loops := s.loops.enter id exit })
      fun _ => [] := .modify _ (fun _ => rfl) (fun _ => rfl) fun s => List.subset_append_left ..
  exact entered.andThen fun _ =>
    (sound _).ensuring _ (fun _ => rfl) (fun _ => rfl) fun s => List.Subset.refl _

/-- A loop takes two labels and places both. -/
theorem loop_sound (id : StmtId) {test : Lower Value} {body step : Lower Unit}
    {vars : LowerState → List (DeclId × Location)}
    (testQuiet : ∀ known, Quiet arity known test fun value => [value.loc])
    (bodySound : ∀ known, Sound arity known [] body (fun _ => []) vars)
    (stepQuiet : ∀ known, Quiet arity known step fun _ => []) :
    Sound arity known [] (loop id test body step) (fun _ => []) (loopLocals id test vars) := by
  refine .withLabel fun top _ => .withLabel fun exit new => ?_
  have distinct : top ∉ [exit] := by
    rintro member
    rw [List.mem_singleton.mp member] at new
    exact new List.mem_cons_self
  refine (Sound.placing distinct fun _ => ?_).owing (List.Perm.swap exit top []).subset
  refine (testQuiet known).andThen fun condition => ?_
  refine (branch_quiet _ _ (by simp)).andThen fun _ => ?_
  refine (inLoop_sound id _ bodySound).thenQuiet fun _ => ?_
  refine (stepQuiet _).thenQuiet fun _ => ?_
  exact (jump_quiet _).thenQuiet fun _ => .emit (.label exit)

theorem printAll_quiet (layouts : Layouts) (known : List Location) (args : List Expr) :
    Quiet arity known (printAll layouts args) fun _ => [] := by
  induction args generalizing known with
  | nil => exact .pure _ _ (by simp)
  | cons e rest ih =>
    refine (value_quiet layouts e).quietly fun v => ?_
    refine (Sound.ofOption _ _ (fun _ => []) (by simp)).quietly fun routine => ?_
    refine (Sound.emit (.issue _ rfl rfl rfl (by simp [Instruction.operands]))).quietly fun _ => ?_
    exact ih _

theorem optionalEffect_quiet (layouts : Layouts) (e : Option Expr) :
    Quiet arity known (optionalEffect layouts e) fun _ => [] := by
  cases e with
  | none => exact .pure _ _ (by simp)
  | some e => exact effect_quiet layouts e

variable (arena : Arena) (layouts : Layouts)

mutual

/-- Lowering a statement is accounted for, whether or not it fails. -/
theorem stmt_sound (known : List Location) :
    ∀ s : Stmt, Sound arity known [] (stmt arena layouts s) (fun _ => []) (locals arena layouts s)
  | .block _ decls body =>
    inBlock_sound ((declareLocals_sound known decls).bind
      (fun _ => stmts_sound _ body) (by simp))
  | .ifThen _ test body =>
    (value_quiet layouts test).andThen fun condition =>
      .withLabel fun skip _ =>
        (branch_quiet _ _ (by simp)).andThen fun _ =>
          (stmt_sound _ body).thenQuiet fun _ => .emit (.label skip)
  | .ifElse _ test yes no =>
    (value_quiet layouts test).andThen fun condition =>
      .withLabel fun other _ =>
        (branch_quiet _ _ (by simp)).andThen fun _ =>
          (stmt_sound _ yes).bind (fun _ =>
            .withLabel fun done new =>
              (jump_quiet _).andThen fun _ =>
                ((Sound.placing (by simpa [eq_comm] using new) fun _ =>
                  (stmt_sound _ no).thenQuiet fun _ => .emit (.label done)).owing
                    (List.Perm.swap done other []).subset)) (by simp)
  | .whileLoop site test body =>
    loop_sound site.id (fun _ => value_quiet layouts test) (fun known => stmt_sound known body)
      fun _ => .pure _ _ (by simp)
  | .forLoop site init test step body =>
    (optionalEffect_quiet layouts init).andThen fun _ =>
      loop_sound site.id (fun _ => value_quiet layouts test) (fun known => stmt_sound known body)
        fun _ => optionalEffect_quiet layouts step
  | .ret _ none => .emit (.issue _ rfl rfl rfl (by simp [Instruction.operands]))
  | .ret _ (some e) =>
    (value_quiet layouts e).quietly fun _ =>
      .emit (.issue _ rfl rfl rfl (by simp [Instruction.operands]))
  | .print _ args => printAll_quiet layouts known args
  | .leave site =>
    Sound.get.quietly fun s =>
      (Sound.ofOption _ _ (fun _ => []) (by simp)).quietly fun _ => jump_quiet _
  | .expr _ e => effect_quiet layouts e
  | .knot _ => .pure _ _ (by simp)

theorem stmts_sound (known : List Location) :
    ∀ body : List Stmt,
      Sound arity known [] (stmts arena layouts body) (fun _ => []) (localsAll arena layouts body)
  | [] => .pure _ _ (by simp)
  | s :: rest => (stmt_sound known s).bind (fun _ => stmts_sound _ rest) (by simp)

end

end Statements

end Lower

end DecafTac
