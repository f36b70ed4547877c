import DecafTac.Proofs.Lower.Accounting
import DecafTac.Proofs.Source.Trees
import DecafTac.Proofs.Storage.Agreement
import DecafTac.Proofs.Tac.Renumbering

/-!
Lowering with other numbers. A body that is lowered in two states that know the same variables, with the
same tags, gives the same code up to the numbers of temporaries and labels, and fails in both or in
neither. The layouts need not be the same either, as long as they say the same of every class and of
every function.
-/
namespace DecafTac

namespace Renumbering

open Lower hiding bind pure get shape modify emit fail ofOption ensuring

/-- Places that are the same up to the numbers. -/
inductive Places (r : Renumbering) : Place → Place → Prop where
  | «variable» {value : Value} (name : String) (named : value.loc.name ∈ r.names) :
      Places r (.variable name value) (.variable name value)
  | memory {addr addr' : Location} (offset : Int) (tag : Tag) (kept : r.Loc addr addr') :
      Places r (.memory addr offset tag) (.memory addr' offset tag)
  | computed {value value' : Value} (alike : r.Val value value') :
      Places r (.computed value) (.computed value')

/-- Loops that end at labels of the same place in the two counts. -/
abbrev Exits (r : Renumbering) (one other : List (StmtId × String)) : Prop :=
  List.Forall₂ (fun exit exit' => exit.1 = exit'.1 ∧ r.Label exit.2 exit'.2) one other

/-- States of lowering that know the same variables, and otherwise are the same up to the numbers. -/
structure States (r : Renumbering) (one other : LowerState) : Prop where
  emitter : r.Emitters one.emitter other.emitter
  globals : one.globals = other.globals
  bindings : one.bindings = other.bindings
  method : one.method = other.method
  loops : r.Exits one.loops.exits other.loops.exits
  named : ∀ loc ∈ one.locations, loc.name ∈ r.names

/-- Two ends of a step: the same failure, or values that are related. -/
inductive Ends {α : Type} (gives : α → α → Prop) :
    Except LowerError α → Except LowerError α → Prop where
  | ok {a a' : α} (given : gives a a') : Ends gives (.ok a) (.ok a')
  | error (error : LowerError) : Ends gives (.error error) (.error error)

variable {α β : Type} {r : Renumbering} {gives : α → α → Prop} {gives' : β → β → Prop}

/-- Two steps that lower alike from such states: they issue the same up to the numbers, end in such
states and fail alike. -/
def Lowers (r : Renumbering) (gives : α → α → Prop) (step step' : Lower α) : Prop :=
  ∀ s s', r.States s s' → r.States (step s).state (step' s').state ∧
    List.Forall₂ r.Instr (step s).code (step' s').code ∧ Ends gives (step s).value (step' s').value

/-- Any two values. -/
abbrev Any (_ _ : α) : Prop := True

namespace Lowers

theorem pure {a a' : α} (given : gives a a') : r.Lowers gives (Pure.pure a) (Pure.pure a') :=
  fun _ _ alike => ⟨alike, .nil, .ok given⟩

theorem fail (error : LowerError) : r.Lowers gives (Lower.fail error) (Lower.fail error) :=
  fun _ _ alike => ⟨alike, .nil, .error error⟩

theorem bind {step step' : Lower α} {rest rest' : α → Lower β} (first : r.Lowers gives step step')
    (second : ∀ a a', gives a a' → r.Lowers gives' (rest a) (rest' a')) :
    r.Lowers gives' (step >>= rest) (step' >>= rest') := by
  intro s s' alike
  obtain ⟨alike₁, code₁, ends⟩ := first s s' alike
  simp only [Lower.bind_apply]
  generalize (step s).value = result at ends
  generalize (step' s').value = result' at ends
  cases ends with
  | error error => exact ⟨alike₁, code₁, .error error⟩
  | ok given =>
    obtain ⟨alike₂, code₂, ends₂⟩ := second _ _ given _ _ alike₁
    exact ⟨alike₂, List.rel_append code₁ code₂, ends₂⟩

theorem ofOption (error : LowerError) {found found' : Option α} (alike : Option.Rel gives found found') :
    r.Lowers gives (Lower.ofOption error found) (Lower.ofOption error found') := by
  cases alike with
  | none => exact .fail error
  | some given => exact .pure given

/-- What is the same, and is looked up in both. -/
theorem lookUp (error : LowerError) (found : Option α) :
    r.Lowers (fun a a' => a = a' ∧ found = some a) (Lower.ofOption error found)
      (Lower.ofOption error found) := by
  cases found with
  | none => exact .fail error
  | some a => exact .pure ⟨rfl, rfl⟩

theorem get : r.Lowers r.States Lower.get Lower.get := fun _ _ alike => ⟨alike, .nil, .ok alike⟩

theorem shape : r.Lowers Eq Lower.shape Lower.shape :=
  fun _ _ alike => ⟨alike, .nil, .ok alike.emitter.shape⟩

theorem modify {change change' : LowerState → LowerState}
    (keeps : ∀ s s', r.States s s' → r.States (change s) (change' s')) :
    r.Lowers Any (Lower.modify change) (Lower.modify change') :=
  fun s s' alike => ⟨keeps s s' alike, .nil, .ok trivial⟩

theorem ensuring {step step' : Lower α} {change change' : LowerState → LowerState}
    (alike : r.Lowers gives step step')
    (keeps : ∀ s s', r.States s s' → r.States (change s) (change' s')) :
    r.Lowers gives (Lower.ensuring step (Emission.modify change))
      (Lower.ensuring step' (Emission.modify change')) := by
  intro s s' same
  obtain ⟨after, code, ends⟩ := alike s s' same
  exact ⟨keeps _ _ after, List.rel_append code .nil, ends⟩

theorem emit {step step' : Emit α} (alike : r.Emits gives step step') :
    r.Lowers gives (Lower.emit step) (Lower.emit step') := by
  intro s s' same
  obtain ⟨after, code, given⟩ := alike _ _ same.emitter
  exact ⟨{ same with emitter := after }, code, .ok given⟩

/-- A step whose value is thrown away. -/
theorem discard {step step' : Lower α} (alike : r.Lowers gives step step') :
    r.Lowers Any (discard step) (discard step') :=
  alike.bind fun _ _ _ => .pure trivial

end Lowers

/-! ## Places -/

theorem fieldPlace_lowers (layout : ClassLayout) {object object' : Location} (field : String)
    (kept : r.Loc object object') :
    r.Lowers r.Places (fieldPlace layout object field) (fieldPlace layout object' field) := by
  refine (Lowers.lookUp _ _).bind ?_
  rintro offset _ ⟨rfl, -⟩
  refine Lowers.shape.bind ?_
  rintro shape _ rfl
  exact .pure (.memory _ _ kept)

theorem namePlace_lowers (name : String) : r.Lowers r.Places (namePlace name) (namePlace name) := by
  refine Lowers.get.bind fun s s' alike => ?_
  have globalPlace : r.Lowers r.Places (namePlace.globalPlace name s)
      (namePlace.globalPlace name s') := by
    unfold namePlace.globalPlace
    rw [← alike.globals]
    split
    · rename_i value found
      refine .pure (.variable name (alike.named _ ?_))
      exact List.mem_append_right _ (global_location found)
    · exact .fail _
  rw [← alike.bindings, ← alike.method]
  split
  · rename_i value found
    refine .pure (.variable name (alike.named _ ?_))
    exact List.mem_append_left _ (List.mem_append_left _ (lookup_location found))
  · split
    · rename_i method found
      split
      · refine fieldPlace_lowers _ _ (.kept (alike.named _ ?_))
        simp [LowerState.locations, found]
      · exact globalPlace
    · exact globalPlace

theorem elementPlace_lowers {array array' index index' : Value} (first : r.Val array array')
    (second : r.Val index index') :
    r.Lowers r.Places (elementPlace array index) (elementPlace array' index') := by
  refine (Lowers.emit (elementAddress_emits first second)).bind fun _ _ kept => ?_
  refine Lowers.shape.bind ?_
  rintro shape _ rfl
  obtain ⟨-⟩ := first
  exact .pure (.memory _ _ kept)

theorem read_lowers {place place' : Place} (alike : r.Places place place') :
    r.Lowers r.Val (read place) (read place') := by
  cases alike with
  | «variable» name named => exact .pure ⟨.kept named⟩
  | computed alike => exact .pure alike
  | memory offset tag kept =>
    exact (Lowers.emit (load_emits kept offset)).bind fun _ _ kept => .pure ⟨kept⟩

/-- A variable takes another tag in both states. -/
theorem States.retag {s s' : LowerState} (alike : r.States s s') (name : String) (tag : Tag) :
    r.States (s.retag name tag) (s'.retag name tag) := by
  have named : ∀ loc ∈ (s.retag name tag).locations, loc.name ∈ r.names := by
    rw [retag_locations]
    exact alike.named
  obtain ⟨_, globals, bindings, method, _, _, _⟩ := s
  obtain ⟨_, globals', bindings', method', _, _, _⟩ := s'
  obtain ⟨emitters, rfl, rfl, rfl, exits, -⟩ := alike
  unfold LowerState.retag at *
  split at named
  · rename_i bound
    rw [if_pos bound, if_pos bound]
    exact ⟨emitters, rfl, rfl, rfl, exits, named⟩
  · rename_i bound
    rw [if_neg bound, if_neg bound]
    exact ⟨emitters, rfl, rfl, rfl, exits, named⟩

theorem write_lowers {place place' : Place} {value value' : Value} (target : r.Places place place')
    (source : r.Val value value') : r.Lowers Any (write place value) (write place' value') := by
  have stored := source.loc
  cases target with
  | «variable» name named =>
    refine (Lowers.emit (.issue (.assign (.kept named) stored))).bind fun _ _ _ => ?_
    obtain ⟨-⟩ := source
    split
    · exact .modify fun s s' alike => alike.retag name _
    · exact .pure trivial
  | memory offset tag kept => exact .emit (.issue (.store offset kept stored))
  | computed alike => exact .emit (.issue (.assign alike.loc stored))

/-! ## Calls and expressions -/

/-- The locations of values that are the same up to the numbers, from the last to the first. -/
theorem pushed_alike {args args' : List Value} (alike : List.Forall₂ r.Val args args') :
    List.Forall₂ r.Loc (args.reverse.map Value.loc) (args'.reverse.map Value.loc) := by
  refine List.forall₂_map_left_iff.mpr (List.forall₂_map_right_iff.mpr ?_)
  exact (List.forall₂_reverse_iff.mpr alike).imp fun _ _ => Val.loc

/-- A call with its parameters around it. -/
theorem passing_emits {params params' : List Location} {call call' : Emit (Option Location)}
    (pushed : List.Forall₂ r.Loc params params') (called : r.Emits (Option.Rel r.Loc) call call')
    (bytes : Int) :
    r.Emits (Option.Rel r.Loc)
      (do pushAll params; let dst ← call; Emitter.popParams bytes; return dst)
      (do pushAll params'; let dst ← call'; Emitter.popParams bytes; return dst) :=
  (pushAll_emits pushed).bind fun _ _ _ => called.bind fun _ _ stored =>
    (popParams_emits bytes).bind fun _ _ _ => .pure stored

/-- The value of a call, when it gives one. -/
theorem result_lowers (tag : Tag) {call call' : Emit (Option Location)}
    (alike : r.Emits (Option.Rel r.Loc) call call') :
    r.Lowers (Option.Rel r.Val)
      (do let dst ← Lower.emit call; return dst.map fun loc => (⟨loc, tag⟩ : Value))
      (do let dst ← Lower.emit call'; return dst.map fun loc => (⟨loc, tag⟩ : Value)) := by
  refine (Lowers.emit alike).bind fun dst dst' stored => ?_
  cases stored with
  | none => exact .pure .none
  | some kept => exact .pure (.some ⟨kept⟩)

section Expressions

variable {layouts layouts' : Layouts}

theorem classLayout_lowers (agree : layouts.Agree layouts') (name : String) :
    r.Lowers Eq (classLayout layouts name) (classLayout layouts' name) := by
  unfold classLayout
  rw [agree.classes]
  intro s s' alike
  cases layouts'.class? name with
  | none => exact Lowers.fail _ s s' alike
  | some layout => exact Lowers.pure rfl s s' alike

theorem layoutOf_lowers (agree : layouts.Agree layouts') {value value' : Value}
    (alike : r.Val value value') :
    r.Lowers Eq (layoutOf layouts value) (layoutOf layouts' value') := by
  obtain ⟨-⟩ := alike
  simp only [layoutOf]
  split
  · exact classLayout_lowers agree _
  · exact .fail _

theorem callMethod_lowers (agree : layouts.Agree layouts') {receiver receiver' : Value}
    (name : String) {args args' : List Value} (object : r.Val receiver receiver')
    (passed : List.Forall₂ r.Val args args') :
    r.Lowers (Option.Rel r.Val) (callMethod layouts receiver name args)
      (callMethod layouts' receiver' name args') := by
  refine (layoutOf_lowers agree object).bind ?_
  rintro layout _ rfl
  refine (Lowers.lookUp _ _).bind ?_
  rintro slot _ ⟨rfl, -⟩
  refine Lowers.shape.bind ?_
  rintro shape _ rfl
  rw [passed.length_eq]
  have params := List.rel_append (pushed_alike passed) (.cons object.loc .nil)
  refine result_lowers _ ?_
  refine (load_emits object.loc _).bind fun _ _ table => ?_
  refine (load_emits table _).bind fun _ _ method => ?_
  exact passing_emits params (callAddress_emits method _) _

theorem callFunction_lowers (agree : layouts.Agree layouts') (name : String)
    {args args' : List Value} (passed : List.Forall₂ r.Val args args') :
    r.Lowers (Option.Rel r.Val) (callFunction layouts name args)
      (callFunction layouts' name args') := by
  unfold callFunction
  rw [← agree.functions, passed.length_eq]
  refine (Lowers.lookUp _ _).bind ?_
  rintro entry _ ⟨rfl, found⟩
  rw [agree.results name entry found]
  refine Lowers.shape.bind ?_
  rintro shape _ rfl
  exact result_lowers _ (passing_emits (pushed_alike passed) (callLabel_emits _ _) _)

theorem callBare_lowers (agree : layouts.Agree layouts') (name : String)
    {args args' : Lower (List Value)} (passed : r.Lowers (List.Forall₂ r.Val) args args') :
    r.Lowers (Option.Rel r.Val) (callBare layouts name args) (callBare layouts' name args') := by
  refine Lowers.get.bind fun s s' alike => ?_
  refine passed.bind fun values values' passed => ?_
  rw [← alike.method]
  split
  · rename_i method found
    split
    · refine callMethod_lowers agree name ⟨.kept (alike.named _ ?_)⟩ passed
      simp [LowerState.locations, found]
    · exact callFunction_lowers agree name passed
  · exact callFunction_lowers agree name passed

theorem callOn_lowers (agree : layouts.Agree layouts') (name : String) (noArgs : Bool)
    {receiver receiver' : Lower Value} {args args' : Lower (List Value)}
    (object : r.Lowers r.Val receiver receiver') (passed : r.Lowers (List.Forall₂ r.Val) args args') :
    r.Lowers (Option.Rel r.Val) (callOn layouts receiver name noArgs args)
      (callOn layouts' receiver' name noArgs args') := by
  refine object.bind fun value value' alike => ?_
  have given := alike
  obtain ⟨kept⟩ := alike
  dsimp only
  split
  · exact (Lowers.emit (load_emits kept _)).bind fun _ _ kept => .pure (.some ⟨kept⟩)
  · exact passed.bind fun _ _ passed => callMethod_lowers agree name given passed

theorem needed_lowers (name : String) {call call' : Lower (Option Value)}
    (alike : r.Lowers (Option.Rel r.Val) call call') :
    r.Lowers r.Val (needed name call) (needed name call') :=
  alike.bind fun _ _ given => .ofOption _ given

mutual

/-- Lowering an expression gives the same place, up to the numbers. -/
theorem place_lowers (agree : layouts.Agree layouts') :
    ∀ e : Expr, r.Lowers r.Places (place layouts e) (place layouts' e)
  | .int .. | .double .. | .bool .. | .string .. =>
    (Lowers.emit (loadConstant_emits _)).bind fun _ _ kept => .pure (.computed ⟨kept⟩)
  | .null _ => by
    refine Lowers.shape.bind ?_
    rintro shape _ rfl
    refine (Lowers.emit (loadConstant_emits _)).bind fun _ _ width => ?_
    exact (Lowers.emit (request_emits _ (.cons width .nil))).bind fun _ _ kept =>
      .pure (.computed ⟨kept⟩)
  | .binary _ op left right =>
    ((place_lowers agree left).bind fun _ _ => read_lowers).bind fun _ _ one =>
      ((place_lowers agree right).bind fun _ _ => read_lowers).bind fun _ _ two =>
        (Lowers.emit (operator_emits op one two)).bind fun _ _ alike => .pure (.computed alike)
  | .unary _ op operand =>
    ((place_lowers agree operand).bind fun _ _ => read_lowers).bind fun _ _ one =>
      (Lowers.emit (unary_emits op one)).bind fun _ _ alike => .pure (.computed alike)
  | .assign _ target value =>
    (place_lowers agree target).bind fun _ _ dst =>
      ((place_lowers agree value).bind fun _ _ => read_lowers).bind fun _ _ alike =>
        (write_lowers dst alike).bind fun _ _ _ => .pure (.computed alike)
  | .name _ name => namePlace_lowers name.name
  | .field _ object name => by
    refine ((place_lowers agree object).bind fun _ _ => read_lowers).bind fun _ _ alike => ?_
    refine (layoutOf_lowers agree alike).bind ?_
    rintro layout _ rfl
    exact fieldPlace_lowers layout name.name alike.loc
  | .element _ array index =>
    ((place_lowers agree array).bind fun _ _ => read_lowers).bind fun _ _ one =>
      ((place_lowers agree index).bind fun _ _ => read_lowers).bind fun _ _ two =>
        elementPlace_lowers one two
  | .call _ name actuals =>
    (needed_lowers name.name (callBare_lowers agree name.name (values_lowers agree actuals))).bind
      fun _ _ alike => .pure (.computed alike)
  | .send _ receiver name actuals =>
    (needed_lowers name.name (callOn_lowers agree name.name actuals.isEmpty
      ((place_lowers agree receiver).bind fun _ _ => read_lowers) (values_lowers agree actuals))).bind
      fun _ _ alike => .pure (.computed alike)
  | .new _ cls => by
    refine (classLayout_lowers agree cls.name).bind ?_
    rintro layout _ rfl
    exact (Lowers.emit (newObject_emits layout cls.name)).bind fun _ _ alike => .pure (.computed alike)
  | .newArray _ size element =>
    ((place_lowers agree size).bind fun _ _ => read_lowers).bind fun _ _ one =>
      (Lowers.emit (newArray_emits _ one)).bind fun _ _ alike => .pure (.computed alike)
  | .this _ => by
    refine Lowers.get.bind fun s s' alike => ?_
    rw [← alike.method]
    refine (Lowers.lookUp _ _).bind ?_
    rintro method _ ⟨rfl, found⟩
    refine .pure (.computed ⟨.kept (alike.named _ ?_)⟩)
    simp [LowerState.locations, found]
  | .readInteger _ | .readLine _ =>
    (Lowers.emit (request_emits _ .nil)).bind fun _ _ kept => .pure (.computed ⟨kept⟩)
  | .knot _ => .fail _

theorem values_lowers (agree : layouts.Agree layouts') :
    ∀ es : List Expr, r.Lowers (List.Forall₂ r.Val) (values layouts es) (values layouts' es)
  | [] => .pure .nil
  | e :: rest =>
    ((place_lowers agree e).bind fun _ _ => read_lowers).bind fun _ _ one =>
      (values_lowers agree rest).bind fun _ _ others => .pure (.cons one others)

end

theorem value_lowers (agree : layouts.Agree layouts') (e : Expr) :
    r.Lowers r.Val (value layouts e) (value layouts' e) :=
  (place_lowers agree e).bind fun _ _ => read_lowers

theorem effect_lowers (agree : layouts.Agree layouts') (e : Expr) :
    r.Lowers Any (effect layouts e) (effect layouts' e) := by
  unfold effect
  split
  · exact (callBare_lowers agree _ (values_lowers agree _)).discard
  · exact (callOn_lowers agree _ _ (value_lowers agree _) (values_lowers agree _)).discard
  · exact (value_lowers agree e).discard

theorem optionalEffect_lowers (agree : layouts.Agree layouts') (e : Option Expr) :
    r.Lowers Any (optionalEffect layouts e) (optionalEffect layouts' e) := by
  cases e with
  | none => exact .pure trivial
  | some e => exact effect_lowers agree e

theorem printAll_lowers (agree : layouts.Agree layouts') (args : List Expr) :
    r.Lowers Any (printAll layouts args) (printAll layouts' args) := by
  induction args with
  | nil => exact .pure trivial
  | cons e rest ih =>
    refine (value_lowers agree e).bind fun _ _ alike => ?_
    obtain ⟨kept⟩ := alike
    refine (Lowers.lookUp _ _).bind ?_
    rintro routine _ ⟨rfl, -⟩
    exact (Lowers.emit (.issue (.callRoutine routine (.cons kept .nil) .none))).bind fun _ _ _ => ih

end Expressions

/-! ## Statements -/

/-- The names of the variables in a tree are the same in both listings. -/
def Covers (r : Renumbering) (t : Tree) : Prop :=
  ∀ id name type, Tree.decl (.var id name type) ∈ t.subtrees → name.name ∈ r.names

theorem Covers.part {t part : Tree} (covers : r.Covers t) (inside : part ∈ t.children) :
    r.Covers part :=
  fun id name type member => covers id name type (Tree.part_subtrees inside member)

theorem declareLocals_lowers (decls : List Decl)
    (covers : ∀ decl ∈ decls, r.Covers (.decl decl)) :
    r.Lowers Any (declareLocals decls) (declareLocals decls) := by
  induction decls with
  | nil => exact .pure trivial
  | cons decl rest ih =>
    rw [List.forall_mem_cons] at covers
    cases decl with
    | var id name type =>
      have named := covers.1 id name type (Tree.self_mem_subtrees _)
      refine (Lowers.emit (allocate_emits named)).bind ?_
      rintro loc _ ⟨rfl, kept⟩
      refine Lowers.bind (.modify fun s s' alike => ?_) fun _ _ _ => ih covers.2
      refine { alike with bindings := by rw [alike.bindings], named := ?_ }
      intro other member
      simp only [LowerState.locations, List.mem_append] at member
      rcases member with (member | member) | member
      · rcases List.mem_cons.mp (declare_locations _ _ _ member) with rfl | old
        · exact kept
        · exact alike.named other (by simp [LowerState.locations, old])
      · exact alike.named other (by simp [LowerState.locations, member])
      · exact alike.named other (by simp [LowerState.locations, member])
    | cls | interface | prototype | function => exact ih covers.2

theorem inBlock_lowers {body body' : Lower Unit} (alike : r.Lowers Any body body') :
    r.Lowers Any (inBlock body) (inBlock body') := by
  refine Lowers.bind (.modify fun s s' same => ?_) fun _ _ _ => alike.ensuring fun s s' same => ?_
  · exact { same with bindings := by rw [same.bindings] }
  · refine { same with bindings := by rw [same.bindings], named := fun loc member => ?_ }
    apply same.named
    simp only [LowerState.locations, List.mem_append] at member ⊢
    rcases member with (member | member) | member
    · exact .inl (.inl (leave_locations _ member))
    · exact .inl (.inr member)
    · exact .inr member

/-- Closing a loop takes the same exits out. -/
theorem Exits.without {one other : List (StmtId × String)} (alike : r.Exits one other) (id : StmtId) :
    r.Exits (one.filter (·.1 != id)) (other.filter (·.1 != id)) := by
  induction alike with
  | nil => exact .nil
  | @cons exit exit' rest rest' same _ ih =>
    rw [List.filter_cons, List.filter_cons, same.1]
    split
    · exact .cons same ih
    · exact ih

theorem Exits.lookup {one other : List (StmtId × String)} (alike : r.Exits one other) (id : StmtId) :
    Option.Rel r.Label (one.lookup id) (other.lookup id) := by
  induction alike with
  | nil => exact .none
  | @cons exit exit' rest rest' same _ ih =>
    obtain ⟨loop, label⟩ := exit
    obtain ⟨loop', label'⟩ := exit'
    obtain ⟨rfl, numbered⟩ := same
    rw [List.lookup_cons, List.lookup_cons]
    cases id == loop with
    | true => exact .some numbered
    | false => exact ih

theorem inLoop_lowers (id : StmtId) {exit exit' : String} (numbered : r.Label exit exit')
    {body body' : Lower Unit} (alike : r.Lowers Any body body') :
    r.Lowers Any (inLoop id exit body) (inLoop id exit' body') := by
  refine Lowers.bind (.modify fun s s' same => ?_) fun _ _ _ => alike.ensuring fun s s' same => ?_
  · exact { same with loops := .cons ⟨rfl, numbered⟩ (Exits.without same.loops id) }
  · exact { same with loops := Exits.without same.loops id }

theorem loop_lowers (id : StmtId) {test test' : Lower Value} {body body' step step' : Lower Unit}
    (testing : r.Lowers r.Val test test') (inside : r.Lowers Any body body')
    (stepping : r.Lowers Any step step') :
    r.Lowers Any (loop id test body step) (loop id test' body' step') := by
  refine (Lowers.emit freshLabel_emits).bind fun _ _ top => ?_
  refine (Lowers.emit freshLabel_emits).bind fun _ _ exit => ?_
  refine (Lowers.emit (.issue (.label top))).bind fun _ _ _ => ?_
  refine testing.bind fun _ _ condition => ?_
  refine (Lowers.emit (.issue (.jumpIfZero condition.loc exit))).bind fun _ _ _ => ?_
  refine (inLoop_lowers id exit inside).bind fun _ _ _ => ?_
  refine stepping.bind fun _ _ _ => ?_
  exact (Lowers.emit (.issue (.jump top))).bind fun _ _ _ => .emit (.issue (.label exit))

section Statements

variable (arena : Arena) {layouts layouts' : Layouts}

mutual

/-- Lowering a statement gives the same code, up to the numbers, and fails alike. -/
theorem stmt_lowers (agree : layouts.Agree layouts') : ∀ s : Stmt, r.Covers (.stmt s) →
    r.Lowers Any (stmt arena layouts s) (stmt arena layouts' s)
  | .block _ decls body, covers =>
    inBlock_lowers ((declareLocals_lowers decls fun decl inside => covers.part (by
      simp [Tree.children, Stmt.children, inside])).bind fun _ _ _ =>
        stmts_lowers agree body fun s inside => covers.part (by
          simp [Tree.children, Stmt.children, inside]))
  | .ifThen _ test body, covers =>
    (value_lowers agree test).bind fun _ _ condition =>
      (Lowers.emit freshLabel_emits).bind fun _ _ skip =>
        (Lowers.emit (.issue (.jumpIfZero condition.loc skip))).bind fun _ _ _ =>
          (stmt_lowers agree body (covers.part (by simp [Tree.children, Stmt.children]))).bind
            fun _ _ _ => .emit (.issue (.label skip))
  | .ifElse _ test yes no, covers =>
    (value_lowers agree test).bind fun _ _ condition =>
      (Lowers.emit freshLabel_emits).bind fun _ _ other =>
        (Lowers.emit (.issue (.jumpIfZero condition.loc other))).bind fun _ _ _ =>
          (stmt_lowers agree yes (covers.part (by simp [Tree.children, Stmt.children]))).bind
            fun _ _ _ => (Lowers.emit freshLabel_emits).bind fun _ _ done =>
              (Lowers.emit (.issue (.jump done))).bind fun _ _ _ =>
                (Lowers.emit (.issue (.label other))).bind fun _ _ _ =>
                  (stmt_lowers agree no (covers.part (by simp [Tree.children, Stmt.children]))).bind
                    fun _ _ _ => .emit (.issue (.label done))
  | .whileLoop site test body, covers =>
    loop_lowers site.id (value_lowers agree test)
      (stmt_lowers agree body (covers.part (by simp [Tree.children, Stmt.children]))) (.pure trivial)
  | .forLoop site init test step body, covers =>
    (optionalEffect_lowers agree init).bind fun _ _ _ =>
      loop_lowers site.id (value_lowers agree test)
        (stmt_lowers agree body (covers.part (by simp [Tree.children, Stmt.children])))
        (optionalEffect_lowers agree step)
  | .ret _ none, _ => .emit (.issue (.ret .none))
  | .ret _ (some e), _ =>
    (value_lowers agree e).bind fun _ _ alike => .emit (.issue (.ret (.some alike.loc)))
  | .print _ args, _ => printAll_lowers agree args
  | .leave site, _ => by
    refine Lowers.get.bind fun s s' alike => ?_
    refine Lowers.bind (.ofOption _ ?_) fun _ _ numbered => .emit (.issue (.jump numbered))
    cases arena.enclosingLoop (.stmt site.id) with
    | none => exact .none
    | some id => exact Exits.lookup alike.loops id
  | .expr _ e, _ => effect_lowers agree e
  | .knot _, _ => .pure trivial

theorem stmts_lowers (agree : layouts.Agree layouts') : ∀ body : List Stmt,
    (∀ s ∈ body, r.Covers (.stmt s)) →
    r.Lowers Any (stmts arena layouts body) (stmts arena layouts' body)
  | [], _ => .pure trivial
  | s :: rest, covers =>
    (stmt_lowers agree s (covers s List.mem_cons_self)).bind fun _ _ _ =>
      stmts_lowers agree rest fun other member => covers other (List.mem_cons_of_mem _ member)

end

end Statements

end Renumbering

end DecafTac
