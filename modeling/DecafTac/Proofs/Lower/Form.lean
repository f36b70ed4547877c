import DecafTac.Lower.Segment
import DecafTac.Proofs.Source.Trees
import DecafTac.Proofs.Tables
import DecafTac.Proofs.Tac.Form

/-!
Lowering gives code of the right form. A step of lowering that succeeds issues formed code: its calls
are those of call expressions, with the locations of their actuals as parameters, and the tables it
names are those of classes that are laid out.
-/
namespace DecafTac

/-! ## Steps of the emitter -/

namespace Emitter

variable {α β : Type} {refs : References} {exits : List String}

/-- A step that issues formed code. -/
def Forms (refs : References) (exits : List String) (step : Emit α) : Prop :=
  ∀ e : Emitter, e.shape.slotSize = refs.slotSize →
    Formed refs exits e.nextLabel (step e).code (step e).state.nextLabel ∧
      (step e).state.shape = e.shape

namespace Forms

theorem pure (a : α) : Forms refs exits (Pure.pure a : Emit α) := fun _ _ => ⟨.nil, rfl⟩

theorem bind {step : Emit α} {rest : α → Emit β} (first : Forms refs exits step)
    (second : ∀ a, Forms refs exits (rest a)) : Forms refs exits (step >>= rest) := by
  intro e sized
  obtain ⟨formed, shape⟩ := first e sized
  obtain ⟨formed', shape'⟩ := second (step e).value (step e).state (by rw [shape, sized])
  exact ⟨formed.append formed', shape'.trans shape⟩

theorem read : Forms refs exits Emission.get := fun _ _ => ⟨.nil, rfl⟩

theorem issue (i : Instruction) (isPlain : i.isPlain = true) : Forms refs exits (Emitter.issue i) :=
  fun _ _ => ⟨.plain i isPlain, rfl⟩

theorem allocate (name : String) : Forms refs exits (Emitter.allocate name) := by
  intro e _
  unfold Emitter.allocate
  split <;> exact ⟨.nil, rfl⟩

theorem temp : Forms refs exits Emitter.temp :=
  read.bind fun _ => bind (fun _ _ => ⟨.nil, rfl⟩) fun _ => .allocate _

/-- An instruction that gives its value to a new temporary. -/
theorem produce (make : Location → Instruction) (isPlain : ∀ dst, (make dst).isPlain = true) :
    Forms refs exits (do
      let dst ← Emitter.temp
      Emitter.issue (make dst)
      return dst) :=
  temp.bind fun dst => (issue _ (isPlain dst)).bind fun _ => .pure dst

theorem loadConstant (value : Constant) : Forms refs exits (Emitter.loadConstant value) :=
  produce _ fun _ => rfl

theorem load (addr : Location) (offset : Int) : Forms refs exits (Emitter.load addr offset) :=
  produce _ fun _ => rfl

theorem binary (op : TacOp) (left right : Location) :
    Forms refs exits (Emitter.binary op left right) :=
  produce _ fun _ => rfl

theorem loadLabel {name : String} (known : refs.tables name) :
    Forms refs exits (Emitter.loadLabel name) :=
  temp.bind fun dst => bind (fun _ _ => ⟨.table dst known, rfl⟩) fun _ => .pure dst

end Forms

end Emitter

namespace Lower

section Emitting

variable {refs : References} {exits : List String}

open Emitter (Forms)

theorem request_forms (routine : Routine) (args : List Location) :
    Forms refs exits (request routine args) :=
  .produce _ fun _ => rfl

theorem either_forms {left right : Emit Location} (one : Forms refs exits left)
    (other : Forms refs exits right) : Forms refs exits (either left right) :=
  one.bind fun _ => other.bind fun _ => .binary _ _ _

theorem equality_forms (negated : Bool) (left right : Value) :
    Forms refs exits (equality negated left right) := by
  unfold equality
  split
  · exact request_forms _ _
  · exact (request_forms _ _).bind fun _ => (Forms.loadConstant _).bind fun _ => .binary _ _ _
  · exact .binary _ _ _
  · exact either_forms (.binary _ _ _) (.binary _ _ _)

/-- A tag is put to a location that is made first. -/
private theorem tagged_forms {step : Emit Location} (forms : Forms refs exits step) (tag : Tag) :
    Forms refs exits (do return (⟨← step, tag⟩ : Value)) :=
  forms.bind fun _ => .pure _

theorem binary_forms (op : BinaryOp) (left right : Value) :
    Forms refs exits (binary op left right) := by
  cases op with
  | add | sub | mul | div | mod | and | or | lt | gt => exact tagged_forms (.binary _ _ _) _
  | le | ge => exact tagged_forms (either_forms (.binary _ _ _) (.binary _ _ _)) _
  | eq | ne => exact tagged_forms (equality_forms _ _ _) _

theorem unary_forms (op : UnaryOp) (operand : Value) : Forms refs exits (unary op operand) := by
  cases op with
  | neg => exact (Forms.loadConstant _).bind fun _ => tagged_forms (.binary _ _ _) _
  | not =>
    exact (Forms.loadConstant _).bind fun _ => (Forms.binary _ _ _).bind fun _ =>
      (Forms.loadConstant _).bind fun _ => tagged_forms (.binary _ _ _) _

theorem stop_forms (message : String) : Forms refs exits (stop message) :=
  (Forms.loadConstant _).bind fun _ => (Forms.issue _ rfl).bind fun _ => .issue _ rfl

/-- A check takes one label, jumps to it and places it. -/
theorem stopUnlessZero_forms (test : Location) (message : String) :
    Forms refs exits (stopUnlessZero test message) := by
  intro e sized
  have stops : Forms refs exits (stop message) := stop_forms message
  obtain ⟨formed, shape⟩ :=
    stops { e with nextLabel := e.nextLabel + 1, issued := e.issued + 1 } sized
  exact ⟨.skip test formed, shape⟩

theorem newObject_forms {layout : ClassLayout} (cls : String) (known : refs.tables layout.name) :
    Forms refs exits (newObject layout cls) :=
  Forms.read.bind fun _ => (Forms.loadConstant _).bind fun _ => (request_forms _ _).bind fun _ =>
    (Forms.loadLabel known).bind fun _ => (Forms.issue _ rfl).bind fun _ => .pure _

theorem newArray_forms (size : Value) (element : Tag) : Forms refs exits (newArray size element) :=
  Forms.read.bind fun _ => (Forms.loadConstant _).bind fun _ => (Forms.binary _ _ _).bind fun _ =>
    (stopUnlessZero_forms _ _).bind fun _ => (Forms.loadConstant _).bind fun _ =>
      (Forms.binary _ _ _).bind fun _ => (Forms.loadConstant _).bind fun _ =>
        (Forms.binary _ _ _).bind fun _ => (request_forms _ _).bind fun _ =>
          (Forms.issue _ rfl).bind fun _ => .pure _

theorem elementAddress_forms (array index : Value) :
    Forms refs exits (elementAddress array index) :=
  Forms.read.bind fun _ => (Forms.load _ _).bind fun _ =>
    (either_forms (.binary _ _ _) (.binary _ _ _)).bind fun _ => (Forms.loadConstant _).bind fun _ =>
      (Forms.binary _ _ _).bind fun _ => (Forms.binary _ _ _).bind fun _ =>
        (stopUnlessZero_forms _ _).bind fun _ => (Forms.loadConstant _).bind fun _ =>
          (Forms.binary _ _ _).bind fun _ => .binary _ _ _

theorem pushAll_apply (params : List Location) (e : Emitter) :
    pushAll params e =
      ⟨(), { e with issued := e.issued + params.length }, params.map .pushParam⟩ := by
  induction params generalizing e with
  | nil => rfl
  | cons param rest ih =>
    have next : pushAll (param :: rest) e =
        ⟨(pushAll rest { e with issued := e.issued + 1 }).value,
          (pushAll rest { e with issued := e.issued + 1 }).state,
          .pushParam param :: (pushAll rest { e with issued := e.issued + 1 }).code⟩ := rfl
    rw [next, ih, List.length_cons, List.map_cons, Nat.add_assoc, Nat.add_comm 1]

private theorem resultTemp_apply (hasResult : Bool) (e : Emitter) :
    (Emitter.resultTemp hasResult e).code = [] ∧
      (Emitter.resultTemp hasResult e).state.nextLabel = e.nextLabel ∧
      (Emitter.resultTemp hasResult e).state.shape = e.shape := by
  cases hasResult with
  | false => exact ⟨rfl, rfl, rfl⟩
  | true =>
    have made : Emitter.resultTemp true e = ⟨some (Emitter.temp e).value, (Emitter.temp e).state,
        (Emitter.temp e).code ++ []⟩ := rfl
    rw [made]
    by_cases opened : e.inFunction = true <;>
      simp [Emitter.temp, Emission.get, Emission.modify, Emitter.allocate, opened]

private theorem load_apply (addr : Location) (offset : Int) (e : Emitter) :
    (Emitter.load addr offset e).code = [.load (Emitter.load addr offset e).value addr offset] ∧
      (Emitter.load addr offset e).state.nextLabel = e.nextLabel ∧
      (Emitter.load addr offset e).state.shape = e.shape := by
  by_cases opened : e.inFunction = true <;>
    simp [Emitter.load, Emitter.temp, Emitter.issue, Emission.get, Emission.modify, Emitter.allocate,
      opened]

private theorem popParams_apply (bytes : Int) (e : Emitter) :
    (Emitter.popParams bytes e).code = (if 0 < bytes then [.popParams bytes] else []) ∧
      (Emitter.popParams bytes e).state.nextLabel = e.nextLabel ∧
      (Emitter.popParams bytes e).state.shape = e.shape := by
  unfold Emitter.popParams
  split <;> exact ⟨rfl, rfl, rfl⟩

private theorem callLabel_apply (label : String) (hasResult : Bool) (e : Emitter) :
    ∃ dst, (Emitter.callLabel label hasResult e).code = [.callLabel label dst] ∧
      (Emitter.callLabel label hasResult e).state.nextLabel = e.nextLabel ∧
      (Emitter.callLabel label hasResult e).state.shape = e.shape := by
  obtain ⟨code, labels, shape⟩ := resultTemp_apply hasResult e
  exact ⟨(Emitter.resultTemp hasResult e).value,
    by simp [Emitter.callLabel, Emitter.issue, code], labels, shape⟩

private theorem callAddress_apply (addr : Location) (hasResult : Bool) (e : Emitter) :
    ∃ dst, (Emitter.callAddress addr hasResult e).code = [.callAddress addr dst] ∧
      (Emitter.callAddress addr hasResult e).state.nextLabel = e.nextLabel ∧
      (Emitter.callAddress addr hasResult e).state.shape = e.shape := by
  obtain ⟨code, labels, shape⟩ := resultTemp_apply hasResult e
  exact ⟨(Emitter.resultTemp hasResult e).value,
    by simp [Emitter.callAddress, Emitter.issue, code], labels, shape⟩

/-- A call between the pushing of its parameters and their taking off. -/
private def around (params : List Location) (call : Emit (Option Location)) (bytes : Int) :
    Emit (Option Location) := do
  pushAll params.reverse
  let dst ← call
  Emitter.popParams bytes
  return dst

private theorem around_apply (params : List Location) {make : Option Location → Instruction}
    {call : Emit (Option Location)} (issues : ∀ e, ∃ dst, (call e).code = [make dst] ∧
      (call e).state.nextLabel = e.nextLabel ∧ (call e).state.shape = e.shape) (e : Emitter) :
    ∃ dst, (around params call (slotBytes e.shape.slotSize params.length) e).code =
        passing e.shape.slotSize params (make dst) ∧
      (around params call (slotBytes e.shape.slotSize params.length) e).state.nextLabel = e.nextLabel ∧
      (around params call (slotBytes e.shape.slotSize params.length) e).state.shape = e.shape := by
  obtain ⟨dst, code, labels, shape⟩ :=
    issues { e with issued := e.issued + params.reverse.length }
  refine ⟨dst, ?_⟩
  simp only [around, Emission.bind_apply, Emission.pure_apply, pushAll_apply,
    (popParams_apply ..).1, (popParams_apply ..).2.1, (popParams_apply ..).2.2, code, labels, shape]
  exact ⟨by rw [List.append_nil]; rfl, trivial, trivial⟩

/-- A call of a method between the loads that look it up and the taking off of its parameters. -/
private def dispatch (receiver : Location) (offset : Int) (params : List Location) (hasResult : Bool)
    (bytes : Int) : Emit (Option Location) := do
  let table ← Emitter.load receiver 0
  let method ← Emitter.load table offset
  around params (Emitter.callAddress method hasResult) bytes

private theorem dispatch_apply (receiver : Location) (offset : Int) (params : List Location)
    (hasResult : Bool) (e : Emitter) :
    ∃ table method dst,
      (dispatch receiver offset params hasResult (slotBytes e.shape.slotSize params.length) e).code =
        [.load table receiver 0, .load method table offset] ++
          passing e.shape.slotSize params (.callAddress method dst) ∧
      (dispatch receiver offset params hasResult
        (slotBytes e.shape.slotSize params.length) e).state.nextLabel = e.nextLabel ∧
      (dispatch receiver offset params hasResult (slotBytes e.shape.slotSize params.length) e).state.shape =
        e.shape := by
  obtain ⟨code₁, labels₁, shape₁⟩ := load_apply receiver 0 e
  generalize found₁ : Emitter.load receiver 0 e = first at code₁ labels₁ shape₁
  obtain ⟨code₂, labels₂, shape₂⟩ := load_apply first.value offset first.state
  generalize found₂ : Emitter.load first.value offset first.state = second at code₂ labels₂ shape₂
  have sized : second.state.shape = e.shape := shape₂.trans shape₁
  obtain ⟨dst, code, labels, shape⟩ :=
    around_apply params (callAddress_apply second.value hasResult) second.state
  rw [sized] at code labels shape
  refine ⟨first.value, second.value, dst, ?_⟩
  simp only [dispatch, Emission.bind_apply, found₁, found₂, code₁, code₂, code, labels, shape, labels₂,
    labels₁]
  exact ⟨rfl, trivial, trivial⟩

end Emitting

/-! ## Open loops -/

theorem exit?_enter (loops : LoopExits) (id loop : StmtId) (label : String) :
    (loops.enter id label).exit? loop = if loop = id then some label else loops.exit? loop := by
  unfold LoopExits.enter LoopExits.exit?
  rw [Table.lookup_cons]
  by_cases same : loop = id
  · rw [if_pos same, if_pos same]
  · rw [if_neg same, if_neg same, Table.lookup_filter_key (· != id) loops.exits (by simpa using same)]

theorem exit?_leave (loops : LoopExits) {id loop : StmtId} (other : loop ≠ id) :
    (loops.leave id).exit? loop = loops.exit? loop :=
  Table.lookup_filter_key (· != id) loops.exits (by simpa using other)

/-! ## Steps of lowering -/

section Steps

variable {α β : Type} {refs : References} {exits : List String}

/-- What a step of lowering that succeeds leaves behind: formed code, and of the open loops those that
it does not open itself. -/
structure Forming (refs : References) (exits : List String) (s t : LowerState)
    (code : List Instruction) : Prop where
  formed : Formed refs exits s.emitter.nextLabel code t.emitter.nextLabel
  shape : t.emitter.shape = s.emitter.shape
  loops : t.loops.exits ⊆ s.loops.exits
  kept : ∀ id, ¬ refs.opens id → t.loops.exit? id = s.loops.exit? id

theorem Forming.trans {s t u : LowerState} {first second : List Instruction}
    (one : Forming refs exits s t first) (two : Forming refs exits t u second) :
    Forming refs exits s u (first ++ second) where
  formed := one.formed.append two.formed
  shape := two.shape.trans one.shape
  loops := List.Subset.trans two.loops one.loops
  kept id other := (two.kept id other).trans (one.kept id other)

/-- A step that issues nothing and has nothing to do with the emitter or the loops. -/
theorem Forming.unchanged {s t : LowerState} (same : t.emitter = s.emitter)
    (loops : t.loops = s.loops) : Forming refs exits s t [] where
  formed := by rw [same]; exact .nil
  shape := by rw [same]
  loops := by rw [loops]; exact List.Subset.refl _
  kept id _ := by rw [loops]

/-- States between which nothing happens to labels, the shape or the loops. -/
structure Unmarked (s t : LowerState) : Prop where
  labels : t.emitter.nextLabel = s.emitter.nextLabel
  shape : t.emitter.shape = s.emitter.shape
  loops : t.loops = s.loops

/-- A call after the code that gives its parameters their values. -/
theorem Forming.call {s t u : LowerState} {giving : List Instruction} {params : List Location}
    {call : Instruction} (before : Forming refs exits s t giving) (unmarked : Unmarked t u)
    (sized : t.emitter.shape.slotSize = refs.slotSize) (isCall : call.isCall = true)
    (made : refs.calls giving params call) :
    Forming refs exits s u (giving ++ passing t.emitter.shape.slotSize params call) where
  formed := by rw [unmarked.labels, sized]; exact before.formed.call isCall made
  shape := unmarked.shape.trans before.shape
  loops := by rw [unmarked.loops]; exact before.loops
  kept id other := by rw [unmarked.loops]; exact before.kept id other

/-- A step that succeeds does so in both of its parts. -/
theorem bind_run {step : Lower α} {rest : α → Lower β} {s u : LowerState} {b : β}
    {code : List Instruction} (run : (step >>= rest) s = ⟨.ok b, u, code⟩) :
    ∃ a t first second, step s = ⟨.ok a, t, first⟩ ∧ rest a t = ⟨.ok b, u, second⟩ ∧
      code = first ++ second := by
  rw [bind_apply] at run
  cases result : step s with
  | mk value t first =>
    rw [result] at run
    cases value with
    | error e => cases run
    | ok a =>
      obtain ⟨same, rfl, rfl⟩ := Emitted.mk.inj run
      refine ⟨a, t, first, (rest a t).code, rfl, ?_, rfl⟩
      rw [← same]

theorem emit_run {step : Emit α} {s t : LowerState} {a : α} {code : List Instruction}
    (run : Lower.emit step s = ⟨.ok a, t, code⟩) :
    a = (step s.emitter).value ∧ t = { s with emitter := (step s.emitter).state } ∧
      code = (step s.emitter).code := by
  cases run
  exact ⟨rfl, rfl, rfl⟩

/-- Issuing instructions first never fails. -/
theorem emit_bind_run {step : Emit α} {rest : α → Lower β} {s u : LowerState} {b : β}
    {code : List Instruction} (run : (Lower.emit step >>= rest) s = ⟨.ok b, u, code⟩) :
    ∃ second, rest (step s.emitter).value { s with emitter := (step s.emitter).state } =
      ⟨.ok b, u, second⟩ ∧ code = (step s.emitter).code ++ second := by
  obtain ⟨a, t, first, second, issued, later, rfl⟩ := bind_run run
  obtain ⟨rfl, rfl, rfl⟩ := emit_run issued
  exact ⟨second, later, rfl⟩

/-- A step that issues formed code in one state, when it succeeds there. -/
def FormsAt (refs : References) (exits : List String) (step : Lower α) (s : LowerState) : Prop :=
  ∀ a t code, step s = ⟨.ok a, t, code⟩ → s.emitter.shape.slotSize = refs.slotSize →
    (∀ entry ∈ s.loops.exits, entry.2 ∈ exits) → Forming refs exits s t code

/-- A step that issues formed code when it succeeds. -/
def Forms (refs : References) (exits : List String) (step : Lower α) : Prop :=
  ∀ s, FormsAt refs exits step s

theorem FormsAt.bind {step : Lower α} {rest : α → Lower β} {s : LowerState}
    (first : FormsAt refs exits step s)
    (second : ∀ a t code, step s = ⟨.ok a, t, code⟩ → FormsAt refs exits (rest a) t) :
    FormsAt refs exits (step >>= rest) s := by
  intro b u code run sized within
  obtain ⟨a, t, code₁, code₂, one, two, rfl⟩ := bind_run run
  have before := first a t code₁ one sized within
  have after := second a t code₁ one b u code₂ two (by rw [before.shape, sized])
    fun entry member => within entry (before.loops member)
  exact before.trans after

namespace Forms

theorem pure (a : α) : Forms refs exits (Pure.pure a : Lower α) := by
  intro s _ _ _ run _ _
  cases run
  exact .unchanged rfl rfl

theorem fail (error : LowerError) : Forms refs exits (Lower.fail error : Lower α) :=
  fun _ _ _ _ run => nomatch run

theorem ofOption (error : LowerError) (found : Option α) :
    Forms refs exits (Lower.ofOption error found) := by
  cases found with
  | some a => exact .pure a
  | none => exact .fail error

theorem bind {step : Lower α} {rest : α → Lower β} (first : Forms refs exits step)
    (second : ∀ a, Forms refs exits (rest a)) : Forms refs exits (step >>= rest) :=
  fun s => (first s).bind fun a t _ _ => second a t

/-- Reading the state before a step that depends on it. -/
theorem reading {rest : LowerState → Lower β} (forms : ∀ s, FormsAt refs exits (rest s) s) :
    Forms refs exits (Lower.get >>= rest) :=
  fun s => forms s

/-- Reading the shape gives the slots their width. -/
theorem shaped {rest : FrameShape → Lower β}
    (forms : ∀ shape, shape.slotSize = refs.slotSize → Forms refs exits (rest shape)) :
    Forms refs exits (Lower.shape >>= rest) :=
  fun s b t code run sized => forms s.emitter.shape sized s b t code run sized

/-- A change that has nothing to do with the emitter or the loops. -/
theorem modify (change : LowerState → LowerState) (same : ∀ s, (change s).emitter = s.emitter)
    (loops : ∀ s, (change s).loops = s.loops) : Forms refs exits (Lower.modify change) := by
  intro s _ _ _ run _ _
  cases run
  exact .unchanged (same s) (loops s)

theorem emit {step : Emit α} (forms : Emitter.Forms refs exits step) :
    Forms refs exits (Lower.emit step) := by
  intro s _ _ _ run sized _
  obtain ⟨-, rfl, rfl⟩ := emit_run run
  obtain ⟨formed, shape⟩ := forms s.emitter sized
  exact ⟨formed, shape, List.Subset.refl _, fun _ _ => rfl⟩

end Forms

end Steps

/-! ## Calls -/

/-- What is found is there, and finding it does nothing else. -/
theorem ofOption_run {α : Type} {error : LowerError} {found : Option α} {s t : LowerState} {a : α}
    {code : List Instruction} (run : ofOption error found s = ⟨.ok a, t, code⟩) :
    found = some a ∧ s = t ∧ code = [] := by
  cases found with
  | none => cases run
  | some b =>
    cases run
    exact ⟨rfl, rfl, rfl⟩

theorem layoutOf_run {layouts : Layouts} {value : Value} {s t : LowerState} {layout : ClassLayout}
    {code : List Instruction} (run : layoutOf layouts value s = ⟨.ok layout, t, code⟩) :
    s = t ∧ code = [] := by
  unfold layoutOf at run
  cases found : value.tag.className? with
  | none =>
    rw [found] at run
    cases run
  | some name =>
    rw [found] at run
    exact (ofOption_run run).2

/-- What looks a method up in the table of the receiver. -/
def lookUp (receiver : Value) (table method : Location) (offset : Int) : List Instruction :=
  [.load table receiver.loc 0, .load method table offset]

/-- A call expression is lowered to this call: some code gives the receiver, when it calls a method, and
the actuals their values, and an instruction makes the call. -/
inductive Calling (layouts : Layouts) :
    Expr → List Instruction → Option Value → List Value → Instruction → Prop where
  | function {site : ExprSite} {name : Ident} {actuals : List Expr} {s t : LowerState}
      {args : List Value} {giving : List Instruction} {entry : FunctionEntry} (dst : Option Location)
      (evaluated : values layouts actuals s = ⟨.ok args, t, giving⟩)
      (known : layouts.functions.function? name.name = some entry) :
      Calling layouts (.call site name actuals) giving none args (.callLabel entry.label dst)
  /-- A method of the class, called on the receiver of the method in which the call stands. -/
  | own {site : ExprSite} {name : Ident} {actuals : List Expr} {s t : LowerState}
      {args : List Value} {giving : List Instruction} {method : Method} (table addr : Location)
      (offset : Int) (dst : Option Location)
      (evaluated : values layouts actuals s = ⟨.ok args, t, giving⟩) (inside : s.method = some method)
      (has : method.layout.hasMethod name.name = true) :
      Calling layouts (.call site name actuals) (giving ++ lookUp method.this table addr offset)
        (some method.this) args (.callAddress addr dst)
  | send {site : ExprSite} {receiver : Expr} {name : Ident} {actuals : List Expr}
      {s t u : LowerState} {object : Value} {args : List Value} {first second : List Instruction}
      (table addr : Location) (offset : Int) (dst : Option Location)
      (received : value layouts receiver s = ⟨.ok object, t, first⟩)
      (evaluated : values layouts actuals t = ⟨.ok args, u, second⟩) :
      Calling layouts (.send site receiver name actuals)
        (first ++ (second ++ lookUp object table addr offset)) (some object) args
        (.callAddress addr dst)

/-- The parameters of a call: the receiver, when there is one, and the arguments. -/
def parametersOf (receiver : Option Value) (args : List Value) : List Location :=
  (receiver.toList ++ args).map Value.loc

/-- What code for some trees may refer to: the calls of call expressions among them, the tables of
classes that are laid out, and the loops among them. -/
def references (layouts : Layouts) (trees : List Tree) (slotSize : Int) : References where
  slotSize
  calls giving params call := ∃ e receiver args, Tree.expr e ∈ trees ∧
    Calling layouts e giving receiver args call ∧ params = parametersOf receiver args
  tables name := ∃ cls layout, layouts.class? cls = some layout ∧ layout.name = name
  opens id := Node.stmt id ∈ trees.map Tree.node

section Expressions

variable {layouts : Layouts} {refs : References} {exits : List String}

theorem Forming.lookUp {s t : LowerState} {code : List Instruction} (before : Forming refs exits s t code)
    (receiver : Value) (table method : Location) (offset : Int) :
    Forming refs exits s t (code ++ Lower.lookUp receiver table method offset) where
  formed := before.formed.append (.append (.plain _ rfl) (.plain _ rfl))
  shape := before.shape
  loops := before.loops
  kept := before.kept

theorem classLayout_forms (name : String) : Forms refs exits (classLayout layouts name) :=
  .ofOption _ _

theorem layoutOf_forms (value : Value) : Forms refs exits (layoutOf layouts value) := by
  unfold layoutOf
  split
  · exact classLayout_forms _
  · exact .fail _

theorem fieldPlace_forms (layout : ClassLayout) (object : Location) (field : String) :
    Forms refs exits (fieldPlace layout object field) :=
  (Forms.ofOption _ _).bind fun _ => Forms.shaped fun _ _ => .pure _

theorem namePlace_forms (name : String) : Forms refs exits (namePlace name) := by
  refine Forms.reading fun s => ?_
  have globalPlace : FormsAt refs exits (namePlace.globalPlace name s) s := by
    unfold namePlace.globalPlace
    split
    · exact Forms.pure _ s
    · exact Forms.fail _ s
  split
  · exact Forms.pure _ s
  · split
    · split
      · exact fieldPlace_forms _ _ _ s
      · exact globalPlace
    · exact globalPlace

theorem memberPlace_forms (object : Value) (field : String) :
    Forms refs exits (memberPlace layouts object field) :=
  (layoutOf_forms object).bind fun _ => fieldPlace_forms _ _ _

theorem elementPlace_forms (array index : Value) : Forms refs exits (elementPlace array index) :=
  (Forms.emit (elementAddress_forms array index)).bind fun _ => Forms.shaped fun _ _ => .pure _

theorem read_forms (place : Place) : Forms refs exits (read place) := by
  cases place with
  | «variable» | computed => exact .pure _
  | memory addr offset tag => exact (Forms.emit (.load addr offset)).bind fun _ => .pure _

theorem write_forms (place : Place) (value : Value) : Forms refs exits (write place value) := by
  cases place with
  | «variable» name dst =>
    refine (Forms.emit (.issue _ rfl)).bind fun _ => ?_
    split
    · refine .modify _ (fun s => ?_) fun s => ?_ <;> unfold LowerState.retag <;> split <;> rfl
    · exact .pure _
  | memory | computed => exact .emit (.issue _ rfl)

/-- A call through a method table looks the method up, and then calls it. -/
theorem callMethod_run {receiver : Value} {name : String} {args : List Value} {s t : LowerState}
    {result : Option Value} {code : List Instruction}
    (run : callMethod layouts receiver name args s = ⟨.ok result, t, code⟩) :
    ∃ table addr offset dst, code = lookUp receiver table addr offset ++
        passing s.emitter.shape.slotSize (parametersOf (some receiver) args) (.callAddress addr dst) ∧
      Unmarked s t := by
  obtain ⟨layout, _, _, _, found, run₁, rfl⟩ := bind_run run
  obtain ⟨rfl, rfl⟩ := layoutOf_run found
  obtain ⟨slot, _, _, _, known, run₂, rfl⟩ := bind_run run₁
  obtain ⟨-, rfl, rfl⟩ := ofOption_run known
  obtain ⟨_, _, _, _, shaped, run₃, rfl⟩ := bind_run run₂
  cases shaped
  have pushed : args.reverse.map Value.loc ++ [receiver.loc] =
      (parametersOf (some receiver) args).reverse := by simp [parametersOf]
  have counted : args.length + 1 = (parametersOf (some receiver) args).length := by
    simp [parametersOf]
  rw [pushed, counted] at run₃
  obtain ⟨_, run₄, rfl⟩ := emit_bind_run run₃
  cases run₄
  obtain ⟨table, addr, dst, code, labels, shape⟩ := dispatch_apply receiver.loc
    (slotBytes s.emitter.shape.slotSize slot) (parametersOf (some receiver) args) _ s.emitter
  exact ⟨table, addr, _, dst, by rw [List.append_nil]; exact code, labels, shape, rfl⟩

/-- A call of a function does nothing before it but push the parameters. -/
theorem callFunction_run {name : String} {args : List Value} {s t : LowerState}
    {result : Option Value} {code : List Instruction}
    (run : callFunction layouts name args s = ⟨.ok result, t, code⟩) :
    ∃ entry dst, layouts.functions.function? name = some entry ∧
      code = passing s.emitter.shape.slotSize (parametersOf none args) (.callLabel entry.label dst) ∧
      Unmarked s t := by
  obtain ⟨entry, _, _, _, found, run₁, rfl⟩ := bind_run run
  obtain ⟨known, rfl, rfl⟩ := ofOption_run found
  obtain ⟨_, _, _, _, shaped, run₂, rfl⟩ := bind_run run₁
  cases shaped
  have pushed : args.reverse.map Value.loc = (parametersOf none args).reverse := by
    simp [parametersOf]
  have counted : args.length = (parametersOf none args).length := by simp [parametersOf]
  rw [pushed, counted] at run₂
  obtain ⟨_, run₃, rfl⟩ := emit_bind_run run₂
  cases run₃
  obtain ⟨dst, code, labels, shape⟩ := around_apply (parametersOf none args)
    (callLabel_apply entry.label _) _
  exact ⟨entry, dst, known, by rw [List.append_nil]; exact code, labels, shape, rfl⟩

/-- A call with no receiver written calls a function or, within a method, a method of the class. -/
theorem callBare_forms {site : ExprSite} {name : Ident} {actuals : List Expr}
    (made : ∀ giving receiver args call,
      Calling layouts (.call site name actuals) giving receiver args call →
      refs.calls giving (parametersOf receiver args) call)
    (argsForm : Forms refs exits (values layouts actuals)) :
    Forms refs exits (callBare layouts name.name (values layouts actuals)) := by
  intro s result u code run sized within
  obtain ⟨_, _, _, _, here, run₁, rfl⟩ := bind_run run
  cases here
  obtain ⟨args, t, giving, second, evaluated, run', rfl⟩ := bind_run run₁
  have before := argsForm s args t giving evaluated sized within
  have sized' : t.emitter.shape.slotSize = refs.slotSize := by rw [before.shape, sized]
  have function (run : callFunction layouts name.name args t = ⟨.ok result, u, second⟩) :
      Forming refs exits s u (giving ++ second) := by
    obtain ⟨entry, dst, known, rfl, unmarked⟩ := callFunction_run run
    exact before.call unmarked sized' rfl (made _ _ _ _ (.function dst evaluated known))
  cases inside : s.method with
  | none =>
    rw [inside] at run'
    exact function run'
  | some method =>
    rw [inside] at run'
    have chosen : (if method.layout.hasMethod name.name then
        callMethod layouts method.this name.name args
      else callFunction layouts name.name args) t = ⟨.ok result, u, second⟩ := run'
    by_cases has : method.layout.hasMethod name.name = true
    · rw [if_pos has] at chosen
      obtain ⟨table, addr, offset, dst, rfl, unmarked⟩ := callMethod_run chosen
      rw [List.nil_append, ← List.append_assoc]
      exact (before.lookUp ..).call unmarked sized' rfl
        (made _ _ _ _ (.own table addr offset dst evaluated inside has))
    · rw [if_neg has] at chosen
      exact function chosen

/-- A call on a receiver calls a method, or reads the length of an array. -/
theorem callOn_forms {site : ExprSite} {receiver : Expr} {name : Ident} {actuals : List Expr}
    (noArgs : Bool)
    (made : ∀ giving object args call,
      Calling layouts (.send site receiver name actuals) giving object args call →
      refs.calls giving (parametersOf object args) call)
    (receiverForm : Forms refs exits (value layouts receiver))
    (argsForm : Forms refs exits (values layouts actuals)) :
    Forms refs exits
      (callOn layouts (value layouts receiver) name.name noArgs (values layouts actuals)) := by
  intro s result u code run sized within
  obtain ⟨object, t, first, rest, received, run₁, rfl⟩ := bind_run run
  have before := receiverForm s object t first received sized within
  have sized₁ : t.emitter.shape.slotSize = refs.slotSize := by rw [before.shape, sized]
  have within₁ : ∀ entry ∈ t.loops.exits, entry.2 ∈ exits :=
    fun entry member => within entry (before.loops member)
  split at run₁
  · -- the length of an array
    have length : Forms refs exits (do
        return some (⟨← emit (Emitter.load object.loc 0), .int⟩ : Value)) :=
      (Forms.emit (.load _ _)).bind fun _ => .pure _
    exact before.trans (length t result u rest run₁ sized₁ within₁)
  · obtain ⟨args, v, second, third, evaluated, run₂, rfl⟩ := bind_run run₁
    have between := argsForm t args v second evaluated sized₁ within₁
    have sized₂ : v.emitter.shape.slotSize = refs.slotSize := by rw [between.shape, sized₁]
    obtain ⟨table, addr, offset, dst, rfl, unmarked⟩ := callMethod_run run₂
    rw [← List.append_assoc second, ← List.append_assoc first]
    exact (before.trans (between.lookUp ..)).call unmarked sized₂ rfl
      (made _ _ _ _ (.send table addr offset dst received evaluated))

theorem needed_forms (name : String) {call : Lower (Option Value)} (forms : Forms refs exits call) :
    Forms refs exits (needed name call) :=
  forms.bind fun _ => .ofOption _ _

end Expressions

/-! ## Expressions and statements -/

section Trees

variable {arena : Arena} {layouts : Layouts} {trees : List Tree} {slotSize : Int}
  {exits : List String}

theorem part_within {t part : Tree} (within : t.subtrees ⊆ trees) (inside : part ∈ t.children) :
    part.subtrees ⊆ trees :=
  List.Subset.trans (Tree.part_subtrees inside) within

/-- The calls of a call expression among the trees. -/
private theorem made_within {e : Expr} (within : (Tree.expr e).subtrees ⊆ trees) :
    ∀ giving receiver args call, Calling layouts e giving receiver args call →
      (references layouts trees slotSize).calls giving (parametersOf receiver args) call :=
  fun _ receiver args _ calling =>
    ⟨e, receiver, args, within (Tree.self_mem_subtrees _), calling, rfl⟩

/-- A new object has the table of a class that is laid out. -/
private theorem new_forms (cls : String) : Forms (references layouts trees slotSize) exits (do
    let layout ← classLayout layouts cls
    return Place.computed (← emit (newObject layout cls))) := by
  refine fun s => (classLayout_forms cls s).bind fun layout _ _ run => ?_
  have known : (references layouts trees slotSize).tables layout.name :=
    ⟨cls, layout, (ofOption_run run).1, rfl⟩
  exact Forms.bind (.emit (newObject_forms cls known)) (fun _ => .pure _) _

mutual

/-- Lowering an expression gives formed code. -/
theorem place_forms : ∀ e : Expr, (Tree.expr e).subtrees ⊆ trees →
    Forms (references layouts trees slotSize) exits (place layouts e)
  | .int .., _ | .double .., _ | .bool .., _ | .string .., _ =>
    (Forms.emit (.loadConstant _)).bind fun _ => .pure _
  | .null _, _ =>
    Forms.shaped fun _ _ => (Forms.emit (.loadConstant _)).bind fun _ =>
      (Forms.emit (request_forms _ _)).bind fun _ => .pure _
  | .binary _ op left right, within =>
    ((place_forms left (part_within within (by simp [Tree.children, Expr.children]))).bind
      read_forms).bind fun _ =>
        ((place_forms right (part_within within (by simp [Tree.children, Expr.children]))).bind
          read_forms).bind fun _ => (Forms.emit (binary_forms op _ _)).bind fun _ => .pure _
  | .unary _ op operand, within =>
    ((place_forms operand (part_within within (by simp [Tree.children, Expr.children]))).bind
      read_forms).bind fun _ => (Forms.emit (unary_forms op _)).bind fun _ => .pure _
  | .assign _ target value, within =>
    (place_forms target (part_within within (by simp [Tree.children, Expr.children]))).bind fun dst =>
      ((place_forms value (part_within within (by simp [Tree.children, Expr.children]))).bind
        read_forms).bind fun v => (write_forms dst v).bind fun _ => .pure _
  | .name _ name, _ => namePlace_forms name.name
  | .field _ object name, within =>
    ((place_forms object (part_within within (by simp [Tree.children, Expr.children]))).bind
      read_forms).bind fun value => memberPlace_forms value name.name
  | .element _ array index, within =>
    ((place_forms array (part_within within (by simp [Tree.children, Expr.children]))).bind
      read_forms).bind fun a =>
        ((place_forms index (part_within within (by simp [Tree.children, Expr.children]))).bind
          read_forms).bind fun i => elementPlace_forms a i
  | .call _ name actuals, within =>
    (needed_forms name.name (callBare_forms (made_within within)
      (values_forms actuals fun e inside => part_within within
        (List.mem_map_of_mem inside)))).bind fun _ => .pure _
  | .send _ receiver name actuals, within =>
    (needed_forms name.name (callOn_forms actuals.isEmpty (made_within within)
      ((place_forms receiver (part_within within (by simp [Tree.children, Expr.children]))).bind
        read_forms)
      (values_forms actuals fun e inside => part_within within
        (List.mem_map_of_mem (List.mem_cons_of_mem _ inside))))).bind fun _ => .pure _
  | .new _ cls, _ => new_forms cls.name
  | .newArray _ size element, within =>
    ((place_forms size (part_within within (by simp [Tree.children, Expr.children]))).bind
      read_forms).bind fun value => (Forms.emit (newArray_forms value _)).bind fun _ => .pure _
  | .this _, _ => Forms.reading fun s => Forms.bind (.ofOption _ _) (fun _ => .pure _) s
  | .readInteger _, _ | .readLine _, _ => (Forms.emit (request_forms _ _)).bind fun _ => .pure _
  | .knot _, _ => .fail _

theorem values_forms : ∀ es : List Expr, (∀ e ∈ es, (Tree.expr e).subtrees ⊆ trees) →
    Forms (references layouts trees slotSize) exits (values layouts es)
  | [], _ => .pure _
  | e :: rest, within =>
    ((place_forms e (within e List.mem_cons_self)).bind read_forms).bind fun _ =>
      (values_forms rest fun other member => within other (List.mem_cons_of_mem _ member)).bind
        fun _ => .pure _

end

theorem value_forms (e : Expr) (within : (Tree.expr e).subtrees ⊆ trees) :
    Forms (references layouts trees slotSize) exits (value layouts e) :=
  (place_forms e within).bind read_forms

theorem effect_forms (e : Expr) (within : (Tree.expr e).subtrees ⊆ trees) :
    Forms (references layouts trees slotSize) exits (effect layouts e) := by
  unfold effect
  split
  · exact (callBare_forms (made_within within) (values_forms _ fun e inside =>
      part_within within (List.mem_map_of_mem inside))).bind fun _ => .pure _
  · exact (callOn_forms _ (made_within within)
      (value_forms _ (part_within within (by simp [Tree.children, Expr.children])))
      (values_forms _ fun e inside => part_within within
        (List.mem_map_of_mem (List.mem_cons_of_mem _ inside)))).bind fun _ => .pure _
  · exact (value_forms e within).bind fun _ => .pure _

theorem optionalEffect_forms (e : Option Expr)
    (within : ∀ found, e = some found → (Tree.expr found).subtrees ⊆ trees) :
    Forms (references layouts trees slotSize) exits (optionalEffect layouts e) := by
  cases e with
  | none => exact .pure _
  | some e => exact effect_forms e (within e rfl)

theorem printAll_forms (args : List Expr) (within : ∀ e ∈ args, (Tree.expr e).subtrees ⊆ trees) :
    Forms (references layouts trees slotSize) exits (printAll layouts args) := by
  induction args with
  | nil => exact .pure _
  | cons e rest ih =>
    rw [List.forall_mem_cons] at within
    exact (value_forms e within.1).bind fun v => (Forms.ofOption _ _).bind fun _ =>
      (Forms.emit (.issue _ rfl)).bind fun _ => ih within.2

end Trees

section Statements

variable {refs : References} {exits : List String}

theorem declareLocals_forms (decls : List Decl) : Forms refs exits (declareLocals decls) := by
  induction decls with
  | nil => exact .pure _
  | cons decl rest ih =>
    cases decl with
    | var id name type =>
      exact (Forms.emit (.allocate _)).bind fun _ =>
        Forms.bind (.modify _ (fun _ => rfl) fun _ => rfl) fun _ => ih
    | cls | interface | prototype | function => exact ih

/-- A change of the bindings that is made after a step. -/
theorem ensuring_forms {body : Lower Unit} (forms : Forms refs exits body)
    (change : LowerState → LowerState) (same : ∀ s, (change s).emitter = s.emitter)
    (loops : ∀ s, (change s).loops = s.loops) :
    Forms refs exits (ensuring body (Emission.modify change)) := by
  intro s u t code run sized within
  obtain ⟨value, rfl, rfl⟩ := Emitted.mk.inj run
  have inside := forms s u (body s).state (body s).code (by rw [← value]) sized within
  exact inside.trans (.unchanged (same _) (loops _))

theorem inBlock_forms {body : Lower Unit} (forms : Forms refs exits body) :
    Forms refs exits (inBlock body) :=
  Forms.bind (.modify _ (fun _ => rfl) fun _ => rfl) fun _ =>
    ensuring_forms forms _ (fun _ => rfl) fun _ => rfl

/-- Code that is skipped when a test is zero takes a label before it and places it after it. -/
theorem skip_forms (test : Location) {body : Lower Unit} (forms : Forms refs exits body) :
    Forms refs exits (do
      let skip ← emit Emitter.freshLabel
      emit (Emitter.jumpIfZero test skip)
      body
      emit (Emitter.label skip)) := by
  intro s _ _ _ run sized within
  obtain ⟨_, run₁, rfl⟩ := emit_bind_run run
  obtain ⟨_, run₂, rfl⟩ := emit_bind_run run₁
  obtain ⟨_, _, _, _, inside, last, rfl⟩ := bind_run run₂
  obtain ⟨-, rfl, rfl⟩ := emit_run last
  obtain ⟨formed, shape, loops, kept⟩ := forms _ _ _ _ inside sized within
  exact ⟨.skip test formed, shape, loops, kept⟩

/-- Of two pieces of code, the first ends with a jump behind the second. -/
theorem branch_forms (test : Location) {yes no : Lower Unit} (yesForm : Forms refs exits yes)
    (noForm : Forms refs exits no) :
    Forms refs exits (do
      let other ← emit Emitter.freshLabel
      emit (Emitter.jumpIfZero test other)
      yes
      let done ← emit Emitter.freshLabel
      emit (Emitter.jump done)
      emit (Emitter.label other)
      no
      emit (Emitter.label done)) := by
  intro s _ _ _ run sized within
  obtain ⟨_, run₁, rfl⟩ := emit_bind_run run
  obtain ⟨_, run₂, rfl⟩ := emit_bind_run run₁
  obtain ⟨_, s₁, _, _, yesRun, run₃, rfl⟩ := bind_run run₂
  obtain ⟨_, run₄, rfl⟩ := emit_bind_run run₃
  obtain ⟨_, run₅, rfl⟩ := emit_bind_run run₄
  obtain ⟨_, run₆, rfl⟩ := emit_bind_run run₅
  obtain ⟨_, _, _, _, noRun, last, rfl⟩ := bind_run run₆
  obtain ⟨-, rfl, rfl⟩ := emit_run last
  obtain ⟨formed, shape, loops, kept⟩ := yesForm _ _ _ _ yesRun sized within
  have sized₁ : s₁.emitter.shape.slotSize = refs.slotSize := by
    rw [shape]
    exact sized
  obtain ⟨formed', shape', loops', kept'⟩ := noForm _ _ _ _ noRun sized₁
    fun entry member => within entry (loops member)
  exact ⟨.either test formed formed', shape'.trans shape, fun _ member => loops (loops' member),
    fun id other => (kept' id other).trans (kept id other)⟩

/-- The body of a loop may leave it, and the loop is closed behind it. -/
theorem inLoop_run {id : StmtId} {exit : String} {body : Lower Unit}
    (forms : Forms refs (exit :: exits) body) (opens : refs.opens id) {s t : LowerState} {u : Unit}
    {code : List Instruction} (run : inLoop id exit body s = ⟨.ok u, t, code⟩)
    (sized : s.emitter.shape.slotSize = refs.slotSize)
    (within : ∀ entry ∈ s.loops.exits, entry.2 ∈ exits) :
    Forming refs (exit :: exits) s t code := by
  let entered : LowerState := { s with loops := s.loops.enter id exit }
  obtain ⟨value, rfl, rfl⟩ := Emitted.mk.inj run
  have opened : ∀ entry ∈ entered.loops.exits, entry.2 ∈ exit :: exits := by
    intro entry member
    rcases List.mem_cons.mp member with rfl | member
    · exact List.mem_cons_self
    · exact List.mem_cons_of_mem _ (within entry (List.mem_filter.mp member).1)
  obtain ⟨formed, shape, loops, kept⟩ :=
    forms entered u (body entered).state (body entered).code (by rw [← value]; rfl) sized opened
  refine ⟨?_, shape, ?_, ?_⟩
  · simpa [ensuring, modify, Emission.modify] using formed
  · -- what is left are the loops around, for the loop itself is closed
    intro entry member
    obtain ⟨member, other⟩ := List.mem_filter.mp member
    rcases List.mem_cons.mp (loops member) with rfl | member
    · simp at other
    · exact (List.mem_filter.mp member).1
  · intro loop other
    have differs : loop ≠ id := fun same => other (same ▸ opens)
    exact (exit?_leave _ differs).trans ((kept loop other).trans (by rw [exit?_enter, if_neg differs]))

/-- A loop takes two labels, one for its top and one for its end. -/
theorem loop_forms {id : StmtId} (opens : refs.opens id) {test : Lower Value} {body step : Lower Unit}
    (testForm : Forms refs exits test) (bodyForm : ∀ exit, Forms refs (exit :: exits) body)
    (stepForm : Forms refs exits step) : Forms refs exits (loop id test body step) := by
  intro s _ _ _ run sized within
  obtain ⟨_, run₁, rfl⟩ := emit_bind_run run
  obtain ⟨_, run₂, rfl⟩ := emit_bind_run run₁
  obtain ⟨_, run₃, rfl⟩ := emit_bind_run run₂
  obtain ⟨value, s₁, _, _, testRun, run₄, rfl⟩ := bind_run run₃
  obtain ⟨_, run₅, rfl⟩ := emit_bind_run run₄
  obtain ⟨_, s₂, _, _, bodyRun, run₆, rfl⟩ := bind_run run₅
  obtain ⟨_, s₃, _, _, stepRun, run₇, rfl⟩ := bind_run run₆
  obtain ⟨_, last, rfl⟩ := emit_bind_run run₇
  obtain ⟨-, rfl, rfl⟩ := emit_run last
  obtain ⟨before, shape₁, loops₁, kept₁⟩ := testForm _ _ _ _ testRun sized within
  have sized₁ : s₁.emitter.shape.slotSize = refs.slotSize := (congrArg _ shape₁).trans sized
  obtain ⟨inside, shape₂, loops₂, kept₂⟩ := inLoop_run (bodyForm _) opens bodyRun sized₁
    fun entry member => within entry (loops₁ member)
  have sized₂ : s₂.emitter.shape.slotSize = refs.slotSize := (congrArg _ shape₂).trans sized₁
  obtain ⟨after, shape₃, loops₃, kept₃⟩ := stepForm _ _ _ _ stepRun sized₂
    fun entry member => within entry (loops₁ (loops₂ member))
  exact ⟨.loop value.loc before inside after, shape₃.trans (shape₂.trans shape₁),
    fun _ member => loops₁ (loops₂ (loops₃ member)),
    fun loop other => (kept₃ loop other).trans ((kept₂ loop other).trans (kept₁ loop other))⟩

/-- Leaving a loop jumps to the end of one that is open. -/
theorem leave_forms (around : Option StmtId) : Forms refs exits (do
    let s ← get
    let target ← ofOption .breakOutsideLoop (around.bind s.loops.exit?)
    emit (Emitter.jump target)) := by
  refine Forms.reading fun s => ?_
  cases found : around.bind s.loops.exit? with
  | none => exact (Forms.fail _ s).bind fun _ _ _ failed => nomatch failed
  | some target =>
    intro _ _ _ run _ within
    obtain ⟨-, rfl, rfl⟩ := emit_run run
    obtain ⟨loop, -, opened⟩ := Option.bind_eq_some_iff.mp found
    have isOpen : target ∈ exits := within (loop, target) (Table.mem_of_lookup opened)
    exact ⟨.leave isOpen, rfl, List.Subset.refl _, fun _ _ => rfl⟩

end Statements

section Trees

variable {arena : Arena} {layouts : Layouts} {trees : List Tree} {slotSize : Int}

/-- A loop among the trees may be opened. -/
private theorem opens_within {s : Stmt} (within : (Tree.stmt s).subtrees ⊆ trees) :
    (references layouts trees slotSize).opens s.id :=
  List.mem_map.mpr ⟨.stmt s, within (Tree.self_mem_subtrees _), rfl⟩

mutual

/-- Lowering a statement gives formed code. -/
theorem stmt_forms (exits : List String) : ∀ s : Stmt, (Tree.stmt s).subtrees ⊆ trees →
    Forms (references layouts trees slotSize) exits (stmt arena layouts s)
  | .block _ decls body, within =>
    inBlock_forms ((declareLocals_forms decls).bind fun _ => stmts_forms exits body fun s inside =>
      part_within within (List.mem_append_right _ (List.mem_map_of_mem inside)))
  | .ifThen _ test body, within =>
    (value_forms test (part_within within (by simp [Tree.children, Stmt.children]))).bind fun v =>
      skip_forms v.loc (stmt_forms exits body (part_within within (by simp [Tree.children, Stmt.children])))
  | .ifElse _ test yes no, within =>
    (value_forms test (part_within within (by simp [Tree.children, Stmt.children]))).bind fun v =>
      branch_forms v.loc
        (stmt_forms exits yes (part_within within (by simp [Tree.children, Stmt.children])))
        (stmt_forms exits no (part_within within (by simp [Tree.children, Stmt.children])))
  | .whileLoop site test body, within =>
    loop_forms (opens_within within)
      (value_forms test (part_within within (by simp [Tree.children, Stmt.children])))
      (fun exit => stmt_forms (exit :: exits) body
        (part_within within (by simp [Tree.children, Stmt.children]))) (.pure _)
  | .forLoop site init test step body, within =>
    (optionalEffect_forms init fun e found =>
        part_within within (by simp [Tree.children, Stmt.children, found])).bind fun _ =>
      loop_forms (opens_within within)
        (value_forms test (part_within within (by simp [Tree.children, Stmt.children])))
        (fun exit => stmt_forms (exit :: exits) body
          (part_within within (by simp [Tree.children, Stmt.children])))
        (optionalEffect_forms step fun e found =>
          part_within within (by simp [Tree.children, Stmt.children, found]))
  | .ret _ none, _ => .emit (.issue _ rfl)
  | .ret _ (some e), within =>
    (value_forms e (part_within within (by simp [Tree.children, Stmt.children]))).bind fun _ =>
      .emit (.issue _ rfl)
  | .print _ args, within =>
    printAll_forms args fun e inside => part_within within (List.mem_map_of_mem inside)
  | .leave site, _ => leave_forms _
  | .expr _ e, within =>
    effect_forms e (part_within within (by simp [Tree.children, Stmt.children]))
  | .knot _, _ => .pure _

theorem stmts_forms (exits : List String) :
    ∀ body : List Stmt, (∀ s ∈ body, (Tree.stmt s).subtrees ⊆ trees) →
      Forms (references layouts trees slotSize) exits (stmts arena layouts body)
  | [], _ => .pure _
  | s :: rest, within =>
    (stmt_forms exits s (within s List.mem_cons_self)).bind fun _ =>
      stmts_forms exits rest fun other member => within other (List.mem_cons_of_mem _ member)

end

end Trees

end Lower

end DecafTac
