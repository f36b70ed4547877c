import DecafTac.Proofs.Lower.Evaluation
import DecafTac.Proofs.Lower.Form
import DecafTac.Proofs.Lower.Frames
import DecafTac.Proofs.Source.Order
import DecafTac.Proofs.Tac.Calling

/-!
Operands of expressions that assign and call. A variable is its own storage, and to lower its name issues
nothing; so the code of an expression reads a variable where its operand is used. It evaluates the
expression with deferred operands, which is not what captured ones give when a later operand assigns the
variable.
-/
namespace DecafTac

/-- The variable that a bare name means: a binding of the function, or a global that no field hides. -/
def LowerState.valueOf? (s : LowerState) (name : String) : Option Value :=
  match s.bindings.lookup name with
  | some value => some value
  | none => if s.method.any (·.layout.hasField name) then none else s.globals.lookup name

/-- The function that a bare call of a name calls, when no method hides it and it gives a number. -/
def LowerState.calls? (layouts : Layouts) (s : LowerState) (name : String) : Option FunctionEntry :=
  if s.method.any (·.layout.hasMethod name) then none
  else if layouts.functions.resultType? name = some .int then layouts.functions.function? name
  else none

theorem LowerState.calls?_eq_some {layouts : Layouts} {s : LowerState} {name : String}
    {entry : FunctionEntry} (found : s.calls? layouts name = some entry) :
    s.method.any (·.layout.hasMethod name) = false ∧
      layouts.functions.resultType? name = some .int ∧
      layouts.functions.function? name = some entry := by
  unfold calls? at found
  split at found
  · cases found
  · rename_i free
    split at found
    · rename_i number
      exact ⟨Bool.eq_false_iff.mpr free, number, found⟩
    · cases found

namespace Emitter

/-- The same function goes on, with no fewer local slots taken. -/
structure Follows (e next : Emitter) : Prop where
  opened : next.inFunction = true
  shape : next.shape = e.shape
  locals : e.locals ≤ next.locals

theorem Follows.trans {e mid next : Emitter} (one : e.Follows mid) (two : mid.Follows next) :
    e.Follows next :=
  ⟨two.opened, two.shape.trans one.shape, Nat.le_trans one.locals two.locals⟩

/-- The temporary that is taken next. -/
def nextLocation (e : Emitter) : Location := ⟨tempName e.nextTemp, .frame, e.shape.localPosition e.locals⟩

/-- Going on after a temporary was taken. -/
theorem follows_taken {e : Emitter} (opened : e.inFunction = true) (temps issued : Nat) :
    e.Follows { e with nextTemp := temps, locals := e.locals + 1, issued } :=
  ⟨opened, rfl, Nat.le_succ _⟩

end Emitter

namespace Lower

open Machine

/-! ## Storage -/

section Storage

variable (slot : DeclId → Location) (ids : List DeclId)

/-- No slot that is still to be taken is that of a variable. -/
def Clear (e : Emitter) : Prop :=
  ∀ id ∈ ids, (slot id).segment = .frame →
    ∀ j : Nat, e.locals ≤ j → (slot id).position ≠ e.shape.localPosition j

/-- A location in the frame that is not a variable's and was taken before. -/
structure Spare (e : Emitter) (loc : Location) : Prop where
  framed : loc.segment = .frame
  unnamed : ∀ id ∈ ids, (slot id).segment = .frame → (slot id).position ≠ loc.position
  taken : ∀ j : Nat, e.locals ≤ j → loc.position ≠ e.shape.localPosition j

/-- Variables have slots of their own. -/
def Separate : Prop :=
  ∀ id ∈ ids, ∀ other ∈ ids, (slot id).segment = (slot other).segment →
    (slot id).position = (slot other).position → id = other

variable {slot ids} {e next : Emitter}

theorem Clear.later (clear : Clear slot ids e) (follows : e.Follows next) : Clear slot ids next := by
  intro id listed framed j taken
  rw [follows.shape]
  exact clear id listed framed j (Nat.le_trans follows.locals taken)

theorem Spare.later {loc : Location} (spare : Spare slot ids e loc) (follows : e.Follows next) :
    Spare slot ids next loc := by
  refine ⟨spare.framed, spare.unnamed, fun j taken => ?_⟩
  rw [follows.shape]
  exact spare.taken j (Nat.le_trans follows.locals taken)

/-- A temporary is spare once it is taken. -/
theorem Clear.spare_next (clear : Clear slot ids e) (wide : 0 < e.shape.slotSize)
    (follows : e.Follows next) (taken : e.locals < next.locals) : Spare slot ids next e.nextLocation := by
  refine ⟨rfl, fun id listed framed => clear id listed framed e.locals (Nat.le_refl _), ?_⟩
  intro j later same
  rw [follows.shape] at same
  have := localPosition_injective wide same
  omega

/-- Storage that is there for a function is clear of what it takes later. -/
theorem clear_of_holds (wide : 0 < e.shape.slotSize) (below : e.shape.firstLocal < e.shape.firstParam)
    {arity : Nat} (there : ∀ id ∈ ids, e.Holds arity (slot id)) : Clear slot ids e := by
  intro id listed framed j later same
  have holds := there id listed
  rw [Emitter.Holds, framed] at holds
  rcases holds with ⟨i, -, param⟩ | ⟨k, taken, place⟩
  · exact localPosition_ne_paramPosition wide below j i (same.symm.trans param)
  · have := localPosition_injective wide (place.symm.trans same)
    omega

variable {cells : Cells} {m : Store}

/-- Writing the next temporary leaves the variables as they are. -/
theorem Clear.agrees_write (clear : Clear slot ids e) (agrees : Agrees slot ids cells m) (word : Word) :
    Agrees slot ids cells (m.write e.nextLocation word) := by
  intro id listed
  rw [agrees id listed, Store.read_write_apart]
  intro framed
  exact clear id listed framed e.locals (Nat.le_refl _)

/-- And it leaves spare locations as they are. -/
theorem Spare.read_write {loc : Location} (spare : Spare slot ids e loc) (word : Word) :
    (m.write e.nextLocation word).read loc = m.read loc :=
  Store.read_write_apart fun _ => spare.taken e.locals (Nat.le_refl _)

/-- A variable is assigned in its slot. -/
theorem Separate.agrees_set (apart : Separate slot ids) (agrees : Agrees slot ids cells m) {id : DeclId}
    (listed : id ∈ ids) (word : Word) : Agrees slot ids (cells.set id word) (m.write (slot id) word) := by
  intro other member
  by_cases same : other = id
  · rw [same, Store.read_write_self]
    exact if_pos rfl
  · rw [Store.read_write_apart fun segment offset => same (apart other member id listed segment offset),
      ← agrees other member]
    exact if_neg same

theorem Spare.read_assign {loc : Location} (spare : Spare slot ids e loc) {id : DeclId}
    (listed : id ∈ ids) (word : Word) : (m.write (slot id) word).read loc = m.read loc := by
  refine Store.read_write_apart fun segment => ?_
  exact (spare.unnamed id listed (segment.symm.trans spare.framed)).symm

end Storage

/-! ## Operands -/

section Operands

variable {arith : Arithmetic} {linkage : Linkage} {layouts : Layouts} {slot : DeclId → Location}
  {ids : List DeclId} {env : Env} {calls : String → Option FunctionEntry} {callees : Callees}
  {shape : FrameShape}

variable (slot ids) in
/-- A location is that of an operand: it holds the number and no variable, or it is the variable's own. -/
def Denotes (e : Emitter) (m : Store) (loc : Location) : Operand → Prop
  | .number n => Spare slot ids e loc ∧ m.read loc = some (.int n)
  | .cell id => id ∈ ids ∧ loc = slot id

theorem Denotes.later {e next : Emitter} {m m' : Store} {loc : Location} {o : Operand}
    (denotes : Denotes slot ids e m loc o) (follows : e.Follows next)
    (kept : ∀ other, Spare slot ids e other → m'.read other = m.read other) :
    Denotes slot ids next m' loc o := by
  cases o with
  | number n => exact ⟨denotes.1.later follows, (kept loc denotes.1).trans denotes.2⟩
  | cell id => exact denotes

/-- At the location of an operand is what it is used as. -/
theorem Denotes.read {e : Emitter} {m : Store} {loc : Location} {o : Operand} {cells : Cells} {n : Int}
    (denotes : Denotes slot ids e m loc o) (agrees : Agrees slot ids cells m)
    (held : o.value? cells = some n) : m.read loc = some (.int n) := by
  cases o with
  | number =>
    cases held
    exact denotes.2
  | cell id =>
    obtain ⟨listed, rfl⟩ := denotes
    rw [← agrees id listed]
    exact Cells.int?_eq_some held

/-- The same for operands in a row. -/
theorem Denotes.words {e : Emitter} {m : Store} {locs : List Location} {os : List Operand} {cells : Cells}
    {ns : List Int} (denoted : List.Forall₂ (Denotes slot ids e m) locs os)
    (agrees : Agrees slot ids cells m) (held : os.mapM (Operand.value? cells) = some ns) :
    List.Forall₂ (fun loc word => m.read loc = some word) locs (ns.map .int) := by
  induction denoted generalizing ns with
  | nil =>
    cases held
    exact .nil
  | @cons loc o locs os denotes _ ih =>
    rw [List.mapM_cons] at held
    obtain ⟨n, first, held⟩ := Option.bind_eq_some_iff.mp held
    obtain ⟨rest, others, same⟩ := Option.bind_eq_some_iff.mp held
    cases same
    exact .cons (denotes.read agrees first) (ih others)

/-! ## Code that carries out an evaluation -/

variable {α β : Type} {e mid next : Emitter} {given : Store → Prop} {first second : List Instruction}

variable (arith linkage slot ids) in
/-- Code carries out an evaluation: from a store that has the variables before it and what is given, the
code comes to one that has the variables after it and the result, and it leaves alone what was spare and
what was pushed. -/
def CarriesOut (e : Emitter) (given : Store → Prop) (code : List Instruction)
    (eval : Cells → Option (α × Cells)) (there : Store → α → Prop) : Prop :=
  ∀ m pushed cells a after, given m → Agrees slot ids cells m → eval cells = some (a, after) →
    ∃ m' left, acts arith e.shape.slotSize linkage code ⟨m, pushed⟩ = some ⟨m', left ++ pushed⟩ ∧
      Agrees slot ids after m' ∧ there m' a ∧
      ∀ loc, Spare slot ids e loc → m'.read loc = m.read loc

namespace CarriesOut

/-- One evaluation after another, which is given the result of the first. -/
theorem andThen {eval : Cells → Option (α × Cells)} {rest : α → Cells → Option (β × Cells)}
    {between : Store → α → Prop} {there : Store → β → Prop}
    (one : CarriesOut arith linkage slot ids e given first eval between) (follows : e.Follows mid)
    (two : ∀ a, CarriesOut arith linkage slot ids mid (between · a) second (rest a) there) :
    CarriesOut arith linkage slot ids e given (first ++ second)
      (fun cells => (eval cells).bind fun a => rest a.1 a.2) there := by
  intro m pushed cells b after start agrees found
  obtain ⟨a, foundFirst, foundRest⟩ := Option.bind_eq_some_iff.mp found
  obtain ⟨m₁, left₁, runs₁, agrees₁, between₁, kept₁⟩ :=
    one m pushed cells a.1 a.2 start agrees foundFirst
  obtain ⟨m₂, left₂, runs₂, agrees₂, there₂, kept₂⟩ :=
    two a.1 m₁ (left₁ ++ pushed) a.2 b after between₁ agrees₁ foundRest
  rw [follows.shape] at runs₂
  refine ⟨m₂, left₂ ++ left₁, ?_, agrees₂, there₂, fun loc spare => ?_⟩
  · rw [acts_append, runs₁, Option.bind_some, runs₂, List.append_assoc]
  · exact (kept₂ loc (spare.later follows)).trans (kept₁ loc spare)

/-- The result in another form. -/
theorem map {eval : Cells → Option (α × Cells)} {there : Store → α → Prop} {there' : Store → β → Prop}
    (one : CarriesOut arith linkage slot ids e given first eval there) (f : α → β)
    (gives : ∀ m a, there m a → there' m (f a)) :
    CarriesOut arith linkage slot ids e given first
      (fun cells => (eval cells).map fun a => (f a.1, a.2)) there' := by
  intro m pushed cells b after start agrees found
  obtain ⟨a, foundFirst, same⟩ := Option.map_eq_some_iff.mp found
  cases same
  obtain ⟨m', left, runs, agrees', there', kept⟩ := one m pushed cells a.1 a.2 start agrees foundFirst
  exact ⟨m', left, runs, agrees', gives m' a.1 there', kept⟩

/-- An operand stays there during an evaluation that comes after it. -/
theorem keeping {eval : Cells → Option (α × Cells)} {there : Store → α → Prop}
    (one : CarriesOut arith linkage slot ids e (fun _ => True) first eval there) (follows : e.Follows next)
    (loc : Location) (o : Operand) :
    CarriesOut arith linkage slot ids e (Denotes slot ids e · loc o) first eval
      fun m a => Denotes slot ids next m loc o ∧ there m a := by
  intro m pushed cells a after denotes agrees found
  obtain ⟨m', left, runs, agrees', there', kept⟩ := one m pushed cells a after trivial agrees found
  exact ⟨m', left, runs, agrees', ⟨denotes.later follows kept, there'⟩, kept⟩

/-- An instruction that computes a number into a new temporary and assigns nothing. -/
theorem produce (clear : Clear slot ids e) (wide : 0 < e.shape.slotSize) (follows : e.Follows next)
    (taken : e.locals < next.locals) {i : Instruction} {eval : Cells → Option (Operand × Cells)}
    (computes : ∀ m cells o after, given m → Agrees slot ids cells m → eval cells = some (o, after) →
      after = cells ∧ ∃ n, o = .number n ∧
        Machine.effect arith m i = some (m.write e.nextLocation (.int n), [])) :
    CarriesOut arith linkage slot ids e given [i] eval (Denotes slot ids next · e.nextLocation) := by
  intro m pushed cells o after start agrees found
  obtain ⟨rfl, n, rfl, computed⟩ := computes m cells o after start agrees found
  refine ⟨m.write e.nextLocation (.int n), [], ?_, clear.agrees_write agrees _, ?_, ?_⟩
  · rw [acts_single, act_of_effect computed]
    rfl
  · exact ⟨clear.spare_next wide follows taken, Store.read_write_self ..⟩
  · exact fun loc spare => spare.read_write _

/-- An operator of the machine reads both of its operands. -/
theorem operate (clear : Clear slot ids e) (wide : 0 < e.shape.slotSize) (follows : e.Follows next)
    (taken : e.locals < next.locals) {op : BinaryOp} {o : TacOp}
    (means : ∀ a b, op.eval arith (.int a) (.int b) = (o.eval arith a b).map .int) (l r : Location)
    (o₁ o₂ : Operand) :
    CarriesOut arith linkage slot ids e
      (fun m => Denotes slot ids e m l o₁ ∧ Denotes slot ids e m r o₂) [.binary o e.nextLocation l r]
      (fun cells => (o₁.value? cells).bind fun a => (o₂.value? cells).bind fun b =>
        (op.number? arith a b).map fun n => (Operand.number n, cells))
      (Denotes slot ids next · e.nextLocation) := by
  refine .produce clear wide follows taken ?_
  rintro m cells _ after ⟨left, right⟩ agrees found
  obtain ⟨a, heldLeft, found⟩ := Option.bind_eq_some_iff.mp found
  obtain ⟨b, heldRight, found⟩ := Option.bind_eq_some_iff.mp found
  obtain ⟨n, result, same⟩ := Option.map_eq_some_iff.mp found
  cases same
  rw [BinaryOp.number?_eq (means a b)] at result
  refine ⟨rfl, n, rfl, ?_⟩
  simp [Machine.effect, Store.int?_eq_some (left.read agrees heldLeft),
    Store.int?_eq_some (right.read agrees heldRight), result]

/-- An operand is assigned to a variable. -/
theorem assign (separate : Separate slot ids) (follows : e.Follows next) {id : DeclId} (listed : id ∈ ids)
    (loc : Location) (o : Operand) :
    CarriesOut arith linkage slot ids e (Denotes slot ids e · loc o) [.assign (slot id) loc]
      (fun cells => (o.value? cells).map fun n => (o, cells.set id (.int n)))
      (Denotes slot ids next · loc) := by
  intro m pushed cells _ after denotes agrees found
  obtain ⟨n, held, same⟩ := Option.map_eq_some_iff.mp found
  cases same
  refine ⟨m.write (slot id) (.int n), [], ?_, separate.agrees_set agrees listed _, ?_, ?_⟩
  · have copies : Machine.effect arith m (.assign (slot id) loc) =
        some (m.write (slot id) (.int n), []) := by
      rw [Machine.effect, denotes.read agrees held]
      rfl
    rw [acts_single, act_of_effect copies]
    rfl
  · exact denotes.later follows fun other spare => spare.read_assign listed _
  · exact fun other spare => spare.read_assign listed _

/-- A function is called with operands. -/
theorem call (clear : Clear slot ids e) (wide : 0 < e.shape.slotSize) (follows : e.Follows next)
    (taken : e.locals < next.locals) {name label : String}
    (realized : ∀ args cells n after m rest, callees.run name args cells = some (n, after) →
      Agrees slot ids cells m → ∃ globals,
        linkage label (args.map .int ++ rest) (m .global) = some (.int n, globals) ∧
        Agrees slot ids after (m.withGlobals globals))
    (locs : List Location) (os : List Operand) :
    CarriesOut arith linkage slot ids e (fun m => List.Forall₂ (Denotes slot ids e m) locs os)
      (passing e.shape.slotSize locs (.callLabel label (some e.nextLocation)))
      (fun cells => (os.mapM (Operand.value? cells)).bind fun ns =>
        (callees.run name ns cells).map fun d => (.number d.1, d.2))
      (Denotes slot ids next · e.nextLocation) := by
  intro m pushed cells _ after denoted agrees found
  obtain ⟨ns, held, found⟩ := Option.bind_eq_some_iff.mp found
  obtain ⟨⟨n, final⟩, called, same⟩ := Option.map_eq_some_iff.mp found
  cases same
  obtain ⟨globals, linked, agrees'⟩ := realized ns cells n final m pushed called agrees
  obtain ⟨left, runs⟩ := acts_passing wide (Denotes.words denoted agrees held) linked _
  refine ⟨(m.withGlobals globals).write e.nextLocation (.int n), left, runs,
    clear.agrees_write agrees' _, ?_, fun loc spare => ?_⟩
  · exact ⟨clear.spare_next wide follows taken, Store.read_write_self ..⟩
  · exact (spare.read_write _).trans (Store.read_withGlobals_frame spare.framed)

end CarriesOut

variable (layouts slot ids env calls) in
/-- Lowering stands where the names of `env` mean variables with storage of their own and the functions
in `calls` can be called. -/
structure Sited (s : LowerState) : Prop where
  opened : s.emitter.inFunction = true
  named : ∀ name v, env.lookup name = some v →
    v.id ∈ ids ∧ s.valueOf? name = some ⟨slot v.id, v.type.tag⟩
  called : s.calls? layouts = calls
  clear : Clear slot ids s.emitter

theorem Sited.later {s : LowerState} (sited : Sited layouts slot ids env calls s) {next : Emitter}
    (follows : s.emitter.Follows next) :
    Sited layouts slot ids env calls { s with emitter := next } :=
  ⟨follows.opened, sited.named, sited.called, sited.clear.later follows⟩

variable (linkage slot ids calls callees) in
/-- The functions that can be called do on the machine what they do to the cells. -/
def Realizes : Prop :=
  ∀ name entry, calls name = some entry →
    ∀ args cells n after m rest, callees.run name args cells = some (n, after) →
      Agrees slot ids cells m → ∃ globals,
        linkage entry.label (args.map .int ++ rest) (m .global) = some (.int n, globals) ∧
        Agrees slot ids after (m.withGlobals globals)

/-! ## Expressions -/

/-- A bare name that means a variable is that variable, and issues nothing. -/
theorem namePlace_apply {s : LowerState} {name : String} {value : Value}
    (found : s.valueOf? name = some value) : namePlace name s = ⟨.ok (.variable name value), s, []⟩ := by
  unfold LowerState.valueOf? at found
  cases bound : s.bindings.lookup name with
  | some own =>
    rw [bound] at found
    cases found
    simp [namePlace, bind_apply, get, bound]
  | none =>
    rw [bound] at found
    cases receiver : s.method with
    | none =>
      have isGlobal : s.globals.lookup name = some value := by simpa [receiver] using found
      simp [namePlace, bind_apply, get, bound, receiver, namePlace.globalPlace, isGlobal]
    | some method =>
      have isGlobal : method.layout.hasField name = false ∧ s.globals.lookup name = some value := by
        simpa [receiver] using found
      simp [namePlace, bind_apply, get, bound, receiver, namePlace.globalPlace, isGlobal]

/-- A call of a function that gives a number. -/
theorem callFunction_apply {s : LowerState} {name : String} {entry : FunctionEntry}
    (called : s.calls? layouts name = some entry) (opened : s.emitter.inFunction = true)
    (args : List Value) :
    ∃ next, s.emitter.Follows next ∧ s.emitter.locals < next.locals ∧
      callFunction layouts name args s = ⟨.ok (some ⟨s.emitter.nextLocation, .int⟩),
        { s with emitter := next },
        passing s.emitter.shape.slotSize (args.map Value.loc)
          (.callLabel entry.label (some s.emitter.nextLocation))⟩ := by
  obtain ⟨-, number, known⟩ := LowerState.calls?_eq_some called
  have gives : (layouts.functions.resultType? name).getD .void = .int := by
    rw [number]
    rfl
  have result (e : Emitter) : Emitter.resultTemp true e =
      ⟨some (Emitter.temp e).value, (Emitter.temp e).state, (Emitter.temp e).code ++ []⟩ := rfl
  refine ⟨_, Emitter.follows_taken opened (s.emitter.nextTemp + 1) (s.emitter.issued + args.length + 1 +
    if 0 < slotBytes s.emitter.shape.slotSize args.length then 1 else 0), Nat.lt_succ_self _, ?_⟩
  by_cases some : 0 < slotBytes s.emitter.shape.slotSize args.length <;>
    simp [callFunction, known, gives, ofOption, bind_apply, Lower.shape, emit_apply, pushAll_apply,
      Emitter.callLabel, Emitter.popParams, some, Emitter.issue, result, Tag.isVoid, passing,
      Emitter.temp_apply, opened, Emitter.nextLocation, List.map_reverse]

/-- A bare call of a function evaluates the arguments and calls it. -/
theorem callBare_apply {s t : LowerState} {name : String} {entry : FunctionEntry}
    (called : s.calls? layouts name = some entry) {args : Lower (List Value)} {vs : List Value}
    {code : List Instruction} (run : args s = ⟨.ok vs, t, code⟩) :
    callBare layouts name args s = ⟨(callFunction layouts name vs t).value,
      (callFunction layouts name vs t).state, code ++ (callFunction layouts name vs t).code⟩ := by
  have here : get s = ⟨.ok s, s, []⟩ := rfl
  have free := (LowerState.calls?_eq_some called).1
  rw [callBare, bind_ok here, bind_ok run]
  cases receiver : s.method with
  | none => rfl
  | some method =>
    have other : method.layout.hasMethod name = false := by simpa [receiver] using free
    simp [other]

variable (arith linkage layouts slot ids) in
/-- An expression is lowered to a number, and its code evaluates it with deferred operands. -/
def Deferring (env : Env) (callees : Callees) (e : Expr) (s : LowerState) : Prop :=
  ∃ loc next code, value layouts e s = ⟨.ok ⟨loc, .int⟩, { s with emitter := next }, code⟩ ∧
    s.emitter.Follows next ∧
    CarriesOut arith linkage slot ids s.emitter (fun _ => True) code (e.evalDeferred arith env callees)
      (Denotes slot ids next · loc)

variable (arith linkage layouts slot ids) in
/-- The same for expressions in a row. -/
def DeferringAll (env : Env) (callees : Callees) (es : List Expr) (s : LowerState) : Prop :=
  ∃ args next code, values layouts es s = ⟨.ok args, { s with emitter := next }, code⟩ ∧
    s.emitter.Follows next ∧
    CarriesOut arith linkage slot ids s.emitter (fun _ => True) code (Expr.deferAll arith env callees es)
      fun m os => List.Forall₂ (Denotes slot ids next m) (args.map Value.loc) os

section Expressions

variable {s : LowerState}

/-- A constant is loaded. -/
private theorem int_deferring (site : ExprSite) (n : Int) (wide : 0 < s.emitter.shape.slotSize)
    (sited : Sited layouts slot ids env calls s) :
    Deferring arith linkage layouts slot ids env callees (.int site n) s := by
  have follows := Emitter.follows_taken sited.opened (s.emitter.nextTemp + 1) (s.emitter.issued + 1)
  refine ⟨s.emitter.nextLocation, _, [.loadConstant s.emitter.nextLocation (.int n)], value_computed ?_,
    follows, .produce sited.clear wide follows (Nat.lt_succ_self _) ?_⟩
  · simp [place, bind_apply, emit_apply, Emitter.loadInt, Emitter.loadConstant,
      Emitter.temp_apply sited.opened, Emitter.issue, Emitter.nextLocation]
  · intro m cells o after _ _ found
    cases found
    exact ⟨rfl, n, rfl, rfl⟩

/-- A name issues nothing and is its variable. -/
private theorem name_deferring {site : ExprSite} {x : Ident}
    (sited : Sited layouts slot ids env calls s)
    (typed : (env.lookup x.name).map Variable.type = some .int) :
    Deferring arith linkage layouts slot ids env callees (.name site x) s := by
  obtain ⟨v, bound, number⟩ := Option.map_eq_some_iff.mp typed
  obtain ⟨listed, means⟩ := sited.named _ v bound
  rw [number] at means
  refine ⟨slot v.id, s.emitter, [], ?_, ⟨sited.opened, rfl, Nat.le_refl _⟩, ?_⟩
  · rw [value, place, bind_ok (namePlace_apply means)]
    rfl
  · intro m pushed cells o after _ agrees found
    rw [Expr.evalDeferred, bound] at found
    cases found
    exact ⟨m, [], rfl, agrees, ⟨listed, rfl⟩, fun _ _ => rfl⟩

private theorem binary_written (o : TacOp) (l r : Location) {e : Emitter} (opened : e.inFunction = true) :
    (do return ⟨← Emitter.binary o l r, .int⟩ : Emit Value) e =
      Emitter.written e (.binary o · l r) (⟨·, .int⟩) := by
  simp [Emitter.binary, Emitter.temp_apply opened, Emitter.issue, Emitter.written]

/-- An operator whose results are numbers is one of the machine. -/
private theorem operator_machine {op : BinaryOp} (typed : op.type? .int .int = some .int) :
    ∃ o : TacOp, (∀ arith a b, op.eval arith (.int a) (.int b) = (o.eval arith a b).map .int) ∧
      ∀ l r e, e.inFunction = true → binary op ⟨l, .int⟩ ⟨r, .int⟩ e =
        Emitter.written e (.binary o · l r) (⟨·, .int⟩) := by
  cases op <;> cases typed
  case add.refl => exact ⟨.add, fun _ _ _ => rfl, fun l r _ => binary_written .add l r⟩
  case sub.refl => exact ⟨.sub, fun _ _ _ => rfl, fun l r _ => binary_written .sub l r⟩
  case mul.refl => exact ⟨.mul, fun _ _ _ => rfl, fun l r _ => binary_written .mul l r⟩
  case div.refl => exact ⟨.div, fun _ _ _ => rfl, fun l r _ => binary_written .div l r⟩
  case mod.refl => exact ⟨.mod, fun _ _ _ => rfl, fun l r _ => binary_written .mod l r⟩

/-- Both operands are read by the operator, after the code of the right one. -/
private theorem binary_deferring {site : ExprSite} {op : BinaryOp} {left right : Expr}
    (wide : 0 < s.emitter.shape.slotSize) (sited : Sited layouts slot ids env calls s)
    (typed : op.type? .int .int = some .int)
    (leftDefers : Deferring arith linkage layouts slot ids env callees left s)
    (rightDefers : ∀ next, s.emitter.Follows next →
      Deferring arith linkage layouts slot ids env callees right { s with emitter := next }) :
    Deferring arith linkage layouts slot ids env callees (.binary site op left right) s := by
  obtain ⟨l, e₁, code₁, run₁, follows₁, carries₁⟩ := leftDefers
  obtain ⟨r, e₂, code₂, run₂, follows₂, carries₂⟩ := rightDefers e₁ follows₁
  obtain ⟨o, means, issues⟩ := operator_machine typed
  have follows := follows₁.trans follows₂
  have follows₃ := Emitter.follows_taken follows₂.opened (e₂.nextTemp + 1) (e₂.issued + 1)
  refine ⟨e₂.nextLocation, _, code₁ ++ (code₂ ++ [.binary o e₂.nextLocation l r]), value_computed ?_,
    follows.trans follows₃, ?_⟩
  · rw [place, ← value, ← value, bind_ok run₁, bind_ok run₂, bind_ok (emit_apply _ _),
      issues l r e₂ follows₂.opened]
    rfl
  · exact carries₁.andThen follows₁ fun o₁ => (carries₂.keeping follows₂ l o₁).andThen follows₂
      (.operate (sited.clear.later follows) (follows.shape ▸ wide) follows₃ (Nat.lt_succ_self _)
        (means arith) l r o₁)

/-- An assignment copies what its right side is, and is that itself. -/
private theorem assign_deferring {site : ExprSite} {target e : Expr} (separate : Separate slot ids)
    (sited : Sited layouts slot ids env calls s)
    (typed : (target.named? env).map Variable.type = some .int)
    (defers : Deferring arith linkage layouts slot ids env callees e s) :
    Deferring arith linkage layouts slot ids env callees (.assign site target e) s := by
  obtain ⟨v, named, number⟩ := Option.map_eq_some_iff.mp typed
  obtain ⟨loc, e₁, code, run, follows, carries⟩ := defers
  have follows' : e₁.Follows { e₁ with issued := e₁.issued + 1 } := ⟨follows.opened, rfl, Nat.le_refl _⟩
  cases target with
  | name nameSite x =>
    obtain ⟨listed, means⟩ := sited.named _ v named
    have target : place layouts (.name nameSite x) s =
        ⟨.ok (.variable x.name ⟨slot v.id, v.type.tag⟩), s, []⟩ := by
      rw [place, namePlace_apply means]
    refine ⟨loc, _, code ++ [.assign (slot v.id) loc], value_computed ?_, follows.trans follows', ?_⟩
    · rw [place, bind_ok target, ← value, bind_ok run]
      simp [bind_apply, write, emit_apply, Emitter.assign, Emitter.issue, Tag.className?]
    · have assigns := carries.andThen follows fun o => .assign separate follows' listed loc o
      intro m pushed cells o after start agrees found
      refine assigns m pushed cells o after start agrees ?_
      rw [Expr.evalDeferred, named, Option.bind_some] at found
      exact found
  | _ => cases named

/-- A call pushes what its arguments are after the code of all of them. -/
private theorem call_deferring {site : ExprSite} {f : Ident} {actuals : List Expr}
    (wide : 0 < s.emitter.shape.slotSize) (sited : Sited layouts slot ids env calls s)
    (realizes : Realizes linkage slot ids calls callees) (can : (calls f.name).isSome = true)
    (defers : DeferringAll arith linkage layouts slot ids env callees actuals s) :
    Deferring arith linkage layouts slot ids env callees (.call site f actuals) s := by
  obtain ⟨args, e₁, code, run, follows₁, carries⟩ := defers
  obtain ⟨entry, known⟩ := Option.isSome_iff_exists.mp can
  have here : s.calls? layouts f.name = some entry := (congrFun sited.called f.name).trans known
  have sited₁ := sited.later follows₁
  obtain ⟨next, follows₂, taken, called⟩ :=
    callFunction_apply ((congrFun sited₁.called f.name).trans known) sited₁.opened args
  have made : callBare layouts f.name (values layouts actuals) s = ⟨.ok (some ⟨e₁.nextLocation, .int⟩),
      { s with emitter := next }, code ++ passing e₁.shape.slotSize (args.map Value.loc)
        (.callLabel entry.label (some e₁.nextLocation))⟩ := by
    rw [callBare_apply here run, called]
  refine ⟨e₁.nextLocation, next, _, value_computed ?_, follows₁.trans follows₂,
    carries.andThen follows₁ fun os => .call sited₁.clear (follows₁.shape ▸ wide) follows₂ taken
      (realizes f.name entry known) (args.map Value.loc) os⟩
  rw [place, needed, bind_apply, bind_ok made]
  simp [ofOption]

/-- Arguments in a row. -/
private theorem cons_deferring {e : Expr} {rest : List Expr}
    (defers : Deferring arith linkage layouts slot ids env callees e s)
    (othersDefer : ∀ next, s.emitter.Follows next →
      DeferringAll arith linkage layouts slot ids env callees rest { s with emitter := next }) :
    DeferringAll arith linkage layouts slot ids env callees (e :: rest) s := by
  obtain ⟨loc, e₁, code₁, run₁, follows₁, carries₁⟩ := defers
  obtain ⟨args, e₂, code₂, run₂, follows₂, carries₂⟩ := othersDefer e₁ follows₁
  refine ⟨⟨loc, .int⟩ :: args, e₂, code₁ ++ code₂, ?_, follows₁.trans follows₂,
    carries₁.andThen follows₁ fun o => (carries₂.keeping follows₂ loc o).map (o :: ·) ?_⟩
  · rw [values, ← value, bind_ok run₁, bind_ok run₂]
    simp
  · rintro m os ⟨first, others⟩
    exact .cons first others

mutual

/-- The code of an expression over numbers evaluates it with deferred operands. -/
theorem value_deferring (wide : 0 < shape.slotSize) (separate : Separate slot ids)
    (realizes : Realizes linkage slot ids calls callees) :
    ∀ {e : Expr} {s : LowerState}, e.isNumeric env (fun name => (calls name).isSome) = true →
    s.emitter.shape = shape → Sited layouts slot ids env calls s →
    Deferring arith linkage layouts slot ids env callees e s
  | .int site n, s, _, shaped, sited => int_deferring site n (shaped ▸ wide) sited
  | .name _ x, s, numeric, _, sited => by
    rw [Expr.isNumeric, beq_iff_eq] at numeric
    exact name_deferring sited numeric
  | .binary _ op left right, s, numeric, shaped, sited => by
    rw [Expr.isNumeric, Bool.and_eq_true, Bool.and_eq_true, beq_iff_eq] at numeric
    obtain ⟨⟨typed, left⟩, right⟩ := numeric
    refine binary_deferring (shaped ▸ wide) sited typed
      (value_deferring wide separate realizes left shaped sited) ?_
    intro next follows
    exact value_deferring wide separate realizes right (follows.shape.trans shaped) (sited.later follows)
  | .assign _ target value, s, numeric, shaped, sited => by
    rw [Expr.isNumeric, Bool.and_eq_true, beq_iff_eq] at numeric
    exact assign_deferring separate sited numeric.1
      (value_deferring wide separate realizes numeric.2 shaped sited)
  | .call _ f actuals, s, numeric, shaped, sited => by
    rw [Expr.isNumeric, Bool.and_eq_true] at numeric
    exact call_deferring (shaped ▸ wide) sited realizes numeric.1
      (values_deferring wide separate realizes numeric.2 shaped sited)
  | .double .., _, numeric, _, _ | .bool .., _, numeric, _, _ | .string .., _, numeric, _, _
  | .null .., _, numeric, _, _ | .unary .., _, numeric, _, _ | .field .., _, numeric, _, _
  | .element .., _, numeric, _, _ | .send .., _, numeric, _, _ | .new .., _, numeric, _, _
  | .newArray .., _, numeric, _, _ | .this .., _, numeric, _, _ | .readInteger .., _, numeric, _, _
  | .readLine .., _, numeric, _, _ | .knot .., _, numeric, _, _ => nomatch numeric

theorem values_deferring (wide : 0 < shape.slotSize) (separate : Separate slot ids)
    (realizes : Realizes linkage slot ids calls callees) :
    ∀ {es : List Expr} {s : LowerState},
    Expr.areNumeric env (fun name => (calls name).isSome) es = true →
    s.emitter.shape = shape → Sited layouts slot ids env calls s →
    DeferringAll arith linkage layouts slot ids env callees es s
  | [], s, _, _, sited => by
    refine ⟨[], s.emitter, [], by rw [values]; rfl, ⟨sited.opened, rfl, Nat.le_refl _⟩, ?_⟩
    intro m pushed cells os after _ agrees found
    cases found
    exact ⟨m, [], rfl, agrees, .nil, fun _ _ => rfl⟩
  | e :: rest, s, numeric, shaped, sited => by
    rw [Expr.areNumeric, Bool.and_eq_true] at numeric
    refine cons_deferring (value_deferring wide separate realizes numeric.1 shaped sited) ?_
    intro next follows
    exact values_deferring wide separate realizes numeric.2 (follows.shape.trans shaped) (sited.later follows)

end

/-! ## Captured and deferred operands -/

variable (slot ids env) in
/-- The variables `ids` have storage of their own that the state knows, and the names of `env` mean
variables among them. -/
structure Placed (s : LowerState) : Prop where
  known : ∀ id ∈ ids, slot id ∈ s.locations
  separate : Separate slot ids
  named : ∀ name v, env.lookup name = some v →
    v.id ∈ ids ∧ s.valueOf? name = some ⟨slot v.id, v.type.tag⟩

variable (arith linkage slot ids) in
/-- Code gives a number at a location: it runs from every store with the variables before it to one with
the variables after it, and leaves what was pushed. -/
def Gives (slotSize : Int) (code : List Instruction) (loc : Location) (cells : Cells) (n : Int)
    (after : Cells) : Prop :=
  ∀ m pushed, Agrees slot ids cells m → ∃ m' left,
    acts arith slotSize linkage code ⟨m, pushed⟩ = some ⟨m', left ++ pushed⟩ ∧
      m'.read loc = some (.int n) ∧ Agrees slot ids after m'

/-- The code of an expression over numbers reads a variable where its operand is used: it evaluates the
expression with deferred operands, and so with captured ones where no operand can assign a variable that
is an operand before it. -/
theorem operands_read_on_use {arity : Nat} (wide : 0 < s.emitter.shape.slotSize)
    (below : s.emitter.shape.firstLocal < s.emitter.shape.firstParam) (kept : s.Kept arity)
    (placed : Placed slot ids env s) (realizes : Realizes linkage slot ids (s.calls? layouts) callees)
    {e : Expr} (numeric : e.isNumeric env (fun name => (s.calls? layouts name).isSome) = true) :
    ∃ loc next code, value layouts e s = ⟨.ok ⟨loc, .int⟩, { s with emitter := next }, code⟩ ∧
      (∀ cells o n after, e.evalDeferred arith env callees cells = some (o, after) →
        o.value? after = some n →
        Gives arith linkage slot ids s.emitter.shape.slotSize code loc cells n after) ∧
      (e.isSteady env callees.writes = true → ∀ cells n after,
        e.evalCaptured arith env callees cells = some (n, after) →
        Gives arith linkage slot ids s.emitter.shape.slotSize code loc cells n after) := by
  have sited : Sited layouts slot ids env (s.calls? layouts) s :=
    ⟨kept.inFunction, placed.named, rfl,
      clear_of_holds wide below fun id listed => kept.holds _ (placed.known id listed)⟩
  obtain ⟨loc, next, code, run, -, carries⟩ :=
    value_deferring wide placed.separate realizes numeric rfl sited
  have deferred : ∀ cells o n after, e.evalDeferred arith env callees cells = some (o, after) →
      o.value? after = some n →
      Gives arith linkage slot ids s.emitter.shape.slotSize code loc cells n after := by
    intro cells o n after found held m pushed agrees
    obtain ⟨m', left, runs, agrees', denotes, -⟩ := carries m pushed cells o after trivial agrees found
    exact ⟨m', left, runs, denotes.read agrees' held, agrees'⟩
  refine ⟨loc, next, code, run, deferred, fun steady cells n after found => ?_⟩
  obtain ⟨found', held⟩ := Expr.evalDeferred_of_captured steady found
  exact deferred cells _ n after found' held

end Expressions

end Operands

/-! A local `x`, a global `g`, and a function that adds to `g` and gives the sum. -/

namespace Bumping

def x : DeclId := ⟨0⟩

def g : DeclId := ⟨1⟩

def env : Env := [("x", ⟨x, .int⟩), ("g", ⟨g, .int⟩)]

def slot (id : DeclId) : Location := if id = x then ⟨"x", .frame, -8⟩ else ⟨"g", .global, 0⟩

def layouts : Layouts :=
  { functions := { functions := [("bump", ⟨"bump", 1⟩)], types := [("bump", .int)] } }

def state : LowerState where
  emitter := { shape := {}, locals := 1, globals := 1, inFunction := true }
  globals := [("g", ⟨slot g, .int⟩)]
  bindings := { visible := [("x", ⟨⟨slot x, .int⟩, 1⟩)], depth := 1 }

/-- What the function makes of its argument and the cells. -/
def bump : List Int → Cells → Option (Int × Cells)
  | [n], cells => (cells.int? g).map fun k => (k + n, cells.set g (.int (k + n)))
  | _, _ => none

theorem bump_eq_some {args : List Int} {cells after : Cells} {n : Int}
    (found : bump args cells = some (n, after)) :
    ∃ a k, args = [a] ∧ cells g = some (.int k) ∧ n = k + a ∧ after = cells.set g (.int (k + a)) := by
  unfold bump at found
  split at found
  · obtain ⟨k, held, same⟩ := Option.map_eq_some_iff.mp found
    cases same
    exact ⟨_, k, rfl, Cells.int?_eq_some held, rfl, rfl⟩
  · cases found

def callees : Callees where
  run name args cells := if name = "bump" then bump args cells else none
  writes _ id := id == g
  keeps := by
    intro name args cells after n found id other
    split at found
    · obtain ⟨a, k, -, -, -, rfl⟩ := bump_eq_some found
      exact if_neg (by simpa using other)
    · cases found

/-- The function as it is linked: `g` is the word at offset zero. -/
def linkage : Linkage := fun label pushed globals =>
  match pushed, globals 0 with
  | .int n :: _, some (.int k) =>
    if label = "bump" then
      some (.int (k + n), fun offset => if offset = 0 then some (.int (k + n)) else globals offset)
    else none
  | _, _ => none

/-- `x` is one and `g` is ten. -/
def start : Cells := fun id => if id = x then some (.int 1) else some (.int 10)

/-- `x + (x = 5)` -/
def sum : Expr :=
  .binary ⟨⟨4⟩, default⟩ .add (.name ⟨⟨0⟩, default⟩ ⟨"x", default⟩)
    (.assign ⟨⟨3⟩, default⟩ (.name ⟨⟨1⟩, default⟩ ⟨"x", default⟩) (.int ⟨⟨2⟩, default⟩ 5))

/-- `(x = 3) * bump(x)` -/
def product : Expr :=
  .binary ⟨⟨5⟩, default⟩ .mul
    (.assign ⟨⟨2⟩, default⟩ (.name ⟨⟨0⟩, default⟩ ⟨"x", default⟩) (.int ⟨⟨1⟩, default⟩ 3))
    (.call ⟨⟨4⟩, default⟩ ⟨"bump", default⟩ [.name ⟨⟨3⟩, default⟩ ⟨"x", default⟩])

theorem kept : state.Kept 0 := by
  refine ⟨rfl, ?_, by decide⟩
  intro loc member
  rcases List.mem_cons.mp member with rfl | member
  · exact .inr ⟨0, Nat.zero_lt_one, rfl⟩
  · rw [List.mem_singleton.mp member]
    exact ⟨0, Nat.zero_lt_one, rfl⟩

theorem placed : Placed slot [x, g] env state where
  known := by decide
  separate := by
    unfold Separate
    decide
  named := by
    intro name v found
    by_cases isX : name = "x"
    · subst isX
      cases found
      exact ⟨by decide, rfl⟩
    · by_cases isG : name = "g"
      · subst isG
        cases found
        exact ⟨by decide, rfl⟩
      · rw [env, Table.lookup_cons, if_neg isX, Table.lookup_cons, if_neg isG] at found
        cases found

theorem realizes : Realizes linkage slot [x, g] (state.calls? layouts) callees := by
  intro name entry known args cells n after m rest found agrees
  have found : (if name = "bump" then bump args cells else none) = some (n, after) := found
  split at found
  · rename_i isBump
    subst isBump
    cases known
    obtain ⟨a, k, rfl, held, rfl, rfl⟩ := bump_eq_some found
    have word : m .global 0 = some (.int k) := by
      rw [← held, agrees g (by decide)]
      rfl
    refine ⟨fun offset => if offset = 0 then some (.int (k + a)) else m .global offset, ?_, ?_⟩
    · simp [linkage, word]
    · intro id member
      rcases List.mem_pair.mp member with rfl | rfl
      · exact agrees x (by decide)
      · rfl
  · cases found

/-- A store in which `x` is one and `g` is ten. -/
def store : Store
  | .frame, offset => if offset = -8 then some (.int 1) else none
  | .global, offset => if offset = 0 then some (.int 10) else none

/-- Where the value of `x + (x = 5)` is left. -/
def result : Location := ⟨"_tmp1", .frame, -16⟩

/-- The code of `x + (x = 5)`. -/
def code : List Instruction :=
  [ .loadConstant ⟨"_tmp0", .frame, -12⟩ (.int 5), .assign (slot x) ⟨"_tmp0", .frame, -12⟩,
    .binary .add result (slot x) ⟨"_tmp0", .frame, -12⟩ ]

/-- Operands are not captured: the code of `x + (x = 5)` reads `x` after it was assigned. -/
theorem operands_not_captured :
    sum.evalCaptured .exact env callees start = some (6, start.set x (.int 5)) ∧
      (∃ next, value layouts sum state = ⟨.ok ⟨result, .int⟩, { state with emitter := next }, code⟩) ∧
      ((acts .exact 4 linkage code ⟨store, []⟩).bind fun c => c.store.int? result) = some 10 ∧
      ¬ Gives .exact linkage slot [x, g] 4 code result start 6 (start.set x (.int 5)) := by
  have ten : ((acts .exact 4 linkage code ⟨store, []⟩).bind fun c => c.store.int? result) = some 10 := by
    decide
  refine ⟨rfl, ⟨_, rfl⟩, ten, fun gives => ?_⟩
  have agrees : Agrees slot [x, g] start store := by
    intro id member
    rcases List.mem_pair.mp member with rfl | rfl <;> rfl
  obtain ⟨m', left, runs, six, -⟩ := gives store [] agrees
  rw [runs, Option.bind_some, Store.int?_eq_some six] at ten
  revert ten
  decide

/-- The code of `(x = 3) * bump(x)` gives what captured operands do. -/
theorem operands_read_on_use_bump :
    product.isSteady env callees.writes = true ∧
      product.evalCaptured .exact env callees start =
        some (39, (start.set x (.int 3)).set g (.int 13)) ∧
      ∃ loc next code, value layouts product state =
          ⟨.ok ⟨loc, .int⟩, { state with emitter := next }, code⟩ ∧
        Gives .exact linkage slot [x, g] 4 code loc start 39
          ((start.set x (.int 3)).set g (.int 13)) := by
  have steady : product.isSteady env callees.writes = true := by decide
  obtain ⟨loc, next, code, run, -, captured⟩ := @operands_read_on_use .exact linkage layouts slot [x, g]
    env callees state 0 (by decide) (by decide) kept placed realizes product (by decide)
  exact ⟨steady, rfl, loc, next, code, run, captured steady _ _ _ rfl⟩

end Bumping

end Lower

end DecafTac
