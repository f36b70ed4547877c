import DecafTac.Proofs.Lower.Targets

/-!
Well-bracketed listings. Whatever the layouts are, and however generation ends, the code is a row of whole
parts: segments of functions, inside of which no function is opened or closed, and method tables. They
are for the functions and classes of the program from the first on, in its order. When generation comes
to its end they are for all of them, and what it counted is what it issued.
-/
namespace DecafTac

/-- Within a segment, no function is opened or closed, and no table is issued. -/
def Part.Plain : Part → Prop
  | .segment _ body _ => ∀ i ∈ body, i.isBracket = false
  | .table .. => True

/-- Whether an instruction is a method table. -/
def Instruction.isTable : Instruction → Bool
  | .methodTable .. => true
  | _ => false

namespace Lower

variable {α β : Type}

/-! ## Inside functions -/

/-- What a step inside a function leaves alone: the open method, and the counts of functions and
tables. -/
structure SameFunction (before after : LowerState) : Prop where
  method : after.method = before.method
  functions : after.functions = before.functions
  tables : after.tables = before.tables

theorem SameFunction.trans {s t u : LowerState} (one : SameFunction s t) (two : SameFunction t u) :
    SameFunction s u :=
  ⟨two.method.trans one.method, two.functions.trans one.functions, two.tables.trans one.tables⟩

/-- A step inside a function, which does not fail for want of an entry point. -/
def Inner (step : Lower α) : Prop :=
  ∀ s, SameFunction s (step s).state ∧ (step s).value ≠ .error .noMainFound

namespace Inner

theorem pure (a : α) : Inner (Pure.pure a : Lower α) := fun _ => ⟨⟨rfl, rfl, rfl⟩, nofun⟩

theorem bind {step : Lower α} {rest : α → Lower β} (first : Inner step)
    (second : ∀ a, Inner (rest a)) : Inner (step >>= rest) := by
  intro s
  obtain ⟨same, fine⟩ := first s
  rw [Lower.bind_apply]
  cases result : (step s).value with
  | error error =>
    refine ⟨same, fun found => fine ?_⟩
    cases found
    exact result
  | ok a =>
    obtain ⟨same', fine'⟩ := second a (step s).state
    exact ⟨same.trans same', fine'⟩

theorem fail {error : LowerError} (other : error ≠ .noMainFound) :
    Inner (Lower.fail error : Lower α) :=
  fun _ => ⟨⟨rfl, rfl, rfl⟩, fun found => other (Except.error.inj found)⟩

theorem ofOption {error : LowerError} (other : error ≠ .noMainFound) (found : Option α) :
    Inner (Lower.ofOption error found) := by
  cases found with
  | some a => exact .pure a
  | none => exact .fail other

theorem get : Inner Lower.get := fun _ => ⟨⟨rfl, rfl, rfl⟩, nofun⟩

theorem shape : Inner Lower.shape := fun _ => ⟨⟨rfl, rfl, rfl⟩, nofun⟩

/-- The emitter has no part in the open method and the counts. -/
theorem emit (step : Emit α) : Inner (Lower.emit step) := fun _ => ⟨⟨rfl, rfl, rfl⟩, nofun⟩

theorem modify (change : LowerState → LowerState) (same : ∀ s, SameFunction s (change s)) :
    Inner (Lower.modify change) := fun s => ⟨same s, nofun⟩

theorem ensuring {step : Lower α} (inner : Inner step) (change : LowerState → LowerState)
    (same : ∀ s, SameFunction s (change s)) :
    Inner (Lower.ensuring step (Emission.modify change)) := by
  intro s
  obtain ⟨kept, fine⟩ := inner s
  exact ⟨kept.trans (same (step s).state), fine⟩

/-- A step whose value is thrown away. -/
theorem discard {step : Lower α} (inner : Inner step) : Inner (discard step) :=
  inner.bind fun _ => .pure ()

end Inner

section Expressions

variable (layouts : Layouts)

theorem classLayout_inner (name : String) : Inner (classLayout layouts name) :=
  .ofOption (by simp) _

theorem layoutOf_inner (value : Value) : Inner (layoutOf layouts value) := by
  unfold layoutOf
  split
  · exact classLayout_inner layouts _
  · exact .fail (by simp)

theorem fieldPlace_inner (layout : ClassLayout) (object : Location) (field : String) :
    Inner (fieldPlace layout object field) :=
  (Inner.ofOption (by simp) _).bind fun _ => Inner.shape.bind fun _ => .pure _

theorem namePlace_inner (name : String) : Inner (namePlace name) := by
  refine Inner.get.bind fun s => ?_
  have globalPlace : Inner (namePlace.globalPlace name s) := by
    unfold namePlace.globalPlace
    split
    · exact .pure _
    · exact .fail (by simp)
  split
  · exact .pure _
  · split
    · split
      · exact fieldPlace_inner _ _ _
      · exact globalPlace
    · exact globalPlace

theorem read_inner (place : Place) : Inner (read place) := by
  cases place with
  | «variable» name value => exact .pure _
  | computed value => exact .pure _
  | memory addr offset tag => exact (Inner.emit _).bind fun _ => .pure _

theorem write_inner (place : Place) (value : Value) : Inner (write place value) := by
  cases place with
  | «variable» name dst =>
    refine (Inner.emit _).bind fun _ => ?_
    split
    · refine .modify _ fun s => ?_
      unfold LowerState.retag
      split <;> exact ⟨rfl, rfl, rfl⟩
    · exact .pure ()
  | memory addr offset tag => exact .emit _
  | computed dst => exact .emit _

theorem callMethod_inner (receiver : Value) (name : String) (args : List Value) :
    Inner (callMethod layouts receiver name args) :=
  (layoutOf_inner layouts receiver).bind fun _ => (Inner.ofOption (by simp) _).bind fun _ =>
    Inner.shape.bind fun _ => (Inner.emit _).bind fun _ => .pure _

theorem callFunction_inner (name : String) (args : List Value) :
    Inner (callFunction layouts name args) :=
  (Inner.ofOption (by simp) _).bind fun _ => Inner.shape.bind fun _ => (Inner.emit _).bind fun _ =>
    .pure _

theorem callBare_inner (name : String) {args : Lower (List Value)} (inner : Inner args) :
    Inner (callBare layouts name args) := by
  refine Inner.get.bind fun s => inner.bind fun values => ?_
  split
  · split
    · exact callMethod_inner layouts _ _ _
    · exact callFunction_inner layouts _ _
  · exact callFunction_inner layouts _ _

theorem callOn_inner (name : String) (noArgs : Bool) {receiver : Lower Value}
    {args : Lower (List Value)} (object : Inner receiver) (inner : Inner args) :
    Inner (callOn layouts receiver name noArgs args) := by
  refine object.bind fun value => ?_
  split
  · exact (Inner.emit _).bind fun _ => .pure _
  · exact inner.bind fun _ => callMethod_inner layouts _ _ _

theorem needed_inner (name : String) {call : Lower (Option Value)} (inner : Inner call) :
    Inner (needed name call) := inner.bind fun _ => .ofOption (by simp) _

mutual

theorem place_inner : ∀ e : Expr, Inner (place layouts e)
  | .int .. | .double .. | .bool .. | .string .. | .readInteger _ | .readLine _ =>
    (Inner.emit _).bind fun _ => .pure _
  | .null _ => Inner.shape.bind fun _ => (Inner.emit _).bind fun _ => (Inner.emit _).bind fun _ => .pure _
  | .binary _ _ left right =>
    ((place_inner left).bind read_inner).bind fun _ =>
      ((place_inner right).bind read_inner).bind fun _ => (Inner.emit _).bind fun _ => .pure _
  | .unary _ _ operand =>
    ((place_inner operand).bind read_inner).bind fun _ => (Inner.emit _).bind fun _ => .pure _
  | .assign _ target value =>
    (place_inner target).bind fun dst => ((place_inner value).bind read_inner).bind fun v =>
      (write_inner dst v).bind fun _ => .pure _
  | .name _ name => namePlace_inner name.name
  | .field _ object _ =>
    ((place_inner object).bind read_inner).bind fun value =>
      (layoutOf_inner layouts value).bind fun _ => fieldPlace_inner _ _ _
  | .element _ array index =>
    ((place_inner array).bind read_inner).bind fun _ =>
      ((place_inner index).bind read_inner).bind fun _ =>
        (Inner.emit _).bind fun _ => Inner.shape.bind fun _ => .pure _
  | .call _ name actuals =>
    (needed_inner name.name (callBare_inner layouts name.name (values_inner actuals))).bind
      fun _ => .pure _
  | .send _ receiver name actuals =>
    (needed_inner name.name (callOn_inner layouts name.name actuals.isEmpty
      ((place_inner receiver).bind read_inner) (values_inner actuals))).bind fun _ => .pure _
  | .new _ cls =>
    (classLayout_inner layouts cls.name).bind fun _ => (Inner.emit _).bind fun _ => .pure _
  | .newArray _ size _ =>
    ((place_inner size).bind read_inner).bind fun _ => (Inner.emit _).bind fun _ => .pure _
  | .this _ => Inner.get.bind fun s => (Inner.ofOption (by simp) s.method).bind fun _ => .pure _
  | .knot _ => .fail (by simp)

theorem values_inner : ∀ es : List Expr, Inner (values layouts es)
  | [] => .pure _
  | e :: rest =>
    ((place_inner e).bind read_inner).bind fun _ => (values_inner rest).bind fun _ => .pure _

end

theorem value_inner (e : Expr) : Inner (value layouts e) := (place_inner layouts e).bind read_inner

theorem effect_inner (e : Expr) : Inner (effect layouts e) := by
  unfold effect
  split
  · exact (callBare_inner layouts _ (values_inner layouts _)).discard
  · exact (callOn_inner layouts _ _ (value_inner layouts _) (values_inner layouts _)).discard
  · exact (value_inner layouts e).discard

end Expressions

section Statements

variable (arena : Arena) (layouts : Layouts)

theorem declareLocals_inner (decls : List Decl) : Inner (declareLocals decls) := by
  induction decls with
  | nil => exact .pure ()
  | cons decl rest ih =>
    cases decl with
    | var id name type =>
      exact (Inner.emit _).bind fun _ => .bind (.modify _ fun _ => ⟨rfl, rfl, rfl⟩) fun _ => ih
    | cls | interface | prototype | function => exact ih

theorem inBlock_inner {body : Lower Unit} (inner : Inner body) : Inner (inBlock body) :=
  .bind (.modify _ fun _ => ⟨rfl, rfl, rfl⟩) fun _ => inner.ensuring _ fun _ => ⟨rfl, rfl, rfl⟩

theorem inLoop_inner (id : StmtId) (exit : String) {body : Lower Unit} (inner : Inner body) :
    Inner (inLoop id exit body) :=
  .bind (.modify _ fun _ => ⟨rfl, rfl, rfl⟩) fun _ => inner.ensuring _ fun _ => ⟨rfl, rfl, rfl⟩

theorem loop_inner (id : StmtId) {test : Lower Value} {body step : Lower Unit}
    (testInner : Inner test) (bodyInner : Inner body) (stepInner : Inner step) :
    Inner (loop id test body step) :=
  (Inner.emit _).bind fun _ => (Inner.emit _).bind fun _ => (Inner.emit _).bind fun _ =>
    testInner.bind fun _ => (Inner.emit _).bind fun _ => (inLoop_inner id _ bodyInner).bind fun _ =>
      stepInner.bind fun _ => (Inner.emit _).bind fun _ => .emit _

theorem printAll_inner (args : List Expr) : Inner (printAll layouts args) := by
  induction args with
  | nil => exact .pure ()
  | cons e rest ih =>
    exact (value_inner layouts e).bind fun _ => (Inner.ofOption (by simp) _).bind fun _ =>
      (Inner.emit _).bind fun _ => ih

theorem optionalEffect_inner (e : Option Expr) : Inner (optionalEffect layouts e) := by
  cases e with
  | none => exact .pure ()
  | some e => exact effect_inner layouts e

mutual

theorem stmt_inner : ∀ s : Stmt, Inner (stmt arena layouts s)
  | .block _ decls body =>
    inBlock_inner ((declareLocals_inner decls).bind fun _ => stmts_inner body)
  | .ifThen _ test body =>
    (value_inner layouts test).bind fun _ => (Inner.emit _).bind fun _ => (Inner.emit _).bind fun _ =>
      (stmt_inner body).bind fun _ => .emit _
  | .ifElse _ test yes no =>
    (value_inner layouts test).bind fun _ => (Inner.emit _).bind fun _ => (Inner.emit _).bind fun _ =>
      (stmt_inner yes).bind fun _ => (Inner.emit _).bind fun _ => (Inner.emit _).bind fun _ =>
        (Inner.emit _).bind fun _ => (stmt_inner no).bind fun _ => .emit _
  | .whileLoop site test body =>
    loop_inner site.id (value_inner layouts test) (stmt_inner body) (.pure ())
  | .forLoop site init test step body =>
    (optionalEffect_inner layouts init).bind fun _ =>
      loop_inner site.id (value_inner layouts test) (stmt_inner body)
        (optionalEffect_inner layouts step)
  | .ret _ none => .emit _
  | .ret _ (some e) => (value_inner layouts e).bind fun _ => .emit _
  | .print _ args => printAll_inner layouts args
  | .leave _ => Inner.get.bind fun _ => (Inner.ofOption (by simp) _).bind fun _ => .emit _
  | .expr _ e => effect_inner layouts e
  | .knot _ => .pure ()

theorem stmts_inner : ∀ body : List Stmt, Inner (stmts arena layouts body)
  | [] => .pure ()
  | s :: rest => (stmt_inner s).bind fun _ => stmts_inner rest

end

theorem bodyOf_inner (decl : Decl) : Inner (bodyOf arena layouts decl) := by
  cases decl with
  | function id name result formals body => exact stmt_inner arena layouts body
  | var | cls | interface | prototype => exact .pure ()

end Statements

/-! ## Between functions -/

/-- What a step counted is what it issued. -/
structure Counted (before after : LowerState) (code : List Instruction) : Prop where
  instructions : after.emitter.issued = before.emitter.issued + code.length
  functions : after.functions = before.functions + code.count .beginFunc
  tables : after.tables = before.tables + code.countP Instruction.isTable

theorem Counted.refl (s : LowerState) : Counted s s [] := ⟨rfl, rfl, rfl⟩

theorem Counted.trans {s t u : LowerState} {first second : List Instruction}
    (one : Counted s t first) (two : Counted t u second) : Counted s u (first ++ second) where
  instructions := by rw [two.instructions, one.instructions, List.length_append, Nat.add_assoc]
  functions := by rw [two.functions, one.functions, List.count_append, Nat.add_assoc]
  tables := by rw [two.tables, one.tables, List.countP_append, Nat.add_assoc]

/-- A step between functions that gives whole parts, for the first of some targets. If it succeeds, they
are for all of the targets. -/
def Brackets (arena : Arena) (layouts : Layouts) (shape : FrameShape) (globals : Nat)
    (targets : List Target) (step : Lower α) : Prop :=
  ∀ s, Between shape globals s →
    Between shape globals (step s).state ∧ Counted s (step s).state (step s).code ∧
    (step s).value ≠ .error .noMainFound ∧
    ∃ done parts, (step s).code = parts.flatMap Part.code ∧ (∀ part ∈ parts, part.Plain) ∧
      List.Forall₂ (fun t part => ∃ start, t.Gives arena layouts start part) done parts ∧
      done <+: targets ∧ ∀ a, (step s).value = .ok a → done = targets

namespace Brackets

variable {arena : Arena} {layouts : Layouts} {shape : FrameShape} {globals : Nat}

theorem pure (a : α) : Brackets arena layouts shape globals [] (Pure.pure a : Lower α) :=
  fun s between => ⟨between, .refl s, nofun, [], [], rfl, nofun, .nil, List.prefix_rfl, fun _ _ => rfl⟩

theorem fail {error : LowerError} (other : error ≠ .noMainFound) (targets : List Target) :
    Brackets arena layouts shape globals targets (Lower.fail error : Lower α) :=
  fun s between => ⟨between, .refl s, fun found => other (Except.error.inj found), [], [], rfl, nofun,
    .nil, List.nil_prefix, nofun⟩

theorem bind {targets more : List Target} {step : Lower α} {rest : α → Lower β}
    (first : Brackets arena layouts shape globals targets step)
    (second : ∀ a, Brackets arena layouts shape globals more (rest a)) :
    Brackets arena layouts shape globals (targets ++ more) (step >>= rest) := by
  intro s between
  obtain ⟨between₁, counted₁, fine₁, done₁, parts₁, code₁, plain₁, gives₁, early, all₁⟩ :=
    first s between
  rw [Lower.bind_apply]
  cases result : (step s).value with
  | error error =>
    refine ⟨between₁, counted₁, fun found => fine₁ ?_, done₁, parts₁, code₁, plain₁, gives₁,
      early.trans (List.prefix_append ..), nofun⟩
    cases found
    exact result
  | ok a =>
    obtain ⟨between₂, counted₂, fine₂, done₂, parts₂, code₂, plain₂, gives₂, early₂, all₂⟩ :=
      second a (step s).state between₁
    obtain rfl := all₁ a result
    refine ⟨between₂, counted₁.trans counted₂, fine₂, done₁ ++ done₂, parts₁ ++ parts₂, ?_, ?_,
      List.rel_append gives₁ gives₂, (List.prefix_append_right_inj _).mpr early₂, ?_⟩
    · rw [List.flatMap_append, ← code₁, ← code₂]
    · exact List.forall_mem_append.mpr ⟨plain₁, plain₂⟩
    · intro b succeeds
      rw [all₂ b succeeds]

end Brackets

section Program

variable (arena : Arena) (layouts : Layouts) {shape : FrameShape} {globals : Nat}

/-- A body without brackets has neither the start of a function nor a table. -/
private theorem plain_counts {body : List Instruction} (plain : ∀ i ∈ body, i.isBracket = false) :
    body.count .beginFunc = 0 ∧ body.countP Instruction.isTable = 0 := by
  constructor
  · refine List.count_eq_zero.mpr fun member => ?_
    cases plain _ member
  · refine List.countP_eq_zero.mpr fun i member isTable => ?_
    have plain := plain i member
    cases i <;> cases isTable
    cases plain

/-- A function gives its segment, whether or not its body fails. -/
theorem segment_brackets {cls : Option String} {layout : Option ClassLayout} {decl : Decl}
    {signature : Signature} (inside : Target.InClass layouts cls layout)
    (signed : decl.signature? = some signature) :
    Brackets arena layouts shape globals [.function cls decl] (segment (functionLabel layout decl.name)
      layout signature.formals (bodyOf arena layouts decl)) := by
  intro s between
  obtain ⟨result, formals⟩ := signature
  have opened := started_emitter layout formals s
  have sound := bodyOf_sound arena layouts (formals.length + (if layout.isSome then 1 else 0)) decl
  have kept := between.started layout formals
  obtain ⟨advance, -⟩ := sound _ kept (by simp) (by simp)
  have startShaped : (started layout formals s).emitter.shape = shape := by
    rw [opened]
    exact between.shaped
  have startCounted : (started layout formals s).emitter.globals = globals := by
    rw [opened]
    exact between.counted
  obtain ⟨shaped, counted, stored⟩ := sound.between kept startShaped startCounted
  obtain ⟨⟨-, functions, tables⟩, fine⟩ := bodyOf_inner arena layouts decl (started layout formals s)
  obtain ⟨noFunction, noTable⟩ := plain_counts advance.plain
  have same : (started layout formals s).functions = s.functions ∧
      (started layout formals s).tables = s.tables := by
    cases layout <;> exact ⟨rfl, rfl⟩
  have gives : Target.Gives arena layouts s (.function cls decl) _ := .function inside signed rfl
  rw [Target.label_eq inside] at gives
  rw [segment_apply]
  refine ⟨⟨shaped, counted, stored⟩, ⟨?_, ?_, ?_⟩, fine, [.function cls decl], [.segment _ _ _],
    (List.flatMap_singleton ..).symm, ?_, .cons ⟨s, gives⟩ .nil, List.prefix_rfl, fun _ _ => rfl⟩
  · have issued := advance.issued
    rw [opened] at issued
    change (bodyOf arena layouts decl (started layout formals s)).state.emitter.issued + 1 = _
    rw [issued]
    simp only [List.length_cons, List.length_append, List.length_nil]
    omega
  · change (bodyOf arena layouts decl (started layout formals s)).state.functions + 1 = _
    rw [functions, same.1]
    simp [noFunction]
  · change (bodyOf arena layouts decl (started layout formals s)).state.tables = _
    rw [tables, same.2]
    simp [Instruction.isTable, noTable]
  · exact List.forall_mem_singleton.mpr advance.plain

theorem methodTable_brackets {cls : String} {layout : ClassLayout}
    (laidOut : layouts.class? cls = some layout) :
    Brackets arena layouts shape globals [.table cls] (methodTable layout) := by
  intro s between
  have named := Layouts.name_of_class? laidOut
  subst named
  exact ⟨⟨between.shaped, between.counted, between.stored⟩, ⟨rfl, rfl, rfl⟩, nofun, [.table _],
    [.table _ _], rfl, fun part member => by cases List.mem_singleton.mp member; trivial,
    .cons ⟨s, .table laidOut⟩ .nil, List.prefix_rfl, fun _ _ => rfl⟩

theorem target_brackets {t : Target} (proper : t.Proper) :
    Brackets arena layouts shape globals [t] (target arena layouts t) := by
  have lowering := target_lowering arena layouts proper
  generalize target arena layouts t = step at lowering
  cases lowering with
  | function inside signed => exact segment_brackets arena layouts inside signed
  | table laidOut => exact methodTable_brackets arena layouts laidOut
  | unknown missing => exact .fail (by simp) _

theorem targets_brackets (list : List Target) (proper : ∀ t ∈ list, t.Proper) :
    Brackets arena layouts shape globals list (targets arena layouts list) := by
  induction list with
  | nil => exact .pure ()
  | cons t rest ih =>
    rw [List.forall_mem_cons] at proper
    exact (target_brackets arena layouts proper.1).bind fun _ => ih proper.2

end Program

end Lower

/-- Well-bracketed output. However code generation ends, and against whatever layouts, the code is a row
of whole parts, without brackets inside of segments. They are for the first of the functions and tables
of the program, in order; there are none when the program has no entry point. If generation comes to its
end they are for all functions and tables, and the counts it gives are those of the listing. -/
theorem Program.generate_bracketed (program : Program) (layouts : Layouts) (shape : FrameShape) :
    ∃ done parts, (program.generate layouts shape).code = parts.flatMap Part.code ∧
      (∀ part ∈ parts, part.Plain) ∧
      List.Forall₂ (fun t part => ∃ start, t.Gives program.arena layouts start part) done parts ∧
      done <+: program.targets ∧
      ((program.generate layouts shape).outcome = .error .noMainFound →
        (program.generate layouts shape).code = []) ∧
      ∀ summary, (program.generate layouts shape).outcome = .ok summary →
        done = program.targets ∧
        summary.instructions = (program.generate layouts shape).code.length ∧
        summary.functions = (program.generate layouts shape).code.count .beginFunc ∧
        summary.tables = (program.generate layouts shape).code.countP Instruction.isTable := by
  unfold Program.generate
  split
  · obtain ⟨-, counted, fine, done, parts, code, plain, gives, early, all⟩ :=
      Lower.targets_brackets program.arena layouts program.targets (fun _ => Program.targets_proper) _
        (Lower.opening_between program.top shape)
    obtain ⟨globals, opened⟩ := Lower.opening_eq program.top shape
    simp only [Lower.program_apply, Lower.topLevels_eq]
    rw [Program.targets] at *
    generalize Lower.targets program.arena layouts _ _ = run at *
    refine ⟨done, parts, code, plain, gives, early, ?_, ?_⟩
    · intro failed
      cases value : run.value with
      | error error =>
        rw [value] at failed fine
        cases failed
        exact absurd rfl fine
      | ok => rw [value] at failed; cases failed
    · intro summary succeeds
      cases value : run.value with
      | error error => rw [value] at succeeds; cases succeeds
      | ok =>
        rw [value] at succeeds
        cases succeeds
        have issued := counted.instructions
        have functions := counted.functions
        have tables := counted.tables
        rw [opened] at issued functions tables
        exact ⟨all () value, by simpa using issued, by simpa using functions, by simpa using tables⟩
  · exact ⟨[], [], rfl, nofun, .nil, List.nil_prefix, fun _ => rfl, nofun⟩

end DecafTac
