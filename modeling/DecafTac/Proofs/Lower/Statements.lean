import DecafTac.Proofs.Lower.Accounting
import DecafTac.Proofs.Lower.Form
import DecafTac.Proofs.Lower.Simulation
import DecafTac.Proofs.Source.Forest

/-!
Lowering of statements over numbers and truth values. In a state that knows the variables around it and
the loop that a `break` would leave, every such statement is lowered without fault, and its code carries
it out. Which slots the declarations in it get is taken from the account of what lowering hands out.
-/
namespace DecafTac.Lower

open Machine

variable {arith : Arithmetic} {whole : List Instruction} {slot : DeclId → Location}
  {ids : List DeclId} {env : Env} {stack : List (List (String × Value))} {layouts : Layouts}
  {s : LowerState}

/-! ## Statements without jumps -/

variable (arith slot ids) in
/-- A step of lowering succeeds in a state and changes nothing there but the emitter; its code does
what `act` says. -/
def Acts (act : Cells → List Datum → Cells → Prop) (step : Lower Unit) (s : LowerState) : Prop :=
  ∃ next code, step s = ⟨.ok (), { s with emitter := next }, code⟩ ∧ next.inFunction = true ∧
    Performs arith slot ids act code

/-- An assignment writes the slot of its variable, and no other. -/
private theorem assign_performs (apart : Apart whole slot ids) {site : ExprSite} {target : ExprSite}
    {x : Ident} {e : Expr} {v : Variable} {code : List Instruction} {loc : Location}
    (bound : env.lookup x.name = some v) (listed : v.id ∈ ids)
    (evaluates : Evaluates arith slot ids env e code loc) :
    Performs arith slot ids (Assigns arith env (some (.assign site (.name target x) e)))
      (code ++ [.assign (slot v.id) loc]) := by
  rintro cells m out cells' agrees ⟨updated, rfl⟩ distinct free
  simp only [Expr.updateIf, Expr.update, bound, Option.bind_some] at updated
  obtain ⟨d, found, rfl⟩ := Option.map_eq_some_iff.mp updated
  have bare : scratch [.assign (slot v.id) loc] = [] := rfl
  simp only [scratch_append, bare, List.append_nil] at distinct free
  obtain ⟨m₁, runs, there⟩ := evaluates.leaves cells m d agrees found distinct free
  refine ⟨m₁.write (slot v.id) d.word, ?_, ?_⟩
  · simp [effects_append, runs.1, effects, Machine.effect, there]
  · intro id other
    by_cases same : id = v.id
    · subst same
      simp [Cells.set]
    · have differs : (slot id).position ≠ (slot v.id).position :=
        fun equal => same (apart.own id other v.id listed equal)
      rw [Store.read_write_other differs, runs.2 _ (free id other), ← agrees id other]
      simp [Cells.set, same]

/-- Storing a number or a truth value in a variable takes one instruction. -/
private theorem write_variable (name : String) (dst loc : Location) (tag : Tag) (type : Scalar)
    (s : LowerState) :
    write (.variable name ⟨dst, tag⟩) ⟨loc, type.tag⟩ s =
      ⟨.ok (), { s with emitter := { s.emitter with issued := s.emitter.issued + 1 } },
        [.assign dst loc]⟩ := by
  cases type <;> rfl

theorem effect_acts (apart : Apart whole slot ids) (covered : ∀ entry ∈ env, entry.2.id ∈ ids)
    (knows : Knows slot env stack s) {e : Expr} (assigns : e.isUpdate env = true) :
    Acts arith slot ids (Assigns arith env (some e)) (effect layouts e) s := by
  unfold Expr.isUpdate at assigns
  split at assigns
  · rename_i site target x e
    rw [Bool.and_eq_true, beq_iff_eq, Option.isSome_iff_exists] at assigns
    obtain ⟨same, type, typed⟩ := assigns
    rw [typed] at same
    obtain ⟨v, bound, rfl⟩ := Option.map_eq_some_iff.mp same
    obtain ⟨loc, next, code, run, opened, evaluates⟩ : Valued arith slot ids env layouts e v.type s :=
      value_valued covered typed knows
    have placed : place layouts (.assign site (.name target x) e) s =
        ⟨.ok (.computed ⟨loc, v.type.tag⟩),
          { s with emitter := { next with issued := next.issued + 1 } },
          code ++ [.assign (slot v.id) loc]⟩ := by
      rw [place, bind_ok (name_place knows bound), ← value, bind_ok run, bind_ok (write_variable ..)]
      simp
    refine ⟨{ next with issued := next.issued + 1 }, code ++ [.assign (slot v.id) loc], ?_, opened,
      assign_performs apart bound (lookup_listed covered bound) evaluates⟩
    have discarded : effect layouts (.assign site (.name target x) e) =
      (value layouts (.assign site (.name target x) e) >>= fun _ => pure ()) := rfl
    rw [discarded, bind_ok (value_computed placed)]
    simp
  · cases assigns

theorem optionalEffect_acts (apart : Apart whole slot ids) (covered : ∀ entry ∈ env, entry.2.id ∈ ids)
    (knows : Knows slot env stack s) {e : Option Expr} (assigns : e.all (Expr.isUpdate env) = true) :
    Acts arith slot ids (Assigns arith env e) (optionalEffect layouts e) s := by
  cases e with
  | none =>
    refine ⟨s.emitter, [], rfl, knows.opened, ?_⟩
    rintro cells m out cells' agrees ⟨updated, rfl⟩ _ _
    cases updated
    exact ⟨m, rfl, agrees⟩
  | some e => exact effect_acts apart covered knows assigns

/-- The routine that prints a number or a truth value. -/
private def printer : Scalar → Routine
  | .int => .printInt
  | .bool => .printBool

private theorem printer_effect {m : Store} {loc : Location} {d : Datum}
    (there : m.read loc = some d.word) :
    Machine.effect arith m (.callRoutine (printer d.type) [loc] none) = some (m, [d.printed]) := by
  cases d with
  | int n => simp [printer, Datum.type, Machine.effect, Store.int?_eq_some there, Datum.printed]
  | bool b =>
    cases b <;>
      simp [printer, Datum.type, Machine.effect, Store.int?_eq_some there, Datum.printed, truth]

/-- Printing a value and then others. -/
private theorem print_performs {e : Expr} {rest : List Expr} {type : Scalar}
    {code more : List Instruction} {loc : Location} (typed : e.scalar? env = some type)
    (evaluates : Evaluates arith slot ids env e code loc)
    (performs : Performs arith slot ids (Prints arith env rest) more) :
    Performs arith slot ids (Prints arith env (e :: rest))
      (code ++ .callRoutine (printer type) [loc] none :: more) := by
  rintro cells m out cells' agrees ⟨found, rfl⟩ distinct free
  obtain ⟨d, foundHead, found⟩ := Option.bind_eq_some_iff.mp found
  obtain ⟨later, foundRest, rfl⟩ := Option.map_eq_some_iff.mp found
  have bare : scratch (.callRoutine (printer type) [loc] none :: more) = scratch more := rfl
  simp only [scratch_append, bare, List.nodup_append, List.mem_append, not_or] at distinct free
  obtain ⟨m₁, runs, there⟩ := evaluates.leaves cells' m d agrees foundHead distinct.1
    fun id listed => (free id listed).1
  have agrees₁ : Agrees slot ids cells' m₁ := fun id listed => by
    rw [agrees id listed, runs.2 _ (free id listed).1]
  obtain ⟨m₂, runs₂, agrees₂⟩ := performs cells' m₁ later cells' agrees₁ ⟨foundRest, rfl⟩ distinct.2.1
    fun id listed => (free id listed).2
  have own := Expr.eval_type foundHead
  rw [typed, Option.some.injEq] at own
  subst own
  refine ⟨m₂, ?_, agrees₂⟩
  simp [effects_append, runs.1, effects, printer_effect there, runs₂]

/-- Each value is printed as soon as it is there. -/
theorem printAll_acts (covered : ∀ entry ∈ env, entry.2.id ∈ ids) (knows : Knows slot env stack s)
    {args : List Expr} (typed : args.all (fun e => (e.scalar? env).isSome) = true) :
    Acts arith slot ids (Prints arith env args) (printAll layouts args) s := by
  induction args generalizing s with
  | nil =>
    refine ⟨s.emitter, [], rfl, knows.opened, ?_⟩
    rintro cells m out cells' agrees ⟨found, rfl⟩ _ _
    cases found
    exact ⟨m, rfl, agrees⟩
  | cons e rest ih =>
    rw [List.all_cons, Bool.and_eq_true, Option.isSome_iff_exists] at typed
    obtain ⟨⟨type, typedHead⟩, typedRest⟩ := typed
    obtain ⟨loc, next, code, run, opened, evaluates⟩ : Valued arith slot ids env layouts e type s :=
      value_valued covered typedHead knows
    obtain ⟨last, more, runRest, opened', performs⟩ :=
      @ih { s with emitter := { next with issued := next.issued + 1 } } (knows.emitter opened) typedRest
    refine ⟨last, code ++ .callRoutine (printer type) [loc] none :: more, ?_, opened',
      print_performs typedHead evaluates performs⟩
    have found : ofOption (.unsupportedPrintType type.tag.text) (printer? type.tag)
        { s with emitter := next } = ⟨.ok (printer type), { s with emitter := next }, []⟩ := by
      cases type <;> rfl
    rw [printAll, bind_ok run, bind_ok found, bind_ok (emit_apply _ _)]
    simp [Emitter.issue, runRest]

/-! ## Blocks -/

/-- A declaration adds to the variables that are known. -/
theorem bound_declare {slot : DeclId → Location} {env : Env} {top : List (String × Value)}
    {stack : List (List (String × Value))} (named : (top :: stack).flatten = bound slot env)
    {id : DeclId} {name : String} {type : TypeExpr} {sort : Scalar} {loc : Location}
    (typed : Scalar.ofType? type = some sort) (own : slot id = loc) :
    (((name, ⟨loc, Tag.ofType type⟩) :: top) :: stack).flatten =
      bound slot ((name, ⟨id, sort⟩) :: env) := by
  rw [List.flatten_cons] at named ⊢
  rw [List.cons_append, named, ← own, Scalar.tag_ofType typed]
  rfl

/-- The variables of a block are known inside it. -/
theorem declareLocals_knows {decls : List Decl} {top : List (String × Value)}
    (scalar : decls.all Decl.isScalar = true) (knows : Knows slot env (top :: stack) s)
    (covered : ∀ entry ∈ env, entry.2.id ∈ ids)
    (stored : ∀ entry ∈ storage s.emitter decls, entry.1 ∈ ids ∧ slot entry.1 = entry.2) :
    ∃ next inner, declareLocals decls s = ⟨.ok (), next, []⟩ ∧
      Knows slot (Env.declare env decls) (inner :: stack) next ∧
      (∀ entry ∈ Env.declare env decls, entry.2.id ∈ ids) ∧ next.loops = s.loops := by
  induction decls generalizing env top s with
  | nil => exact ⟨s, top, rfl, knows, covered, rfl⟩
  | cons decl rest ih =>
    rw [List.all_cons, Bool.and_eq_true] at scalar
    cases decl with
    | var id name type =>
      obtain ⟨sort, typed⟩ := Option.isSome_iff_exists.mp scalar.1
      obtain ⟨loc, e₁, taken, opened⟩ : ∃ loc next,
          Emitter.allocate name.name s.emitter = ⟨loc, next, []⟩ ∧ next.inFunction = true := by
        unfold Emitter.allocate
        rw [if_pos knows.opened]
        exact ⟨_, _, rfl, knows.opened⟩
      simp only [storage, taken, List.mem_cons, forall_eq_or_imp] at stored
      obtain ⟨⟨listed, own⟩, stored⟩ := stored
      have declared : Env.declare env (.var id name type :: rest) =
          Env.declare ((name.name, ⟨id, sort⟩) :: env) rest := by simp [Env.declare, typed]
      obtain ⟨next, inner, run, known, covered', loops⟩ := ih
        (s := { s with
          emitter := e₁
          bindings := s.bindings.declare name.name ⟨loc, Tag.ofType type⟩ }) scalar.2
        ⟨opened, knows.models.declare _ _, bound_declare knows.named typed own⟩
        (by simpa [listed] using covered) stored
      refine ⟨next, inner, ?_, declared ▸ known, declared ▸ covered', loops⟩
      have allocated : emit (Emitter.allocate name.name) s = ⟨.ok loc, { s with emitter := e₁ }, []⟩ := by
        rw [emit_apply, taken]
      rw [declareLocals, bind_ok allocated, bind_ok rfl]
      simp [run]
    | cls | interface | prototype | function => cases scalar.1

/-! ## Lowering of statements -/

/-- A state in which a statement can be lowered: it knows the variables around the statement, those that
will be declared in it are to get the slots that are theirs, and the loop that a `break` would leave is
open. That loop is none of those in the statement, which `nodes` lists. -/
structure Ready (slot : DeclId → Location) (ids : List DeclId) (env : Env)
    (stack : List (List (String × Value))) (inLoop : Bool) (exit? : Option String)
    (around : Option StmtId) (nodes : List Node) (vars : List (DeclId × Location)) (s : LowerState) :
    Prop where
  knows : Knows slot env stack s
  covered : ∀ entry ∈ env, entry.2.id ∈ ids
  stored : ∀ entry ∈ vars, entry.1 ∈ ids ∧ slot entry.1 = entry.2
  target : inLoop = true → ∃ loop label, around = some loop ∧ exit? = some label ∧
    s.loops.exit? loop = some label ∧ Node.stmt loop ∉ nodes

variable (arith whole slot ids) in
/-- A step of lowering succeeds in a state, and its code carries a task out. The variables around it are
known afterwards, and the loops around it are open. -/
def Simulates (env : Env) (stack : List (List (String × Value))) (exit? : Option String) (task : Task)
    (nodes : List Node) (step : Lower Unit) (s : LowerState) : Prop :=
  ∃ next code, step s = ⟨.ok (), next, code⟩ ∧ Knows slot env stack next ∧
    (∀ loop, Node.stmt loop ∉ nodes → next.loops.exit? loop = s.loops.exit? loop) ∧
    Carries arith whole slot ids env exit? task code

section Rules

variable {inLoop : Bool} {exit? : Option String} {around : Option StmtId} {nodes : List Node}
  {vars : List (DeclId × Location)} {site : StmtSite} {test : Expr} {body yes no : Stmt}

/-- A part of a statement can be lowered when what comes before it has been. -/
theorem Ready.part (ready : Ready slot ids env stack inLoop exit? around nodes vars s)
    {s' : LowerState} {nodes' : List Node} {vars' : List (DeclId × Location)}
    (knows : Knows slot env stack s')
    (loops : ∀ loop, Node.stmt loop ∉ nodes → s'.loops.exit? loop = s.loops.exit? loop)
    (fewerNodes : nodes' ⊆ nodes) (fewerVars : vars' ⊆ vars) :
    Ready slot ids env stack inLoop exit? around nodes' vars' s' := by
  refine ⟨knows, ready.covered, fun entry member => ready.stored entry (fewerVars member), ?_⟩
  intro within
  obtain ⟨loop, label, outer, exits, opened, outside⟩ := ready.target within
  exact ⟨loop, label, outer, exits, by rw [loops loop outside, opened],
    fun member => outside (fewerNodes member)⟩

/-- A step that changes only the emitter. -/
theorem Acts.simulates {act : Cells → List Datum → Cells → Prop} {task : Task} {step : Lower Unit}
    (acts : Acts arith slot ids act step s) (knows : Knows slot env stack s)
    (carries : ∀ code, Performs arith slot ids act code →
      Carries arith whole slot ids env exit? task code) :
    Simulates arith whole slot ids env stack exit? task nodes step s := by
  obtain ⟨next, code, run, opened, performs⟩ := acts
  exact ⟨_, code, run, knows.emitter opened, fun _ _ => rfl, carries code performs⟩

private theorem after_run {α β : Type} {step : Lower α} {rest : α → LowerState → List β}
    {s next : LowerState} {a : α} {code : List Instruction} (run : step s = ⟨.ok a, next, code⟩) :
    after step rest s = rest a next := by
  rw [after_ok (a := a) (by rw [run]), run]

/-- A label is taken. -/
private theorem freshLabel_run (s : LowerState) (opened : s.emitter.inFunction = true) :
    ∃ label next, emit Emitter.freshLabel s = ⟨.ok label, { s with emitter := next }, []⟩ ∧
      next.inFunction = true :=
  ⟨_, _, rfl, opened⟩

/-- An instruction is issued. -/
private theorem issue_run (i : Instruction) (s : LowerState) (opened : s.emitter.inFunction = true) :
    ∃ next, emit (Emitter.issue i) s = ⟨.ok (), { s with emitter := next }, [i]⟩ ∧
      next.inFunction = true :=
  ⟨_, rfl, opened⟩

variable {arena : Arena}

variable (arith whole slot ids arena layouts) in
/-- A statement is lowered to code that carries it out, in every state that is ready for it. -/
def Lowered (env : Env) (inLoop : Bool) (exit? : Option String) (around : Option StmtId) (s : Stmt) :
    Prop :=
  ∀ stack state, Ready slot ids env stack inLoop exit? around (Decl.nodesIn s)
      (locals arena layouts s state) state →
    Simulates arith whole slot ids env stack exit? (.stmt s) (Decl.nodesIn s) (stmt arena layouts s) state

variable (arith whole slot ids arena layouts) in
/-- So are some statements in a row. -/
def LoweredAll (env : Env) (inLoop : Bool) (exit? : Option String) (around : Option StmtId)
    (body : List Stmt) : Prop :=
  ∀ stack state, Ready slot ids env stack inLoop exit? around (Decl.nodesInAll body)
      (localsAll arena layouts body state) state →
    Simulates arith whole slot ids env stack exit? (.all body) (Decl.nodesInAll body)
      (stmts arena layouts body) state

theorem ifThen_lowered (apart : Apart whole slot ids) (typed : test.scalar? env = some .bool)
    (lowered : Lowered arith whole slot ids layouts arena env inLoop exit? around body) :
    Lowered arith whole slot ids layouts arena env inLoop exit? around (.ifThen site test body) := by
  intro stack s ready
  have inside : Decl.nodesIn body ⊆ Decl.nodesIn (.ifThen site test body) :=
    Decl.nodesIn_part (by simp [Stmt.children])
  obtain ⟨loc, e₁, code₁, run₁, opened₁, evaluates⟩ : Valued arith slot ids env layouts test .bool s :=
    value_valued ready.covered typed ready.knows
  obtain ⟨skip, e₂, run₂, opened₂⟩ := freshLabel_run { s with emitter := e₁ } opened₁
  obtain ⟨e₃, run₃, opened₃⟩ := issue_run (.jumpIfZero loc skip) { s with emitter := e₂ } opened₂
  rw [locals, after_run run₁, after_run run₂, Emitter.jumpIfZero, after_run run₃] at ready
  obtain ⟨s₄, code₄, run₄, knows₄, loops₄, carries⟩ := lowered stack { s with emitter := e₃ }
    (ready.part (ready.knows.emitter opened₃) (fun _ _ => rfl) inside (List.Subset.refl _))
  obtain ⟨e₅, run₅, opened₅⟩ := issue_run (.label skip) s₄ knows₄.opened
  refine ⟨{ s₄ with emitter := e₅ }, code₁ ++ .jumpIfZero loc skip :: (code₄ ++ [.label skip]), ?_,
    knows₄.emitter opened₅, fun loop outside => loops₄ loop fun member => outside (inside member),
    .ifThen apart evaluates carries⟩
  rw [stmt, bind_ok run₁, bind_ok run₂, Emitter.jumpIfZero, bind_ok run₃, bind_ok run₄, Emitter.label,
    run₅]
  simp

theorem ifElse_lowered (apart : Apart whole slot ids) (typed : test.scalar? env = some .bool)
    (first : Lowered arith whole slot ids layouts arena env inLoop exit? around yes)
    (second : Lowered arith whole slot ids layouts arena env inLoop exit? around no) :
    Lowered arith whole slot ids layouts arena env inLoop exit? around (.ifElse site test yes no) := by
  intro stack s ready
  have insideYes : Decl.nodesIn yes ⊆ Decl.nodesIn (.ifElse site test yes no) :=
    Decl.nodesIn_part (by simp [Stmt.children])
  have insideNo : Decl.nodesIn no ⊆ Decl.nodesIn (.ifElse site test yes no) :=
    Decl.nodesIn_part (by simp [Stmt.children])
  obtain ⟨loc, e₁, code₁, run₁, opened₁, evaluates⟩ : Valued arith slot ids env layouts test .bool s :=
    value_valued ready.covered typed ready.knows
  obtain ⟨other, e₂, run₂, opened₂⟩ := freshLabel_run { s with emitter := e₁ } opened₁
  obtain ⟨e₃, run₃, opened₃⟩ := issue_run (.jumpIfZero loc other) { s with emitter := e₂ } opened₂
  rw [locals, after_run run₁, after_run run₂, Emitter.jumpIfZero, after_run run₃] at ready
  obtain ⟨s₄, code₄, run₄, knows₄, loops₄, carriesYes⟩ := first stack { s with emitter := e₃ }
    (ready.part (ready.knows.emitter opened₃) (fun _ _ => rfl) insideYes (List.subset_append_left ..))
  obtain ⟨done, e₅, run₅, opened₅⟩ := freshLabel_run s₄ knows₄.opened
  obtain ⟨e₆, run₆, opened₆⟩ := issue_run (.jump done) { s₄ with emitter := e₅ } opened₅
  obtain ⟨e₇, run₇, opened₇⟩ := issue_run (.label other) { s₄ with emitter := e₆ } opened₆
  rw [after_run run₄, after_run run₅, Emitter.jump, after_run run₆, Emitter.label, after_run run₇] at ready
  have kept : ∀ loop, Node.stmt loop ∉ Decl.nodesIn (.ifElse site test yes no) →
      s₄.loops.exit? loop = s.loops.exit? loop :=
    fun loop outside => loops₄ loop fun member => outside (insideYes member)
  obtain ⟨s₈, code₈, run₈, knows₈, loops₈, carriesNo⟩ := second stack { s₄ with emitter := e₇ }
    (ready.part (knows₄.emitter opened₇) kept insideNo (List.subset_append_right ..))
  obtain ⟨e₉, run₉, opened₉⟩ := issue_run (.label done) s₈ knows₈.opened
  refine ⟨{ s₈ with emitter := e₉ },
    code₁ ++ .jumpIfZero loc other ::
      (code₄ ++ .jump done :: .label other :: (code₈ ++ [.label done])), ?_,
    knows₈.emitter opened₉, ?_, .ifElse apart evaluates carriesYes carriesNo⟩
  · rw [stmt, bind_ok run₁, bind_ok run₂, Emitter.jumpIfZero, bind_ok run₃, bind_ok run₄, bind_ok run₅,
      Emitter.jump, bind_ok run₆, Emitter.label, bind_ok run₇, bind_ok run₈, Emitter.label, run₉]
    simp
  · intro loop outside
    rw [← kept loop outside]
    exact loops₈ loop fun member => outside (insideNo member)

theorem nil_lowered : LoweredAll arith whole slot ids layouts arena env inLoop exit? around [] := by
  intro stack s ready
  exact ⟨s, [], rfl, ready.knows, fun _ _ => rfl, .nil⟩

theorem cons_lowered {first : Stmt} {rest : List Stmt}
    (lowered : Lowered arith whole slot ids layouts arena env inLoop exit? around first)
    (later : LoweredAll arith whole slot ids layouts arena env inLoop exit? around rest) :
    LoweredAll arith whole slot ids layouts arena env inLoop exit? around (first :: rest) := by
  intro stack s ready
  simp only [localsAll] at ready
  obtain ⟨s₁, code₁, run₁, knows₁, loops₁, carries₁⟩ := lowered stack s
    (ready.part ready.knows (fun _ _ => rfl) (List.subset_append_left ..) (List.subset_append_left ..))
  rw [after_run run₁] at ready
  have kept : ∀ loop, Node.stmt loop ∉ Decl.nodesInAll (first :: rest) →
      s₁.loops.exit? loop = s.loops.exit? loop :=
    fun loop outside => loops₁ loop fun member => outside (List.mem_append_left _ member)
  obtain ⟨s₂, code₂, run₂, knows₂, loops₂, carries₂⟩ := later stack s₁
    (ready.part knows₁ kept (List.subset_append_right ..) (List.subset_append_right ..))
  refine ⟨s₂, code₁ ++ code₂, ?_, knows₂, ?_, .cons carries₁ carries₂⟩
  · rw [stmts, bind_ok run₁, run₂]
  · intro loop outside
    rw [← kept loop outside]
    exact loops₂ loop fun member => outside (List.mem_append_right _ member)

theorem block_lowered {decls : List Decl} {stmts : List Stmt}
    (scalar : decls.all Decl.isScalar = true)
    (lowered : LoweredAll arith whole slot ids layouts arena (Env.declare env decls) inLoop exit? around
      stmts) :
    Lowered arith whole slot ids layouts arena env inLoop exit? around (.block site decls stmts) := by
  intro stack s ready
  have inside : Decl.nodesInAll stmts ⊆ Decl.nodesIn (.block site decls stmts) := by
    intro n member
    exact List.mem_cons_of_mem _ (List.mem_append_right _ member)
  have entered : Knows slot env ([] :: stack) { s with bindings := s.bindings.enter } :=
    ⟨ready.knows.opened, ready.knows.models.enter, ready.knows.named⟩
  rw [locals, after_run rfl] at ready
  obtain ⟨s₁, inner, run₁, knows₁, covered₁, loops₁⟩ := declareLocals_knows scalar entered ready.covered
    fun entry member => ready.stored entry (List.mem_append_left _ member)
  rw [after_run run₁] at ready
  have within : Ready slot ids (Env.declare env decls) (inner :: stack) inLoop exit? around
      (Decl.nodesInAll stmts) (localsAll arena layouts stmts s₁) s₁ := by
    refine ⟨knows₁, covered₁, fun entry member => ready.stored entry (List.mem_append_right _ member), ?_⟩
    intro within
    obtain ⟨loop, label, outer, exits, opened, outside⟩ := ready.target within
    exact ⟨loop, label, outer, exits, by rw [loops₁]; exact opened, fun member => outside (inside member)⟩
  obtain ⟨s₂, code₂, run₂, knows₂, loops₂, carries⟩ := lowered _ s₁ within
  have left := knows₂.models.leave
  have nested : stack ≠ [] := by
    rintro rfl
    simpa using ready.knows.models.depth
  rw [if_neg nested] at left
  refine ⟨{ s₂ with bindings := s₂.bindings.leave }, code₂, ?_,
    ⟨knows₂.opened, left, ready.knows.named⟩, ?_, .block carries⟩
  · have run : (declareLocals decls >>= fun _ => Lower.stmts arena layouts stmts)
        { s with bindings := s.bindings.enter } = ⟨.ok (), s₂, code₂⟩ := by
      rw [bind_ok run₁, run₂]
      rfl
    rw [stmt, inBlock, bind_ok rfl]
    simp [ensuring, run, Emission.modify]
  · intro loop outside
    rw [show s₂.loops.exit? loop = s₁.loops.exit? loop from
      loops₂ loop fun member => outside (inside member), loops₁]

/-- A loop is lowered when its test, its body and its step are. -/
theorem loop_simulates (apart : Apart whole slot ids) (step : Option Expr)
    (ready : Ready slot ids env stack inLoop exit? around nodes
      (loopLocals site.id (value layouts test) (locals arena layouts body) s) s)
    (typed : test.scalar? env = some .bool) (assigns : step.all (Expr.isUpdate env) = true)
    (inside : Decl.nodesIn body ⊆ nodes) (here : Node.stmt site.id ∈ nodes)
    (single : Node.stmt site.id ∉ Decl.nodesIn body)
    (lowered : ∀ exit, Lowered arith whole slot ids layouts arena env true (some exit) (some site.id)
      body) :
    Simulates arith whole slot ids env stack exit? (.loop test step body) nodes
      (loop site.id (value layouts test) (stmt arena layouts body) (optionalEffect layouts step)) s := by
  obtain ⟨top, e₁, run₁, opened₁⟩ := freshLabel_run s ready.knows.opened
  obtain ⟨exit, e₂, run₂, opened₂⟩ := freshLabel_run { s with emitter := e₁ } opened₁
  obtain ⟨e₃, run₃, opened₃⟩ := issue_run (.label top) { s with emitter := e₂ } opened₂
  obtain ⟨loc, e₄, code₄, run₄, opened₄, evaluates⟩ :
      Valued arith slot ids env layouts test .bool { s with emitter := e₃ } :=
    value_valued ready.covered typed (ready.knows.emitter opened₃)
  obtain ⟨e₅, run₅, opened₅⟩ := issue_run (.jumpIfZero loc exit) { s with emitter := e₄ } opened₄
  rw [loopLocals, after_run run₁, after_run run₂, Emitter.label, after_run run₃, after_run run₄,
    Emitter.jumpIfZero, after_run run₅, after_run rfl] at ready
  have within : Ready slot ids env stack true (some exit) (some site.id) (Decl.nodesIn body)
      (locals arena layouts body
        { s with emitter := e₅, loops := s.loops.enter site.id exit })
      { s with emitter := e₅, loops := s.loops.enter site.id exit } := by
    refine ⟨⟨opened₅, ready.knows.models, ready.knows.named⟩, ready.covered, ready.stored, fun _ => ?_⟩
    exact ⟨site.id, exit, rfl, rfl, by rw [exit?_enter, if_pos rfl], single⟩
  obtain ⟨s₆, code₆, run₆, knows₆, loops₆, carries⟩ := lowered exit _ _ within
  have left : Knows slot env stack { s₆ with loops := s₆.loops.leave site.id } :=
    ⟨knows₆.opened, knows₆.models, knows₆.named⟩
  obtain ⟨e₇, code₇, run₇, opened₇, steps⟩ :
      Acts arith slot ids (Assigns arith env step) (optionalEffect layouts step) _ :=
    optionalEffect_acts apart ready.covered left assigns
  obtain ⟨e₈, run₈, opened₈⟩ := issue_run (.jump top)
    { s₆ with emitter := e₇, loops := s₆.loops.leave site.id } opened₇
  obtain ⟨e₉, run₉, opened₉⟩ := issue_run (.label exit)
    { s₆ with emitter := e₈, loops := s₆.loops.leave site.id } opened₈
  have run : Lower.inLoop site.id exit (stmt arena layouts body) { s with emitter := e₅ } =
      ⟨.ok (), { s₆ with loops := s₆.loops.leave site.id }, code₆⟩ := by
    rw [Lower.inLoop, bind_ok rfl]
    simp [ensuring, run₆, Emission.modify]
  refine ⟨{ s₆ with emitter := e₉, loops := s₆.loops.leave site.id },
    .label top :: (code₄ ++ .jumpIfZero loc exit :: (code₆ ++ (code₇ ++ [.jump top, .label exit]))),
    ?_, ⟨opened₉, knows₆.models, knows₆.named⟩, ?_, .loop apart evaluates carries steps⟩
  · rw [loop, bind_ok run₁, bind_ok run₂, Emitter.label, bind_ok run₃, bind_ok run₄, Emitter.jumpIfZero,
      bind_ok run₅, bind_ok run, bind_ok run₇, Emitter.jump, bind_ok run₈, Emitter.label, run₉]
    simp
  · intro other outside
    have differs : other ≠ site.id := by
      rintro rfl
      exact outside here
    rw [exit?_leave _ differs, loops₆ other fun member => outside (inside member), exit?_enter,
      if_neg differs]

theorem whileLoop_lowered (apart : Apart whole slot ids) (typed : test.scalar? env = some .bool)
    (single : Node.stmt site.id ∉ Decl.nodesIn body)
    (lowered : ∀ exit, Lowered arith whole slot ids layouts arena env true (some exit) (some site.id)
      body) :
    Lowered arith whole slot ids layouts arena env inLoop exit? around (.whileLoop site test body) := by
  intro stack s ready
  rw [locals] at ready
  obtain ⟨next, code, run, knows, loops, carries⟩ := loop_simulates apart none ready typed rfl
    (Decl.nodesIn_part (by simp [Stmt.children])) List.mem_cons_self single lowered
  exact ⟨next, code, by rw [stmt]; exact run, knows, loops, .whileLoop carries⟩

theorem forLoop_lowered (apart : Apart whole slot ids) {init step : Option Expr}
    (starts : init.all (Expr.isUpdate env) = true) (typed : test.scalar? env = some .bool)
    (steps : step.all (Expr.isUpdate env) = true) (single : Node.stmt site.id ∉ Decl.nodesIn body)
    (lowered : ∀ exit, Lowered arith whole slot ids layouts arena env true (some exit) (some site.id)
      body) :
    Lowered arith whole slot ids layouts arena env inLoop exit? around
      (.forLoop site init test step body) := by
  intro stack s ready
  obtain ⟨e₁, code₁, run₁, opened₁, performs⟩ :
      Acts arith slot ids (Assigns arith env init) (optionalEffect layouts init) s :=
    optionalEffect_acts apart ready.covered ready.knows starts
  rw [locals, after_run run₁] at ready
  obtain ⟨next, code, run, knows, loops, carries⟩ := loop_simulates apart step
    (ready.part (ready.knows.emitter opened₁) (fun _ _ => rfl) (List.Subset.refl _) (List.Subset.refl _))
    typed steps (Decl.nodesIn_part (by simp [Stmt.children])) List.mem_cons_self single lowered
  exact ⟨next, code₁ ++ code, by rw [stmt, bind_ok run₁, run], knows, loops,
    .forLoop apart performs carries⟩

theorem ret_lowered (apart : Apart whole slot ids) {value : Option Expr}
    (typed : value.all (fun e => (e.scalar? env).isSome) = true) :
    Lowered arith whole slot ids layouts arena env inLoop exit? around (.ret site value) := by
  intro stack s ready
  cases value with
  | none => exact ⟨_, _, rfl, ready.knows.emitter ready.knows.opened, fun _ _ => rfl, .retNone⟩
  | some e =>
    obtain ⟨type, typed⟩ := Option.isSome_iff_exists.mp typed
    obtain ⟨loc, e₁, code₁, run₁, opened₁, evaluates⟩ : Valued arith slot ids env layouts e type s :=
      value_valued ready.covered typed ready.knows
    obtain ⟨e₂, run₂, opened₂⟩ := issue_run (.ret (some loc)) { s with emitter := e₁ } opened₁
    exact ⟨_, _, by rw [stmt, bind_ok run₁, Emitter.ret, run₂], ready.knows.emitter opened₂,
      fun _ _ => rfl, .ret apart evaluates⟩

theorem leave_lowered (breaks : inLoop = true)
    (found : arena.enclosingLoop (.stmt site.id) = around) :
    Lowered arith whole slot ids layouts arena env inLoop exit? around (.leave site) := by
  intro stack s ready
  obtain ⟨loop, label, rfl, rfl, opened, -⟩ := ready.target breaks
  obtain ⟨e₁, run₁, opened₁⟩ := issue_run (.jump label) s ready.knows.opened
  refine ⟨_, [.jump label], ?_, ready.knows.emitter opened₁, fun _ _ => rfl, .leave⟩
  have target : ofOption .breakOutsideLoop ((some loop).bind s.loops.exit?) s = ⟨.ok label, s, []⟩ := by
    simp [opened, ofOption]
  rw [stmt, bind_ok rfl, found, bind_ok target, Emitter.jump, run₁]
  rfl

end Rules

/-! ## Whole bodies -/

section Bodies

variable {arena : Arena}

/-- A part of a stored statement is stored, and the nearest loop around it is known. -/
private theorem part_stored (coherent : arena.Coherent) {s : Stmt} (part : Stmt)
    (stored : arena.stmt? s.id = some s)
    (inside : .stmt part ∈ s.children) :
    arena.stmt? part.id = some part ∧ arena.enclosingLoop (.stmt part.id) =
      if s.isLoop then some s.id else arena.enclosingLoop (.stmt s.id) := by
  have found : arena.tree? (.stmt s.id) = some (.stmt s) := by simp [Arena.tree?, stored]
  have kept := coherent.closed _ _ found _ inside
  refine ⟨?_, coherent.enclosingLoop_part stored inside⟩
  simpa [Arena.tree?, Tree.node] using kept

/-- A statement is not a part of itself. -/
private theorem body_single (coherent : arena.Coherent) {s part : Stmt} (stored : arena.stmt? s.id = some s)
    (inside : .stmt part ∈ s.children) : Node.stmt s.id ∉ Decl.nodesIn part := by
  have found : arena.tree? (.stmt s.id) = some (.stmt s) := by simp [Arena.tree?, stored]
  have single := coherent.single _ _ found
  rw [Tree.nodes_eq, List.nodup_cons] at single
  exact fun member => single.1 (List.mem_flatMap.mpr ⟨_, inside, member⟩)

mutual

/-- Every stored statement over numbers and truth values is lowered to code that carries it out. -/
theorem stmt_lowered (coherent : arena.Coherent) (apart : Apart whole slot ids) :
    ∀ (s : Stmt) {env : Env} {inLoop : Bool} {exit? : Option String} {around : Option StmtId},
      arena.stmt? s.id = some s → arena.enclosingLoop (.stmt s.id) = around →
      s.isScalar env inLoop = true →
      Lowered arith whole slot ids layouts arena env inLoop exit? around s
  | .block site decls body, _, _, _, _, stored, found, scalar => by
    rw [Stmt.isScalar, Bool.and_eq_true] at scalar
    have part (s : Stmt) (member : s ∈ body) := part_stored coherent s stored (by
      simp [Stmt.children, member])
    exact block_lowered scalar.1 (stmts_lowered coherent apart body (fun s member => (part s member).1)
      (fun s member => (part s member).2.trans found) scalar.2)
  | .ifThen site test body, _, _, _, _, stored, found, scalar => by
    simp only [Stmt.isScalar, Bool.and_eq_true, beq_iff_eq] at scalar
    have part := part_stored coherent body stored (by simp [Stmt.children])
    exact ifThen_lowered apart scalar.1
      (stmt_lowered coherent apart body part.1 (part.2.trans found) scalar.2)
  | .ifElse site test yes no, _, _, _, _, stored, found, scalar => by
    simp only [Stmt.isScalar, Bool.and_eq_true, beq_iff_eq] at scalar
    have first := part_stored coherent yes stored (by simp [Stmt.children])
    have second := part_stored coherent no stored (by simp [Stmt.children])
    exact ifElse_lowered apart scalar.1.1
      (stmt_lowered coherent apart yes first.1 (first.2.trans found) scalar.1.2)
      (stmt_lowered coherent apart no second.1 (second.2.trans found) scalar.2)
  | .whileLoop site test body, _, _, _, _, stored, found, scalar => by
    simp only [Stmt.isScalar, Bool.and_eq_true, beq_iff_eq] at scalar
    have part := part_stored coherent body stored (by simp [Stmt.children])
    exact whileLoop_lowered apart scalar.1 (body_single coherent stored (by simp [Stmt.children]))
      fun exit => stmt_lowered coherent apart body part.1 part.2 scalar.2
  | .forLoop site init test step body, _, _, _, _, stored, found, scalar => by
    simp only [Stmt.isScalar, Bool.and_eq_true, beq_iff_eq] at scalar
    have part := part_stored coherent body stored (by simp [Stmt.children])
    exact forLoop_lowered apart scalar.1.1.1 scalar.1.1.2 scalar.1.2
      (body_single coherent stored (by simp [Stmt.children]))
      fun exit => stmt_lowered coherent apart body part.1 part.2 scalar.2
  | .ret site value, _, _, _, _, _, _, scalar => ret_lowered apart scalar
  | .print site args, _, _, _, _, _, _, scalar => fun stack s ready =>
    (printAll_acts ready.covered ready.knows scalar).simulates ready.knows fun _ => .print apart
  | .leave site, _, _, _, _, _, found, scalar => leave_lowered scalar found
  | .expr site e, _, _, _, _, _, _, scalar => fun stack s ready =>
    (effect_acts apart ready.covered ready.knows scalar).simulates ready.knows fun _ => .expr apart
  | .knot id, _, _, _, _, _, _, scalar => by cases scalar

theorem stmts_lowered (coherent : arena.Coherent) (apart : Apart whole slot ids) :
    ∀ (body : List Stmt) {env : Env} {inLoop : Bool} {exit? : Option String} {around : Option StmtId},
      (∀ s ∈ body, arena.stmt? s.id = some s) →
      (∀ s ∈ body, arena.enclosingLoop (.stmt s.id) = around) →
      Stmt.areScalar env inLoop body = true →
      LoweredAll arith whole slot ids layouts arena env inLoop exit? around body
  | [], _, _, _, _, _, _, _ => nil_lowered
  | s :: rest, _, _, _, _, stored, found, scalar => by
    rw [Stmt.areScalar, Bool.and_eq_true] at scalar
    rw [List.forall_mem_cons] at stored found
    exact cons_lowered (stmt_lowered coherent apart s stored.1 found.1 scalar.1)
      (stmts_lowered coherent apart rest stored.2 found.2 scalar.2)

end

end Bodies


end DecafTac.Lower
