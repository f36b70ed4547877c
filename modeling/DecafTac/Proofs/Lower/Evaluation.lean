import DecafTac.Lower.Expression
import DecafTac.Proofs.Lower.Scoping
import DecafTac.Proofs.Source.Semantics

/-!
Evaluation of typed expressions by their code. The code of an expression runs straight through, leaves
the word of its value at the location that lowering names, and writes nothing but its own temporaries;
so it does not matter to the variables, nor to a value that was computed before.
-/
namespace DecafTac

/-! ## The store -/

namespace Store

variable {m : Store} {loc other : Location} {word : Word} {n : Int}

@[simp] theorem read_write_self (m : Store) (loc : Location) (word : Word) :
    (m.write loc word).read loc = some word := by
  simp [read, write]

theorem read_write_other (apart : other.position ≠ loc.position) :
    (m.write loc word).read other = m.read other := by
  simp [read, write, apart]

theorem int?_eq_some (there : m.read loc = some (.int n)) : m.int? loc = some n := by
  simp [int?, there]

end Store

namespace Machine

variable {arith : Arithmetic} {first second : List Instruction} {m : Store}

theorem effects_append (first second : List Instruction) (m : Store) :
    effects arith (first ++ second) m =
      (effects arith first m).bind fun one =>
        (effects arith second one.1).map fun two => (two.1, one.2 ++ two.2) := by
  induction first generalizing m with
  | nil => simp [effects]
  | cons i rest ih =>
    cases acts : effect arith m i with
    | none => simp [effects, acts]
    | some one =>
      simp only [List.cons_append, effects, acts, Option.bind_some, ih]
      cases effects arith rest one.1 <;> simp [Function.comp_def]

/-! ## Code that leaves a word -/

/-- The positions of the temporaries that some code writes. -/
def scratch (code : List Instruction) : List Int := (temporaries code).map Location.position

@[simp] theorem scratch_append (first second : List Instruction) :
    scratch (first ++ second) = scratch first ++ scratch second := by
  simp [scratch, temporaries_append]

/-- Code runs straight through, prints nothing and writes nothing but its temporaries. -/
def Scratches (arith : Arithmetic) (code : List Instruction) (m m' : Store) : Prop :=
  effects arith code m = some (m', []) ∧
    ∀ other : Location, other.position ∉ scratch code → m'.read other = m.read other

/-- Such code leaves a word at a location. -/
def Leaves (arith : Arithmetic) (code : List Instruction) (m : Store) (loc : Location) (word : Word) :
    Prop :=
  ∃ m' : Store, Scratches arith code m m' ∧ m'.read loc = some word

theorem Scratches.trans {m m₁ m₂ : Store} (one : Scratches arith first m m₁)
    (two : Scratches arith second m₁ m₂) : Scratches arith (first ++ second) m m₂ := by
  refine ⟨by simp [effects_append, one.1, two.1], ?_⟩
  intro other apart
  rw [scratch_append, List.mem_append, not_or] at apart
  rw [two.2 other apart.2, one.2 other apart.1]

/-- A word that is there already needs no code. -/
theorem Leaves.nothing {loc : Location} {word : Word} (there : m.read loc = some word) :
    Leaves arith [] m loc word :=
  ⟨m, ⟨rfl, fun _ _ => rfl⟩, there⟩

/-- One instruction that writes a temporary. -/
theorem Leaves.one {i : Instruction} {dst : Location} {word : Word}
    (writes : i.temporary? = some dst) (acts : effect arith m i = some (m.write dst word, [])) :
    Leaves arith [i] m dst word := by
  refine ⟨m.write dst word, ⟨by simp [effects, acts], ?_⟩, by simp⟩
  intro other apart
  refine Store.read_write_other ?_
  simpa [scratch, temporaries, writes] using apart

/-- Code after code, which finds the first word and everything that is not temporary to it. -/
theorem Leaves.andThen {a b : Location} {word result : Word} (one : Leaves arith first m a word)
    (two : ∀ m' : Store, m'.read a = some word →
      (∀ other : Location, other.position ∉ scratch first → m'.read other = m.read other) →
      Leaves arith second m' b result) : Leaves arith (first ++ second) m b result := by
  obtain ⟨m₁, runs₁, there₁⟩ := one
  obtain ⟨m₂, runs₂, there₂⟩ := two m₁ there₁ runs₁.2
  exact ⟨m₂, runs₁.trans runs₂, there₂⟩

/-- The result of an operator of the machine. -/
theorem Leaves.binary {op : TacOp} {dst left right : Location} {a b n : Int}
    (leftThere : m.read left = some (.int a)) (rightThere : m.read right = some (.int b))
    (found : op.eval arith a b = some n) :
    Leaves arith [.binary op dst left right] m dst (.int n) := by
  refine .one rfl ?_
  simp [effect, Store.int?_eq_some leftThere, Store.int?_eq_some rightThere, found]

theorem Leaves.constant {dst : Location} {n : Int} :
    Leaves arith [.loadConstant dst (.int n)] m dst (.int n) :=
  .one rfl rfl

end Machine

namespace Emitter

variable {e : Emitter}

private theorem temp_issues (opened : e.inFunction = true) :
    ∃ dst next, temp e = ⟨dst, next, []⟩ ∧ next.inFunction = true :=
  ⟨_, _, temp_apply opened, opened⟩

theorem binary_issues (opened : e.inFunction = true) (op : TacOp) (left right : Location) :
    ∃ dst next, binary op left right e = ⟨dst, next, [.binary op dst left right]⟩ ∧
      next.inFunction = true := by
  obtain ⟨dst, next, taken, opened'⟩ := temp_issues opened
  exact ⟨dst, { next with issued := next.issued + 1 }, by simp [binary, taken, issue], opened'⟩

theorem loadConstant_issues (opened : e.inFunction = true) (value : Constant) :
    ∃ dst next, loadConstant value e = ⟨dst, next, [.loadConstant dst value]⟩ ∧
      next.inFunction = true := by
  obtain ⟨dst, next, taken, opened'⟩ := temp_issues opened
  exact ⟨dst, { next with issued := next.issued + 1 }, by simp [loadConstant, taken, issue], opened'⟩

end Emitter

namespace Lower

open Machine

/-! ## Operators -/

/-- A step of the emitter gives a value of a type: from the operands it computes the datum that belongs
to the contents of the store. -/
structure Operates (arith : Arithmetic) (operands : List Location) (gives : Store → Datum → Prop)
    (type : Scalar) (done : Emitted Emitter Value) : Prop where
  tag : done.value.tag = type.tag
  opened : done.state.inFunction = true
  temporary : done.value.loc.position ∈ scratch done.code
  leaves : ∀ m d, gives m d → (scratch done.code).Nodup →
    (∀ loc ∈ operands, loc.position ∉ scratch done.code) →
    Leaves arith done.code m done.value.loc d.word

/-- Adding one modulo two inverts a truth value. -/
private theorem inverts (arith : Arithmetic) (b : Bool) :
    TacOp.eval arith .add (truth b) 1 = some (truth b + 1) ∧
      TacOp.eval arith .mod (truth b + 1) 2 = some (truth !b) := by
  have fits := arith.small
  cases b with
  | false => simp [TacOp.eval, truth, Arithmetic.remainder, Arithmetic.quotient, fits]
  | true => simp [TacOp.eval, truth, Arithmetic.remainder, Arithmetic.quotient, fits]

section Operators

variable {arith : Arithmetic} {e : Emitter} {operands : List Location} {gives : Store → Datum → Prop}
  {type : Scalar} (opened : e.inFunction = true)
include opened

/-- An operator that the machine has. -/
private theorem single_operates (op : TacOp) {left right : Location}
    (answers : ∀ m d, gives m d → ∃ x y n, m.read left = some (.int x) ∧ m.read right = some (.int y) ∧
      op.eval arith x y = some n ∧ d.word = .int n) :
    Operates arith operands gives type
      ((do return ⟨← Emitter.binary op left right, type.tag⟩ : Emit Value) e) := by
  obtain ⟨dst, next, issued, opened'⟩ := Emitter.binary_issues opened op left right
  simp only [Emission.bind_apply, issued, Emission.pure_apply, List.append_nil]
  refine ⟨rfl, opened', by simp [scratch, temporaries, Instruction.temporary?], ?_⟩
  intro m d given _ _
  obtain ⟨x, y, n, leftThere, rightThere, found, word⟩ := answers m d given
  rw [word]
  exact .binary leftThere rightThere found

/-- An operator that is made of two comparisons. -/
private theorem either_operates (op₁ op₂ : TacOp) {l₁ r₁ l₂ r₂ : Location}
    (leftAmong : l₂ ∈ operands) (rightAmong : r₂ ∈ operands)
    (answers : ∀ m d, gives m d → ∃ x₁ y₁ x₂ y₂, ∃ p q : Bool,
      m.read l₁ = some (.int x₁) ∧ m.read r₁ = some (.int y₁) ∧
      m.read l₂ = some (.int x₂) ∧ m.read r₂ = some (.int y₂) ∧
      op₁.eval arith x₁ y₁ = some (truth p) ∧ op₂.eval arith x₂ y₂ = some (truth q) ∧
      d.word = .int (truth (p || q))) :
    Operates arith operands gives type
      ((do return ⟨← either (Emitter.binary op₁ l₁ r₁) (Emitter.binary op₂ l₂ r₂), type.tag⟩ :
        Emit Value) e) := by
  obtain ⟨t₁, e₁, issued₁, opened₁⟩ := Emitter.binary_issues opened op₁ l₁ r₁
  obtain ⟨t₂, e₂, issued₂, opened₂⟩ := Emitter.binary_issues opened₁ op₂ l₂ r₂
  obtain ⟨t₃, e₃, issued₃, opened₃⟩ := Emitter.binary_issues opened₂ .or t₁ t₂
  simp only [either, Emission.bind_apply, issued₁, issued₂, issued₃, Emission.pure_apply,
    List.append_nil]
  refine ⟨rfl, opened₃, by simp [scratch, temporaries, Instruction.temporary?], ?_⟩
  intro m d given distinct apart
  obtain ⟨x₁, y₁, x₂, y₂, p, q, left₁, right₁, left₂, right₂, found₁, found₂, word⟩ := answers m d given
  simp only [scratch_append, List.nodup_append, List.mem_append, not_or] at distinct apart
  rw [word]
  refine (Leaves.binary left₁ right₁ found₁).andThen fun m₁ there₁ same₁ => ?_
  have left₂ : m₁.read l₂ = some (.int x₂) := by rw [same₁ l₂ (apart l₂ leftAmong).1, left₂]
  have right₂ : m₁.read r₂ = some (.int y₂) := by rw [same₁ r₂ (apart r₂ rightAmong).1, right₂]
  refine (Leaves.binary left₂ right₂ found₂).andThen fun m₂ there₂ same₂ => ?_
  have kept : t₁.position ∉ scratch [.binary op₂ t₂ l₂ r₂] := fun member =>
    distinct.2.2 t₁.position (by simp [scratch, temporaries, Instruction.temporary?]) _ (.inl member) rfl
  refine .binary (by rw [same₂ t₁ kept, there₁]) there₂ ?_
  cases p <;> cases q <;> rfl

/-- A binary operator computes its result from its operands. -/
theorem binary_operates (left right : Location) {op : BinaryOp} {a b : Scalar}
    (typed : op.type? a b = some type) :
    Operates arith [left, right]
      (fun m d => ∃ x y, x.type = a ∧ y.type = b ∧ m.read left = some x.word ∧
        m.read right = some y.word ∧ op.eval arith x y = some d)
      type (binary op ⟨left, a.tag⟩ ⟨right, b.tag⟩ e) := by
  cases op <;> cases a <;> cases b <;> cases typed
  case add.int.int.refl | sub.int.int.refl | mul.int.int.refl | div.int.int.refl | mod.int.int.refl =>
    refine single_operates opened _ ?_
    rintro m d ⟨x, y, tx, ty, leftThere, rightThere, found⟩
    obtain ⟨⟨p, rfl⟩, ⟨q, rfl⟩⟩ := And.intro (Datum.eq_int tx) (Datum.eq_int ty)
    obtain ⟨n, fit, rfl⟩ := Option.map_eq_some_iff.mp found
    exact ⟨p, q, n, leftThere, rightThere, fit, rfl⟩
  case lt.int.int.refl | eq.int.int.refl =>
    refine single_operates opened _ ?_
    rintro m d ⟨x, y, tx, ty, leftThere, rightThere, found⟩
    obtain ⟨⟨p, rfl⟩, ⟨q, rfl⟩⟩ := And.intro (Datum.eq_int tx) (Datum.eq_int ty)
    cases found
    exact ⟨p, q, _, leftThere, rightThere, rfl, rfl⟩
  case gt.int.int.refl =>
    refine single_operates opened _ ?_
    rintro m d ⟨x, y, tx, ty, leftThere, rightThere, found⟩
    obtain ⟨⟨p, rfl⟩, ⟨q, rfl⟩⟩ := And.intro (Datum.eq_int tx) (Datum.eq_int ty)
    cases found
    exact ⟨q, p, _, rightThere, leftThere, rfl, rfl⟩
  case and.bool.bool.refl | or.bool.bool.refl | eq.bool.bool.refl =>
    refine single_operates opened _ ?_
    rintro m d ⟨x, y, tx, ty, leftThere, rightThere, found⟩
    obtain ⟨⟨p, rfl⟩, ⟨q, rfl⟩⟩ := And.intro (Datum.eq_bool tx) (Datum.eq_bool ty)
    cases found
    exact ⟨truth p, truth q, _, leftThere, rightThere, rfl, by cases p <;> cases q <;> rfl⟩
  case le.int.int.refl =>
    refine either_operates opened _ _ (by simp) (by simp) ?_
    rintro m d ⟨x, y, tx, ty, leftThere, rightThere, found⟩
    obtain ⟨⟨p, rfl⟩, ⟨q, rfl⟩⟩ := And.intro (Datum.eq_int tx) (Datum.eq_int ty)
    cases found
    refine ⟨p, q, p, q, _, _, leftThere, rightThere, leftThere, rightThere, rfl, rfl, ?_⟩
    simp [Datum.word, Int.le_iff_lt_or_eq]
  case ge.int.int.refl =>
    refine either_operates opened _ _ (by simp) (by simp) ?_
    rintro m d ⟨x, y, tx, ty, leftThere, rightThere, found⟩
    obtain ⟨⟨p, rfl⟩, ⟨q, rfl⟩⟩ := And.intro (Datum.eq_int tx) (Datum.eq_int ty)
    cases found
    refine ⟨q, p, p, q, _, _, rightThere, leftThere, leftThere, rightThere, rfl, rfl, ?_⟩
    simp [Datum.word, Int.le_iff_lt_or_eq, eq_comm]
  case ne.int.int.refl =>
    refine either_operates opened _ _ (by simp) (by simp) ?_
    rintro m d ⟨x, y, tx, ty, leftThere, rightThere, found⟩
    obtain ⟨⟨p, rfl⟩, ⟨q, rfl⟩⟩ := And.intro (Datum.eq_int tx) (Datum.eq_int ty)
    cases found
    refine ⟨q, p, p, q, _, _, rightThere, leftThere, leftThere, rightThere, rfl, rfl, ?_⟩
    have differ : decide (p ≠ q) = (decide (q < p) || decide (p < q)) := by
      rw [Bool.eq_iff_iff, Bool.or_eq_true, decide_eq_true_eq, decide_eq_true_eq, decide_eq_true_eq]
      omega
    rw [Datum.word, differ]
  case ne.bool.bool.refl =>
    refine either_operates opened _ _ (by simp) (by simp) ?_
    rintro m d ⟨x, y, tx, ty, leftThere, rightThere, found⟩
    obtain ⟨⟨p, rfl⟩, ⟨q, rfl⟩⟩ := And.intro (Datum.eq_bool tx) (Datum.eq_bool ty)
    cases found
    refine ⟨truth q, truth p, truth p, truth q, _, _, rightThere, leftThere, leftThere, rightThere,
      rfl, rfl, ?_⟩
    cases p <;> cases q <;> rfl

/-- A unary operator computes its result from its operand. -/
theorem unary_operates (operand : Location) {op : UnaryOp} {a : Scalar}
    (typed : op.type? a = some type) :
    Operates arith [operand]
      (fun m d => ∃ x, x.type = a ∧ m.read operand = some x.word ∧ op.eval arith x = some d)
      type (unary op ⟨operand, a.tag⟩ e) := by
  cases op <;> cases a <;> cases typed
  case neg.int.refl =>
    obtain ⟨t₁, e₁, issued₁, opened₁⟩ := Emitter.loadConstant_issues opened (.int 0)
    obtain ⟨t₂, e₂, issued₂, opened₂⟩ := Emitter.binary_issues opened₁ .sub t₁ operand
    simp only [unary, zeroFor, Scalar.tag, Emission.bind_apply, issued₁, issued₂, Emission.pure_apply,
      List.append_nil]
    refine ⟨rfl, opened₂, by simp [scratch, temporaries, Instruction.temporary?], ?_⟩
    rintro m d ⟨x, tx, there, found⟩ - apart
    obtain ⟨p, rfl⟩ := Datum.eq_int tx
    obtain ⟨n, fit, rfl⟩ := Option.map_eq_some_iff.mp found
    have apart := apart operand (by simp)
    simp only [scratch_append, List.mem_append, not_or] at apart
    refine Leaves.constant.andThen fun m₁ there₁ same₁ => ?_
    exact .binary there₁ (by rw [same₁ operand apart.1, there]; rfl) (by simpa [TacOp.eval] using fit)
  case not.bool.refl =>
    obtain ⟨t₁, e₁, issued₁, opened₁⟩ := Emitter.loadConstant_issues opened (.int 1)
    obtain ⟨t₂, e₂, issued₂, opened₂⟩ := Emitter.binary_issues opened₁ .add operand t₁
    obtain ⟨t₃, e₃, issued₃, opened₃⟩ := Emitter.loadConstant_issues opened₂ (.int 2)
    obtain ⟨t₄, e₄, issued₄, opened₄⟩ := Emitter.binary_issues opened₃ .mod t₂ t₃
    simp only [unary, Emitter.loadInt, Emission.bind_apply, issued₁, issued₂, issued₃, issued₄,
      Emission.pure_apply, List.append_nil]
    refine ⟨rfl, opened₄, by simp [scratch, temporaries, Instruction.temporary?], ?_⟩
    rintro m d ⟨x, tx, there, found⟩ distinct apart
    obtain ⟨p, rfl⟩ := Datum.eq_bool tx
    cases found
    have apart := apart operand (by simp)
    simp only [scratch_append, List.nodup_append, List.mem_append, not_or] at distinct apart
    have kept : t₂.position ∉ scratch [.loadConstant t₃ (.int 2)] := fun member =>
      distinct.2.1.2.2 t₂.position (by simp [scratch, temporaries, Instruction.temporary?]) _
        (.inl member) rfl
    refine Leaves.constant.andThen fun m₁ there₁ same₁ => ?_
    have there : m₁.read operand = some (.int (truth p)) := by
      rw [same₁ operand apart.1, there]
      rfl
    refine (Leaves.binary there there₁ (inverts arith p).1).andThen fun m₂ there₂ same₂ => ?_
    refine Leaves.constant.andThen fun m₃ there₃ same₃ => ?_
    exact .binary (by rw [same₃ t₂ kept, there₂]) there₃ (inverts arith p).2

end Operators

/-! ## Expressions -/

variable {α β : Type}

/-- A step that succeeds and the steps after it. -/
theorem bind_ok {step : Lower α} {rest : α → Lower β} {s next : LowerState} {a : α}
    {code : List Instruction} (run : step s = ⟨.ok a, next, code⟩) :
    (step >>= rest) s = ⟨(rest a next).value, (rest a next).state, code ++ (rest a next).code⟩ := by
  rw [bind_apply, run]

/-- What names mean in lowering when they stand for the variables of `env`. -/
def bound (slot : DeclId → Location) (env : Env) : List (String × Value) :=
  env.map fun entry => (entry.1, ⟨slot entry.2.id, entry.2.type.tag⟩)

/-- The state of lowering knows the variables of `env`: each name means the slot of its declaration. -/
structure Knows (slot : DeclId → Location) (env : Env) (stack : List (List (String × Value)))
    (s : LowerState) : Prop where
  opened : s.emitter.inFunction = true
  models : s.bindings.Models stack
  named : stack.flatten = bound slot env

/-- The cells of some declarations are kept in their slots. -/
def Agrees (slot : DeclId → Location) (ids : List DeclId) (cells : Cells) (m : Store) : Prop :=
  ∀ id ∈ ids, cells id = m.read (slot id)

/-- Code leaves the value of an expression at a location, which is a temporary of it or the slot of a
variable. -/
structure Evaluates (arith : Arithmetic) (slot : DeclId → Location) (ids : List DeclId) (env : Env)
    (e : Expr) (code : List Instruction) (loc : Location) : Prop where
  located : loc.position ∈ scratch code ∨ ∃ id ∈ ids, loc = slot id
  leaves : ∀ cells m d, Agrees slot ids cells m → e.eval arith env cells = some d →
    (scratch code).Nodup → (∀ id ∈ ids, (slot id).position ∉ scratch code) →
    Leaves arith code m loc d.word

section Expressions

variable {arith : Arithmetic} {slot : DeclId → Location} {ids : List DeclId} {env : Env}
  {stack : List (List (String × Value))} {s : LowerState}

theorem Knows.emitter (knows : Knows slot env stack s) {next : Emitter}
    (opened : next.inFunction = true) : Knows slot env stack { s with emitter := next } :=
  ⟨opened, knows.models, knows.named⟩

theorem Knows.lookup (knows : Knows slot env stack s) {name : String} {v : Variable}
    (found : env.lookup name = some v) :
    s.bindings.lookup name = some ⟨slot v.id, v.type.tag⟩ := by
  rw [knows.models.lookup, knows.named, bound,
    Table.lookup_map_value fun _ (v : Variable) => (⟨slot v.id, v.type.tag⟩ : Value), found]
  rfl

/-- The value of an expression that names no storage. -/
theorem value_computed {layouts : Layouts} {e : Expr} {s next : LowerState} {v : Value}
    {code : List Instruction} (run : place layouts e s = ⟨.ok (.computed v), next, code⟩) :
    value layouts e s = ⟨.ok v, next, code⟩ := by
  rw [value, bind_ok run]
  simp [read]

theorem emit_apply (step : Emit α) (s : LowerState) :
    emit step s = ⟨.ok (step s.emitter).value, { s with emitter := (step s.emitter).state },
      (step s.emitter).code⟩ := rfl

variable (arith slot ids env) in
/-- Lowering an expression in some state succeeds with a value of a type, and its code evaluates it. -/
def Valued (layouts : Layouts) (e : Expr) (type : Scalar) (s : LowerState) : Prop :=
  ∃ loc next code, value layouts e s = ⟨.ok ⟨loc, type.tag⟩, { s with emitter := next }, code⟩ ∧
    next.inFunction = true ∧ Evaluates arith slot ids env e code loc

variable {layouts : Layouts} {type : Scalar}

/-- A constant is loaded. -/
private theorem constant_valued (e : Expr) (d : Datum) {n : Int} (opened : s.emitter.inFunction = true)
    (word : d.word = .int n) (means : ∀ cells, e.eval arith env cells = some d)
    (lowers : place layouts e =
      (do return .computed ⟨← emit (Emitter.loadInt n), d.type.tag⟩ : Lower Place)) :
    Valued arith slot ids env layouts e d.type s := by
  obtain ⟨dst, next, issued, opened'⟩ := Emitter.loadConstant_issues opened (.int n)
  have run : emit (Emitter.loadInt n) s =
      ⟨.ok dst, { s with emitter := next }, [.loadConstant dst (.int n)]⟩ := by
    rw [emit_apply, Emitter.loadInt, issued]
  refine ⟨dst, next, [.loadConstant dst (.int n)], value_computed ?_, opened', ?_, ?_⟩
  · rw [lowers, bind_ok run]
    simp
  · simp [scratch, temporaries, Instruction.temporary?]
  · intro cells m d' _ found _ _
    rw [means] at found
    cases found
    rw [word]
    exact .constant

/-- A name stands for the slot of its declaration. -/
theorem name_place {site : ExprSite} {x : Ident} {v : Variable} (knows : Knows slot env stack s)
    (bound : env.lookup x.name = some v) :
    place layouts (.name site x) s = ⟨.ok (.variable x.name ⟨slot v.id, v.type.tag⟩), s, []⟩ := by
  simp [place, namePlace, bind_apply, get, knows.lookup bound]

theorem lookup_listed {name : String} {v : Variable} (covered : ∀ entry ∈ env, entry.2.id ∈ ids)
    (bound : env.lookup name = some v) : v.id ∈ ids :=
  covered (name, v) (Table.mem_of_lookup bound)

private theorem name_valued {site : ExprSite} {x : Ident}
    (covered : ∀ entry ∈ env, entry.2.id ∈ ids) (knows : Knows slot env stack s)
    (typed : (Expr.name site x).scalar? env = some type) :
    Valued arith slot ids env layouts (.name site x) type s := by
  obtain ⟨v, bound, rfl⟩ := Option.map_eq_some_iff.mp typed
  have listed := lookup_listed covered bound
  refine ⟨slot v.id, s.emitter, [], ?_, knows.opened, .inr ⟨v.id, listed, rfl⟩, ?_⟩
  · rw [value, bind_ok (name_place knows bound)]
    simp [read]
  · intro cells m d agrees found _ _
    refine .nothing ?_
    simp only [Expr.eval, bound, Option.bind_some] at found
    obtain ⟨word, held, found⟩ := Option.bind_eq_some_iff.mp found
    rw [← agrees v.id listed, held, (Scalar.read_word found).1]

/-- A value has the type of its expression. -/
private theorem typed_datum {e : Expr} {a : Scalar} {cells : Cells} {x : Datum}
    (typed : e.scalar? env = some a) (found : e.eval arith env cells = some x) : x.type = a := by
  have own := Expr.eval_type found
  rw [typed, Option.some.injEq] at own
  exact own.symm

private theorem free_right {first second : List Instruction}
    (free : ∀ id ∈ ids, (slot id).position ∉ scratch (first ++ second)) :
    ∀ id ∈ ids, (slot id).position ∉ scratch second := by
  intro id listed member
  exact free id listed (by rw [scratch_append]; exact List.mem_append_right _ member)

/-- Code that comes later has no use for the location of a value. -/
private theorem Evaluates.apart {e : Expr} {code more : List Instruction} {loc : Location}
    (evaluates : Evaluates arith slot ids env e code loc) (distinct : (scratch (code ++ more)).Nodup)
    (free : ∀ id ∈ ids, (slot id).position ∉ scratch more) : loc.position ∉ scratch more := by
  rw [scratch_append, List.nodup_append] at distinct
  rcases evaluates.located with temporary | ⟨id, listed, rfl⟩
  · exact fun member => distinct.2.2 _ temporary _ member rfl
  · exact free id listed

/-- An operator is applied to operands that were evaluated before. -/
private theorem operator_valued {e : Expr} {done : Emitted Emitter Value} (before : List Instruction)
    {operands : List Location} {gives : Store → Datum → Prop}
    (operates : Operates arith operands gives type done)
    (run : place layouts e s =
      ⟨.ok (.computed done.value), { s with emitter := done.state }, before ++ done.code⟩)
    (finds : ∀ cells m d, Agrees slot ids cells m → e.eval arith env cells = some d →
      (scratch before).Nodup → (∀ id ∈ ids, (slot id).position ∉ scratch before) →
      ∃ m', Scratches arith before m m' ∧ gives m' d)
    (apart : (scratch (before ++ done.code)).Nodup →
      (∀ id ∈ ids, (slot id).position ∉ scratch (before ++ done.code)) →
      ∀ loc ∈ operands, loc.position ∉ scratch done.code) :
    Valued arith slot ids env layouts e type s := by
  obtain ⟨⟨loc, tag⟩, next, code⟩ := done
  obtain ⟨rfl, opened, temporary, leaves⟩ := operates
  refine ⟨loc, next, before ++ code, value_computed run, opened, .inl ?_, ?_⟩
  · rw [scratch_append]
    exact List.mem_append_right _ temporary
  · intro cells m d agrees found distinct free
    have apart := apart distinct free
    simp only [scratch_append, List.nodup_append, List.mem_append, not_or] at distinct free
    obtain ⟨m₁, runs₁, given⟩ := finds cells m d agrees found distinct.1 fun id listed => (free id listed).1
    obtain ⟨m₂, runs₂, there⟩ := leaves m₁ d given distinct.2.1 apart
    exact ⟨m₂, runs₁.trans runs₂, there⟩

private theorem unary_valued {site : ExprSite} {op : UnaryOp} {operand : Expr} {a : Scalar}
    (typed : op.type? a = some type) (typedOperand : operand.scalar? env = some a)
    (valued : Valued arith slot ids env layouts operand a s) :
    Valued arith slot ids env layouts (.unary site op operand) type s := by
  obtain ⟨loc, e₁, code, run, opened, evaluates⟩ := valued
  refine operator_valued code (unary_operates opened loc typed) ?_ ?_ ?_
  · rw [place, ← value, bind_ok run, bind_ok (emit_apply _ _)]
    simp
  · intro cells m d agrees found distinct free
    obtain ⟨x, foundOperand, found⟩ := Option.bind_eq_some_iff.mp found
    obtain ⟨m', runs, there⟩ := evaluates.leaves cells m x agrees foundOperand distinct free
    exact ⟨m', runs, x, typed_datum typedOperand foundOperand, there, found⟩
  · intro distinct free other member
    rw [List.mem_singleton.mp member]
    exact evaluates.apart distinct (free_right free)

private theorem binary_valued {site : ExprSite} {op : BinaryOp} {left right : Expr} {a b : Scalar}
    (typed : op.type? a b = some type) (typedLeft : left.scalar? env = some a)
    (typedRight : right.scalar? env = some b)
    (valuedLeft : Valued arith slot ids env layouts left a s)
    (valuedRight : ∀ next : Emitter, next.inFunction = true →
      Valued arith slot ids env layouts right b { s with emitter := next }) :
    Valued arith slot ids env layouts (.binary site op left right) type s := by
  obtain ⟨l, e₁, code₁, run₁, opened₁, evaluatesLeft⟩ := valuedLeft
  obtain ⟨r, e₂, code₂, run₂, opened₂, evaluatesRight⟩ := valuedRight e₁ opened₁
  refine operator_valued (code₁ ++ code₂) (binary_operates opened₂ l r typed) ?_ ?_ ?_
  · rw [place, ← value, ← value, bind_ok run₁, bind_ok run₂, bind_ok (emit_apply _ _)]
    simp
  · intro cells m d agrees found distinct free
    obtain ⟨x, foundLeft, found⟩ := Option.bind_eq_some_iff.mp found
    obtain ⟨y, foundRight, found⟩ := Option.bind_eq_some_iff.mp found
    have kept : l.position ∉ scratch code₂ := evaluatesLeft.apart distinct (free_right free)
    have free₁ := fun id listed => not_or.mp (mt List.mem_append.mpr (scratch_append _ _ ▸ free id listed))
    rw [scratch_append, List.nodup_append] at distinct
    obtain ⟨m₁, runs₁, there₁⟩ := evaluatesLeft.leaves cells m x agrees foundLeft distinct.1
      fun id listed => (free₁ id listed).1
    have agrees₁ : Agrees slot ids cells m₁ := fun id listed => by
      rw [agrees id listed, runs₁.2 _ (free₁ id listed).1]
    obtain ⟨m₂, runs₂, there₂⟩ := evaluatesRight.leaves cells m₁ y agrees₁ foundRight distinct.2.1
      fun id listed => (free₁ id listed).2
    exact ⟨m₂, runs₁.trans runs₂, x, y, typed_datum typedLeft foundLeft,
      typed_datum typedRight foundRight, by rw [runs₂.2 l kept, there₁], there₂, found⟩
  · intro distinct free
    have leftApart : l.position ∉ scratch (binary op ⟨l, a.tag⟩ ⟨r, b.tag⟩ e₂).code := by
      have whole := free_right (List.append_assoc code₁ code₂ _ ▸ free)
      have kept := evaluatesLeft.apart (List.append_assoc code₁ code₂ _ ▸ distinct) whole
      exact fun member => kept (by rw [scratch_append]; exact List.mem_append_right _ member)
    have rightApart : r.position ∉ scratch (binary op ⟨l, a.tag⟩ ⟨r, b.tag⟩ e₂).code := by
      refine evaluatesRight.apart ?_ (free_right free)
      rw [List.append_assoc, scratch_append, List.nodup_append] at distinct
      exact distinct.2.1
    simp [leftApart, rightApart]

/-- The code of a typed expression evaluates it. -/
theorem value_valued (covered : ∀ entry ∈ env, entry.2.id ∈ ids) {e : Expr}
    (typed : e.scalar? env = some type) (knows : Knows slot env stack s) :
    Valued arith slot ids env layouts e type s := by
  induction e using Expr.scalar?.induct generalizing s type with
  | case1 site n =>
    cases typed
    exact constant_valued (.int site n) (.int n) knows.opened rfl (fun _ => rfl) (by rw [place]; rfl)
  | case2 site b =>
    cases typed
    exact constant_valued (.bool site b) (.bool b) knows.opened rfl (fun _ => rfl) (by rw [place]; rfl)
  | case3 site x => exact name_valued covered knows typed
  | case4 site op left right leftIH rightIH =>
    obtain ⟨a, typedLeft, typed⟩ := Option.bind_eq_some_iff.mp typed
    obtain ⟨b, typedRight, typed⟩ := Option.bind_eq_some_iff.mp typed
    exact binary_valued typed typedLeft typedRight (leftIH typedLeft knows)
      fun next opened => rightIH typedRight (knows.emitter opened)
  | case5 site op operand ih =>
    obtain ⟨a, typedOperand, typed⟩ := Option.bind_eq_some_iff.mp typed
    exact unary_valued typed typedOperand (ih typedOperand knows)
  | case6 e notInt notBool notName notBinary notUnary =>
    rw [Expr.scalar?] at typed
    · cases typed
    all_goals assumption

end Expressions

end Lower

end DecafTac
