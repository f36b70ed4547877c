import DecafTac.Proofs.Source.Semantics

/-!
Expressions over numbers that assign and call, with two ways to take their operands. In both, operands
are evaluated from left to right, each with all that it assigns. When operands are captured, the value of
each is fixed when it is evaluated. When they are deferred, a variable is not read until the operator, the
assignment or the call that it is an operand of is carried out, and has then what operands after it have
assigned to it. The two agree on expressions in which no operand can assign a variable that is an operand
before it.
-/
namespace DecafTac

/-- The number in a cell. -/
def Cells.int? (cells : Cells) (id : DeclId) : Option Int :=
  match cells id with
  | some (.int n) => some n
  | _ => none

theorem Cells.int?_eq_some {cells : Cells} {id : DeclId} {n : Int} (found : cells.int? id = some n) :
    cells id = some (.int n) := by
  unfold int? at found
  split at found
  · rename_i held
    cases found
    exact held
  · cases found

theorem Cells.int?_congr {cells after : Cells} {id : DeclId} (same : after id = cells id) :
    after.int? id = cells.int? id := by
  rw [int?, same, int?]

theorem Cells.int?_set (cells : Cells) (id : DeclId) (n : Int) (other : DeclId) :
    (cells.set id (.int n)).int? other = if other = id then some n else cells.int? other := by
  by_cases same : other = id
  · simp [int?, set, same]
  · simp [int?, set, same]

/-- The result of an operator on numbers, when it is a number. -/
def BinaryOp.number? (arith : Arithmetic) (op : BinaryOp) (a b : Int) : Option Int :=
  match op.eval arith (.int a) (.int b) with
  | some (.int n) => some n
  | _ => none

theorem BinaryOp.number?_eq {arith : Arithmetic} {op : BinaryOp} {a b : Int} {result : Option Int}
    (same : op.eval arith (.int a) (.int b) = result.map .int) : op.number? arith a b = result := by
  rw [number?, same]
  cases result <;> rfl

/-- The functions that expressions call: what each makes of numbers and of the cells, and which cells it
may assign. -/
structure Callees where
  run : String → List Int → Cells → Option (Int × Cells)
  writes : String → DeclId → Bool
  keeps : ∀ {name : String} {args : List Int} {cells after : Cells} {n : Int},
    run name args cells = some (n, after) → ∀ id, writes name id = false → after id = cells id

namespace Expr

/-- The variable that an expression names. -/
def named? (env : Env) : Expr → Option Variable
  | .name _ x => env.lookup x.name
  | _ => none

mutual

/-- Whether an expression is one over numbers: it is made of constants, variables, operators whose results
are numbers, assignments to variables, and calls of the functions in `callable`. -/
def isNumeric (env : Env) (callable : String → Bool) : Expr → Bool
  | .int .. => true
  | .name _ x => (env.lookup x.name).map Variable.type == some .int
  | .binary _ op left right =>
    op.type? .int .int == some .int && left.isNumeric env callable && right.isNumeric env callable
  | .assign _ target value =>
    (target.named? env).map Variable.type == some .int && value.isNumeric env callable
  | .call _ f actuals => callable f.name && areNumeric env callable actuals
  | _ => false

def areNumeric (env : Env) (callable : String → Bool) : List Expr → Bool
  | [] => true
  | e :: rest => e.isNumeric env callable && areNumeric env callable rest

end

/-! ## Captured operands -/

section Captured

variable (arith : Arithmetic) (env : Env) (callees : Callees)

mutual

/-- The value of an expression and the cells after it, when operands are captured. -/
def evalCaptured : Expr → Cells → Option (Int × Cells)
  | .int _ n, cells => some (n, cells)
  | .name _ x, cells =>
    (env.lookup x.name).bind fun v => (cells.int? v.id).map fun n => (n, cells)
  | .binary _ op left right, cells =>
    (evalCaptured left cells).bind fun l =>
      (evalCaptured right l.2).bind fun r =>
        (op.number? arith l.1 r.1).map fun n => (n, r.2)
  | .assign _ target value, cells =>
    (target.named? env).bind fun v =>
      (evalCaptured value cells).map fun d => (d.1, d.2.set v.id (.int d.1))
  | .call _ f actuals, cells =>
    (captureAll actuals cells).bind fun args => callees.run f.name args.1 args.2
  | _, _ => none

def captureAll : List Expr → Cells → Option (List Int × Cells)
  | [], cells => some ([], cells)
  | e :: rest, cells =>
    (evalCaptured e cells).bind fun d =>
      (captureAll rest d.2).map fun ds => (d.1 :: ds.1, ds.2)

end

end Captured

/-! ## Deferred operands -/

end Expr

/-- What an expression is for its use: a number, or a variable that is still to be read. -/
inductive Operand where
  | number (value : Int)
  | cell (id : DeclId)
  deriving DecidableEq

/-- The number that is used for an operand. -/
def Operand.value? (cells : Cells) : Operand → Option Int
  | .number n => some n
  | .cell id => cells.int? id

/-- Assigning its own value leaves an operand its value. -/
theorem Operand.value?_set {cells : Cells} {o : Operand} {n : Int} (held : o.value? cells = some n)
    (id : DeclId) : o.value? (cells.set id (.int n)) = some n := by
  cases o with
  | number => exact held
  | cell other =>
    rw [value?, Cells.int?_set]
    split
    · rfl
    · exact held

namespace Expr

section Deferred

variable (arith : Arithmetic) (env : Env) (callees : Callees)

mutual

/-- What an expression is for its use, and the cells after it, when operands are deferred. -/
def evalDeferred : Expr → Cells → Option (Operand × Cells)
  | .int _ n, cells => some (.number n, cells)
  | .name _ x, cells => (env.lookup x.name).map fun v => (.cell v.id, cells)
  | .binary _ op left right, cells =>
    (evalDeferred left cells).bind fun l =>
      (evalDeferred right l.2).bind fun r =>
        (l.1.value? r.2).bind fun a =>
          (r.1.value? r.2).bind fun b => (op.number? arith a b).map fun n => (.number n, r.2)
  | .assign _ target value, cells =>
    (target.named? env).bind fun v =>
      (evalDeferred value cells).bind fun d =>
        (d.1.value? d.2).map fun n => (d.1, d.2.set v.id (.int n))
  | .call _ f actuals, cells =>
    (deferAll actuals cells).bind fun args =>
      (args.1.mapM (Operand.value? args.2)).bind fun ns =>
        (callees.run f.name ns args.2).map fun d => (.number d.1, d.2)
  | _, _ => none

def deferAll : List Expr → Cells → Option (List Operand × Cells)
  | [], cells => some ([], cells)
  | e :: rest, cells =>
    (evalDeferred e cells).bind fun d =>
      (deferAll rest d.2).map fun ds => (d.1 :: ds.1, ds.2)

end

end Deferred

/-! ## Where the two agree -/

/-- The variable whose reading is deferred when an expression is an operand. -/
def deferred? (env : Env) : Expr → Option DeclId
  | .name _ x => (env.lookup x.name).map Variable.id
  | .assign _ _ value => value.deferred? env
  | _ => none

section Steady

variable (env : Env) (writes : String → DeclId → Bool)

mutual

/-- Whether an expression can assign a cell. -/
def mayAssign (id : DeclId) : Expr → Bool
  | .binary _ _ left right => left.mayAssign id || right.mayAssign id
  | .assign _ target value => (target.named? env).any (·.id == id) || value.mayAssign id
  | .call _ f actuals => writes f.name id || anyAssigns id actuals
  | _ => false

def anyAssigns (id : DeclId) : List Expr → Bool
  | [] => false
  | e :: rest => e.mayAssign id || anyAssigns id rest

end

mutual

/-- Whether no operand in an expression can assign a variable whose reading is deferred for an operand
before it. -/
def isSteady : Expr → Bool
  | .binary _ _ left right =>
    left.isSteady && right.isSteady && (left.deferred? env).all fun id => !right.mayAssign env writes id
  | .assign _ _ value => value.isSteady
  | .call _ _ actuals => areSteady actuals
  | _ => true

def areSteady : List Expr → Bool
  | [] => true
  | e :: rest =>
    e.isSteady && areSteady rest && (e.deferred? env).all fun id => !anyAssigns env writes id rest

end

end Steady

section Agreement

variable {arith : Arithmetic} {env : Env} {callees : Callees}

mutual

/-- A cell that an expression cannot assign is left as it is. -/
theorem evalCaptured_keeps {id : DeclId} : ∀ {e : Expr} {cells after : Cells} {n : Int},
    e.mayAssign env callees.writes id = false →
    e.evalCaptured arith env callees cells = some (n, after) → after id = cells id
  | .int .., cells, after, n, _, found => by
    cases found
    rfl
  | .name _ x, cells, after, n, _, found => by
    obtain ⟨v, -, found⟩ := Option.bind_eq_some_iff.mp found
    obtain ⟨_, -, same⟩ := Option.map_eq_some_iff.mp found
    cases same
    rfl
  | .binary _ op left right, cells, after, n, fixed, found => by
    rw [mayAssign, Bool.or_eq_false_iff] at fixed
    obtain ⟨l, foundLeft, found⟩ := Option.bind_eq_some_iff.mp found
    obtain ⟨r, foundRight, found⟩ := Option.bind_eq_some_iff.mp found
    obtain ⟨_, -, same⟩ := Option.map_eq_some_iff.mp found
    cases same
    exact (evalCaptured_keeps fixed.2 foundRight).trans (evalCaptured_keeps fixed.1 foundLeft)
  | .assign _ target value, cells, after, n, fixed, found => by
    rw [mayAssign, Bool.or_eq_false_iff] at fixed
    obtain ⟨v, named, found⟩ := Option.bind_eq_some_iff.mp found
    obtain ⟨d, foundValue, same⟩ := Option.map_eq_some_iff.mp found
    cases same
    have other : id ≠ v.id := by
      rintro rfl
      simp [named] at fixed
    exact (if_neg other).trans (evalCaptured_keeps fixed.2 foundValue)
  | .call _ f actuals, cells, after, n, fixed, found => by
    rw [mayAssign, Bool.or_eq_false_iff] at fixed
    obtain ⟨args, foundArgs, found⟩ := Option.bind_eq_some_iff.mp found
    exact (callees.keeps found id fixed.1).trans (captureAll_keeps fixed.2 foundArgs)
  | .double .., _, _, _, _, found | .bool .., _, _, _, _, found | .string .., _, _, _, _, found
  | .null .., _, _, _, _, found | .unary .., _, _, _, _, found | .field .., _, _, _, _, found
  | .element .., _, _, _, _, found | .send .., _, _, _, _, found | .new .., _, _, _, _, found
  | .newArray .., _, _, _, _, found | .this .., _, _, _, _, found | .readInteger .., _, _, _, _, found
  | .readLine .., _, _, _, _, found | .knot .., _, _, _, _, found => nomatch found

theorem captureAll_keeps {id : DeclId} : ∀ {es : List Expr} {cells after : Cells} {ns : List Int},
    anyAssigns env callees.writes id es = false →
    captureAll arith env callees es cells = some (ns, after) → after id = cells id
  | [], cells, after, ns, _, found => by
    cases found
    rfl
  | e :: rest, cells, after, ns, fixed, found => by
    rw [anyAssigns, Bool.or_eq_false_iff] at fixed
    obtain ⟨d, foundFirst, found⟩ := Option.bind_eq_some_iff.mp found
    obtain ⟨ds, foundRest, same⟩ := Option.map_eq_some_iff.mp found
    cases same
    exact (captureAll_keeps fixed.2 foundRest).trans (evalCaptured_keeps fixed.1 foundFirst)

end

/-- The operand that an expression is, when its value is `n`. -/
def operand (env : Env) (e : Expr) (n : Int) : Operand :=
  match e.deferred? env with
  | some id => .cell id
  | none => .number n

/-- An operand keeps its value as long as its variable keeps its own. -/
theorem operand_value? {e : Expr} {n : Int} {cells after : Cells}
    (before : (e.operand env n).value? cells = some n)
    (kept : ∀ id, e.deferred? env = some id → after id = cells id) :
    (e.operand env n).value? after = some n := by
  unfold operand at before ⊢
  cases waits : e.deferred? env with
  | none => rfl
  | some id =>
    rw [waits] at before
    exact (Cells.int?_congr (kept id waits)).trans before

mutual

/-- A steady expression is the same with deferred operands as with captured ones. -/
theorem evalDeferred_of_captured : ∀ {e : Expr} {cells after : Cells} {n : Int},
    e.isSteady env callees.writes = true → e.evalCaptured arith env callees cells = some (n, after) →
    e.evalDeferred arith env callees cells = some (e.operand env n, after) ∧
      (e.operand env n).value? after = some n
  | .int .., cells, after, n, _, found => by
    cases found
    exact ⟨rfl, rfl⟩
  | .name site x, cells, after, n, _, found => by
    obtain ⟨v, bound, found⟩ := Option.bind_eq_some_iff.mp found
    obtain ⟨_, held, same⟩ := Option.map_eq_some_iff.mp found
    cases same
    have own : (Expr.name site x).operand env n = .cell v.id := by simp [operand, deferred?, bound]
    rw [own, evalDeferred, bound]
    exact ⟨rfl, held⟩
  | .binary _ op left right, cells, after, n, steady, found => by
    rw [isSteady, Bool.and_eq_true, Bool.and_eq_true] at steady
    obtain ⟨l, foundLeft, found⟩ := Option.bind_eq_some_iff.mp found
    obtain ⟨r, foundRight, found⟩ := Option.bind_eq_some_iff.mp found
    obtain ⟨_, result, same⟩ := Option.map_eq_some_iff.mp found
    cases same
    obtain ⟨leftRuns, leftHeld⟩ := evalDeferred_of_captured steady.1.1 foundLeft
    obtain ⟨rightRuns, rightHeld⟩ := evalDeferred_of_captured steady.1.2 foundRight
    have stillHeld : (left.operand env l.1).value? r.2 = some l.1 := by
      refine operand_value? leftHeld fun id waits => ?_
      have fixed := steady.2
      rw [waits] at fixed
      exact evalCaptured_keeps (by simpa using fixed) foundRight
    rw [evalDeferred, leftRuns, Option.bind_some, rightRuns, Option.bind_some, stillHeld, Option.bind_some,
      rightHeld, Option.bind_some, result]
    exact ⟨rfl, rfl⟩
  | .assign site target value, cells, after, n, steady, found => by
    rw [isSteady] at steady
    obtain ⟨v, named, found⟩ := Option.bind_eq_some_iff.mp found
    obtain ⟨d, foundValue, same⟩ := Option.map_eq_some_iff.mp found
    cases same
    obtain ⟨runs, held⟩ := evalDeferred_of_captured steady foundValue
    have own : (Expr.assign site target value).operand env d.1 = value.operand env d.1 := rfl
    rw [own, evalDeferred, named, Option.bind_some, runs, Option.bind_some, held]
    exact ⟨rfl, Operand.value?_set held v.id⟩
  | .call _ f actuals, cells, after, n, steady, found => by
    rw [isSteady] at steady
    obtain ⟨args, foundArgs, found⟩ := Option.bind_eq_some_iff.mp found
    obtain ⟨os, runs, held⟩ := deferAll_of_captured steady foundArgs
    rw [evalDeferred, runs, Option.bind_some, held, Option.bind_some, found]
    exact ⟨rfl, rfl⟩
  | .double .., _, _, _, _, found | .bool .., _, _, _, _, found | .string .., _, _, _, _, found
  | .null .., _, _, _, _, found | .unary .., _, _, _, _, found | .field .., _, _, _, _, found
  | .element .., _, _, _, _, found | .send .., _, _, _, _, found | .new .., _, _, _, _, found
  | .newArray .., _, _, _, _, found | .this .., _, _, _, _, found | .readInteger .., _, _, _, _, found
  | .readLine .., _, _, _, _, found | .knot .., _, _, _, _, found => nomatch found

theorem deferAll_of_captured : ∀ {es : List Expr} {cells after : Cells} {ns : List Int},
    areSteady env callees.writes es = true → captureAll arith env callees es cells = some (ns, after) →
    ∃ os, deferAll arith env callees es cells = some (os, after) ∧
      os.mapM (Operand.value? after) = some ns
  | [], cells, after, ns, _, found => by
    cases found
    exact ⟨[], rfl, rfl⟩
  | e :: rest, cells, after, ns, steady, found => by
    rw [areSteady, Bool.and_eq_true, Bool.and_eq_true] at steady
    obtain ⟨d, foundFirst, found⟩ := Option.bind_eq_some_iff.mp found
    obtain ⟨ds, foundRest, same⟩ := Option.map_eq_some_iff.mp found
    cases same
    obtain ⟨firstRuns, firstHeld⟩ := evalDeferred_of_captured steady.1.1 foundFirst
    obtain ⟨os, restRuns, restHeld⟩ := deferAll_of_captured steady.1.2 foundRest
    have stillHeld : (e.operand env d.1).value? ds.2 = some d.1 := by
      refine operand_value? firstHeld fun id waits => ?_
      have fixed := steady.2
      rw [waits] at fixed
      exact captureAll_keeps (by simpa using fixed) foundRest
    refine ⟨e.operand env d.1 :: os, ?_, ?_⟩
    · rw [deferAll, firstRuns, Option.bind_some, restRuns]
      rfl
    · rw [List.mapM_cons, stillHeld, restHeld]
      rfl

end

end Agreement

end Expr

end DecafTac
