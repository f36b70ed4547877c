import DecafTac.Proofs.Tac.Machine
import DecafTac.Source.Tree

/-!
What programs over numbers and truth values mean. Every declaration has a cell of its own, which keeps
its contents while its block is not running; a name stands for the innermost declaration around it.
Expressions are evaluated without effect, all operands of an operator among them, and statements run
from cells to cells, printing as they go.

Before its first assignment a cell may hold anything. Reading it as what it is declared to be then has
a result only if it happens to hold such a datum.
-/
namespace DecafTac

/-! ## Data -/

/-- The types that the statements here are about. -/
inductive Scalar where
  | int
  | bool
  deriving DecidableEq

/-- A value of such a type. -/
inductive Datum where
  | int (value : Int)
  | bool (value : Bool)
  deriving DecidableEq

namespace Datum

def type : Datum → Scalar
  | .int _ => .int
  | .bool _ => .bool

/-- How a datum is kept in a word. -/
def word : Datum → Word
  | .int n => .int n
  | .bool b => .int (truth b)

/-- How a datum is printed. -/
def printed : Datum → Printed
  | .int n => .int n
  | .bool b => .bool b

theorem eq_int {d : Datum} (typed : d.type = .int) : ∃ n, d = .int n := by
  cases d with
  | int n => exact ⟨n, rfl⟩
  | bool b => cases typed

theorem eq_bool {d : Datum} (typed : d.type = .bool) : ∃ b, d = .bool b := by
  cases d with
  | int n => cases typed
  | bool b => exact ⟨b, rfl⟩

end Datum

namespace Scalar

def ofType? : TypeExpr → Option Scalar
  | .primitive .int => some .int
  | .primitive .bool => some .bool
  | _ => none

def tag : Scalar → Tag
  | .int => .int
  | .bool => .bool

/-- The datum that a word is when it is read at a type. -/
def read : Scalar → Word → Option Datum
  | .int, .int n => some (.int n)
  | .bool, .int n =>
    if n = 0 then some (.bool false) else if n = 1 then some (.bool true) else none
  | _, .text _ => none

theorem read_word {type : Scalar} {word : Word} {d : Datum} (found : type.read word = some d) :
    d.word = word ∧ d.type = type := by
  cases type with
  | int =>
    cases word with
    | int n =>
      cases found
      exact ⟨rfl, rfl⟩
    | text s => cases found
  | bool =>
    cases word with
    | int n =>
      simp only [read] at found
      split at found
      · rename_i zero
        cases found
        exact ⟨by rw [zero]; rfl, rfl⟩
      · split at found
        · rename_i one
          cases found
          exact ⟨by rw [one]; rfl, rfl⟩
        · cases found
    | text s => cases found

theorem tag_ofType {type : TypeExpr} {scalar : Scalar} (found : ofType? type = some scalar) :
    Tag.ofType type = scalar.tag := by
  unfold ofType? at found
  split at found <;> cases found <;> rfl

end Scalar

/-! ## Operators -/

namespace BinaryOp

/-- The type of a result by the types of the operands. -/
def type? : BinaryOp → Scalar → Scalar → Option Scalar
  | .add, .int, .int | .sub, .int, .int | .mul, .int, .int | .div, .int, .int | .mod, .int, .int =>
    some .int
  | .lt, .int, .int | .le, .int, .int | .gt, .int, .int | .ge, .int, .int => some .bool
  | .eq, .int, .int | .eq, .bool, .bool | .ne, .int, .int | .ne, .bool, .bool => some .bool
  | .and, .bool, .bool | .or, .bool, .bool => some .bool
  | _, _, _ => none

def eval (arith : Arithmetic) : BinaryOp → Datum → Datum → Option Datum
  | .add, .int a, .int b => (arith.fit (a + b)).map .int
  | .sub, .int a, .int b => (arith.fit (a - b)).map .int
  | .mul, .int a, .int b => (arith.fit (a * b)).map .int
  | .div, .int a, .int b => (arith.quotient a b).map .int
  | .mod, .int a, .int b => (arith.remainder a b).map .int
  | .lt, .int a, .int b => some (.bool (a < b))
  | .le, .int a, .int b => some (.bool (a ≤ b))
  | .gt, .int a, .int b => some (.bool (a > b))
  | .ge, .int a, .int b => some (.bool (a ≥ b))
  | .eq, .int a, .int b => some (.bool (a = b))
  | .ne, .int a, .int b => some (.bool (a ≠ b))
  | .eq, .bool a, .bool b => some (.bool (a = b))
  | .ne, .bool a, .bool b => some (.bool (a ≠ b))
  | .and, .bool a, .bool b => some (.bool (a && b))
  | .or, .bool a, .bool b => some (.bool (a || b))
  | _, _, _ => none

theorem eval_type {arith : Arithmetic} {op : BinaryOp} {a b d : Datum}
    (found : op.eval arith a b = some d) : op.type? a.type b.type = some d.type := by
  cases op <;> cases a <;> cases b <;>
    simp only [eval, Option.map_eq_some_iff, Option.some.injEq, reduceCtorEq] at found <;>
    first
    | (subst found; rfl)
    | (obtain ⟨n, -, rfl⟩ := found; rfl)

end BinaryOp

namespace UnaryOp

def type? : UnaryOp → Scalar → Option Scalar
  | .neg, .int => some .int
  | .not, .bool => some .bool
  | _, _ => none

def eval (arith : Arithmetic) : UnaryOp → Datum → Option Datum
  | .neg, .int a => (arith.fit (-a)).map .int
  | .not, .bool b => some (.bool !b)
  | _, _ => none

theorem eval_type {arith : Arithmetic} {op : UnaryOp} {a d : Datum} (found : op.eval arith a = some d) :
    op.type? a.type = some d.type := by
  cases op <;> cases a <;>
    simp only [eval, Option.map_eq_some_iff, Option.some.injEq, reduceCtorEq] at found
  · obtain ⟨n, -, rfl⟩ := found
    rfl
  · subst found
    rfl

end UnaryOp

/-! ## Expressions -/

/-- What a name stands for. -/
structure Variable where
  id : DeclId
  type : Scalar
  deriving DecidableEq

/-- The variables around a statement by name, innermost first. -/
abbrev Env := List (String × Variable)

/-- The variables within a block. -/
def Env.declare (env : Env) : List Decl → Env
  | [] => env
  | .var id name type :: rest =>
    match Scalar.ofType? type with
    | some scalar => Env.declare ((name.name, ⟨id, scalar⟩) :: env) rest
    | none => Env.declare env rest
  | _ :: rest => Env.declare env rest

/-- Whether a declaration is that of a number or a truth value. -/
def Decl.isScalar : Decl → Bool
  | .var _ _ type => (Scalar.ofType? type).isSome
  | _ => false

/-- What the cells of declarations hold. -/
def Cells : Type := DeclId → Option Word

def Cells.set (cells : Cells) (id : DeclId) (word : Word) : Cells :=
  fun other => if other = id then some word else cells other

namespace Expr

/-- The type of an expression over the variables of `env`, when it has one. -/
def scalar? (env : Env) : Expr → Option Scalar
  | .int .. => some .int
  | .bool .. => some .bool
  | .name _ x => (env.lookup x.name).map Variable.type
  | .binary _ op left right =>
    (left.scalar? env).bind fun a => (right.scalar? env).bind fun b => op.type? a b
  | .unary _ op operand => (operand.scalar? env).bind op.type?
  | _ => none

def eval (arith : Arithmetic) (env : Env) (cells : Cells) : Expr → Option Datum
  | .int _ n => some (.int n)
  | .bool _ b => some (.bool b)
  | .name _ x => (env.lookup x.name).bind fun v => (cells v.id).bind v.type.read
  | .binary _ op left right =>
    (left.eval arith env cells).bind fun a =>
      (right.eval arith env cells).bind fun b => op.eval arith a b
  | .unary _ op operand => (operand.eval arith env cells).bind (op.eval arith)
  | _ => none

/-- Whether an expression assigns a value to a variable of its type. -/
def isUpdate (env : Env) : Expr → Bool
  | .assign _ (.name _ x) value =>
    ((env.lookup x.name).map Variable.type == value.scalar? env) && (value.scalar? env).isSome
  | _ => false

/-- The cells after an assignment. -/
def update (arith : Arithmetic) (env : Env) (cells : Cells) : Expr → Option Cells
  | .assign _ (.name _ x) value =>
    (env.lookup x.name).bind fun v =>
      (value.eval arith env cells).map fun d => cells.set v.id d.word
  | _ => none

/-- The cells after an assignment that may be left out. -/
def updateIf (arith : Arithmetic) (env : Env) (cells : Cells) : Option Expr → Option Cells
  | none => some cells
  | some e => e.update arith env cells

/-- The values of some expressions in order. -/
def evalAll (arith : Arithmetic) (env : Env) (cells : Cells) : List Expr → Option (List Datum)
  | [] => some []
  | e :: rest =>
    (e.eval arith env cells).bind fun d => (evalAll arith env cells rest).map (d :: ·)

/-- A value has the type of its expression. -/
theorem eval_type {arith : Arithmetic} {env : Env} {cells : Cells} :
    ∀ {e : Expr} {d : Datum}, e.eval arith env cells = some d → e.scalar? env = some d.type
  | .int .., _, found | .bool .., _, found => by
    cases found
    rfl
  | .name _ x, d, found => by
    obtain ⟨v, bound, found⟩ := Option.bind_eq_some_iff.mp found
    obtain ⟨word, -, found⟩ := Option.bind_eq_some_iff.mp found
    simp [scalar?, bound, (Scalar.read_word found).2]
  | .binary _ op left right, d, found => by
    obtain ⟨a, leftFound, found⟩ := Option.bind_eq_some_iff.mp found
    obtain ⟨b, rightFound, found⟩ := Option.bind_eq_some_iff.mp found
    simp [scalar?, eval_type leftFound, eval_type rightFound, BinaryOp.eval_type found]
  | .unary _ op operand, d, found => by
    obtain ⟨a, operandFound, found⟩ := Option.bind_eq_some_iff.mp found
    simp [scalar?, eval_type operandFound, UnaryOp.eval_type found]

end Expr

/-! ## Statements -/

namespace Stmt

mutual

/-- Whether a statement is one over numbers and truth values: it declares no other variables, and its
expressions are typed or assign to a variable. What is left by `break` is a loop in it, or around it if
`inLoop` says so. -/
def isScalar (env : Env) (inLoop : Bool) : Stmt → Bool
  | .block _ decls body => decls.all Decl.isScalar && areScalar (Env.declare env decls) inLoop body
  | .ifThen _ test body => test.scalar? env == some .bool && body.isScalar env inLoop
  | .ifElse _ test yes no =>
    test.scalar? env == some .bool && yes.isScalar env inLoop && no.isScalar env inLoop
  | .whileLoop _ test body => test.scalar? env == some .bool && body.isScalar env true
  | .forLoop _ init test step body =>
    init.all (Expr.isUpdate env) && test.scalar? env == some .bool && step.all (Expr.isUpdate env) &&
      body.isScalar env true
  | .ret _ value => value.all fun e => (e.scalar? env).isSome
  | .print _ args => args.all fun e => (e.scalar? env).isSome
  | .leave _ => inLoop
  | .expr _ e => e.isUpdate env
  | .knot _ => false

def areScalar (env : Env) (inLoop : Bool) : List Stmt → Bool
  | [] => true
  | s :: rest => s.isScalar env inLoop && areScalar env inLoop rest

end

end Stmt

/-- What is run: a statement, some in a row, or a loop that is at its test. -/
inductive Task where
  | stmt (s : Stmt)
  | all (body : List Stmt)
  | loop (test : Expr) (step : Option Expr) (body : Stmt)

/-- How a task ends: it comes to its end, leaves the loop around it, or returns from the function. -/
inductive Exit where
  | normal
  | left
  | returned (value : Option Datum)
  deriving DecidableEq

/-- The value that a function has when its body ends so. -/
def Exit.value? : Exit → Option Datum
  | .returned value => value
  | .normal | .left => none

/-- A task runs from some cells to others, prints data in order, and ends. -/
inductive Exec (arith : Arithmetic) : Env → Task → Cells → List Datum → Exit → Cells → Prop where
  | block {env : Env} {c c' : Cells} {out : List Datum} {exit : Exit} {site : StmtSite}
      {decls : List Decl} {body : List Stmt}
      (inside : Exec arith (Env.declare env decls) (.all body) c out exit c') :
      Exec arith env (.stmt (.block site decls body)) c out exit c'
  | taken {env : Env} {c c' : Cells} {out : List Datum} {exit : Exit} {site : StmtSite} {test : Expr}
      {body : Stmt} (holds : test.eval arith env c = some (.bool true))
      (inside : Exec arith env (.stmt body) c out exit c') :
      Exec arith env (.stmt (.ifThen site test body)) c out exit c'
  | skipped {env : Env} {c : Cells} {site : StmtSite} {test : Expr} {body : Stmt}
      (fails : test.eval arith env c = some (.bool false)) :
      Exec arith env (.stmt (.ifThen site test body)) c [] .normal c
  | chosen {env : Env} {c c' : Cells} {out : List Datum} {exit : Exit} {site : StmtSite} {test : Expr}
      {yes no : Stmt} (holds : test.eval arith env c = some (.bool true))
      (inside : Exec arith env (.stmt yes) c out exit c') :
      Exec arith env (.stmt (.ifElse site test yes no)) c out exit c'
  | other {env : Env} {c c' : Cells} {out : List Datum} {exit : Exit} {site : StmtSite} {test : Expr}
      {yes no : Stmt} (fails : test.eval arith env c = some (.bool false))
      (inside : Exec arith env (.stmt no) c out exit c') :
      Exec arith env (.stmt (.ifElse site test yes no)) c out exit c'
  | whileLoop {env : Env} {c c' : Cells} {out : List Datum} {exit : Exit} {site : StmtSite} {test : Expr}
      {body : Stmt} (rounds : Exec arith env (.loop test none body) c out exit c') :
      Exec arith env (.stmt (.whileLoop site test body)) c out exit c'
  | forLoop {env : Env} {c c₁ c' : Cells} {out : List Datum} {exit : Exit} {site : StmtSite}
      {init step : Option Expr} {test : Expr} {body : Stmt}
      (starts : Expr.updateIf arith env c init = some c₁)
      (rounds : Exec arith env (.loop test step body) c₁ out exit c') :
      Exec arith env (.stmt (.forLoop site init test step body)) c out exit c'
  | ret {env : Env} {c : Cells} {site : StmtSite} {e : Expr} {d : Datum}
      (found : e.eval arith env c = some d) :
      Exec arith env (.stmt (.ret site (some e))) c [] (.returned (some d)) c
  | retNone {env : Env} {c : Cells} {site : StmtSite} :
      Exec arith env (.stmt (.ret site none)) c [] (.returned none) c
  | print {env : Env} {c : Cells} {site : StmtSite} {args : List Expr} {out : List Datum}
      (found : Expr.evalAll arith env c args = some out) :
      Exec arith env (.stmt (.print site args)) c out .normal c
  | leave {env : Env} {c : Cells} {site : StmtSite} : Exec arith env (.stmt (.leave site)) c [] .left c
  | expr {env : Env} {c c' : Cells} {site : StmtSite} {e : Expr}
      (assigns : e.update arith env c = some c') :
      Exec arith env (.stmt (.expr site e)) c [] .normal c'
  | nil {env : Env} {c : Cells} : Exec arith env (.all []) c [] .normal c
  | cons {env : Env} {c c₁ c' : Cells} {out₁ out₂ : List Datum} {exit : Exit} {s : Stmt}
      {rest : List Stmt} (first : Exec arith env (.stmt s) c out₁ .normal c₁)
      (later : Exec arith env (.all rest) c₁ out₂ exit c') :
      Exec arith env (.all (s :: rest)) c (out₁ ++ out₂) exit c'
  | stop {env : Env} {c c' : Cells} {out : List Datum} {exit : Exit} {s : Stmt} {rest : List Stmt}
      (first : Exec arith env (.stmt s) c out exit c') (ends : exit ≠ .normal) :
      Exec arith env (.all (s :: rest)) c out exit c'
  | ended {env : Env} {c : Cells} {test : Expr} {step : Option Expr} {body : Stmt}
      (fails : test.eval arith env c = some (.bool false)) :
      Exec arith env (.loop test step body) c [] .normal c
  | again {env : Env} {c c₁ c₂ c' : Cells} {out₁ out₂ : List Datum} {exit : Exit} {test : Expr}
      {step : Option Expr} {body : Stmt} (holds : test.eval arith env c = some (.bool true))
      (inside : Exec arith env (.stmt body) c out₁ .normal c₁)
      (steps : Expr.updateIf arith env c₁ step = some c₂)
      (rounds : Exec arith env (.loop test step body) c₂ out₂ exit c') :
      Exec arith env (.loop test step body) c (out₁ ++ out₂) exit c'
  | broken {env : Env} {c c' : Cells} {out : List Datum} {test : Expr} {step : Option Expr} {body : Stmt}
      (holds : test.eval arith env c = some (.bool true))
      (inside : Exec arith env (.stmt body) c out .left c') :
      Exec arith env (.loop test step body) c out .normal c'
  | gone {env : Env} {c c' : Cells} {out : List Datum} {value : Option Datum} {test : Expr}
      {step : Option Expr} {body : Stmt} (holds : test.eval arith env c = some (.bool true))
      (inside : Exec arith env (.stmt body) c out (.returned value) c') :
      Exec arith env (.loop test step body) c out (.returned value) c'

end DecafTac
