import DecafTac.Source.Node
import DecafTac.Source.Operator
import DecafTac.Source.TypeExpr

/-!
Syntax trees. Every node carries its own number, so a tree can be walked by recursion while tables
about its nodes are kept beside it. Declarations stand where their name is written; statements and
expressions carry the span they cover.

A node may name itself as its own child. No finite tree unfolds such a node, so a `knot` stands in
the place of the child; nothing lies below it.
-/
namespace DecafTac

/-- Number and extent of an expression. -/
structure ExprSite where
  id : ExprId
  span : Span
  deriving DecidableEq, Inhabited

/-- Number and extent of a statement. -/
structure StmtSite where
  id : StmtId
  span : Span
  deriving DecidableEq, Inhabited

inductive Expr where
  | int (site : ExprSite) (value : Int)
  /-- A double constant, by its bits. -/
  | double (site : ExprSite) (bits : UInt64)
  | bool (site : ExprSite) (value : Bool)
  | string (site : ExprSite) (value : String)
  | null (site : ExprSite)
  | binary (site : ExprSite) (op : BinaryOp) (left right : Expr)
  | unary (site : ExprSite) (op : UnaryOp) (operand : Expr)
  | assign (site : ExprSite) (target value : Expr)
  /-- A bare name. -/
  | name (site : ExprSite) (name : Ident)
  /-- A field of an object. -/
  | field (site : ExprSite) (object : Expr) (name : Ident)
  /-- An element of an array. -/
  | element (site : ExprSite) (array index : Expr)
  /-- A call with no receiver written. -/
  | call (site : ExprSite) (name : Ident) (actuals : List Expr)
  /-- A call on a receiver. -/
  | send (site : ExprSite) (receiver : Expr) (name : Ident) (actuals : List Expr)
  | new (site : ExprSite) (cls : Ident)
  | newArray (site : ExprSite) (size : Expr) (element : TypeExpr)
  | this (site : ExprSite)
  | readInteger (site : ExprSite)
  | readLine (site : ExprSite)
  /-- The expression in which this stands. -/
  | knot (id : ExprId)

namespace Expr

def site : Expr → ExprSite
  | .int site _ | .double site _ | .bool site _ | .string site _ | .null site => site
  | .binary site .. | .unary site .. | .assign site .. => site
  | .name site _ | .field site .. | .element site .. => site
  | .call site .. | .send site .. | .new site _ | .newArray site .. => site
  | .this site | .readInteger site | .readLine site => site
  | .knot id => ⟨id, default⟩

def id (e : Expr) : ExprId := e.site.id

def span (e : Expr) : Span := e.site.span

/-- Whether the expression names storage that can be assigned to. -/
def isPlace : Expr → Bool
  | .name .. | .field .. | .element .. => true
  | _ => false

end Expr

mutual

inductive Decl where
  /-- A variable, a field or a formal. -/
  | var (id : DeclId) (name : Ident) (type : TypeExpr)
  | cls (id : DeclId) (name : Ident) (superclass : Option Ident) (interfaces : List Ident)
      (members : List Decl)
  | interface (id : DeclId) (name : Ident) (members : List Decl)
  /-- A function with no body. -/
  | prototype (id : DeclId) (name : Ident) (result : TypeExpr) (formals : List Decl)
  | function (id : DeclId) (name : Ident) (result : TypeExpr) (formals : List Decl) (body : Stmt)

inductive Stmt where
  /-- A block declares before it acts. -/
  | block (site : StmtSite) (decls : List Decl) (stmts : List Stmt)
  | ifThen (site : StmtSite) (test : Expr) (body : Stmt)
  | ifElse (site : StmtSite) (test : Expr) (yes no : Stmt)
  | whileLoop (site : StmtSite) (test : Expr) (body : Stmt)
  | forLoop (site : StmtSite) (init : Option Expr) (test : Expr) (step : Option Expr) (body : Stmt)
  | ret (site : StmtSite) (value : Option Expr)
  | print (site : StmtSite) (args : List Expr)
  | leave (site : StmtSite)
  | expr (site : StmtSite) (expr : Expr)
  /-- The statement in which this stands. -/
  | knot (id : StmtId)

end

namespace Stmt

def site : Stmt → StmtSite
  | .block site .. | .ifThen site .. | .ifElse site .. => site
  | .whileLoop site .. | .forLoop site .. => site
  | .ret site _ | .print site _ | .leave site | .expr site _ => site
  | .knot id => ⟨id, default⟩

def id (s : Stmt) : StmtId := s.site.id

def span (s : Stmt) : Span := s.site.span

def isLoop : Stmt → Bool
  | .whileLoop .. | .forLoop .. => true
  | _ => false

end Stmt

/-- What a declaration declares. -/
inductive DeclKind where
  | var
  | cls
  | interface
  | function
  deriving DecidableEq, Inhabited

def DeclKind.text : DeclKind → String
  | .var => "variable"
  | .cls => "class"
  | .interface => "interface"
  | .function => "function"

/-- Result type and formals of a function. -/
structure Signature where
  result : TypeExpr
  formals : List Decl

namespace Decl

def id : Decl → DeclId
  | .var id .. | .cls id .. | .interface id .. | .prototype id .. | .function id .. => id

def ident : Decl → Ident
  | .var _ name _ | .cls _ name .. | .interface _ name _ => name
  | .prototype _ name .. | .function _ name .. => name

def name (d : Decl) : String := d.ident.name

/-- A declaration stands where its name is written. -/
def span (d : Decl) : Span := d.ident.span

def kind : Decl → DeclKind
  | .var .. => .var
  | .cls .. => .cls
  | .interface .. => .interface
  | .prototype .. | .function .. => .function

/-- The type of a variable. -/
def varType? : Decl → Option TypeExpr
  | .var _ _ type => some type
  | _ => none

/-- The signature of a function, with or without a body. -/
def signature? : Decl → Option Signature
  | .prototype _ _ result formals => some ⟨result, formals⟩
  | .function _ _ result formals _ => some ⟨result, formals⟩
  | _ => none

def isClass (d : Decl) : Bool := d.kind == .cls

def isFunction (d : Decl) : Bool := d.kind == .function

mutual

/-- How many declarations there are in a declaration, itself included. -/
def count : Decl → Nat
  | .var .. => 1
  | .cls _ _ _ _ members => 1 + countAll members
  | .interface _ _ members => 1 + countAll members
  | .prototype _ _ _ formals => 1 + countAll formals
  | .function _ _ _ formals body => 1 + countAll formals + countIn body

def countAll : List Decl → Nat
  | [] => 0
  | d :: rest => d.count + countAll rest

/-- How many declarations there are in a statement. -/
def countIn : Stmt → Nat
  | .block _ decls stmts => countAll decls + countInAll stmts
  | .ifThen _ _ body | .whileLoop _ _ body | .forLoop _ _ _ _ body => countIn body
  | .ifElse _ _ yes no => countIn yes + countIn no
  | .ret .. | .print .. | .leave .. | .expr .. | .knot .. => 0

def countInAll : List Stmt → Nat
  | [] => 0
  | s :: rest => countIn s + countInAll rest

end

end Decl

end DecafTac
