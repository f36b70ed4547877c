import DecafTac.Source.Tree

/-!
Assembling a program. An arena holds every node made so far, numbered by sort in the order of making,
with a link to the node that took it as a child. A `Step` makes one node out of children that are
given by number; it fails when a child does not exist. `Arena.close` ends the assembly by choosing the
top-level declarations.

The branches of a conditional, the body of a loop, the operand of a unary operator and the size of a
new array may also name the node being made: it takes its number before these children are looked
for. Every other child has to be there before.
-/
namespace DecafTac

/-- A node and the node that has it as a child. -/
structure Entry (α : Type) where
  node : α
  parent : Option Node

/-- All nodes made so far, by number. -/
structure Arena where
  decls : Array (Entry Decl) := #[]
  stmts : Array (Entry Stmt) := #[]
  exprs : Array (Entry Expr) := #[]

/-- One node to make, its children given by number. -/
inductive Step where
  | var (name : Ident) (type : TypeExpr)
  | cls (name : Ident) (superclass : Option Ident) (interfaces : List Ident) (members : List DeclId)
  | interface (name : Ident) (members : List DeclId)
  | function (name : Ident) (result : TypeExpr) (formals : List DeclId) (body : Option StmtId)
  | block (decls : List DeclId) (stmts : List StmtId) (span : Span)
  | ifElse (test : ExprId) (yes : StmtId) (no : Option StmtId) (span : Span)
  | whileLoop (test : ExprId) (body : StmtId) (span : Span)
  | forLoop (init : Option ExprId) (test : ExprId) (step : Option ExprId) (body : StmtId)
      (span : Span)
  | ret (value : Option ExprId) (span : Span)
  | print (args : List ExprId) (span : Span)
  | leave (span : Span)
  | expr (expr : ExprId)
  | int (value : Int) (span : Span)
  | double (bits : UInt64) (span : Span)
  | bool (value : Bool) (span : Span)
  | string (value : String) (span : Span)
  | null (span : Span)
  | binary (op : BinaryOp) (left right : ExprId)
  | unary (op : UnaryOp) (operand : ExprId) (span : Span)
  | assign (target value : ExprId)
  | name (name : Ident)
  | field (object : ExprId) (name : Ident)
  | element (array index : ExprId)
  | call (receiver : Option ExprId) (name : Ident) (actuals : List ExprId) (span : Span)
  | new (cls : Ident) (span : Span)
  | newArray (size : ExprId) (element : TypeExpr) (span : Span)
  | this (span : Span)
  | readInteger (span : Span)
  | readLine (span : Span)

namespace Arena

/-! ## Looking nodes up -/

def decl? (arena : Arena) (id : DeclId) : Option Decl := arena.decls[id.index]?.map Entry.node
def stmt? (arena : Arena) (id : StmtId) : Option Stmt := arena.stmts[id.index]?.map Entry.node
def expr? (arena : Arena) (id : ExprId) : Option Expr := arena.exprs[id.index]?.map Entry.node

def decl (arena : Arena) (id : DeclId) : Except Dangling Decl :=
  match arena.decl? id with
  | some d => .ok d
  | none => .error (.decl id)

def stmt (arena : Arena) (id : StmtId) : Except Dangling Stmt :=
  match arena.stmt? id with
  | some s => .ok s
  | none => .error (.stmt id)

def expr (arena : Arena) (id : ExprId) : Except Dangling Expr :=
  match arena.expr? id with
  | some e => .ok e
  | none => .error (.expr id)

/-- Fails when there is no such node. -/
def require (arena : Arena) : Node → Except Dangling Unit
  | .program => .ok ()
  | .decl id => discard (arena.decl id)
  | .stmt id => discard (arena.stmt id)
  | .expr id => discard (arena.expr id)

/-- How many nodes there are. -/
def size (arena : Arena) : Nat := arena.decls.size + arena.stmts.size + arena.exprs.size

/-! ## Parent links -/

/-- Makes `parent` the parent of `child`. -/
def adopt (arena : Arena) (parent : Node) : Node → Arena
  | .program => arena
  | .decl id =>
    { arena with decls := arena.decls.modify id.index fun e => { e with parent := some parent } }
  | .stmt id =>
    { arena with stmts := arena.stmts.modify id.index fun e => { e with parent := some parent } }
  | .expr id =>
    { arena with exprs := arena.exprs.modify id.index fun e => { e with parent := some parent } }

def adoptAll (arena : Arena) (parent : Node) (children : List Node) : Arena :=
  children.foldl (fun arena child => arena.adopt parent child) arena

/-! ## Making nodes -/

def nextDecl (arena : Arena) : DeclId := ⟨arena.decls.size⟩
def nextStmt (arena : Arena) : StmtId := ⟨arena.stmts.size⟩
def nextExpr (arena : Arena) : ExprId := ⟨arena.exprs.size⟩

/-- Adds a declaration and makes it the parent of its children. -/
def pushDecl (arena : Arena) (children : List Node) (make : DeclId → Decl) : Node × Arena :=
  let id := arena.nextDecl
  let grown := { arena with decls := arena.decls.push ⟨make id, none⟩ }
  (.decl id, grown.adoptAll (.decl id) children)

/-- Adds a statement and makes it the parent of its children. -/
def pushStmt (arena : Arena) (span : Span) (children : List Node) (make : StmtSite → Stmt) :
    Node × Arena :=
  let id := arena.nextStmt
  let grown := { arena with stmts := arena.stmts.push ⟨make ⟨id, span⟩, none⟩ }
  (.stmt id, grown.adoptAll (.stmt id) children)

/-- Adds an expression and makes it the parent of its children. -/
def pushExpr (arena : Arena) (span : Span) (children : List Node) (make : ExprSite → Expr) :
    Node × Arena :=
  let id := arena.nextExpr
  let grown := { arena with exprs := arena.exprs.push ⟨make ⟨id, span⟩, none⟩ }
  (.expr id, grown.adoptAll (.expr id) children)

/-- A child statement that may be the statement about to be made. -/
def stmtOrKnot (arena : Arena) (id : StmtId) : Except Dangling Stmt :=
  if id = arena.nextStmt then .ok (.knot id) else arena.stmt id

/-- A child expression that may be the expression about to be made. -/
def exprOrKnot (arena : Arena) (id : ExprId) : Except Dangling Expr :=
  if id = arena.nextExpr then .ok (.knot id) else arena.expr id

/-- Makes one node. A binary operation, an assignment and an element cover both their parts, a field
covers its object and its name, and an expression statement covers its expression. -/
def add (arena : Arena) : Step → Except Dangling (Node × Arena)
  | .var name type => return arena.pushDecl [] (.var · name type)
  | .cls name superclass interfaces members => do
    let trees ← members.mapM arena.decl
    return arena.pushDecl (members.map .decl) (.cls · name superclass interfaces trees)
  | .interface name members => do
    let trees ← members.mapM arena.decl
    return arena.pushDecl (members.map .decl) (.interface · name trees)
  | .function name result formals none => do
    let trees ← formals.mapM arena.decl
    return arena.pushDecl (formals.map .decl) (.prototype · name result trees)
  | .function name result formals (some body) => do
    let trees ← formals.mapM arena.decl
    let tree ← arena.stmt body
    return arena.pushDecl (formals.map .decl ++ [.stmt body]) (.function · name result trees tree)
  | .block decls stmts span => do
    let declTrees ← decls.mapM arena.decl
    let stmtTrees ← stmts.mapM arena.stmt
    return arena.pushStmt span (decls.map .decl ++ stmts.map .stmt) (.block · declTrees stmtTrees)
  | .ifElse test yes none span => do
    let testTree ← arena.expr test
    let yesTree ← arena.stmtOrKnot yes
    return arena.pushStmt span [.expr test, .stmt yes] (.ifThen · testTree yesTree)
  | .ifElse test yes (some no) span => do
    let testTree ← arena.expr test
    let yesTree ← arena.stmtOrKnot yes
    let noTree ← arena.stmtOrKnot no
    return arena.pushStmt span [.expr test, .stmt yes, .stmt no] (.ifElse · testTree yesTree noTree)
  | .whileLoop test body span => do
    let testTree ← arena.expr test
    let bodyTree ← arena.stmtOrKnot body
    return arena.pushStmt span [.expr test, .stmt body] (.whileLoop · testTree bodyTree)
  | .forLoop init test step body span => do
    let initTree ← init.mapM arena.expr
    let testTree ← arena.expr test
    let stepTree ← step.mapM arena.expr
    let bodyTree ← arena.stmtOrKnot body
    return arena.pushStmt span
      (init.toList.map .expr ++ [.expr test] ++ step.toList.map .expr ++ [.stmt body])
      (.forLoop · initTree testTree stepTree bodyTree)
  | .ret value span => do
    let tree ← value.mapM arena.expr
    return arena.pushStmt span (value.toList.map .expr) (.ret · tree)
  | .print args span => do
    let trees ← args.mapM arena.expr
    return arena.pushStmt span (args.map .expr) (.print · trees)
  | .leave span => return arena.pushStmt span [] .leave
  | .expr expr => do
    let tree ← arena.expr expr
    return arena.pushStmt tree.span [.expr expr] (.expr · tree)
  | .int value span => return arena.pushExpr span [] (.int · value)
  | .double bits span => return arena.pushExpr span [] (.double · bits)
  | .bool value span => return arena.pushExpr span [] (.bool · value)
  | .string value span => return arena.pushExpr span [] (.string · value)
  | .null span => return arena.pushExpr span [] .null
  | .binary op left right => do
    let leftTree ← arena.expr left
    let rightTree ← arena.expr right
    return arena.pushExpr (leftTree.span.join rightTree.span) [.expr left, .expr right]
      (.binary · op leftTree rightTree)
  | .unary op operand span => do
    let tree ← arena.exprOrKnot operand
    return arena.pushExpr span [.expr operand] (.unary · op tree)
  | .assign target value => do
    let targetTree ← arena.expr target
    let valueTree ← arena.expr value
    return arena.pushExpr (targetTree.span.join valueTree.span) [.expr target, .expr value]
      (.assign · targetTree valueTree)
  | .name name => return arena.pushExpr name.span [] (.name · name)
  | .field object name => do
    let tree ← arena.expr object
    return arena.pushExpr (tree.span.join name.span) [.expr object] (.field · tree name)
  | .element array index => do
    let arrayTree ← arena.expr array
    let indexTree ← arena.expr index
    return arena.pushExpr (arrayTree.span.join indexTree.span) [.expr array, .expr index]
      (.element · arrayTree indexTree)
  | .call none name actuals span => do
    let trees ← actuals.mapM arena.expr
    return arena.pushExpr span (actuals.map .expr) (.call · name trees)
  | .call (some receiver) name actuals span => do
    let tree ← arena.expr receiver
    let trees ← actuals.mapM arena.expr
    return arena.pushExpr span (.expr receiver :: actuals.map .expr) (.send · tree name trees)
  | .new cls span => return arena.pushExpr span [] (.new · cls)
  | .newArray size element span => do
    let tree ← arena.exprOrKnot size
    return arena.pushExpr span [.expr size] (.newArray · tree element)
  | .this span => return arena.pushExpr span [] .this
  | .readInteger span => return arena.pushExpr span [] .readInteger
  | .readLine span => return arena.pushExpr span [] .readLine

/-! ## Ancestors -/

/-- The node that has `node` as a child, if one took it. -/
def parent? (arena : Arena) : Node → Option Node
  | .program => none
  | .decl id => arena.decls[id.index]?.bind Entry.parent
  | .stmt id => arena.stmts[id.index]?.bind Entry.parent
  | .expr id => arena.exprs[id.index]?.bind Entry.parent

/-- The nearest `limit` ancestors of a node, innermost first. -/
def climb (arena : Arena) : (limit : Nat) → Node → List Node
  | 0, _ => []
  | limit + 1, node =>
    match arena.parent? node with
    | none => []
    | some parent => parent :: arena.climb limit parent

/-- The ancestors of a node, innermost first. A chain that repeats no node is no longer than the
number of nodes, the program among them. -/
def ancestors (arena : Arena) (node : Node) : List Node := arena.climb (arena.size + 1) node

/-- The declaration that a node is, when `holds` of it. -/
def declWhere (arena : Arena) (holds : Decl → Bool) : Node → Option DeclId
  | .decl id => if (arena.decl? id).any holds then some id else none
  | _ => none

/-- The nearest class around a node. -/
def enclosingClass (arena : Arena) (node : Node) : Option DeclId :=
  (arena.ancestors node).findSome? (arena.declWhere Decl.isClass)

/-- The nearest function around a node. -/
def enclosingFunction (arena : Arena) (node : Node) : Option DeclId :=
  (arena.ancestors node).findSome? (arena.declWhere Decl.isFunction)

/-- The loop that a node is. -/
def loopAt (arena : Arena) : Node → Option StmtId
  | .stmt id => if (arena.stmt? id).any Stmt.isLoop then some id else none
  | _ => none

/-- Whether a node lies inside a function body, as statements and expressions do. -/
def isInner : Node → Bool
  | .stmt _ | .expr _ => true
  | .program | .decl _ => false

/-- The nearest loop around a node. The search ends at the first declaration. -/
def enclosingLoop (arena : Arena) (node : Node) : Option StmtId :=
  ((arena.ancestors node).takeWhile isInner).findSome? arena.loopAt

/-- The class that has a declaration as a member. -/
def owningClass (arena : Arena) (id : DeclId) : Option DeclId :=
  (arena.parent? (.decl id)).bind (arena.declWhere Decl.isClass)

end Arena

/-- An assembled program: its nodes and its top-level declarations in order. -/
structure Program where
  arena : Arena
  top : List Decl

namespace Arena

/-- Ends the assembly with the given top-level declarations. -/
def close (arena : Arena) (top : List DeclId) : Except Dangling Program := do
  let trees ← top.mapM arena.decl
  return ⟨arena.adoptAll .program (top.map .decl), trees⟩

end Arena

/-- Names of all declarations made, each once, in increasing order. -/
def Program.declaredNames (program : Program) : List String :=
  (program.arena.decls.toList.map (·.node.name)).eraseDups.mergeSort fun a b => decide (a ≤ b)

end DecafTac
