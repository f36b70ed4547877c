import DecafTac.Diagnostic
import DecafTac.Scope.Entering

/-!
What a program must satisfy once its classes are linked. Of the declarations of one name in one scope
all but the earliest in the source are reported; types that are named must be there; `this` must stand
below a class; and a method must agree with every method of its name that its class inherits from a
superclass or an interface, however far away. All faults are reported, in the order of the source.
-/
namespace DecafTac.Check

/-! ## Names -/

/-- Whether a declaration comes first in the source; among those in one place the one made first. -/
def earlier (a b : Decl) : Bool :=
  if a.span = b.span then a.id.index ≤ b.id.index else a.span ≤ b.span

/-- The earliest of some declarations. -/
def earliest : List Decl → Option Decl
  | [] => none
  | decl :: rest =>
    match earliest rest with
    | none => some decl
    | some other => some (if earlier decl other then decl else other)

/-- Reports a declaration unless it is the earliest of its name in the scope. -/
def redeclaration (arena : Arena) (graph : ScopeGraph) (here : ScopeId) (decl : Decl) :
    Except Dangling Diagnostics := do
  let same ← (← graph.bindings here decl.name).mapM arena.decl
  match earliest same with
  | none => return []
  | some first =>
    return if first.id = decl.id then [] else [.declConflict decl.name decl.span first.span]

/-- Reports a name that means nothing of the given kinds. -/
def named (arena : Arena) (graph : ScopeGraph) (here : ScopeId) (kinds : List DeclKind)
    (name : Ident) : Except Dangling Diagnostics := do
  match ← graph.findDecl arena here name.name kinds with
  | some _ => return []
  | none => return [.identifierNotDeclared name.name .cls name.span]

/-- Reports a type whose innermost name means neither a class nor an interface. -/
def typed (arena : Arena) (graph : ScopeGraph) (here : ScopeId) (type : TypeExpr) :
    Except Dangling Diagnostics :=
  match type.innermostNamed with
  | some name => named arena graph here [.cls, .interface] name
  | none => .ok []

/-! ## Overriding -/

/-- Whether two formals are variables of equivalent types. -/
def formalsAgree (a b : Decl) : Bool :=
  match a.varType?, b.varType? with
  | some a, some b => a.equivalent b
  | _, _ => false

/-- Whether two functions can stand for one another at a call. -/
def signaturesAgree (a b : Signature) : Bool :=
  a.result.equivalent b.result && a.formals.length == b.formals.length &&
    (a.formals.zip b.formals).all fun pair => formalsAgree pair.1 pair.2

/-- Whether a scope binds the name to anything but a function of an agreeing signature. -/
def clashes (arena : Arena) (name : String) (signature : Signature) (scope : Scope) :
    Except Dangling Bool :=
  match scope.binding? name with
  | none => .ok false
  | some id => do
    match (← arena.decl id).signature? with
    | some inherited => return !signaturesAgree signature inherited
    | none => return true

/-- Whether some scope clashes among those pending and those above them that were not visited; the
nearest are visited first, and no more than `limit` in all. -/
def clashAbove (graph : ScopeGraph) (clash : Scope → Except Dangling Bool) :
    (limit : Nat) → (visited pending : List ScopeId) → Except Dangling Bool
  | 0, _, _ => .ok false
  | limit + 1, visited, pending =>
    match pending.dropWhile visited.contains with
    | [] => .ok false
    | id :: rest => do
      let scope ← graph.scope id
      if ← clash scope then return true
      else clashAbove graph clash limit (id :: visited) (rest ++ scope.supertypes)

/-- Reports a method that clashes with one its class inherits, once however many there are. -/
def overriding (arena : Arena) (graph : ScopeGraph) (id : DeclId) (name : Ident)
    (signature : Signature) : Except Dangling Diagnostics :=
  match arena.owningClass id with
  | none => .ok []
  | some cls =>
    match graph.scopeOf (.decl cls) with
    | none => .ok []
    | some own => do
      let above := (← graph.scope own).supertypes
      let clash ← clashAbove graph (clashes arena name.name signature) (graph.size + 1) [own] above
      if clash then return [.overrideMismatch (← arena.decl cls).name name.name name.span]
      else return []

/-! ## Walking the program -/

mutual

/-- Reports what is wrong in an expression that stands in the scope `here`. -/
def expr (arena : Arena) (graph : ScopeGraph) (here : ScopeId) :
    Expr → Except Dangling Diagnostics
  | .int .. | .double .. | .bool .. | .string .. | .null .. => .ok []
  | .readInteger .. | .readLine .. | .name .. | .knot .. => .ok []
  | .this site =>
    match arena.enclosingClass (.expr site.id) with
    | some _ => .ok []
    | none => .ok [.thisOutsideClassScope site.span]
  | .binary _ _ left right => do
    return (← expr arena graph here left) ++ (← expr arena graph here right)
  | .unary _ _ operand => expr arena graph here operand
  | .assign _ target value => do
    return (← expr arena graph here target) ++ (← expr arena graph here value)
  | .field _ object _ => expr arena graph here object
  | .element _ array index => do
    return (← expr arena graph here array) ++ (← expr arena graph here index)
  | .call _ _ actuals => exprs arena graph here actuals
  | .send _ receiver _ actuals => do
    return (← expr arena graph here receiver) ++ (← exprs arena graph here actuals)
  | .new _ cls => named arena graph here [.cls] cls
  | .newArray _ size element => do
    return (← expr arena graph here size) ++ (← typed arena graph here element)

def exprs (arena : Arena) (graph : ScopeGraph) (here : ScopeId) :
    List Expr → Except Dangling Diagnostics
  | [] => .ok []
  | e :: rest => do return (← expr arena graph here e) ++ (← exprs arena graph here rest)

end

/-- Reports what is wrong in an expression that may be left out. -/
def optional (arena : Arena) (graph : ScopeGraph) (here : ScopeId) :
    Option Expr → Except Dangling Diagnostics
  | none => .ok []
  | some e => expr arena graph here e

/-- The scope that a node opened, or the one around it. -/
def within (graph : ScopeGraph) (here : ScopeId) (node : Node) : ScopeId :=
  (graph.scopeOf node).getD here

mutual

/-- Reports what is wrong in a declaration entered into the scope `here`. A result type is looked for
where the function is declared, not inside it. -/
def decl (arena : Arena) (graph : ScopeGraph) (here : ScopeId) : Decl → Except Dangling Diagnostics
  | d@(.var _ _ type) => do
    return (← redeclaration arena graph here d) ++ (← typed arena graph here type)
  | d@(.cls id _ _ _ members) => do
    return (← redeclaration arena graph here d) ++
      (← decls arena graph (within graph here (.decl id)) members)
  | d@(.interface id _ members) => do
    return (← redeclaration arena graph here d) ++
      (← decls arena graph (within graph here (.decl id)) members)
  | d@(.prototype id name result formals) => do
    return (← redeclaration arena graph here d) ++ (← typed arena graph here result) ++
      (← decls arena graph (within graph here (.decl id)) formals) ++
      (← overriding arena graph id name ⟨result, formals⟩)
  | d@(.function id name result formals body) => do
    return (← redeclaration arena graph here d) ++ (← typed arena graph here result) ++
      (← decls arena graph (within graph here (.decl id)) formals) ++
      (← overriding arena graph id name ⟨result, formals⟩) ++
      (← stmt arena graph (within graph here (.decl id)) body)

def decls (arena : Arena) (graph : ScopeGraph) (here : ScopeId) :
    List Decl → Except Dangling Diagnostics
  | [] => .ok []
  | d :: rest => do return (← decl arena graph here d) ++ (← decls arena graph here rest)

/-- Reports what is wrong in a statement that stands in the scope `here`. -/
def stmt (arena : Arena) (graph : ScopeGraph) (here : ScopeId) : Stmt → Except Dangling Diagnostics
  | .block site locals body => do
    let inner := within graph here (.stmt site.id)
    return (← decls arena graph inner locals) ++ (← stmts arena graph inner body)
  | .ifThen site test body => do
    let inner := within graph here (.stmt site.id)
    return (← expr arena graph inner test) ++ (← stmt arena graph inner body)
  | .ifElse site test yes no => do
    let inner := within graph here (.stmt site.id)
    return (← expr arena graph inner test) ++ (← stmt arena graph inner yes) ++
      (← stmt arena graph inner no)
  | .whileLoop site test body => do
    let inner := within graph here (.stmt site.id)
    return (← expr arena graph inner test) ++ (← stmt arena graph inner body)
  | .forLoop site init test step body => do
    let inner := within graph here (.stmt site.id)
    return (← optional arena graph inner init) ++ (← expr arena graph inner test) ++
      (← optional arena graph inner step) ++ (← stmt arena graph inner body)
  | .ret site value => optional arena graph (within graph here (.stmt site.id)) value
  | .print site args => exprs arena graph (within graph here (.stmt site.id)) args
  | .expr site e => expr arena graph (within graph here (.stmt site.id)) e
  | .leave _ | .knot _ => .ok []

def stmts (arena : Arena) (graph : ScopeGraph) (here : ScopeId) :
    List Stmt → Except Dangling Diagnostics
  | [] => .ok []
  | s :: rest => do return (← stmt arena graph here s) ++ (← stmts arena graph here rest)

end

/-- Reports what is wrong in a program with linked scopes. -/
def program (graph : ScopeGraph) (program : Program) : Except Dangling Diagnostics :=
  decls program.arena graph ScopeGraph.global program.top

end DecafTac.Check
