import DecafTac.Scope.Graph

/-!
Entering a program into scopes. Classes, interfaces, functions, blocks, conditionals and loops each
open a scope, and every declaration is entered into the scope that is open where it stands. Nothing is
looked up yet, so a name may be used before it is declared.
-/
namespace DecafTac

/-- A class and the scope that it opened. -/
structure ClassScope where
  cls : DeclId
  scope : ScopeId
  deriving DecidableEq, Inhabited

/-- The scopes of a program, and its classes in the order in which they are met. -/
structure Entered where
  graph : ScopeGraph := {}
  classes : List ClassScope := []

namespace Entered

/-- Enters a declaration into a scope. -/
def declare (entered : Entered) (scope : ScopeId) (name : Ident) (id : DeclId) : Entered :=
  { entered with graph := entered.graph.enter scope name.name id }

/-- Opens a scope; its number is `entered.graph.next`. -/
def openIn (entered : Entered) (scope : ScopeId) (owner : Node) : Entered :=
  { entered with graph := entered.graph.openIn scope owner }

/-- Notes a class with its scope. -/
def note (entered : Entered) (cls : DeclId) (scope : ScopeId) : Entered :=
  { entered with classes := entered.classes ++ [⟨cls, scope⟩] }

mutual

/-- Enters a declaration, and all that it holds, into the scope `here`. -/
def enterDecl (here : ScopeId) : Decl → Entered → Entered
  | .var id name _, entered => entered.declare here name id
  | .cls id name _ _ members, entered =>
    let declared := entered.declare here name id
    let inner := declared.graph.next
    enterDecls inner members ((declared.openIn here (.decl id)).note id inner)
  | .interface id name members, entered =>
    let declared := entered.declare here name id
    enterDecls declared.graph.next members (declared.openIn here (.decl id))
  | .prototype id name _ formals, entered =>
    let declared := entered.declare here name id
    enterDecls declared.graph.next formals (declared.openIn here (.decl id))
  | .function id name _ formals body, entered =>
    let declared := entered.declare here name id
    let inner := declared.graph.next
    enterStmt inner body (enterDecls inner formals (declared.openIn here (.decl id)))

def enterDecls (here : ScopeId) : List Decl → Entered → Entered
  | [], entered => entered
  | decl :: rest, entered => enterDecls here rest (enterDecl here decl entered)

/-- Enters what a statement declares. -/
def enterStmt (here : ScopeId) : Stmt → Entered → Entered
  | .block site decls stmts, entered =>
    let inner := entered.graph.next
    enterStmts inner stmts (enterDecls inner decls (entered.openIn here (.stmt site.id)))
  | .ifThen site _ body, entered =>
    enterStmt entered.graph.next body (entered.openIn here (.stmt site.id))
  | .ifElse site _ yes no, entered =>
    let inner := entered.graph.next
    enterStmt inner no (enterStmt inner yes (entered.openIn here (.stmt site.id)))
  | .whileLoop site _ body, entered =>
    enterStmt entered.graph.next body (entered.openIn here (.stmt site.id))
  | .forLoop site _ _ _ body, entered =>
    enterStmt entered.graph.next body (entered.openIn here (.stmt site.id))
  | .ret .., entered | .print .., entered | .leave .., entered => entered
  | .expr .., entered | .knot .., entered => entered

def enterStmts (here : ScopeId) : List Stmt → Entered → Entered
  | [], entered => entered
  | stmt :: rest, entered => enterStmts here rest (enterStmt here stmt entered)

end

end Entered

/-- The scopes and classes of a program. -/
def Program.entered (program : Program) : Entered :=
  Entered.enterDecls ScopeGraph.global program.top {}

end DecafTac
