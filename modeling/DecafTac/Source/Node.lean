/-!
Numbers of nodes and scopes. Declarations, statements and expressions are numbered apart, each from
zero in the order in which they are made, and scopes likewise.
-/
namespace DecafTac

structure DeclId where
  index : Nat
  deriving DecidableEq, Inhabited

structure StmtId where
  index : Nat
  deriving DecidableEq, Inhabited

structure ExprId where
  index : Nat
  deriving DecidableEq, Inhabited

structure ScopeId where
  index : Nat
  deriving DecidableEq, Inhabited

def DeclId.text (id : DeclId) : String := "decl_" ++ toString id.index
def StmtId.text (id : StmtId) : String := "stmt_" ++ toString id.index
def ExprId.text (id : ExprId) : String := "expr_" ++ toString id.index
def ScopeId.text (id : ScopeId) : String := "scope_" ++ toString id.index

/-- Any node of a program; the program itself is the root. -/
inductive Node where
  | program
  | decl (id : DeclId)
  | stmt (id : StmtId)
  | expr (id : ExprId)
  deriving DecidableEq, Inhabited

namespace Node

def text : Node → String
  | .program => "program"
  | .decl id => id.text
  | .stmt id => id.text
  | .expr id => id.text

/-- The node that is written so. -/
def ofText? (word : String) : Option Node :=
  match word.splitOn "_" with
  | ["program"] => some .program
  | ["decl", index] => index.toNat?.map (.decl ⟨·⟩)
  | ["stmt", index] => index.toNat?.map (.stmt ⟨·⟩)
  | ["expr", index] => index.toNat?.map (.expr ⟨·⟩)
  | _ => none

end Node

/-- A number that belongs to no node or scope. -/
inductive Dangling where
  | decl (id : DeclId)
  | stmt (id : StmtId)
  | expr (id : ExprId)
  | scope (id : ScopeId)
  deriving DecidableEq

end DecafTac
