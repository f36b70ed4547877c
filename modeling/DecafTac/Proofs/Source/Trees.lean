import DecafTac.Source.Tree

/-!
Trees of any sort, their parts, and all the nodes and trees they hold. A tree is its own node and the
nodes of its parts; everything below about whole trees goes by that one equation.
-/
namespace DecafTac

attribute [ext] DeclId StmtId ExprId ScopeId

/-! ## Trees of any sort -/

/-- A declaration, a statement or an expression. -/
inductive Tree where
  | decl (tree : Decl)
  | stmt (tree : Stmt)
  | expr (tree : Expr)

namespace Tree

def node : Tree → Node
  | .decl d => .decl d.id
  | .stmt s => .stmt s.id
  | .expr e => .expr e.id

end Tree

/-- The parts of an expression. -/
def Expr.children : Expr → List Expr
  | .binary _ _ left right => [left, right]
  | .unary _ _ operand => [operand]
  | .assign _ target value => [target, value]
  | .field _ object _ => [object]
  | .element _ array index => [array, index]
  | .call _ _ actuals => actuals
  | .send _ receiver _ actuals => receiver :: actuals
  | .newArray _ size _ => [size]
  | _ => []

/-- The parts of a statement. -/
def Stmt.children : Stmt → List Tree
  | .block _ decls stmts => decls.map .decl ++ stmts.map .stmt
  | .ifThen _ test body => [.expr test, .stmt body]
  | .ifElse _ test yes no => [.expr test, .stmt yes, .stmt no]
  | .whileLoop _ test body => [.expr test, .stmt body]
  | .forLoop _ init test step body =>
    init.toList.map .expr ++ [.expr test] ++ step.toList.map .expr ++ [.stmt body]
  | .ret _ value => value.toList.map .expr
  | .print _ args => args.map .expr
  | .expr _ e => [.expr e]
  | .leave _ | .knot _ => []

/-- The parts of a declaration. -/
def Decl.children : Decl → List Tree
  | .var .. => []
  | .cls _ _ _ _ members | .interface _ _ members => members.map .decl
  | .prototype _ _ _ formals => formals.map .decl
  | .function _ _ _ formals body => formals.map .decl ++ [.stmt body]

/-- The parts of a tree, each a tree of its own. -/
def Tree.children : Tree → List Tree
  | .decl d => d.children
  | .stmt s => s.children
  | .expr e => e.children.map .expr

/-! ## All nodes of a tree -/

namespace Expr

mutual

/-- The nodes of an expression, itself first. -/
def nodes : Expr → List Node
  | .binary site _ left right => .expr site.id :: (left.nodes ++ right.nodes)
  | .unary site _ operand => .expr site.id :: operand.nodes
  | .assign site target value => .expr site.id :: (target.nodes ++ value.nodes)
  | .field site object _ => .expr site.id :: object.nodes
  | .element site array index => .expr site.id :: (array.nodes ++ index.nodes)
  | .call site _ actuals => .expr site.id :: nodesAll actuals
  | .send site receiver _ actuals => .expr site.id :: (receiver.nodes ++ nodesAll actuals)
  | .newArray site size _ => .expr site.id :: size.nodes
  | .int site _ | .double site _ | .bool site _ | .string site _ | .null site => [.expr site.id]
  | .name site _ | .new site _ | .this site | .readInteger site | .readLine site => [.expr site.id]
  | .knot id => [.expr id]

def nodesAll : List Expr → List Node
  | [] => []
  | e :: rest => e.nodes ++ nodesAll rest

end

end Expr

namespace Decl

mutual

/-- The nodes of a declaration, itself first. -/
def nodes : Decl → List Node
  | .var id _ _ => [.decl id]
  | .cls id _ _ _ members => .decl id :: nodesAll members
  | .interface id _ members => .decl id :: nodesAll members
  | .prototype id _ _ formals => .decl id :: nodesAll formals
  | .function id _ _ formals body => .decl id :: (nodesAll formals ++ nodesIn body)

def nodesAll : List Decl → List Node
  | [] => []
  | d :: rest => d.nodes ++ nodesAll rest

/-- The nodes of a statement, itself first. -/
def nodesIn : Stmt → List Node
  | .block site decls stmts => .stmt site.id :: (nodesAll decls ++ nodesInAll stmts)
  | .ifThen site test body => .stmt site.id :: (test.nodes ++ nodesIn body)
  | .ifElse site test yes no => .stmt site.id :: (test.nodes ++ (nodesIn yes ++ nodesIn no))
  | .whileLoop site test body => .stmt site.id :: (test.nodes ++ nodesIn body)
  | .forLoop site init test step body =>
    .stmt site.id ::
      (Expr.nodesAll init.toList ++ (test.nodes ++ (Expr.nodesAll step.toList ++ nodesIn body)))
  | .ret site value => .stmt site.id :: Expr.nodesAll value.toList
  | .print site args => .stmt site.id :: Expr.nodesAll args
  | .expr site e => .stmt site.id :: e.nodes
  | .leave site => [.stmt site.id]
  | .knot id => [.stmt id]

def nodesInAll : List Stmt → List Node
  | [] => []
  | s :: rest => nodesIn s ++ nodesInAll rest

end

end Decl

namespace Tree

def nodes : Tree → List Node
  | .decl d => d.nodes
  | .stmt s => Decl.nodesIn s
  | .expr e => e.nodes

theorem flatMap_nodes_exprs (es : List Expr) :
    (es.map Tree.expr).flatMap nodes = Expr.nodesAll es := by
  induction es with
  | nil => rfl
  | cons e rest ih => simp [Expr.nodesAll, nodes, ih]

theorem flatMap_nodes_decls (ds : List Decl) :
    (ds.map Tree.decl).flatMap nodes = Decl.nodesAll ds := by
  induction ds with
  | nil => rfl
  | cons d rest ih => simp [Decl.nodesAll, nodes, ih]

theorem flatMap_nodes_stmts (ss : List Stmt) :
    (ss.map Tree.stmt).flatMap nodes = Decl.nodesInAll ss := by
  induction ss with
  | nil => rfl
  | cons s rest ih => simp [Decl.nodesInAll, nodes, ih]

/-- A tree is its own node and the nodes of its parts. -/
theorem nodes_eq (t : Tree) : t.nodes = t.node :: t.children.flatMap nodes := by
  cases t with
  | decl d =>
    cases d <;>
      simp [nodes, node, children, Decl.nodes, Decl.children, Decl.id, flatMap_nodes_decls]
  | stmt s =>
    cases s <;>
      simp [nodes, node, children, Decl.nodesIn, Stmt.children, Stmt.id, Stmt.site,
        flatMap_nodes_decls, flatMap_nodes_stmts, flatMap_nodes_exprs]
  | expr e =>
    cases e <;>
      simp [nodes, node, children, Expr.nodes, Expr.children, Expr.id, Expr.site,
        flatMap_nodes_exprs]

/-- The nodes of a part stand among those of the whole, in the same order. -/
theorem nodes_sublist {t part : Tree} (inside : part ∈ t.children) :
    part.nodes.Sublist (t.children.flatMap nodes) := by
  rw [List.flatMap_def]
  exact List.sublist_flatten_of_mem (List.mem_map_of_mem inside)

/-! ## All trees in a tree -/

theorem part_smaller {t part : Tree} (inside : part ∈ t.children) :
    part.nodes.length < t.nodes.length := by
  rw [nodes_eq t, List.length_cons]
  exact Nat.lt_succ_of_le (nodes_sublist inside).length_le

/-- What a tree has when all its parts have it, every tree has. -/
theorem induction {P : Tree → Prop} (step : ∀ t, (∀ part ∈ t.children, P part) → P t) (t : Tree) :
    P t :=
  step t fun part _ => induction step part
termination_by t.nodes.length
decreasing_by exact part_smaller (by assumption)

/-- A tree and the trees in it, each before those in it. -/
def subtrees (t : Tree) : List Tree := t :: t.children.attach.flatMap fun part => part.1.subtrees
termination_by t.nodes.length
decreasing_by exact part_smaller part.2

theorem subtrees_eq (t : Tree) : t.subtrees = t :: t.children.flatMap subtrees := by
  rw [subtrees]
  simp

theorem nodes_eq_map (t : Tree) : t.nodes = t.subtrees.map node := by
  induction t using induction with
  | step t ih =>
    rw [nodes_eq, subtrees_eq, List.map_cons, List.map_flatMap, List.flatMap_def, List.flatMap_def,
      List.map_congr_left ih]

theorem self_mem_subtrees (t : Tree) : t ∈ t.subtrees := by
  rw [subtrees_eq]
  exact List.mem_cons_self

theorem part_subtrees {t part : Tree} (inside : part ∈ t.children) : part.subtrees ⊆ t.subtrees := by
  intro sub member
  rw [subtrees_eq]
  exact List.mem_cons_of_mem _ (List.mem_flatMap.mpr ⟨part, inside, member⟩)

/-- What passes from every tree to its parts passes to all trees in it. -/
theorem subtrees_all {P : Tree → Prop} (step : ∀ t, P t → ∀ part ∈ t.children, P part) {t : Tree}
    (holds : P t) : ∀ sub ∈ t.subtrees, P sub := by
  induction t using induction with
  | step t ih =>
    intro sub member
    rw [subtrees_eq] at member
    rcases List.mem_cons.mp member with rfl | member
    · exact holds
    · obtain ⟨part, inside, member⟩ := List.mem_flatMap.mp member
      exact ih part inside (step t holds part inside) sub member

theorem subtrees_trans {t sub : Tree} (member : sub ∈ t.subtrees) : sub.subtrees ⊆ t.subtrees :=
  subtrees_all (fun _ within _ inside => List.Subset.trans (part_subtrees inside) within)
    (List.Subset.refl _) sub member

/-- A tree in another is that tree or has fewer nodes. -/
theorem smaller_of_mem_subtrees {t sub : Tree} (member : sub ∈ t.subtrees) :
    sub = t ∨ sub.nodes.length < t.nodes.length := by
  rw [subtrees_eq] at member
  rcases List.mem_cons.mp member with rfl | member
  · exact .inl rfl
  · obtain ⟨part, inside, member⟩ := List.mem_flatMap.mp member
    have within : sub.nodes.length ≤ part.nodes.length := by
      have each := subtrees_all (P := fun sub => sub.nodes.length ≤ part.nodes.length)
        (fun _ small _ inside => Nat.le_trans (Nat.le_of_lt (part_smaller inside)) small)
        (Nat.le_refl _)
      exact each sub member
    exact .inr (Nat.lt_of_le_of_lt within (part_smaller inside))

/-- Two trees that lie in one another are the same. -/
theorem eq_of_mem_subtrees {t sub : Tree} (one : sub ∈ t.subtrees) (other : t ∈ sub.subtrees) :
    sub = t := by
  rcases smaller_of_mem_subtrees one with same | smaller
  · exact same
  · rcases smaller_of_mem_subtrees other with same | larger
    · exact same.symm
    · omega

end Tree

/-- The nodes of a part of a statement are nodes of the statement. -/
theorem Decl.nodesIn_part {s part : Stmt} (inside : .stmt part ∈ s.children) :
    Decl.nodesIn part ⊆ Decl.nodesIn s := by
  intro n member
  have whole : Decl.nodesIn s = (Tree.stmt s).node :: s.children.flatMap Tree.nodes :=
    Tree.nodes_eq (.stmt s)
  rw [whole]
  exact List.mem_cons_of_mem _ ((Tree.nodes_sublist (t := .stmt s) inside).subset member)

end DecafTac
