import DecafTac.Proofs.Scope.Overriding

/-!
What a top-level class sees. Its scope stands in the global scope, and linking leaves it there, so the
name of its superclass is looked for among its members and then among the top-level declarations. Where no
class has a class among its members, all that lies above a top-level class is top-level. In an accepted
program each name means one top-level declaration, and one member of a class.
-/
namespace DecafTac

/-! ## Scopes around scopes -/

namespace ScopeGraph

/-- All scopes, by owner and by the scope around them. -/
def parents (graph : ScopeGraph) : List (Node × Option ScopeId) :=
  graph.scopes.toList.map fun scope => (scope.owner, scope.parent)

theorem parents_modify (graph : ScopeGraph) (id : ScopeId) {f : Scope → Scope}
    (same : ∀ s, ((f s).owner, (f s).parent) = (s.owner, s.parent)) :
    (graph.modify id f).parents = graph.parents := by
  unfold parents modify
  rw [Array.toList_modify]
  refine List.ext_getElem? fun i => ?_
  simp only [List.getElem?_map, List.getElem?_modify]
  cases graph.scopes.toList[i]? with
  | none => rfl
  | some s => by_cases here : id.index = i <;> simp [here, same s]

theorem parents_openIn (graph : ScopeGraph) (parent : ScopeId) (owner : Node) :
    (graph.openIn parent owner).parents = graph.parents ++ [(owner, some parent)] := by
  have attached : (graph.openIn parent owner).parents = (graph.push parent owner).parents :=
    parents_modify (graph.push parent owner) parent fun _ => rfl
  rw [attached]
  simp [parents, push]

end ScopeGraph

namespace Entered

open ScopeGraph

theorem declare_parents (e : Entered) (here : ScopeId) (name : Ident) (id : DeclId) :
    (e.declare here name id).graph.parents = e.graph.parents :=
  parents_modify e.graph here fun _ => rfl

theorem openIn_parents (e : Entered) (here : ScopeId) (owner : Node) :
    (e.openIn here owner).graph.parents = e.graph.parents ++ [(owner, some here)] :=
  parents_openIn e.graph here owner

private theorem openIn_grows (e : Entered) (here : ScopeId) (owner : Node) :
    e.graph.parents <+: (e.openIn here owner).graph.parents := by
  rw [openIn_parents]
  exact List.prefix_append ..

private theorem declare_openIn_grows (e : Entered) (here : ScopeId) (name : Ident) (id : DeclId) :
    e.graph.parents <+: ((e.declare here name id).openIn here (.decl id)).graph.parents := by
  rw [← declare_parents e here name id]
  exact openIn_grows ..

mutual

/-- Scopes that are there stay where they are. -/
theorem enterDecl_grows (here : ScopeId) : (d : Decl) → (e : Entered) →
    e.graph.parents <+: (enterDecl here d e).graph.parents
  | .var id name _, e => ⟨[], by rw [List.append_nil, enterDecl, declare_parents]⟩
  | .cls id name _ _ members, e =>
    (declare_openIn_grows e here name id).trans (enterDecls_grows _ members
      (((e.declare here name id).openIn here (.decl id)).note id _))
  | .interface id name members, e =>
    (declare_openIn_grows e here name id).trans (enterDecls_grows _ members _)
  | .prototype id name _ formals, e =>
    (declare_openIn_grows e here name id).trans (enterDecls_grows _ formals _)
  | .function id name _ formals body, e =>
    (declare_openIn_grows e here name id).trans
      ((enterDecls_grows _ formals _).trans (enterStmt_grows _ body _))

theorem enterDecls_grows (here : ScopeId) : (ds : List Decl) → (e : Entered) →
    e.graph.parents <+: (enterDecls here ds e).graph.parents
  | [], _ => List.prefix_rfl
  | d :: rest, e => (enterDecl_grows here d e).trans (enterDecls_grows here rest _)

theorem enterStmt_grows (here : ScopeId) : (s : Stmt) → (e : Entered) →
    e.graph.parents <+: (enterStmt here s e).graph.parents
  | .block _ decls stmts, e =>
    (openIn_grows e here _).trans ((enterDecls_grows _ decls _).trans (enterStmts_grows _ stmts _))
  | .ifThen _ _ body, e | .whileLoop _ _ body, e | .forLoop _ _ _ _ body, e =>
    (openIn_grows e here _).trans (enterStmt_grows _ body _)
  | .ifElse _ _ yes no, e =>
    (openIn_grows e here _).trans ((enterStmt_grows _ yes _).trans (enterStmt_grows _ no _))
  | .ret .., _ | .print .., _ | .leave .., _ | .expr .., _ | .knot .., _ => List.prefix_rfl

theorem enterStmts_grows (here : ScopeId) : (ss : List Stmt) → (e : Entered) →
    e.graph.parents <+: (enterStmts here ss e).graph.parents
  | [], _ => List.prefix_rfl
  | s :: rest, e => (enterStmt_grows here s e).trans (enterStmts_grows here rest _)

end

/-- The scope of a class stands in the scope that the class is entered into. -/
theorem enterDecl_parent (here : ScopeId) {d : Decl} (isClass : d.isClass = true) (e : Entered) :
    (.decl d.id, some here) ∈ (enterDecl here d e).graph.parents := by
  cases d with
  | cls id name superclass interfaces members =>
    have grows := enterDecls_grows (e.declare here name id).graph.next members
      (((e.declare here name id).openIn here (.decl id)).note id (e.declare here name id).graph.next)
    refine grows.subset ?_
    have opened := openIn_parents (e.declare here name id) here (.decl id)
    exact opened ▸ List.mem_append_right _ List.mem_cons_self
  | var | interface | prototype | function => cases isClass

theorem enterDecls_parent (here : ScopeId) (ds : List Decl) (e : Entered) :
    ∀ d ∈ ds, d.isClass = true → (.decl d.id, some here) ∈ (enterDecls here ds e).graph.parents := by
  induction ds generalizing e with
  | nil => simp
  | cons first rest ih =>
    intro d member isClass
    rcases List.mem_cons.mp member with rfl | member
    · exact (enterDecls_grows here rest _).subset (enterDecl_parent here isClass e)
    · exact ih _ d member isClass

end Entered

/-! ## Classes above a top-level class -/

/-- No top-level class has a class among its members. -/
def Program.Flat (program : Program) : Prop :=
  ∀ id name superclass interfaces members,
    .cls id name superclass interfaces members ∈ program.top → ∀ d ∈ members, d.isClass = false

namespace ScopeGraph

variable {graph : ScopeGraph} {program : Program}

/-- The scopes are those of the program, those of top-level classes stand in the global scope, and such
classes have top-level classes above them. -/
structure Rooted (graph : ScopeGraph) (program : Program) : Prop extends Mirrors graph program where
  root : (Node.program, none) ∈ graph.parents
  outside : ∀ d ∈ program.top, d.isClass = true → (Node.decl d.id, some global) ∈ graph.parents
  above : ∀ d ∈ program.top, d.isClass = true → ∀ id scope up, graph.scope? id = some scope →
    scope.owner = .decl d.id → scope.superclass = some up →
    ∃ high ∈ program.top, high.isClass = true ∧ graph.scopeOf (.decl high.id) = some up

/-- The scope of an owner stands where it is listed. -/
theorem Mirrors.parent (mirrors : graph.Mirrors program) (coherent : program.Coherent) {node : Node}
    {around : Option ScopeId} (listed : (node, around) ∈ graph.parents) {id : ScopeId} {scope : Scope}
    (there : graph.scope? id = some scope) (owner : scope.owner = node) : scope.parent = around := by
  obtain ⟨other, member, same⟩ := List.mem_map.mp listed
  obtain ⟨owner', parent⟩ := Prod.mk.inj same
  obtain ⟨index, found⟩ := List.mem_iff_getElem?.mp member
  have there' : graph.scope? ⟨index⟩ = some other := by simpa [scope?] using found
  have own := (mirrors.scopeOf_iff coherent).mpr ⟨scope, there, owner⟩
  have own' := (mirrors.scopeOf_iff coherent).mpr ⟨other, there', owner'⟩
  rw [own] at own'
  cases own'
  rw [there] at there'
  cases there'
  exact parent

/-- The scope of a tree has the entries that the tree declares. -/
theorem Mirrors.entries (mirrors : graph.Mirrors program) (coherent : program.Coherent) {t : Tree}
    (member : t ∈ program.subtrees) {decls : List Decl} (opens : t.opens? = some decls) {id : ScopeId}
    {scope : Scope} (there : graph.scope? id = some scope) (owner : scope.owner = t.node) :
    scope.entries = decls.map Decl.entry := by
  obtain ⟨id', scope', opened, there', -, entries⟩ := mirrors.opened coherent member opens
  rw [(mirrors.scopeOf_iff coherent).mpr ⟨scope, there, owner⟩] at opened
  cases opened
  rw [there] at there'
  cases there'
  exact entries

/-- The global scope has the top-level declarations. -/
theorem Mirrors.global_scope (mirrors : graph.Mirrors program) :
    ∃ scope, graph.scope? global = some scope ∧ scope.owner = .program ∧
      scope.entries = program.top.map Decl.entry := by
  have first : graph.regions[global.index]? = some (.program, program.top.map Decl.entry) := by
    rw [mirrors.regions]
    rfl
  rw [regions_getElem?] at first
  obtain ⟨scope, there, same⟩ := Option.map_eq_some_iff.mp first
  obtain ⟨owner, entries⟩ := Prod.mk.inj same
  exact ⟨scope, there, owner, entries⟩

/-- What is found among the entries of a scope is declared there. -/
private theorem firstOfKind_declared {arena : Arena} {scope : Scope} {decls : List Decl}
    (entries : scope.entries = decls.map Decl.entry) {name : String} {found : DeclId}
    (ran : firstOfKind arena [.cls] (scope.bindings name).reverse = .ok (some found)) :
    arena.hasClass found ∧ ∃ d ∈ decls, d.id = found := by
  obtain ⟨member, decl, stored, kind⟩ := firstOfKind_found ran
  refine ⟨⟨decl, stored, by simpa [Decl.isClass] using kind⟩, ?_⟩
  rw [List.mem_reverse] at member
  obtain ⟨d, inside, -, same⟩ : ∃ d ∈ decls, d.name = name ∧ d.id = found := by
    simpa [Scope.bindings, entries, Decl.entry, and_assoc] using member
  exact ⟨d, inside, same⟩

/-- A search that finds something finds it in the scope it starts from, or in those around it. -/
private theorem search_cases {α : Type} {visit : Scope → Except Dangling (Option α)} {limit : Nat}
    {id : ScopeId} {scope : Scope} {found : α} (there : graph.scope? id = some scope)
    (ran : graph.search visit limit id = .ok (some found)) :
    visit scope = .ok (some found) ∨
      ∃ parent limit, scope.parent = some parent ∧ graph.search visit limit parent = .ok (some found) := by
  cases limit with
  | zero => cases ran
  | succ limit =>
    obtain ⟨scope', there', ran⟩ := Arena.bind_ok ran
    rw [scope_eq_ok, there] at there'
    cases there'
    obtain ⟨result, visited, ran⟩ := Arena.bind_ok ran
    cases result with
    | some other =>
      cases ran
      exact .inl visited
    | none =>
      cases up : scope.parent with
      | none =>
        rw [up] at ran
        cases ran
      | some parent =>
        rw [up] at ran
        exact .inr ⟨parent, limit, rfl, ran⟩

/-- A class that is found from a top-level class is top-level. -/
theorem Rooted.findDecl (rooted : graph.Rooted program) (coherent : program.Coherent)
    (flat : program.Flat) {d : Decl} (top : d ∈ program.top) (isClass : d.isClass = true)
    {id : ScopeId} {scope : Scope} (there : graph.scope? id = some scope)
    (owner : scope.owner = .decl d.id) {name : String} {found : DeclId}
    (ran : graph.findDecl program.arena id name [.cls] = .ok (some found)) :
    ∃ high ∈ program.top, high.isClass = true ∧ high.id = found := by
  have mirrors := rooted.toMirrors
  rcases search_cases there ran with here | ⟨parent, limit, around, outside⟩
  · -- the members of the class are no classes
    cases d with
    | cls cls own superclass interfaces members =>
      have inside : .decl (.cls cls own superclass interfaces members) ∈ program.subtrees :=
        List.mem_flatMap.mpr ⟨_, List.mem_map_of_mem top, Tree.self_mem_subtrees _⟩
      obtain ⟨⟨decl, stored, kind⟩, member, among, rfl⟩ :=
        firstOfKind_declared (mirrors.entries coherent inside rfl there owner) here
      have kept := coherent.stored_subtrees (.decl member) (List.mem_flatMap.mpr
        ⟨_, List.mem_map_of_mem top, Tree.part_subtrees (List.mem_map_of_mem among)
          (Tree.self_mem_subtrees _)⟩)
      rw [Tree.node, Arena.tree?, stored] at kept
      cases kept
      rw [flat cls own superclass interfaces members top decl among] at kind
      cases kind
    | var | interface | prototype | function => cases isClass
  · have standing := mirrors.parent coherent (rooted.outside d top isClass) there owner
    rw [standing] at around
    cases around
    obtain ⟨all, there', owner', entries⟩ := mirrors.global_scope
    rcases search_cases there' outside with here | ⟨further, _, around', -⟩
    · obtain ⟨⟨decl, stored, kind⟩, high, member, same⟩ := firstOfKind_declared entries here
      have kept := coherent.stored high member
      rw [same, stored] at kept
      cases kept
      exact ⟨decl, member, kind, same⟩
    · rw [mirrors.parent coherent rooted.root there' owner'] at around'
      cases around'

/-- Linking keeps top-level classes below top-level classes. -/
theorem rooted_keeps (coherent : program.Coherent) (flat : program.Flat) :
    Linked.Keeps program.arena (Rooted · program) where
  superclass {graph here target name cls} rooted resolved opened := by
    have parents : (graph.linkSuperclass here target).parents = graph.parents :=
      parents_modify graph here fun _ => rfl
    refine ⟨rooted.toMirrors.modify here fun _ => rfl, parents ▸ rooted.root, parents ▸ rooted.outside, ?_⟩
    intro d top isClass id scope up there owner link
    rw [ScopeGraph.linkSuperclass, scope?_modify] at there
    split at there
    · rename_i same
      subst same
      obtain ⟨old, before, rfl⟩ := Option.map_eq_some_iff.mp there
      cases link
      obtain ⟨high, member, kind, rfl⟩ :=
        rooted.findDecl coherent flat top isClass before owner resolved
      exact ⟨high, member, kind, opened⟩
    · exact rooted.above d top isClass id scope up there owner link
  interface {graph here target} rooted := by
    have parents : (graph.linkInterface here target).parents = graph.parents :=
      parents_modify graph here fun _ => rfl
    refine ⟨rooted.toMirrors.modify here fun _ => rfl, parents ▸ rooted.root, parents ▸ rooted.outside, ?_⟩
    intro d top isClass id scope up there owner link
    rw [ScopeGraph.linkInterface, scope?_modify] at there
    split at there
    · obtain ⟨old, before, rfl⟩ := Option.map_eq_some_iff.mp there
      exact rooted.above d top isClass id old up before owner link
    · exact rooted.above d top isClass id scope up there owner link

end ScopeGraph

theorem Program.link_rooted {program : Program} (coherent : program.Coherent) (flat : program.Flat)
    {linked : Linked}
    (ran : program.entered.graph.link program.arena program.entered.classes = .ok linked) :
    linked.graph.Rooted program := by
  refine Linked.linkAll_keeps (ScopeGraph.rooted_keeps coherent flat)
    ⟨ScopeGraph.entered_mirrors program, ?_, ?_, ?_⟩ ran
  · exact (Entered.enterDecls_grows ScopeGraph.global program.top {}).subset List.mem_cons_self
  · exact Entered.enterDecls_parent ScopeGraph.global program.top {}
  · intro d top isClass id scope up there owner link
    have none := ScopeGraph.entered_unlinked program id scope there
    rw [Scope.supertypes, link] at none
    simp at none

/-- What is linked to a top-level class as its superclass is a top-level class. -/
theorem ScopeGraph.Rooted.superclass {graph : ScopeGraph} {program : Program}
    (rooted : graph.Rooted program) (linking : graph.Linking program) (coherent : program.Coherent)
    {d : Decl} (top : d ∈ program.top) (isClass : d.isClass = true) {above : DeclId}
    (link : graph.Extends d.id above) :
    ∃ high ∈ program.top, high.isClass = true ∧ high.id = above := by
  obtain ⟨-, -, own, up, scope, opened, there, linked, listed⟩ := linking.superclass coherent link
  obtain ⟨scope', there', owner⟩ := (linking.toMirrors.scopeOf_iff coherent).mp opened
  rw [there] at there'
  cases there'
  obtain ⟨high, member, kind, found⟩ := rooted.above d top isClass own scope up there owner linked
  obtain ⟨one, at_up, owner₁⟩ := (linking.toMirrors.scopeOf_iff coherent).mp listed
  obtain ⟨two, at_up', owner₂⟩ := (linking.toMirrors.scopeOf_iff coherent).mp found
  rw [at_up] at at_up'
  cases at_up'
  rw [owner₁] at owner₂
  cases owner₂
  exact ⟨high, member, kind, rfl⟩

/-! ## Names that mean one declaration -/

/-- Declarations that their names mean in one scope have different names. -/
theorem Scope.names_nodup {scope : Scope} {decls : List Decl}
    (bound : ∀ d ∈ decls, scope.binding? d.name = some d.id) (single : (decls.map Decl.id).Nodup) :
    (decls.map Decl.name).Nodup := by
  have meant : (decls.map Decl.name).map scope.binding? = (decls.map Decl.id).map some := by
    rw [List.map_map, List.map_map]
    exact List.map_congr_left bound
  refine List.Nodup.of_map scope.binding? ?_
  rw [meant]
  exact single.map fun _ _ => Option.some.inj

/-- Trees stand, in order, among all trees in them. -/
theorem Tree.sublist_subtrees (ts : List Tree) : ts.Sublist (ts.flatMap Tree.subtrees) := by
  induction ts with
  | nil => exact .slnil
  | cons t rest ih =>
    rw [List.flatMap_cons, Tree.subtrees_eq, List.cons_append]
    exact (ih.trans (List.sublist_append_right ..)).cons_cons t

/-- Declarations whose trees have different nodes have different numbers. -/
theorem Decl.ids_nodup {decls : List Decl}
    (single : ((decls.map Tree.decl).map Tree.node).Nodup) : (decls.map Decl.id).Nodup := by
  refine List.Nodup.of_map Node.decl ?_
  rw [List.map_map] at single ⊢
  exact single

/-- No two parts of a tree in which no node stands twice have one node. -/
theorem Tree.children_single {t : Tree} (single : t.nodes.Nodup) :
    (t.children.map Tree.node).Nodup := by
  rw [Tree.nodes_eq_map, Tree.subtrees_eq, List.map_cons, List.nodup_cons] at single
  exact single.2.sublist ((Tree.sublist_subtrees _).map _)

namespace ScopeGraph.Accepts

variable {graph : ScopeGraph} {program : Program}

/-- The top-level declarations of an accepted program have different names. -/
theorem top_names (accepts : graph.Accepts program) : (program.top.map Decl.name).Nodup := by
  obtain ⟨scope, there, -, entries⟩ := accepts.linking.toMirrors.global_scope
  have clean : ∀ d ∈ program.top, Check.decl program.arena graph global d = .ok [] :=
    Check.decls_clean accepts.clean
  refine scope.names_nodup (fun d member => Check.binding?_member there entries clean member) ?_
  exact Decl.ids_nodup (accepts.coherent.single_subtrees.sublist ((Tree.sublist_subtrees _).map _))

/-- The members of a class of an accepted program have different names. -/
theorem member_names (accepts : graph.Accepts program) {cls : DeclId} {members : List Decl}
    (isClass : program.HasClass cls members) : (members.map Decl.name).Nodup := by
  obtain ⟨own, scope, -, -, -, bound⟩ := accepts.scope_of_class isClass
  obtain ⟨name, superclass, interfaces, inside⟩ := isClass
  refine scope.names_nodup (fun d member => (bound d member).2) (Decl.ids_nodup ?_)
  have stored := accepts.coherent.stored_subtrees _ inside
  exact Tree.children_single (accepts.coherent.arena.single _ _ stored)

end ScopeGraph.Accepts

end DecafTac
