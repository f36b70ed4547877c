import Mathlib.Data.List.Nodup
import DecafTac.Proofs.Source.Forest
import DecafTac.Proofs.Tables
import DecafTac.Scope.Entering

/-!
The scopes of an entered program. A scope is told by the node that opened it and by what was entered
into it; scopes stand in the order in which their nodes are met in the program, after the one of the
program itself. As no node is met twice, a node opens one scope at most, and the scope of a node is the
one that it owns.
-/
namespace DecafTac

/-- The entry of a declaration in its scope. -/
def Decl.entry (d : Decl) : String × DeclId := (d.name, d.id)

/-- The owner and the entries of a scope. -/
abbrev Region : Type := Node × List (String × DeclId)

namespace Tree

/-- The declarations that stand directly in the scope a tree opens, if it opens one. -/
def opens? : Tree → Option (List Decl)
  | .decl (.cls _ _ _ _ members) | .decl (.interface _ _ members) => some members
  | .decl (.prototype _ _ _ formals) | .decl (.function _ _ _ formals _) => some formals
  | .stmt (.block _ decls _) => some decls
  | .stmt (.ifThen ..) | .stmt (.ifElse ..) | .stmt (.whileLoop ..) | .stmt (.forLoop ..) => some []
  | _ => none

/-- The scope that a tree opens itself. -/
def region? (t : Tree) : Option Region := t.opens?.map fun decls => (t.node, decls.map Decl.entry)

/-- The scopes opened in a tree. -/
def regions (t : Tree) : List Region := t.subtrees.filterMap region?

theorem regions_eq (t : Tree) : t.regions = t.region?.toList ++ t.children.flatMap regions := by
  unfold regions
  rw [subtrees_eq, List.filterMap_cons, List.filterMap_flatMap]
  cases t.region? <;> rfl

/-- Expressions open no scopes. -/
theorem regions_expr (e : Expr) : (Tree.expr e).regions = [] := by
  suffices all : ∀ t, (∃ e, t = Tree.expr e) → t.regions = [] from all _ ⟨e, rfl⟩
  intro t
  induction t using induction with
  | step t ih =>
    rintro ⟨e, rfl⟩
    rw [regions_eq, List.append_eq_nil_iff, List.flatMap_eq_nil_iff]
    refine ⟨rfl, ?_⟩
    intro part inside
    obtain ⟨e', -, rfl⟩ := List.mem_map.mp inside
    exact ih _ inside ⟨e', rfl⟩

theorem regions_exprs (es : List Expr) : (es.map Tree.expr).flatMap regions = [] := by
  simp [List.flatMap_map, regions_expr]

/-- A statement with a body opens a scope around it. -/
theorem regions_body {s body : Stmt} (tests : List Expr) (opens : (Tree.stmt s).opens? = some [])
    (parts : s.children = tests.map .expr ++ [.stmt body]) :
    (Tree.stmt s).regions = (.stmt s.id, []) :: (Tree.stmt body).regions := by
  have below : (Tree.stmt s).children.flatMap regions = (Tree.stmt body).regions := by
    rw [children, parts, List.flatMap_append, regions_exprs]
    simp
  rw [regions_eq, region?, opens, below]
  rfl

/-- A statement that holds only expressions opens no scope. -/
theorem regions_plain {s : Stmt} (es : List Expr) (opens : (Tree.stmt s).opens? = none)
    (parts : s.children = es.map .expr) : (Tree.stmt s).regions = [] := by
  rw [regions_eq, region?, opens, children, parts, regions_exprs]
  rfl

end Tree

namespace ScopeGraph

/-- All scopes, by owner and entries. -/
def regions (graph : ScopeGraph) : List Region :=
  graph.scopes.toList.map fun scope => (scope.owner, scope.entries)

/-- The nodes that opened the scopes. -/
def openers (graph : ScopeGraph) : List Node := graph.regions.map Prod.fst

/-- The scopes are listed under the nodes that opened them, latest first. -/
def Numbered (graph : ScopeGraph) : Prop :=
  graph.opened = (graph.openers.zipIdx.map fun (owner, index) => (owner, ⟨index⟩)).reverse

/-- No class is linked yet. -/
def Unlinked (graph : ScopeGraph) : Prop :=
  ∀ id scope, graph.scope? id = some scope → scope.supertypes = []

/-- Adds entries to a scope. -/
def extend (entries : List (String × DeclId)) (region : Region) : Region :=
  (region.1, region.2 ++ entries)

@[simp]
theorem regions_length (graph : ScopeGraph) : graph.regions.length = graph.size := by
  simp [regions, size]

theorem scope?_modify (graph : ScopeGraph) (id : ScopeId) (f : Scope → Scope) (other : ScopeId) :
    (graph.modify id f).scope? other =
      if id = other then (graph.scope? other).map f else graph.scope? other := by
  simp [scope?, modify, Array.getElem?_modify, ScopeId.ext_iff]

theorem regions_modify (graph : ScopeGraph) (id : ScopeId) (f : Scope → Scope) (g : Region → Region)
    (same : ∀ s, ((f s).owner, (f s).entries) = g (s.owner, s.entries)) :
    (graph.modify id f).regions = graph.regions.modify id.index g := by
  unfold regions modify
  rw [Array.toList_modify]
  refine List.ext_getElem? fun i => ?_
  simp only [List.getElem?_map, List.getElem?_modify]
  cases graph.scopes.toList[i]? with
  | none => rfl
  | some s =>
    by_cases there : id.index = i <;> simp [there, same]

theorem regions_enter (graph : ScopeGraph) (id : ScopeId) (name : String) (decl : DeclId) :
    (graph.enter id name decl).regions = graph.regions.modify id.index (extend [(name, decl)]) :=
  regions_modify graph id _ _ fun _ => rfl

theorem regions_openIn (graph : ScopeGraph) (parent : ScopeId) (owner : Node) :
    (graph.openIn parent owner).regions = graph.regions ++ [(owner, [])] := by
  have listed : (graph.openIn parent owner).regions = ((graph.push parent owner).regions).modify
      parent.index id := regions_modify (graph.push parent owner) parent _ _ fun _ => rfl
  rw [listed, List.modify_id]
  simp [regions, push]

theorem Numbered.enter {graph : ScopeGraph} (numbered : graph.Numbered) (id : ScopeId) (name : String)
    (decl : DeclId) : (graph.enter id name decl).Numbered := by
  have same : (graph.enter id name decl).openers = graph.openers := by
    unfold openers
    rw [regions_enter]
    refine List.ext_getElem? fun i => ?_
    simp only [List.getElem?_map, List.getElem?_modify]
    cases graph.regions[i]? with
    | none => rfl
    | some region => by_cases there : id.index = i <;> simp [there, extend]
  unfold Numbered
  rw [same]
  exact numbered

theorem Numbered.openIn {graph : ScopeGraph} (numbered : graph.Numbered) (parent : ScopeId)
    (owner : Node) : (graph.openIn parent owner).Numbered := by
  have opened : (graph.openIn parent owner).opened = (owner, graph.next) :: graph.opened := rfl
  have more : (graph.openIn parent owner).openers = graph.openers ++ [owner] := by
    simp [openers, regions_openIn]
  unfold Numbered
  rw [opened, numbered, more, List.zipIdx_append]
  simp [next, openers]

theorem Unlinked.modify {graph : ScopeGraph} (unlinked : graph.Unlinked) (id : ScopeId)
    {f : Scope → Scope} (same : ∀ s, (f s).supertypes = s.supertypes) : (graph.modify id f).Unlinked := by
  intro other scope found
  rw [scope?_modify] at found
  split at found
  · obtain ⟨old, there, rfl⟩ := Option.map_eq_some_iff.mp found
    rw [same]
    exact unlinked other old there
  · exact unlinked other scope found

theorem Unlinked.push {graph : ScopeGraph} (unlinked : graph.Unlinked) (parent : ScopeId)
    (owner : Node) : (graph.push parent owner).Unlinked := by
  intro id scope found
  unfold scope? ScopeGraph.push at found
  rw [Array.getElem?_push] at found
  split at found
  · cases found
    rfl
  · exact unlinked id scope found

end ScopeGraph

/-! ## What entering adds -/

private theorem modify_append {α : Type} (f : α → α) {front back : List α} {i : Nat}
    (inFront : i < front.length) : (front ++ back).modify i f = front.modify i f ++ back := by
  induction front generalizing i with
  | nil => cases inFront
  | cons a rest ih =>
    cases i with
    | zero => rfl
    | succ i =>
      rw [List.cons_append, List.modify_succ_cons, List.modify_succ_cons, List.cons_append,
        ih (Nat.lt_of_succ_lt_succ inFront)]

private theorem modify_last {α : Type} (f : α → α) (front : List α) (last : α) :
    (front ++ [last]).modify front.length f = front ++ [f last] := by
  induction front with
  | nil => rfl
  | cons a rest ih => rw [List.cons_append, List.length_cons, List.modify_succ_cons, ih, List.cons_append]

/-- The graph is extended by entries in the scope `here` and by scopes behind those that are there. -/
structure ScopeGraph.Adds (here : ScopeId) (entries : List (String × DeclId)) (opened : List Region)
    (before after : ScopeGraph) : Prop where
  numbered : before.Numbered → after.Numbered
  unlinked : before.Unlinked → after.Unlinked
  regions : here.index < before.size →
    after.regions = before.regions.modify here.index (extend entries) ++ opened

namespace ScopeGraph.Adds

variable {here : ScopeId} {entries entries' : List (String × DeclId)} {opened opened' : List Region}
  {before middle after : ScopeGraph}

theorem nothing (before : ScopeGraph) : Adds here [] [] before before where
  numbered := id
  unlinked := id
  regions _ := by
    have same : extend [] = id := by
      funext region
      simp [extend]
    rw [same, List.modify_id, List.append_nil]

theorem trans (first : Adds here entries opened before middle)
    (second : Adds here entries' opened' middle after) :
    Adds here (entries ++ entries') (opened ++ opened') before after where
  numbered := second.numbered ∘ first.numbered
  unlinked := second.unlinked ∘ first.unlinked
  regions there := by
    have grown := first.regions there
    have still : here.index < middle.size := by
      have lengths := congrArg List.length grown
      simp only [regions_length, List.length_append, List.length_modify] at lengths
      omega
    have both : extend (entries ++ entries') = extend entries' ∘ extend entries := by
      funext region
      simp [extend]
    rw [second.regions still, grown, modify_append _ (by simpa using there), both,
      List.modify_modify_eq, List.append_assoc]

theorem enter (before : ScopeGraph) (name : String) (id : DeclId) :
    Adds here [(name, id)] [] before (before.enter here name id) where
  numbered numbered := numbered.enter _ _ _
  unlinked unlinked := unlinked.modify _ fun _ => rfl
  regions _ := by
    rw [List.append_nil]
    exact regions_enter _ _ _ _

/-- What is entered into a new scope stands there, and not in the scope around it. -/
theorem inside {owner : Node}
    (added : Adds before.next entries opened (before.openIn here owner) after) :
    Adds here [] ((owner, entries) :: opened) before after where
  numbered numbered := added.numbered (numbered.openIn here owner)
  unlinked unlinked := added.unlinked ((unlinked.push here owner).modify _ fun _ => rfl)
  regions there := by
    have newest : before.next.index = before.regions.length := by simp [next]
    have grown := added.regions (by simp [← regions_length, regions_openIn, newest])
    rw [grown, regions_openIn, newest, modify_last, List.append_assoc,
      ← List.append_nil (before.regions.modify _ _), ← (nothing before).regions there]
    simp [extend]

end ScopeGraph.Adds

namespace Entered

open ScopeGraph

/-- A declaration is entered where it stands, and what it holds into the scope it opens. -/
private theorem declare_adds {here : ScopeId} {entries : List (String × DeclId)}
    {opened : List Region} (e : Entered) (name : Ident) (id : DeclId) {after : ScopeGraph}
    (inner : Adds (e.declare here name id).graph.next entries opened
      ((e.declare here name id).openIn here (.decl id)).graph after) :
    Adds here [(name.name, id)] ((.decl id, entries) :: opened) e.graph after :=
  (Adds.enter e.graph name.name id).trans inner.inside

mutual

theorem enterDecl_adds (here : ScopeId) : (d : Decl) → (e : Entered) →
    Adds here [d.entry] (Tree.decl d).regions e.graph (enterDecl here d e).graph
  | .var id name type, e => by
    rw [Tree.regions_eq]
    exact .enter e.graph name.name id
  | .cls id name above interfaces members, e => by
    rw [Tree.regions_eq]
    exact declare_adds e name id (enterDecls_adds _ members (((e.declare here name id).openIn here
      (.decl id)).note id (e.declare here name id).graph.next))
  | .interface id name members, e => by
    rw [Tree.regions_eq]
    exact declare_adds e name id (enterDecls_adds _ members _)
  | .prototype id name result formals, e => by
    rw [Tree.regions_eq]
    exact declare_adds e name id (enterDecls_adds _ formals _)
  | .function id name result formals body, e => by
    have inner := (enterDecls_adds (e.declare here name id).graph.next formals
      ((e.declare here name id).openIn here (.decl id))).trans (enterStmt_adds _ body _)
    rw [List.append_nil] at inner
    have parts : (Tree.decl (.function id name result formals body)).children.flatMap Tree.regions =
        (formals.map Tree.decl).flatMap Tree.regions ++ (Tree.stmt body).regions := by
      simp [Tree.children, Decl.children]
    rw [Tree.regions_eq, parts]
    exact declare_adds e name id inner

theorem enterDecls_adds (here : ScopeId) : (ds : List Decl) → (e : Entered) →
    Adds here (ds.map Decl.entry) ((ds.map Tree.decl).flatMap Tree.regions) e.graph
      (enterDecls here ds e).graph
  | [], e => .nothing e.graph
  | d :: rest, e => (enterDecl_adds here d e).trans (enterDecls_adds here rest _)

theorem enterStmt_adds (here : ScopeId) : (s : Stmt) → (e : Entered) →
    Adds here [] (Tree.stmt s).regions e.graph (enterStmt here s e).graph
  | .block site decls stmts, e => by
    have inner := (enterDecls_adds e.graph.next decls (e.openIn here (.stmt site.id))).trans
      (enterStmts_adds _ stmts _)
    rw [List.append_nil] at inner
    have parts : (Tree.stmt (.block site decls stmts)).children.flatMap Tree.regions =
        (decls.map Tree.decl).flatMap Tree.regions ++ (stmts.map Tree.stmt).flatMap Tree.regions := by
      simp [Tree.children, Stmt.children]
    rw [Tree.regions_eq, parts]
    exact inner.inside
  | .ifThen site test body, e => by
    rw [Tree.regions_body [test] rfl rfl]
    exact (enterStmt_adds e.graph.next body (e.openIn here (.stmt site.id))).inside
  | .ifElse site test yes no, e => by
    have inner := (enterStmt_adds e.graph.next yes (e.openIn here (.stmt site.id))).trans
      (enterStmt_adds _ no _)
    have parts : (Tree.stmt (.ifElse site test yes no)).children.flatMap Tree.regions =
        (Tree.stmt yes).regions ++ (Tree.stmt no).regions := by
      simp [Tree.children, Stmt.children, Tree.regions_expr]
    rw [Tree.regions_eq, parts]
    exact inner.inside
  | .whileLoop site test body, e => by
    rw [Tree.regions_body [test] rfl rfl]
    exact (enterStmt_adds e.graph.next body (e.openIn here (.stmt site.id))).inside
  | .forLoop site init test step body, e => by
    have parts : (Stmt.forLoop site init test step body).children =
        (init.toList ++ [test] ++ step.toList).map .expr ++ [.stmt body] := by
      simp [Stmt.children]
    rw [Tree.regions_body _ rfl parts]
    exact (enterStmt_adds e.graph.next body (e.openIn here (.stmt site.id))).inside
  | .ret site value, e => by
    rw [Tree.regions_plain value.toList rfl rfl]
    exact .nothing e.graph
  | .print site args, e => by
    rw [Tree.regions_plain args rfl rfl]
    exact .nothing e.graph
  | .leave site, e => by
    rw [Tree.regions_plain [] rfl rfl]
    exact .nothing e.graph
  | .expr site value, e => by
    rw [Tree.regions_plain [value] rfl rfl]
    exact .nothing e.graph
  | .knot id, e => by
    rw [Tree.regions_plain [] rfl rfl]
    exact .nothing e.graph

theorem enterStmts_adds (here : ScopeId) : (ss : List Stmt) → (e : Entered) →
    Adds here [] ((ss.map Tree.stmt).flatMap Tree.regions) e.graph (enterStmts here ss e).graph
  | [], e => .nothing e.graph
  | s :: rest, e => (enterStmt_adds here s e).trans (enterStmts_adds here rest _)

end

end Entered

namespace Program

/-- The scopes of a program: its own, and those that its trees open. -/
def regions (program : Program) : List Region :=
  (.program, program.top.map Decl.entry) :: program.subtrees.filterMap Tree.region?

/-- No two scopes of a program have one owner. -/
theorem Coherent.single_owners {program : Program} (coherent : program.Coherent) :
    (program.regions.map Prod.fst).Nodup := by
  have among (ts : List Tree) : ((ts.filterMap Tree.region?).map Prod.fst).Sublist (ts.map Tree.node) := by
    induction ts with
    | nil => exact .slnil
    | cons t rest ih =>
      rw [List.filterMap_cons, List.map_cons]
      unfold Tree.region?
      cases t.opens? with
      | none => exact ih.cons _
      | some decls => exact ih.cons_cons _
  rw [regions, List.map_cons, List.nodup_cons]
  refine ⟨fun member => ?_, coherent.single_subtrees.sublist (among _)⟩
  obtain ⟨t, -, proper⟩ := List.mem_map.mp ((among _).subset member)
  cases t <;> cases proper

end Program

namespace ScopeGraph

/-- The scopes are those of the program, and they can be found by their owners. -/
structure Mirrors (graph : ScopeGraph) (program : Program) : Prop where
  regions : graph.regions = program.regions
  numbered : graph.Numbered

theorem entered_mirrors (program : Program) : program.entered.graph.Mirrors program := by
  have added := Entered.enterDecls_adds ScopeGraph.global program.top {}
  refine ⟨?_, added.numbered rfl⟩
  rw [Program.entered, added.regions (by decide), Program.regions, Program.subtrees,
    List.filterMap_flatMap]
  rfl

theorem entered_unlinked (program : Program) : program.entered.graph.Unlinked := by
  refine (Entered.enterDecls_adds ScopeGraph.global program.top {}).unlinked ?_
  rintro ⟨index⟩ scope found
  cases index with
  | zero =>
    cases found
    rfl
  | succ => cases found

theorem regions_getElem? (graph : ScopeGraph) (id : ScopeId) :
    graph.regions[id.index]? = (graph.scope? id).map fun scope => (scope.owner, scope.entries) := by
  simp [ScopeGraph.regions, scope?]

namespace Mirrors

variable {graph : ScopeGraph} {program : Program}

/-- The scope of a node is the one that it owns. -/
theorem scopeOf_iff (mirrors : graph.Mirrors program) (coherent : program.Coherent) {node : Node}
    {id : ScopeId} :
    graph.scopeOf node = some id ↔ ∃ scope, graph.scope? id = some scope ∧ scope.owner = node := by
  have listed : (node, id) ∈ graph.opened ↔ graph.openers[id.index]? = some node := by
    rw [mirrors.numbered, List.mem_reverse, List.mem_map]
    constructor
    · rintro ⟨entry, member, same⟩
      cases same
      exact List.mem_zipIdx_iff_getElem?.mp member
    · intro found
      exact ⟨(node, id.index), List.mem_zipIdx_iff_getElem?.mpr found, rfl⟩
  have single : (graph.opened.map Prod.fst).Nodup := by
    have keys : graph.opened.map Prod.fst = graph.openers.reverse := by
      rw [mirrors.numbered, List.map_reverse, List.map_map]
      congr 1
      exact List.zipIdx_map_fst ..
    rw [keys, List.nodup_reverse, openers, mirrors.regions]
    exact coherent.single_owners
  have owned : graph.openers[id.index]? = some node ↔
      ∃ scope, graph.scope? id = some scope ∧ scope.owner = node := by
    rw [openers, List.getElem?_map, regions_getElem?]
    simp [and_comm]
  rw [← owned, ← listed]
  exact ⟨Table.mem_of_lookup, Table.lookup_of_mem single⟩

/-- A tree that opens a scope has one, with what it declares there. -/
theorem opened (mirrors : graph.Mirrors program) (coherent : program.Coherent) {t : Tree}
    (member : t ∈ program.subtrees) {decls : List Decl} (opens : t.opens? = some decls) :
    ∃ id scope, graph.scopeOf t.node = some id ∧ graph.scope? id = some scope ∧
      scope.owner = t.node ∧ scope.entries = decls.map Decl.entry := by
  have inside : (t.node, decls.map Decl.entry) ∈ graph.regions := by
    rw [mirrors.regions]
    refine List.mem_cons_of_mem _ (List.mem_filterMap.mpr ⟨t, member, ?_⟩)
    rw [Tree.region?, opens]
    rfl
  obtain ⟨index, found⟩ := List.mem_iff_getElem?.mp inside
  rw [regions_getElem? graph ⟨index⟩] at found
  obtain ⟨scope, there, same⟩ := Option.map_eq_some_iff.mp found
  obtain ⟨owner, entries⟩ := Prod.mk.inj same
  exact ⟨⟨index⟩, scope, (mirrors.scopeOf_iff coherent).mpr ⟨scope, there, owner⟩, there, owner, entries⟩

/-- A scope that a declaration owns is the scope of one of the program's trees. -/
theorem owned (mirrors : graph.Mirrors program) {id : ScopeId} {scope : Scope} {decl : DeclId}
    (found : graph.scope? id = some scope) (owner : scope.owner = .decl decl) :
    ∃ t ∈ program.subtrees, t.node = .decl decl := by
  have inside : (scope.owner, scope.entries) ∈ program.regions := by
    rw [← mirrors.regions]
    refine List.mem_iff_getElem?.mpr ⟨id.index, ?_⟩
    rw [regions_getElem?, found]
    rfl
  rcases List.mem_cons.mp inside with same | inside
  · rw [owner] at same
    cases same
  · obtain ⟨t, member, opens⟩ := List.mem_filterMap.mp inside
    obtain ⟨decls, -, same⟩ := Option.map_eq_some_iff.mp opens
    exact ⟨t, member, (Prod.mk.inj same).1.trans owner⟩

end Mirrors

end ScopeGraph

end DecafTac
