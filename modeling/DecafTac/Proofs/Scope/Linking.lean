import DecafTac.Proofs.Scope.Opening
import DecafTac.Proofs.Storage.Inheritance
import DecafTac.Scope.Hierarchy

/-!
What linking the classes does to the scopes. Owners, entries and numbers stay as they are; a scope gets
supertypes, and the superclass it is linked to is the scope of a class. So the links between scopes are
links between classes of the program.
-/
namespace DecafTac

namespace ScopeGraph

variable {arena : Arena} {graph : ScopeGraph}

/-- Every superclass that a scope is linked to is the scope of a class. -/
def LinksClasses (graph : ScopeGraph) (arena : Arena) : Prop :=
  ∀ id scope above, graph.scope? id = some scope → scope.superclass = some above →
    ∃ cls, graph.scopeOf (.decl cls) = some above ∧ arena.hasClass cls

theorem scope_eq_ok {id : ScopeId} {scope : Scope} :
    graph.scope id = .ok scope ↔ graph.scope? id = some scope := by
  unfold ScopeGraph.scope
  cases graph.scope? id <;> simp

theorem index_lt {id : ScopeId} {scope : Scope} (found : graph.scope? id = some scope) :
    id.index < graph.size :=
  (Array.getElem?_eq_some_iff.mp found).1

/-! ## What a search finds -/

theorem search_found {α : Type} {visit : Scope → Except Dangling (Option α)} {limit : Nat}
    {id : ScopeId} {found : α} (ran : graph.search visit limit id = .ok (some found)) :
    ∃ scope, visit scope = .ok (some found) := by
  induction limit generalizing id with
  | zero => cases ran
  | succ limit ih =>
    obtain ⟨scope, -, ran⟩ := Arena.bind_ok ran
    obtain ⟨result, visited, ran⟩ := Arena.bind_ok ran
    cases result with
    | some other =>
      cases ran
      exact ⟨scope, visited⟩
    | none =>
      cases up : scope.parent with
      | none =>
        rw [up] at ran
        cases ran
      | some parent =>
        rw [up] at ran
        exact ih ran

theorem firstOfKind_found {kinds : List DeclKind} {ids : List DeclId} {found : DeclId}
    (ran : firstOfKind arena kinds ids = .ok (some found)) :
    found ∈ ids ∧ ∃ decl, arena.decl? found = some decl ∧ decl.kind ∈ kinds := by
  induction ids with
  | nil => cases ran
  | cons id rest ih =>
    obtain ⟨decl, stored, ran⟩ := Arena.bind_ok ran
    split at ran
    · rename_i listed
      cases ran
      exact ⟨List.mem_cons_self, decl, LaidOut.decl_of_ok stored, by simpa using listed⟩
    · obtain ⟨member, kind⟩ := ih ran
      exact ⟨List.mem_cons_of_mem _ member, kind⟩

theorem findDecl_class {id : ScopeId} {name : String} {found : DeclId}
    (ran : graph.findDecl arena id name [.cls] = .ok (some found)) : arena.hasClass found := by
  obtain ⟨scope, first⟩ := search_found ran
  obtain ⟨-, decl, stored, listed⟩ := firstOfKind_found first
  exact ⟨decl, stored, by simpa [Decl.isClass] using listed⟩

end ScopeGraph

/-! ## What a link changes -/

namespace ScopeGraph

variable {program : Program} {graph : ScopeGraph}

/-- The scopes are those of the program, and superclasses are classes. -/
structure Linking (graph : ScopeGraph) (program : Program) : Prop extends Mirrors graph program where
  classes : graph.LinksClasses program.arena

theorem Mirrors.modify (mirrors : graph.Mirrors program) (here : ScopeId) {f : Scope → Scope}
    (same : ∀ s, ((f s).owner, (f s).entries) = (s.owner, s.entries)) :
    (graph.modify here f).Mirrors program := by
  have regions : (graph.modify here f).regions = graph.regions := by
    rw [regions_modify graph here f id same, List.modify_id]
  refine ⟨regions.trans mirrors.regions, ?_⟩
  unfold Numbered openers
  rw [regions]
  exact mirrors.numbered

theorem Linking.linkSuperclass (linking : graph.Linking program) (here : ScopeId) {cls : DeclId}
    {above : ScopeId} (isClass : program.arena.hasClass cls)
    (found : graph.scopeOf (.decl cls) = some above) :
    (graph.linkSuperclass here above).Linking program := by
  refine ⟨linking.toMirrors.modify here fun _ => rfl, ?_⟩
  intro id scope target there link
  unfold ScopeGraph.linkSuperclass at there
  rw [scope?_modify] at there
  split at there
  · obtain ⟨old, -, rfl⟩ := Option.map_eq_some_iff.mp there
    cases link
    exact ⟨cls, found, isClass⟩
  · exact linking.classes id scope target there link

theorem Linking.linkInterface (linking : graph.Linking program) (here interface : ScopeId) :
    (graph.linkInterface here interface).Linking program := by
  refine ⟨linking.toMirrors.modify here fun _ => rfl, ?_⟩
  intro id scope target there link
  unfold ScopeGraph.linkInterface at there
  rw [scope?_modify] at there
  split at there
  · obtain ⟨old, found, rfl⟩ := Option.map_eq_some_iff.mp there
    exact linking.classes id old target found link
  · exact linking.classes id scope target there link

end ScopeGraph

namespace Linked

open ScopeGraph

variable {program : Program} {record : ClassScope} {linked after : Linked} {found : List DeclId}

/-- A property of scopes that linking a class to what it names keeps. -/
structure Keeps (arena : Arena) (P : ScopeGraph → Prop) : Prop where
  superclass : ∀ {graph : ScopeGraph} {here above : ScopeId} {name : String} {cls : DeclId}, P graph →
    graph.findDecl arena here name [.cls] = .ok (some cls) → graph.scopeOf (.decl cls) = some above →
    P (graph.linkSuperclass here above)
  interface : ∀ {graph : ScopeGraph} {here above : ScopeId}, P graph → P (graph.linkInterface here above)

section Keeps

variable {P : ScopeGraph → Prop} (keeps : Keeps program.arena P)

include keeps

private theorem linkSuperclass_keeps {cls superclass : Ident} (holds : P linked.graph)
    (ran : linkSuperclass program.arena record cls superclass linked = .ok (after, found)) :
    P after.graph := by
  obtain ⟨result, resolved, ran⟩ := Arena.bind_ok ran
  cases result with
  | none =>
    cases ran
    exact holds
  | some target =>
    simp only at ran
    split at ran
    · cases ran
      exact holds
    · split at ran
      · cases ran
        exact holds
      · rename_i above opened
        cases ran
        exact keeps.superclass holds resolved opened

private theorem linkInterfaces_keeps {interfaces : List Ident} (holds : P linked.graph)
    (ran : linkInterfaces program.arena record interfaces linked = .ok (after, found)) :
    P after.graph := by
  induction interfaces generalizing linked found with
  | nil =>
    cases ran
    exact holds
  | cons interface rest ih =>
    obtain ⟨result, -, ran⟩ := Arena.bind_ok ran
    cases result with
    | none => exact @ih (linked.report _) found holds ran
    | some target =>
      obtain ⟨⟨next, others⟩, later, last⟩ := Arena.bind_ok ran
      cases last
      refine ih ?_ later
      split
      · exact holds
      · exact keeps.interface holds

private theorem linkClass_keeps (holds : P linked.graph)
    (ran : linkClass program.arena record linked = .ok after) : P after.graph := by
  obtain ⟨decl, -, ran⟩ := Arena.bind_ok ran
  split at ran
  · rename_i superclass interfaces _
    cases superclass with
    | none =>
      obtain ⟨_, same, ran⟩ := Arena.bind_ok ran
      cases same
      obtain ⟨⟨last, implemented⟩, second, ran⟩ := Arena.bind_ok ran
      cases ran
      have done : P last.graph := linkInterfaces_keeps keeps holds second
      exact done
    | some name =>
      obtain ⟨⟨middle, parents⟩, first, ran⟩ := Arena.bind_ok ran
      obtain ⟨⟨last, implemented⟩, second, ran⟩ := Arena.bind_ok ran
      cases ran
      have between : P middle.graph := linkSuperclass_keeps keeps holds first
      have done : P last.graph := linkInterfaces_keeps keeps between second
      exact done
  · cases ran
    exact holds

/-- What each link keeps, linking all classes keeps. -/
theorem linkAll_keeps {classes : List ClassScope} (holds : P linked.graph)
    (ran : linkAll program.arena classes linked = .ok after) : P after.graph := by
  induction classes generalizing linked with
  | nil =>
    cases ran
    exact holds
  | cons record rest ih =>
    obtain ⟨next, first, ran⟩ := Arena.bind_ok ran
    exact ih (linkClass_keeps keeps holds first) ran

end Keeps

theorem linking_keeps (program : Program) : Keeps program.arena (ScopeGraph.Linking · program) where
  superclass linking resolved opened := linking.linkSuperclass _ (findDecl_class resolved) opened
  interface linking := linking.linkInterface _ _

end Linked

/-- The linked scopes of a program. -/
theorem Program.link_linking {program : Program} {linked : Linked}
    (ran : program.entered.graph.link program.arena program.entered.classes = .ok linked) :
    linked.graph.Linking program := by
  refine Linked.linkAll_keeps (Linked.linking_keeps program) ⟨ScopeGraph.entered_mirrors program, ?_⟩ ran
  intro id scope above there link
  have none := ScopeGraph.entered_unlinked program id scope there
  rw [Scope.supertypes, link] at none
  simp at none

/-! ## Classes above a class -/

/-- A class is linked to another as its superclass. -/
def ScopeGraph.Extends (graph : ScopeGraph) (cls above : DeclId) : Prop :=
  LaidOut.superclassOf graph cls = .ok (some above)

/-- A superclass is a class of the program, and its scope is the one that is linked to. -/
theorem ScopeGraph.Linking.superclass {program : Program} {graph : ScopeGraph} {cls above : DeclId}
    (linking : graph.Linking program) (coherent : program.Coherent) (link : graph.Extends cls above) :
    program.arena.hasClass above ∧ (∃ t ∈ program.subtrees, t.node = .decl above) ∧
      ∃ own up scope, graph.scopeOf (.decl cls) = some own ∧ graph.scope? own = some scope ∧
        scope.superclass = some up ∧ graph.scopeOf (.decl above) = some up := by
  unfold Extends LaidOut.superclassOf at link
  split at link
  · cases link
  · rename_i own opened
    obtain ⟨scope, there, link⟩ := Arena.bind_ok link
    have there := scope_eq_ok.mp there
    split at link
    · cases link
    · rename_i up linked
      obtain ⟨high, found, link⟩ := Arena.bind_ok link
      have found := scope_eq_ok.mp found
      have owner : high.owner = .decl above := by
        split at link
        · rename_i decl owner
          cases link
          exact owner
        · cases link
      obtain ⟨target, listed, isClass⟩ := linking.classes own scope up there linked
      obtain ⟨_, found', owner'⟩ := (linking.toMirrors.scopeOf_iff coherent).mp listed
      rw [found] at found'
      cases found'
      rw [owner] at owner'
      cases owner'
      exact ⟨isClass, linking.toMirrors.owned found owner, own, up, scope, opened, there, linked, listed⟩

end DecafTac
