import DecafTac.Proofs.Scope.Nesting

/-!
What names mean, said by the source alone. At a node, a name means the last declaration of a fitting
kind in the scope of the nearest node around it that has one. A search through the scopes finds that
declaration and does not fail; it looks at no links between classes, so it finds the same before they
are made and after.
-/
namespace DecafTac

namespace Program

/-- The last declaration of a name and of one of the kinds in the scope of a node. -/
def meaningAt (program : Program) (kinds : List DeclKind) (name : String) (node : Node) :
    Option Decl :=
  (program.declared node).reverse.find? fun d => d.name == name && kinds.contains d.kind

/-- The declaration that a name means at a node: that of the nearest node, itself included, in whose
scope there is one of the kinds. -/
def meaning (program : Program) (kinds : List DeclKind) (name : String) (node : Node) : Option Decl :=
  (node :: program.arena.ancestors node).findSome? (program.meaningAt kinds name)

/-- A node of the program, which is one itself. -/
def Holds (program : Program) (node : Node) : Prop :=
  node = .program ∨ ∃ t ∈ program.subtrees, t.node = node

variable {program : Program} {kinds : List DeclKind} {name : String} {node outer : Node} {d : Decl}

namespace Anchored

theorem meaning_eq (anchored : program.Anchored) (kinds : List DeclKind) (name : String)
    (node : Node) : program.meaning kinds name node =
      (program.meaningAt kinds name node).or
        ((program.arena.parent? node).bind (program.meaning kinds name)) := by
  rw [meaning, List.findSome?_cons, anchored.arena.ancestors_eq]
  cases program.meaningAt kinds name node with
  | some found => rfl
  | none => cases program.arena.parent? node <;> rfl

/-- Where nothing stands in the scope of a node, names mean what they mean around it. -/
theorem meaning_parent (anchored : program.Anchored) (none : program.declared node = [])
    (link : program.arena.parent? node = some outer) :
    program.meaning kinds name node = program.meaning kinds name outer := by
  rw [anchored.meaning_eq, meaningAt, none, link]
  rfl

theorem holds_parent (anchored : program.Anchored) (holds : program.Holds node)
    (link : program.arena.parent? node = some outer) : program.Holds outer := by
  rcases holds with rfl | ⟨t, inside, rfl⟩
  · cases link
  · rcases anchored.parent_cases inside with ⟨root, -⟩ | ⟨whole, among, -, above⟩
    · rw [root] at link
      cases link
      exact .inl rfl
    · rw [above] at link
      cases link
      exact .inr ⟨whole, among, rfl⟩

theorem holds_ancestors (anchored : program.Anchored) (holds : program.Holds node) :
    ∀ above ∈ program.arena.ancestors node, program.Holds above := by
  have climbs (limit : Nat) (node : Node) (holds : program.Holds node) :
      ∀ above ∈ program.arena.climb limit node, program.Holds above := by
    induction limit generalizing node with
    | zero => exact List.forall_mem_nil _
    | succ limit ih =>
      rw [Arena.climb]
      cases link : program.arena.parent? node with
      | none => exact List.forall_mem_nil _
      | some parent =>
        have next := anchored.holds_parent holds link
        exact List.forall_mem_cons.mpr ⟨next, ih parent next⟩
  exact climbs _ node holds

/-- What stands in the scope of a node of the program belongs to the program. -/
theorem declared_inside (anchored : program.Anchored) (holds : program.Holds node)
    (member : d ∈ program.declared node) : .decl d ∈ program.subtrees := by
  rcases holds with rfl | ⟨t, inside, rfl⟩
  · exact (Tree.sublist_subtrees _).subset (List.mem_map_of_mem member)
  · rcases anchored.declared_cases t.node with ⟨root, -⟩ | none | ⟨whole, same, stored, parts⟩
    · cases t <;> cases root
    · rw [none] at member
      cases member
    · have found := anchored.stored_subtrees t inside
      rw [same, found] at stored
      cases stored
      obtain ⟨root, listed, among⟩ := List.mem_flatMap.mp inside
      refine List.mem_flatMap.mpr ⟨root, listed, Tree.subtrees_trans among ?_⟩
      exact Tree.part_subtrees (parts.subset (List.mem_map_of_mem member)) (Tree.self_mem_subtrees _)

/-- What a name means at a node of the program is a declaration of the program. -/
theorem meaning_found (anchored : program.Anchored) (holds : program.Holds node)
    (found : program.meaning kinds name node = some d) :
    .decl d ∈ program.subtrees ∧ d.name = name ∧ d.kind ∈ kinds := by
  obtain ⟨above, listed, here⟩ := List.exists_of_findSome?_eq_some found
  have around : program.Holds above := by
    rcases List.mem_cons.mp listed with rfl | listed
    · exact holds
    · exact anchored.holds_ancestors holds above listed
  have member := List.mem_of_find?_eq_some here
  have fits := List.find?_some here
  rw [List.mem_reverse] at member
  simp only [Bool.and_eq_true, beq_iff_eq, List.contains_iff_mem] at fits
  exact ⟨anchored.declared_inside around member, fits⟩

theorem declared_stored (anchored : program.Anchored) (node : Node) :
    ∀ d ∈ program.declared node, program.arena.decl? d.id = some d := by
  intro d member
  have part := anchored.declared_parts node _ (List.mem_map_of_mem member)
  simpa [Arena.tree?, Tree.node] using part.1

/-- A declaration of the program is stored under its number. -/
theorem decl_stored (anchored : program.Anchored) (inside : .decl d ∈ program.subtrees) :
    program.arena.decl? d.id = some d := by
  simpa [Arena.tree?, Tree.node] using anchored.stored_subtrees _ inside

end Anchored

end Program

/-! ## Searching the scopes -/

namespace ScopeGraph

variable {graph : ScopeGraph} {program : Program} {here : ScopeId} {node : Node}

/-- The scopes are those of the program, nested as their nodes are. -/
structure Faithful (graph : ScopeGraph) (program : Program) : Prop extends Mirrors graph program where
  nested : graph.Nested program.arena

theorem entered_faithful (anchored : program.Anchored) : program.entered.graph.Faithful program :=
  ⟨entered_mirrors program, anchored.entered_orderly.nested⟩

/-- Changing links leaves scopes where they are. -/
theorem Faithful.modify (faithful : graph.Faithful program) (here : ScopeId) {f : Scope → Scope}
    (same : ∀ s, ((f s).owner, (f s).entries, (f s).parent) = (s.owner, s.entries, s.parent)) :
    (graph.modify here f).Faithful program := by
  simp only [Prod.mk.injEq] at same
  refine ⟨faithful.toMirrors.modify here fun s => ?_, faithful.nested.of_parents ?_⟩
  · rw [(same s).1, (same s).2.1]
  · exact parents_modify graph here fun s => by rw [(same s).1, (same s).2.2]

theorem firstOfKind_eq {arena : Arena} (kinds : List DeclKind) {decls : List Decl}
    (stored : ∀ d ∈ decls, arena.decl? d.id = some d) :
    firstOfKind arena kinds (decls.map Decl.id) =
      .ok ((decls.find? fun d => kinds.contains d.kind).map Decl.id) := by
  induction decls with
  | nil => rfl
  | cons d rest ih =>
    obtain ⟨here, later⟩ := List.forall_mem_cons.mp stored
    have made : arena.decl d.id = .ok d := by
      rw [Arena.decl, here]
    rw [List.map_cons, firstOfKind, made, List.find?_cons]
    simp only [bind, Except.bind]
    cases kinds.contains d.kind with
    | true => rfl
    | false => exact ih later

/-- Under a name, a scope has the declarations of that name in the scope of its owner. -/
theorem Faithful.bindings_eq (faithful : graph.Faithful program) (anchored : program.Anchored)
    {scope : Scope} (there : graph.scope? here = some scope) (name : String) : scope.bindings name =
      ((program.declared scope.owner).filter (·.name == name)).map Decl.id := by
  rw [Scope.bindings, faithful.toMirrors.entries_declared anchored there, List.filter_map,
    List.map_map]
  rfl

/-- Looking through one scope gives what stands in the scope of its owner. -/
theorem Faithful.visit (faithful : graph.Faithful program) (anchored : program.Anchored)
    {scope : Scope} (there : graph.scope? here = some scope) (kinds : List DeclKind)
    (name : String) : firstOfKind program.arena kinds (scope.bindings name).reverse =
      .ok ((program.meaningAt kinds name scope.owner).map Decl.id) := by
  rw [faithful.bindings_eq anchored there, ← List.map_reverse, ← List.filter_reverse, firstOfKind_eq,
    List.find?_filter]
  · simp only [Program.meaningAt, Bool.decide_and, Bool.decide_eq_true]
  · intro d member
    rw [List.mem_filter, List.mem_reverse] at member
    exact anchored.declared_stored scope.owner d member.1

/-- A search outward visits the scopes of a node and of those around it, as far as it needs to. No limit
is met: scopes stand in scopes with smaller numbers. -/
theorem Faithful.search_eq {α : Type} (faithful : graph.Faithful program)
    (anchored : program.Anchored) {visit : Scope → Except Dangling (Option α)}
    (look : Node → Option α)
    (agree : ∀ id scope, graph.scope? id = some scope → visit scope = .ok (look scope.owner))
    {limit : Nat} (stands : graph.Stands here node) (room : here.index < limit) :
    graph.search visit limit here =
      .ok ((node :: program.arena.ancestors node).findSome? look) := by
  induction limit generalizing here node with
  | zero => omega
  | succ limit ih =>
    obtain ⟨scope, there, rfl⟩ := stands
    have listed : graph.parents[here.index]? = some (scope.owner, scope.parent) := by
      rw [parents_getElem?, there]
      rfl
    rw [search, scope_eq_ok.mpr there, List.findSome?_cons, anchored.arena.ancestors_eq]
    simp only [bind, Except.bind, agree here scope there]
    cases look scope.owner with
    | some found => rfl
    | none =>
      rcases faithful.nested _ _ _ listed with ⟨root, none⟩ | ⟨up, outer, inside, lower, above, link⟩
      · rw [root, none]
        rfl
      · rw [inside, link]
        exact ih above (by omega)

/-- Looking a name up from the scope of a node gives what it means there. -/
theorem Faithful.findDecl_eq (faithful : graph.Faithful program) (anchored : program.Anchored)
    (stands : graph.Stands here node) (kinds : List DeclKind) (name : String) :
    graph.findDecl program.arena here name kinds =
      .ok ((program.meaning kinds name node).map Decl.id) := by
  rw [findDecl, faithful.search_eq anchored (fun n => (program.meaningAt kinds name n).map Decl.id)
    (fun _ _ there => faithful.visit anchored there kinds name) stands stands.index_lt,
    Program.meaning, List.map_findSome?]
  rfl

end ScopeGraph

end DecafTac
