import DecafTac.Proofs.Scope.Nesting

/-!
Walks from a scope outward. A walk goes from a scope to the one around it until there is none, and a
search goes along it until it finds something; both are said here without a limit, so that a walk without
an end is no walk and a search that never stops has no result. In a graph grown by any changes that
succeeded, a scope is inside one that was opened before it or inside itself. A walk ends unless it gets to
a scope inside itself, and then it goes down in number to the global scope.
-/
namespace DecafTac.ScopeGraph

/-! ## Walks and searches without a limit -/

/-- The scope around a scope. -/
def around? (graph : ScopeGraph) (id : ScopeId) : Option ScopeId :=
  (graph.scope? id).bind Scope.parent

/-- All scopes from one outward, to the last. -/
inductive Walk (graph : ScopeGraph) : ScopeId → List ScopeId → Prop where
  | outermost {id : ScopeId} {scope : Scope} (there : graph.scope? id = some scope)
      (outside : scope.parent = none) : Walk graph id [id]
  | inside {id up : ScopeId} {scope : Scope} {scopes : List ScopeId}
      (there : graph.scope? id = some scope) (around : scope.parent = some up)
      (rest : Walk graph up scopes) : Walk graph id (id :: scopes)

/-- What a search from a scope outward gives when it stops. -/
inductive Gives {α : Type} (graph : ScopeGraph) (visit : Scope → Except Dangling (Option α)) :
    ScopeId → Except Dangling (Option α) → Prop where
  | missing {id : ScopeId} (none : graph.scope? id = none) : Gives graph visit id (.error (.scope id))
  | fails {id : ScopeId} {scope : Scope} {reason : Dangling} (there : graph.scope? id = some scope)
      (visited : visit scope = .error reason) : Gives graph visit id (.error reason)
  | found {id : ScopeId} {scope : Scope} {a : α} (there : graph.scope? id = some scope)
      (visited : visit scope = .ok (some a)) : Gives graph visit id (.ok (some a))
  | nothing {id : ScopeId} {scope : Scope} (there : graph.scope? id = some scope)
      (visited : visit scope = .ok none) (outside : scope.parent = none) :
      Gives graph visit id (.ok none)
  | outward {id up : ScopeId} {scope : Scope} {result : Except Dangling (Option α)}
      (there : graph.scope? id = some scope) (visited : visit scope = .ok none)
      (around : scope.parent = some up) (rest : Gives graph visit up result) :
      Gives graph visit id result

/-! ## Growing a graph by changes -/

/-- Makes changes in order, as long as they succeed. -/
def changed (graph : ScopeGraph) : List Change → Except Dangling ScopeGraph
  | [] => .ok graph
  | change :: rest =>
    match graph.apply change with
    | (.ok _, grown) => grown.changed rest
    | (.error reason, _) => .error reason

/-- The scope that a change opens: its owner and the scope around it. -/
def Change.opens? : Change → Option (Node × Option ScopeId)
  | .openIn parent owner => some (owner, some parent)
  | .enter .. | .linkSuperclass .. | .linkInterface .. => none

/-- Scopes are inside earlier ones or inside themselves, but for the first, which is inside none. -/
def Ordered (graph : ScopeGraph) : Prop :=
  ∀ index owner around, graph.parents[index]? = some (owner, around) →
    (index = 0 ∧ around = none) ∨ ∃ up, around = some up ∧ up.index ≤ index

variable {graph grown : ScopeGraph}

/-- A change that succeeds adds the scope it opens and moves no other; the scope around it is there, or
is the new one. -/
theorem apply_parents {change : Change} {opened : Option ScopeId}
    (made : graph.apply change = (.ok opened, grown)) :
    grown.parents = graph.parents ++ change.opens?.toList ∧
      ∀ owner up, change.opens? = some (owner, some up) → up.index ≤ graph.size := by
  cases change with
  | openIn parent owner =>
    simp only [apply] at made
    split at made
    · rename_i scope there
      cases made
      refine ⟨parents_openIn graph parent owner, ?_⟩
      rintro _ up ⟨⟩
      have bound := index_lt (scope_eq_ok.mp there)
      simpa [push, size, Nat.lt_succ_iff] using bound
    · cases made
  | enter | linkSuperclass | linkInterface =>
    simp only [apply] at made
    split at made
    · cases made
      refine ⟨?_, by simp [Change.opens?]⟩
      rw [Change.opens?, Option.toList_none, List.append_nil]
      exact parents_modify graph _ fun _ => rfl
    · cases made

theorem Ordered.apply (ordered : graph.Ordered) {change : Change} {opened : Option ScopeId}
    (made : graph.apply change = (.ok opened, grown)) : grown.Ordered := by
  obtain ⟨parents, bound⟩ := apply_parents made
  intro index owner around listed
  rw [parents, List.getElem?_append] at listed
  split at listed
  · exact ordered index owner around listed
  · rename_i beyond
    cases change with
    | openIn parent opener =>
      rw [Change.opens?, Option.toList_some, List.getElem?_singleton] at listed
      split at listed
      · cases listed
        have := bound _ _ rfl
        rw [parents_length] at beyond
        exact .inr ⟨parent, rfl, by omega⟩
      · cases listed
    | enter | linkSuperclass | linkInterface => cases listed

theorem Ordered.changed {changes : List Change} (ordered : graph.Ordered)
    (ran : graph.changed changes = .ok grown) :
    grown.Ordered ∧ grown.parents = graph.parents ++ changes.filterMap Change.opens? := by
  induction changes generalizing graph with
  | nil =>
    cases ran
    exact ⟨ordered, by simp⟩
  | cons change rest ih =>
    rw [ScopeGraph.changed] at ran
    split at ran
    · rename_i opened middle made
      obtain ⟨later, parents⟩ := ih (ordered.apply made) ran
      refine ⟨later, ?_⟩
      rw [parents, (apply_parents made).1, List.append_assoc, List.filterMap_cons]
      cases change.opens? <;> rfl
    · cases ran

theorem ordered_empty : Ordered {} := by
  intro index owner around listed
  cases index with
  | zero =>
    cases listed
    exact .inl ⟨rfl, rfl⟩
  | succ index => simp [parents] at listed

/-! ## Scopes inside themselves -/

/-- A scope that was opened inside itself: the change that opened it named the number it was given. -/
def OpenedInItself (changes : List Change) (id : ScopeId) : Prop :=
  ∃ before owner after, changes = before ++ .openIn id owner :: after ∧
    id.index = (before.filterMap Change.opens?).length + 1

/-- What stands at a place of the opened scopes was put there by a change after as many openings. -/
private theorem opens?_at {changes : List Change} {place : Nat} {opened : Node × Option ScopeId} :
    (changes.filterMap Change.opens?)[place]? = some opened ↔
      ∃ before change after, changes = before ++ change :: after ∧
        change.opens? = some opened ∧ (before.filterMap Change.opens?).length = place := by
  constructor
  · intro listed
    induction changes generalizing place with
    | nil => cases listed
    | cons change rest ih =>
      rw [List.filterMap_cons] at listed
      cases opens : change.opens? with
      | none =>
        rw [opens] at listed
        obtain ⟨before, other, after, rfl, same, count⟩ := ih listed
        exact ⟨change :: before, other, after, rfl, same, by simpa [opens] using count⟩
      | some first =>
        rw [opens] at listed
        cases place with
        | zero =>
          cases listed
          exact ⟨[], change, rest, rfl, opens, rfl⟩
        | succ place =>
          obtain ⟨before, other, after, rfl, same, count⟩ := ih listed
          exact ⟨change :: before, other, after, rfl, same, by simpa [opens] using count⟩
  · rintro ⟨before, change, after, rfl, opens, rfl⟩
    simp [opens]

theorem around?_of_scope {id : ScopeId} {scope : Scope} (there : graph.scope? id = some scope) :
    graph.around? id = scope.parent := by
  rw [around?, there, Option.bind_some]

/-- The scopes inside themselves are those that were opened so. -/
theorem inside_itself_iff {changes : List Change}
    (parents : graph.parents = (.program, none) :: changes.filterMap Change.opens?) (id : ScopeId) :
    graph.around? id = some id ↔ OpenedInItself changes id := by
  have listed : graph.around? id = graph.parents[id.index]?.bind Prod.snd := by
    rw [parents_getElem?, around?]
    cases graph.scope? id <;> rfl
  rw [listed, parents, OpenedInItself]
  cases index : id.index with
  | zero => simp
  | succ place =>
    rw [List.getElem?_cons_succ, Option.bind_eq_some_iff]
    constructor
    · rintro ⟨⟨owner, around⟩, listed, rfl⟩
      obtain ⟨before, change, after, rfl, opens, count⟩ := opens?_at.mp listed
      cases change with
      | openIn parent opener =>
        cases opens
        exact ⟨before, owner, after, rfl, by omega⟩
      | enter | linkSuperclass | linkInterface => cases opens
    · rintro ⟨before, owner, after, rfl, count⟩
      exact ⟨_, opens?_at.mpr ⟨before, _, after, rfl, rfl, by omega⟩, rfl⟩

/-! ## Walks in an ordered graph -/

section Ordered

variable {s up : ScopeId} {scope : Scope} {scopes : List ScopeId}

theorem Ordered.around (ordered : graph.Ordered) (there : graph.scope? s = some scope) :
    (s = global ∧ scope.parent = none) ∨ ∃ up, scope.parent = some up ∧ up.index ≤ s.index := by
  have listed : graph.parents[s.index]? = some (scope.owner, scope.parent) := by
    rw [parents_getElem?, there]
    rfl
  exact (ordered _ _ _ listed).imp_left fun ⟨first, outside⟩ => ⟨ScopeId.ext first, outside⟩

/-- A walk meets no scope inside itself. -/
theorem Walk.apart (walk : graph.Walk s scopes) {k : ScopeId}
    (reached : Relation.ReflTransGen (fun a b => graph.around? a = some b) s k) :
    graph.around? k ≠ some k := by
  induction walk with
  | outermost there outside =>
    have alone := (around?_of_scope there).trans outside
    rcases reached.cases_head with rfl | ⟨up, link, -⟩
    · simp [alone]
    · simp [alone] at link
  | inside there around rest ih =>
    have link := (around?_of_scope there).trans around
    rcases reached.cases_head with rfl | ⟨up, other, further⟩
    · intro itself
      rw [link] at itself
      cases itself
      exact ih .refl link
    · rw [link] at other
      cases other
      exact ih further

/-- From a scope that leads to none inside itself there is a walk. -/
theorem Ordered.walk (ordered : graph.Ordered) (there : s.index < graph.size)
    (apart : ∀ k, Relation.ReflTransGen (fun a b => graph.around? a = some b) s k →
      graph.around? k ≠ some k) : ∃ scopes, graph.Walk s scopes := by
  generalize number : s.index = n
  induction n using Nat.strongRecOn generalizing s with
  | _ n ih =>
    obtain ⟨scope, found⟩ : ∃ scope, graph.scope? s = some scope :=
      ⟨_, Array.getElem?_eq_getElem there⟩
    rcases ordered.around found with ⟨-, outside⟩ | ⟨up, around, bound⟩
    · exact ⟨[s], .outermost found outside⟩
    · have link := (around?_of_scope found).trans around
      -- the same number would be that of a scope inside itself
      have lower : up.index < s.index := by
        refine Nat.lt_of_le_of_ne bound fun same => apart s .refl ?_
        rw [link, ScopeId.ext same]
      obtain ⟨scopes, walk⟩ := ih up.index (by omega) (by omega)
        (fun k reached => apart k (.head link reached)) rfl
      exact ⟨s :: scopes, .inside found around walk⟩

theorem Walk.lower (walk : graph.Walk s scopes) (ordered : graph.Ordered)
    (there : graph.scope? s = some scope) (around : scope.parent = some up) : up.index < s.index := by
  rcases ordered.around there with ⟨-, outside⟩ | ⟨other, inside, bound⟩
  · rw [outside] at around
    cases around
  · rw [around] at inside
    cases inside
    refine Nat.lt_of_le_of_ne bound fun same => walk.apart .refl ?_
    rw [around?_of_scope there, around, ScopeId.ext same]

theorem Walk.head (walk : graph.Walk s scopes) : ∃ rest, scopes = s :: rest := by
  cases walk with
  | outermost => exact ⟨[], rfl⟩
  | inside => exact ⟨_, rfl⟩

/-- A walk goes down in number. -/
theorem Walk.descends (walk : graph.Walk s scopes) (ordered : graph.Ordered) :
    scopes.Pairwise fun a b => b.index < a.index := by
  have steps : scopes.IsChain fun a b => b.index < a.index := by
    induction walk with
    | outermost => exact .singleton _
    | inside there around rest ih =>
      have lower := (Walk.inside there around rest).lower ordered there around
      obtain ⟨further, rfl⟩ := rest.head
      exact .cons_cons lower ih
  have : IsTrans ScopeId fun a b => b.index < a.index := ⟨fun _ _ _ first second => Nat.lt_trans second first⟩
  exact steps.pairwise

/-- A walk ends at the global scope. -/
theorem Walk.last (walk : graph.Walk s scopes) (ordered : graph.Ordered) :
    scopes.getLast? = some global := by
  induction walk with
  | outermost there outside =>
    rcases ordered.around there with ⟨rfl, -⟩ | ⟨up, inside, -⟩
    · rfl
    · rw [outside] at inside
      cases inside
  | inside there around rest ih => rw [List.getLast?_cons, ih, Option.getD_some]

/-- A limit above the number of the first scope does not cut a walk short. -/
theorem Walk.chain_eq (walk : graph.Walk s scopes) (ordered : graph.Ordered) {limit : Nat}
    (room : s.index < limit) : graph.chainUpTo limit s = .ok scopes := by
  induction walk generalizing limit with
  | outermost there outside =>
    obtain ⟨limit, rfl⟩ := Nat.exists_eq_succ_of_ne_zero (Nat.ne_zero_of_lt room)
    rw [chainUpTo, scope_eq_ok.mpr there]
    simp only [bind, Except.bind, outside]
    rfl
  | inside there around rest ih =>
    have lower := (Walk.inside there around rest).lower ordered there around
    obtain ⟨limit, rfl⟩ := Nat.exists_eq_succ_of_ne_zero (Nat.ne_zero_of_lt room)
    rw [chainUpTo, scope_eq_ok.mpr there]
    simp only [bind, Except.bind, around, ih (show _ < limit by omega)]
    rfl

private theorem gives_search {α : Type} {visit : Scope → Except Dangling (Option α)} {limit : Nat}
    (there : graph.scope? s = some scope)
    (outward : ∀ up, scope.parent = some up → graph.Gives visit up (graph.search visit limit up)) :
    graph.Gives visit s (graph.search visit (limit + 1) s) := by
  rw [search, scope_eq_ok.mpr there]
  simp only [bind, Except.bind]
  split
  · rename_i visited
    exact .fails there visited
  · rename_i result visited
    cases result with
    | some a => exact .found there visited
    | none =>
      cases around : scope.parent with
      | none => exact .nothing there visited around
      | some up => exact .outward there visited around (outward up around)

/-- Along a walk a search stops, with what it gives under such a limit. -/
theorem Walk.gives (walk : graph.Walk s scopes) (ordered : graph.Ordered) {α : Type}
    (visit : Scope → Except Dangling (Option α)) {limit : Nat} (room : s.index < limit) :
    graph.Gives visit s (graph.search visit limit s) := by
  induction walk generalizing limit with
  | outermost there outside =>
    obtain ⟨limit, rfl⟩ := Nat.exists_eq_succ_of_ne_zero (Nat.ne_zero_of_lt room)
    exact gives_search there (by simp [outside])
  | inside there around rest ih =>
    have lower := (Walk.inside there around rest).lower ordered there around
    obtain ⟨limit, rfl⟩ := Nat.exists_eq_succ_of_ne_zero (Nat.ne_zero_of_lt room)
    refine gives_search there fun up inside => ?_
    rw [around] at inside
    cases inside
    exact ih (by omega)

/-- A search that finds nothing in a scope inside itself never stops. -/
theorem never_stops {α : Type} {visit : Scope → Except Dangling (Option α)}
    {result : Except Dangling (Option α)} (there : graph.scope? s = some scope)
    (itself : scope.parent = some s) (visited : visit scope = .ok none) :
    ¬ graph.Gives visit s result := by
  intro gives
  induction gives with
  | missing none => cases there.symm.trans none
  | fails here other =>
    cases there.symm.trans here
    cases visited.symm.trans other
  | found here other =>
    cases there.symm.trans here
    cases visited.symm.trans other
  | nothing here other outside =>
    cases there.symm.trans here
    cases itself.symm.trans outside
  | outward here other around rest ih =>
    cases there.symm.trans here
    cases itself.symm.trans around
    exact ih there itself

end Ordered

/-- Where walks end. After any changes that all succeeded, the walk from a scope ends exactly if it gets to
no scope that was opened in itself. It then goes down in number to the global scope, it is the chain of the
scope, and every look-up from there stops with the answer of the look-up. -/
theorem walks_end {changes : List Change} (ran : changed {} changes = .ok graph) {s : ScopeId}
    (there : s.index < graph.size) :
    ((∃ scopes, graph.Walk s scopes) ↔
      ∀ k, Relation.ReflTransGen (fun a b => graph.around? a = some b) s k →
        ¬ OpenedInItself changes k) ∧
    ∀ scopes, graph.Walk s scopes →
      graph.chain s = .ok scopes ∧ scopes.Pairwise (fun a b => b.index < a.index) ∧
      scopes.getLast? = some global ∧
      ∀ name,
        graph.Gives (fun scope => .ok (scope.binding? name)) s (graph.lookupChain s name) ∧
        ∀ arena kinds,
          graph.Gives (fun scope => firstOfKind arena kinds (scope.bindings name).reverse) s
            (graph.findDecl arena s name kinds) := by
  obtain ⟨ordered, parents⟩ := ordered_empty.changed ran
  have itself := inside_itself_iff parents
  refine ⟨⟨?_, fun apart => ?_⟩, fun scopes walk => ?_⟩
  · rintro ⟨scopes, walk⟩ k reached
    rw [← itself]
    exact walk.apart reached
  · refine ordered.walk there fun k reached => ?_
    rw [Ne, itself]
    exact apart k reached
  · exact ⟨walk.chain_eq ordered there, walk.descends ordered, walk.last ordered, fun name =>
      ⟨walk.gives ordered _ there, fun arena kinds => walk.gives ordered _ there⟩⟩

/-- A class with a method, and a block in itself with one more inside. -/
def blockInItself : List Change :=
  [ .openIn ⟨0⟩ (.decl ⟨1⟩), .linkSuperclass ⟨1⟩ ⟨9⟩, .openIn ⟨1⟩ (.decl ⟨0⟩), .enter ⟨2⟩ "x" ⟨7⟩,
    .openIn ⟨3⟩ (.stmt ⟨0⟩), .linkInterface ⟨3⟩ ⟨3⟩, .openIn ⟨3⟩ (.stmt ⟨1⟩) ]

theorem walks_end_block : ∃ graph, changed {} blockInItself = .ok graph ∧
    graph.chain ⟨2⟩ = .ok [⟨2⟩, ⟨1⟩, ⟨0⟩] ∧
    graph.Gives (fun scope => .ok (scope.binding? "y")) ⟨2⟩ (.ok none) ∧
    ¬ ∃ scopes, graph.Walk ⟨4⟩ scopes := by
  have ran : ∃ graph, changed {} blockInItself = .ok graph ∧ graph.size = 5 ∧
      graph.Walk ⟨2⟩ [⟨2⟩, ⟨1⟩, ⟨0⟩] ∧ graph.lookupChain ⟨2⟩ "y" = .ok none ∧ graph.around? ⟨4⟩ = some ⟨3⟩ :=
    ⟨_, rfl, rfl, .inside rfl rfl (.inside rfl rfl (.outermost rfl rfl)), rfl, rfl⟩
  obtain ⟨graph, ran, size, walk, absent, around⟩ := ran
  obtain ⟨-, ends⟩ := walks_end ran (s := ⟨2⟩) (by simp [size])
  obtain ⟨endless, -⟩ := walks_end ran (s := ⟨4⟩) (by simp [size])
  obtain ⟨chain, -, -, looked⟩ := ends _ walk
  refine ⟨graph, ran, chain, absent ▸ (looked "y").1, ?_⟩
  rw [endless]
  intro apart
  exact apart ⟨3⟩ (.single around) ⟨blockInItself.take 4, _, blockInItself.drop 5, rfl, rfl⟩

/-- A scope opened in itself: the walk from it never ends, and no look-up of a name stops. -/
theorem scope_inside_itself : ∃ graph, changed {} [.openIn ⟨1⟩ (.stmt ⟨0⟩)] = .ok graph ∧
    graph.size = 2 ∧ (∀ scopes, ¬ graph.Walk ⟨1⟩ scopes) ∧
    ∀ name result, ¬ graph.Gives (fun scope => .ok (scope.binding? name)) ⟨1⟩ result := by
  refine ⟨_, rfl, rfl, fun scopes walk => walk.apart .refl rfl, fun name result => ?_⟩
  exact never_stops rfl rfl rfl

end DecafTac.ScopeGraph
