import DecafTac.Proofs.Scope.Mismatches

/-!
Which types a type can stand in for. The search through the hierarchy needs no limit: each type is
visited once, so it ends whether or not classes extend one another in a circle. It answers that one type
can stand in for another exactly when links lead from the first to the second. In the hierarchy of a
program these links are the ones between scopes, so compatibility is reachability in the scope graph.
-/
namespace DecafTac

open Relation (ReflTransGen)

namespace Hierarchy

/-- A type can stand in directly for another. -/
def StandsFor (hierarchy : Hierarchy) (low high : DeclId) : Prop := high ∈ hierarchy.compatible low

/-- A search for a type among those that wait and those they can stand in for comes to an answer: each is
visited once, and the one looked for ends it. -/
inductive Searches (hierarchy : Hierarchy) (goal : DeclId) :
    (visited pending : List DeclId) → (answer : Bool) → Prop where
  | done {visited : List DeclId} : Searches hierarchy goal visited [] false
  | skip {visited pending : List DeclId} {current : DeclId} {answer : Bool}
      (known : current ∈ visited) (rest : Searches hierarchy goal visited pending answer) :
      Searches hierarchy goal visited (current :: pending) answer
  | found {visited pending : List DeclId} (fresh : goal ∉ visited) :
      Searches hierarchy goal visited (goal :: pending) true
  | next {visited pending : List DeclId} {current : DeclId} {answer : Bool}
      (fresh : current ∉ visited) (other : current ≠ goal)
      (rest : Searches hierarchy goal (current :: visited) (hierarchy.compatible current ++ pending)
        answer) :
      Searches hierarchy goal visited (current :: pending) answer

variable {hierarchy : Hierarchy} {goal sub sup : DeclId} {visited pending : List DeclId} {answer : Bool}

/-! ## The limit -/

/-- The types that are named in a hierarchy. -/
def named (hierarchy : Hierarchy) : List DeclId :=
  hierarchy.types.flatMap fun type => type.decl :: type.compatible

theorem compatible_subset (hierarchy : Hierarchy) (low : DeclId) :
    hierarchy.compatible low ⊆ hierarchy.named := by
  intro high listed
  rw [compatible] at listed
  cases found : hierarchy.get? low with
  | none =>
    rw [found] at listed
    cases listed
  | some type =>
    rw [found] at listed
    exact List.mem_flatMap.mpr
      ⟨type, List.mem_of_find?_eq_some found, List.mem_cons_of_mem _ listed⟩

namespace Searches

/-- Types at the front that were visited are passed over. -/
theorem of_dropWhile
    (rest : Searches hierarchy goal visited (pending.dropWhile visited.contains) answer) :
    Searches hierarchy goal visited pending answer := by
  induction pending with
  | nil => exact rest
  | cons current pending ih =>
    by_cases known : current ∈ visited
    · rw [List.dropWhile_cons_of_pos (by simpa using known)] at rest
      exact .skip known (ih rest)
    · rwa [List.dropWhile_cons_of_neg (by simpa using known)] at rest

/-- Nothing is found among types that were all visited. -/
theorem of_subset (known : pending ⊆ visited) : Searches hierarchy goal visited pending false := by
  induction pending with
  | nil => exact .done
  | cons current pending ih =>
    obtain ⟨first, others⟩ := List.cons_subset.mp known
    exact .skip first (ih others)

end Searches

/-- Where there is room for every type that can come up, the limit on visits decides nothing: the measure
is the number of types that were not visited, and when it is used up all that waits was visited. -/
theorem searches_reaches {all : List DeclId} {limit : Nat} (closed : hierarchy.named ⊆ all)
    (room : all.length ≤ limit + visited.length) (distinct : visited.Nodup) (old : visited ⊆ all)
    (waiting : pending ⊆ all) :
    Searches hierarchy goal visited pending (hierarchy.reaches goal limit visited pending) := by
  induction limit generalizing visited pending with
  | zero =>
    rw [Nat.zero_add] at room
    have full := (List.Nodup.subperm distinct old).perm_of_length_le room
    exact .of_subset fun id member => full.mem_iff.mpr (waiting member)
  | succ limit ih =>
    apply Searches.of_dropWhile
    rw [reaches]
    have first := List.head?_dropWhile_not visited.contains pending
    have within := (List.dropWhile_suffix visited.contains (l := pending)).subset
    cases left : pending.dropWhile visited.contains with
    | nil => exact .done
    | cons current rest =>
      rw [left] at first within
      have fresh : current ∉ visited := by simpa using first
      obtain ⟨here, later⟩ := List.cons_subset.mp (List.Subset.trans within waiting)
      by_cases same : current = goal
      · subst same
        simp only [beq_self_eq_true, Bool.true_or]
        exact .found fresh
      · simp only [beq_eq_false_iff_ne.mpr same, Bool.false_or]
        refine .next fresh same (ih ?_ ?_ ?_ ?_)
        · rw [List.length_cons]
          omega
        · exact List.nodup_cons.mpr ⟨fresh, distinct⟩
        · exact List.cons_subset.mpr ⟨here, old⟩
        · exact List.append_subset.mpr
            ⟨List.Subset.trans (compatible_subset hierarchy current) closed, later⟩

/-- The search for a supertype comes to its answer by itself. -/
theorem searches_isCompatible (hierarchy : Hierarchy) (sub sup : DeclId) :
    Searches hierarchy sup [] [sub] (hierarchy.isCompatible sub sup) := by
  refine searches_reaches (List.subset_cons_self sub hierarchy.named) ?_ List.nodup_nil
    (List.nil_subset _) (List.cons_subset.mpr ⟨List.mem_cons_self, List.nil_subset _⟩)
  rw [List.length_cons, List.length_nil, Nat.add_zero]
  exact Nat.le_refl _

/-! ## The answer -/

namespace Searches

/-- What is found can be reached from what waits. -/
theorem reachable (searched : Searches hierarchy goal visited pending true) :
    ∃ start ∈ pending, ReflTransGen hierarchy.StandsFor start goal := by
  generalize yes : true = answer at searched
  induction searched with
  | done => cases yes
  | skip known _ ih =>
    obtain ⟨start, member, path⟩ := ih yes
    exact ⟨start, List.mem_cons_of_mem _ member, path⟩
  | found => exact ⟨goal, List.mem_cons_self, .refl⟩
  | @next _ _ current _ _ _ _ ih =>
    obtain ⟨start, member, path⟩ := ih yes
    rcases List.mem_append.mp member with above | member
    · exact ⟨current, List.mem_cons_self, .head above path⟩
    · exact ⟨start, List.mem_cons_of_mem _ member, path⟩

/-- A search in vain has seen all types that wait and, with each type, those it can stand in for; the one
looked for is not among them. -/
theorem seen (searched : Searches hierarchy goal visited pending false) :
    ∃ seen, visited ⊆ seen ∧ pending ⊆ seen ∧
      ∀ id ∈ seen, id ∈ visited ∨ id ≠ goal ∧ hierarchy.compatible id ⊆ seen := by
  generalize no : false = answer at searched
  induction searched with
  | @done visited =>
    exact ⟨visited, List.Subset.refl _, List.nil_subset _, fun id member => .inl member⟩
  | skip known _ ih =>
    obtain ⟨seen, old, waiting, closed⟩ := ih no
    exact ⟨seen, old, List.cons_subset.mpr ⟨old known, waiting⟩, closed⟩
  | found => cases no
  | next fresh other _ ih =>
    obtain ⟨seen, old, waiting, closed⟩ := ih no
    obtain ⟨here, old⟩ := List.cons_subset.mp old
    obtain ⟨above, waiting⟩ := List.append_subset.mp waiting
    refine ⟨seen, old, List.cons_subset.mpr ⟨here, waiting⟩, fun id member => ?_⟩
    rcases closed id member with known | clean
    · rcases List.mem_cons.mp known with rfl | known
      · exact .inr ⟨other, above⟩
      · exact .inl known
    · exact .inr clean

end Searches

/-- Links do not lead out of types that hold, with each type, those it can stand in for. -/
theorem mem_of_path {seen : List DeclId} (closed : ∀ id ∈ seen, hierarchy.compatible id ⊆ seen)
    (start : sub ∈ seen) (path : ReflTransGen hierarchy.StandsFor sub sup) : sup ∈ seen := by
  induction path with
  | refl => exact start
  | tail _ step ih => exact closed _ ih step

/-- A type can be used for another exactly when links lead from the one to the other. -/
theorem isCompatible_iff :
    hierarchy.isCompatible sub sup = true ↔ ReflTransGen hierarchy.StandsFor sub sup := by
  have searched := searches_isCompatible hierarchy sub sup
  constructor
  · intro compatible
    rw [compatible] at searched
    obtain ⟨start, member, path⟩ := searched.reachable
    rwa [List.mem_singleton.mp member] at path
  · intro path
    by_contra vain
    rw [Bool.eq_false_of_not_eq_true vain] at searched
    obtain ⟨seen, -, waiting, closed⟩ := searched.seen
    have clean : ∀ id ∈ seen, id ≠ sup ∧ hierarchy.compatible id ⊆ seen := fun id member =>
      (closed id member).resolve_left List.not_mem_nil
    have reached := mem_of_path (fun id member => (clean id member).2)
      (waiting List.mem_cons_self) path
    exact (clean sup reached).1 rfl

theorem isCompatible_refl (hierarchy : Hierarchy) (type : DeclId) :
    hierarchy.isCompatible type type = true :=
  isCompatible_iff.mpr .refl

theorem isCompatible_trans {middle : DeclId} (first : hierarchy.isCompatible sub middle = true)
    (second : hierarchy.isCompatible middle sup = true) : hierarchy.isCompatible sub sup = true :=
  isCompatible_iff.mpr ((isCompatible_iff.mp first).trans (isCompatible_iff.mp second))

end Hierarchy

/-! ## The hierarchy of a program -/

namespace Linked.Settled

variable {program : Program} {linked : Linked} {low : Decl} {sub sup : DeclId}

/-- The links of the hierarchy are those between the types of the program. -/
theorem standsFor_iff (settled : linked.Settled program) (anchored : program.Anchored) :
    linked.hierarchy.StandsFor sub sup ↔
      ∃ low high, program.Under low high ∧ low.id = sub ∧ high.id = sup := by
  have listed (low : Decl) : sup ∈ (program.classType low).compatible ↔
      ∃ high ∈ program.supertypes low, high.id = sup := by
    simp only [Program.classType, Program.supertypes, List.mem_append, List.mem_map, or_and_right,
      exists_or]
    exact or_comm
  rw [Hierarchy.StandsFor, Hierarchy.compatible, settled.hierarchy anchored]
  constructor
  · intro direct
    cases found : program.classes.find? (·.id == sub) with
    | none =>
      rw [found] at direct
      cases direct
    | some low =>
      rw [found] at direct
      obtain ⟨high, above, same⟩ := (listed low).mp direct
      exact ⟨low, high, ⟨List.mem_of_find?_eq_some found, above⟩,
        by simpa using List.find?_some found, same⟩
  · rintro ⟨low, high, ⟨isClass, above⟩, rfl, same⟩
    obtain ⟨other, found⟩ : ∃ other, program.classes.find? (·.id == low.id) = some other := by
      rw [← Option.isSome_iff_exists, List.find?_isSome]
      exact ⟨low, isClass, beq_self_eq_true _⟩
    have eq : other = low := anchored.decl_inj
      (Program.mem_classes.mp (List.mem_of_find?_eq_some found)).1 (Program.mem_classes.mp isClass).1
      (by simpa using List.find?_some found)
    rw [found, eq]
    exact (listed low).mpr ⟨high, above, same⟩

/-- Links of the hierarchy lead from a type of the program to types of the program. -/
theorem under_of_standsFor (settled : linked.Settled program) (anchored : program.Anchored)
    (inside : .decl low ∈ program.subtrees)
    (path : ReflTransGen linked.hierarchy.StandsFor low.id sup) :
    ∃ high, high.id = sup ∧ .decl high ∈ program.subtrees ∧ ReflTransGen program.Under low high := by
  induction path with
  | refl => exact ⟨low, rfl, inside, .refl⟩
  | tail _ step ih =>
    obtain ⟨between, rfl, among, chain⟩ := ih
    obtain ⟨other, high, link, same, rfl⟩ := (settled.standsFor_iff anchored).mp step
    have eq := anchored.decl_inj (Program.mem_classes.mp link.1).1 among same
    subst eq
    exact ⟨high, rfl, (Program.supertypes_type anchored among link.2).1, .tail chain link⟩

/-- A type can be used for another exactly when they are the same or the scope of the other lies above
the scope of the one. -/
theorem isCompatible_iff (settled : linked.Settled program) (anchored : program.Anchored) :
    linked.hierarchy.isCompatible sub sup = true ↔ sub = sup ∨
      ∃ own above, linked.graph.scopeOf (.decl sub) = some own ∧
        linked.graph.scopeOf (.decl sup) = some above ∧
        ReflTransGen (Check.DirectlyAbove linked.graph) own above := by
  have mirrors := settled.faithful.toMirrors
  have opened {node : Node} {id : ScopeId} :
      linked.graph.scopeOf node = some id ↔ linked.graph.Stands id node :=
    mirrors.scopeOf_iff anchored.toCoherent
  rw [Hierarchy.isCompatible_iff]
  simp only [opened]
  constructor
  · intro path
    rcases ReflTransGen.cases_head path with same | ⟨middle, step, _⟩
    · exact .inl same
    · obtain ⟨low, _, ⟨isClass, -⟩, rfl, -⟩ := (settled.standsFor_iff anchored).mp step
      obtain ⟨inside, kind⟩ := Program.mem_classes.mp isClass
      obtain ⟨own, stands⟩ := mirrors.type_stands anchored inside (.inl (beq_iff_eq.mp kind))
      obtain ⟨high, rfl, -, chain⟩ := settled.under_of_standsFor anchored inside path
      obtain ⟨above, links, stands'⟩ := Check.above_of_under settled anchored stands chain
      exact .inr ⟨own, above, stands, stands', links⟩
  · rintro (rfl | ⟨own, above, stands, stands', links⟩)
    · exact .refl
    · rcases ReflTransGen.cases_head links with rfl | ⟨middle, ⟨scope, there, listed⟩, _⟩
      · cases stands.node_unique stands'
        exact .refl
      · obtain ⟨low, isClass, owner, -⟩ := (settled.mem_supertypes anchored there).mp listed
        cases ScopeGraph.Stands.node_unique ⟨scope, there, owner⟩ stands
        obtain ⟨high, chain, -, stands''⟩ := Check.under_of_above settled anchored
          (Program.mem_classes.mp isClass).1 stands links
        cases stands''.node_unique stands'
        exact chain.lift Decl.id fun a b link =>
          (settled.standsFor_iff anchored).mpr ⟨a, b, link, rfl, rfl⟩

end Linked.Settled

namespace Program

variable {program : Program}

/-- Compatibility is reachability. In the hierarchy of a program, classes that extend one another in a
circle included, the search for a supertype comes to its answer with no limit on visits. It answers that
a type can be used for another exactly when they are the same or links between scopes lead from the scope
of the one to the scope of the other; so every type can be used for itself, and what can be used for a
type can be used for all that the type can be used for. -/
theorem compatible_iff_above (built : program.Built) (shape : FrameShape) :
    ∃ analysis, program.analyze shape = .ok analysis ∧
      (∀ sub sup, analysis.hierarchy.Searches sup [] [sub] (analysis.hierarchy.isCompatible sub sup)) ∧
      (∀ sub sup, analysis.hierarchy.isCompatible sub sup = true ↔ sub = sup ∨
        ∃ own above, analysis.graph.scopeOf (.decl sub) = some own ∧
          analysis.graph.scopeOf (.decl sup) = some above ∧
          ReflTransGen (Check.DirectlyAbove analysis.graph) own above) ∧
      (∀ type, analysis.hierarchy.isCompatible type type = true) ∧
      (∀ sub middle sup, analysis.hierarchy.isCompatible sub middle = true →
        analysis.hierarchy.isCompatible middle sup = true →
        analysis.hierarchy.isCompatible sub sup = true) := by
  have anchored := built.anchored
  obtain ⟨linked, faults, laid, settled, -, -, ran⟩ := anchored.analyze_run shape
  exact ⟨_, ran, linked.hierarchy.searches_isCompatible, fun sub sup => settled.isCompatible_iff anchored,
    linked.hierarchy.isCompatible_refl, fun sub middle sup => Hierarchy.isCompatible_trans⟩

/-- Two classes that extend one another, the second of which implements an interface, and a class that
names nothing. -/
def circleWithInterface : List Step :=
  let word (name : String) : Ident := ⟨name, default⟩
  [ .interface (word "Vessel") [], .cls (word "Cup") (some (word "Jug")) [] [],
    .cls (word "Jug") (some (word "Cup")) [word "Vessel"] [], .cls (word "Lid") none [] [] ]

/-- A cup can be used for a vessel, so links lead from its scope round to that of the vessel; none lead
from the scope of the vessel back, and none from that of the lid. -/
theorem compatible_iff_above_circle :
    ∃ program analysis,
      Program.assemble circleWithInterface [⟨0⟩, ⟨1⟩, ⟨2⟩, ⟨3⟩] = some program ∧
      program.analyze {} = .ok analysis ∧ analysis.hierarchy.isCompatible ⟨1⟩ ⟨0⟩ = true ∧
      (∃ own above, analysis.graph.scopeOf (.decl ⟨1⟩) = some own ∧
        analysis.graph.scopeOf (.decl ⟨0⟩) = some above ∧
        ReflTransGen (Check.DirectlyAbove analysis.graph) own above) ∧
      ∀ sub ∈ [(⟨0⟩ : DeclId), ⟨3⟩], ∀ own above, analysis.graph.scopeOf (.decl sub) = some own →
        analysis.graph.scopeOf (.decl ⟨1⟩) = some above →
        ¬ ReflTransGen (Check.DirectlyAbove analysis.graph) own above := by
  have run : ((Program.assemble circleWithInterface [⟨0⟩, ⟨1⟩, ⟨2⟩, ⟨3⟩]).bind fun program =>
      (program.analyze {}).toOption.map fun analysis =>
        [(⟨1⟩, ⟨0⟩), (⟨0⟩, ⟨1⟩), (⟨3⟩, ⟨1⟩)].map fun pair : DeclId × DeclId =>
          analysis.hierarchy.isCompatible pair.1 pair.2) = some [true, false, false] := by
    decide +kernel
  simp only [Option.bind_eq_some_iff, Option.map_eq_some_iff] at run
  obtain ⟨program, made, analysis, ran, found⟩ := run
  have ran := Arena.ok_of_toOption ran
  obtain ⟨_, again, -, reaches, -⟩ := compatible_iff_above (Program.built_of_assemble made) {}
  rw [ran] at again
  cases again
  simp only [List.map_cons, List.map_nil, List.cons.injEq, and_true] at found
  obtain ⟨up, down, apart⟩ := found
  refine ⟨program, analysis, made, ran, up, ?_, ?_⟩
  · exact ((reaches _ _).mp up).resolve_left (by decide)
  · intro sub member own above opened opened' path
    have compatible := (reaches sub ⟨1⟩).mpr (.inr ⟨own, above, opened, opened', path⟩)
    simp only [List.mem_cons, List.not_mem_nil, or_false] at member
    rcases member with rfl | rfl
    · rw [down] at compatible
      cases compatible
    · rw [apart] at compatible
      cases compatible

end Program

end DecafTac
