import DecafTac.Proofs.Scope.Reports
import DecafTac.Proofs.Storage.Conformance

/-!
Methods that do not fit what they inherit. The search above the class of a method needs no limit: each
scope is visited once, so it ends whether or not classes extend one another in a circle. A method is
reported once exactly when a scope above that of its class, other than the scope of the class itself,
last binds the name to anything but a function of an equivalent signature.
-/
namespace DecafTac

open Relation (TransGen ReflTransGen)

/-! ## Equivalent signatures -/

/-- Two formals are variables of equivalent types. -/
def Decl.EquivalentFormal (a b : Decl) : Prop :=
  ∃ s t, a.varType? = some s ∧ b.varType? = some t ∧ s.equivalent t = true

/-- Results are equivalent, and so are the formals, in number and one by one. -/
structure Signature.Equivalent (a b : Signature) : Prop where
  result : a.result.equivalent b.result = true
  formals : List.Forall₂ Decl.EquivalentFormal a.formals b.formals

namespace Check

theorem formalsAgree_iff (a b : Decl) : formalsAgree a b = true ↔ a.EquivalentFormal b := by
  unfold formalsAgree Decl.EquivalentFormal
  cases a.varType? with
  | none => simp
  | some s => cases b.varType? <;> simp

theorem signaturesAgree_iff (a b : Signature) : signaturesAgree a b = true ↔ a.Equivalent b := by
  have formals : List.Forall₂ Decl.EquivalentFormal a.formals b.formals ↔
      a.formals.length = b.formals.length ∧
        ((a.formals.zip b.formals).all fun pair => formalsAgree pair.1 pair.2) = true := by
    simp only [List.forall₂_iff_zip, List.all_eq_true, formalsAgree_iff, Prod.forall]
  unfold signaturesAgree
  rw [Bool.and_eq_true, Bool.and_eq_true, beq_iff_eq, and_assoc, ← formals]
  exact ⟨fun ⟨result, formals⟩ => ⟨result, formals⟩, fun ⟨result, formals⟩ => ⟨result, formals⟩⟩

/-! ## Searching without a limit -/

/-- A search through the scopes that wait and those above them comes to an answer: each is visited once,
and the first that clashes ends it. -/
inductive Searches (graph : ScopeGraph) (clash : Scope → Except Dangling Bool) :
    (visited pending : List ScopeId) → (answer : Bool) → Prop where
  | done {visited : List ScopeId} : Searches graph clash visited [] false
  | skip {visited pending : List ScopeId} {id : ScopeId} {answer : Bool} (known : id ∈ visited)
      (rest : Searches graph clash visited pending answer) :
      Searches graph clash visited (id :: pending) answer
  | found {visited pending : List ScopeId} {id : ScopeId} {scope : Scope} (fresh : id ∉ visited)
      (there : graph.scope? id = some scope) (clashes : clash scope = .ok true) :
      Searches graph clash visited (id :: pending) true
  | next {visited pending : List ScopeId} {id : ScopeId} {scope : Scope} {answer : Bool}
      (fresh : id ∉ visited) (there : graph.scope? id = some scope)
      (agrees : clash scope = .ok false)
      (rest : Searches graph clash (id :: visited) (pending ++ scope.supertypes) answer) :
      Searches graph clash visited (id :: pending) answer

variable {graph : ScopeGraph} {clash : Scope → Except Dangling Bool} {visited pending : List ScopeId}
  {answer : Bool}

/-- Scopes at the front that were visited are passed over. -/
theorem Searches.of_dropWhile
    (rest : Searches graph clash visited (pending.dropWhile visited.contains) answer) :
    Searches graph clash visited pending answer := by
  induction pending with
  | nil => exact rest
  | cons id pending ih =>
    by_cases known : id ∈ visited
    · rw [List.dropWhile_cons_of_pos (by simpa using known)] at rest
      exact .skip known (ih rest)
    · rwa [List.dropWhile_cons_of_neg (by simpa using known)] at rest

/-- Where there is room for all scopes, the limit on visits is never met: the measure is the number of
scopes that were not visited. -/
theorem searches_of_clashAbove {limit : Nat} (room : graph.size < limit + visited.length)
    (distinct : visited.Nodup) (stored : ∀ id ∈ visited, id.index < graph.size)
    (ran : clashAbove graph clash limit visited pending = .ok answer) :
    Searches graph clash visited pending answer := by
  induction limit generalizing visited pending with
  | zero =>
    have bound := length_le_of_distinct ScopeId.index (fun _ _ => ScopeId.ext) distinct stored
    omega
  | succ limit ih =>
    apply Searches.of_dropWhile
    have first := List.head?_dropWhile_not visited.contains pending
    rw [clashAbove] at ran
    cases waiting : pending.dropWhile visited.contains with
    | nil =>
      rw [waiting] at ran
      cases ran
      exact .done
    | cons id rest =>
      rw [waiting] at ran first
      have fresh : id ∉ visited := by simpa using first
      obtain ⟨scope, opened, ran⟩ := Arena.bind_ok ran
      obtain ⟨clashed, tested, ran⟩ := Arena.bind_ok ran
      have there := ScopeGraph.scope_eq_ok.mp opened
      cases clashed with
      | true =>
        cases ran
        exact .found fresh there tested
      | false =>
        refine .next fresh there tested (ih ?_ ?_ ?_ ran)
        · simp only [List.length_cons]
          omega
        · exact List.nodup_cons.mpr ⟨fresh, distinct⟩
        · exact List.forall_mem_cons.mpr ⟨ScopeGraph.index_lt there, stored⟩

end Check

/-! ## Mismatches in the scopes -/

namespace ScopeGraph

variable (graph : ScopeGraph) (arena : Arena)

/-- A scope last binds a name to anything but a function of an equivalent signature. -/
def Mismatches (name : String) (signature : Signature) (id : ScopeId) : Prop :=
  ∃ scope bound d, graph.scope? id = some scope ∧ scope.binding? name = some bound ∧
    arena.decl? bound = some d ∧ ¬ ∃ other, d.signature? = some other ∧ signature.Equivalent other

/-- A method does not fit a scope above that of its class. -/
def Misfits (cls f : Decl) : Prop :=
  ∃ signature own above, f.signature? = some signature ∧ graph.scopeOf (.decl cls.id) = some own ∧
    TransGen (Check.DirectlyAbove graph) own above ∧ above ≠ own ∧
    graph.Mismatches arena f.name signature above

open Classical in
/-- The report that a method does not fit what its class inherits. -/
noncomputable def mismatch? (cls f : Decl) : Option SemanticError :=
  if graph.Misfits arena cls f then some (.overrideMismatch cls.name f.name f.span) else none

variable {graph} {program : Program} {id : ScopeId} {scope : Scope}

theorem Faithful.mismatches_iff (faithful : graph.Faithful program) (anchored : program.Anchored)
    (there : graph.scope? id = some scope) (name : String) (signature : Signature) :
    graph.Mismatches program.arena name signature id ↔
      program.clashesAt name signature scope.owner = true := by
  have last : scope.binding? name =
      (((program.declared scope.owner).filter (·.name == name)).getLast?).map Decl.id := by
    rw [Scope.binding?, faithful.bindings_eq anchored there, List.getLast?_map]
  rw [Program.clashesAt]
  cases found : ((program.declared scope.owner).filter (·.name == name)).getLast? with
  | none =>
    rw [found] at last
    constructor
    · rintro ⟨_, bound, -, there', binding, -⟩
      rw [there] at there'
      cases there'
      rw [last] at binding
      cases binding
    · intro clashes
      cases clashes
  | some d =>
    rw [found] at last
    have stored := anchored.declared_stored scope.owner d
      (List.mem_of_mem_filter (List.mem_of_getLast? found))
    have bound : graph.Mismatches program.arena name signature id ↔
        ¬ ∃ other, d.signature? = some other ∧ signature.Equivalent other := by
      constructor
      · rintro ⟨_, _, _, there', binding, stored', differs⟩
        rw [there] at there'
        cases there'
        rw [last] at binding
        cases binding
        rw [stored] at stored'
        cases stored'
        exact differs
      · exact fun differs => ⟨scope, d.id, d, there, last, stored, differs⟩
    rw [bound]
    cases function : d.signature? with
    | none => simp [function]
    | some other => simp [function, ← Check.signaturesAgree_iff]

end ScopeGraph

namespace Program

variable {program : Program} {linked : Linked} {cls f : Decl} {signature : Signature}

/-- A method clashes with a type above its class exactly when it does not fit a scope above that of its
class. -/
theorem Anchored.clashes_iff (anchored : program.Anchored) (settled : linked.Settled program)
    (listed : cls ∈ program.classes) (function : f.signature? = some signature) :
    program.Clashes cls f signature ↔ linked.graph.Misfits program.arena cls f := by
  have faithful := settled.faithful
  have mirrors := faithful.toMirrors
  obtain ⟨inside, isClass⟩ := mem_classes.mp listed
  obtain ⟨own, stands⟩ := mirrors.type_stands anchored inside (.inl (beq_iff_eq.mp isClass))
  have opened := (mirrors.scopeOf_iff anchored.toCoherent).mpr stands
  constructor
  · rintro ⟨high, chain, apart, clashes⟩
    obtain ⟨above, path, scope, there, owner⟩ := Check.above_of_under settled anchored stands chain
    have other : above ≠ own := by
      rintro rfl
      exact apart (Node.decl.inj (ScopeGraph.Stands.node_unique ⟨scope, there, owner⟩ stands))
    refine ⟨signature, own, above, function, opened, ?_, other, ?_⟩
    · exact (Relation.reflTransGen_iff_eq_or_transGen.mp path).resolve_left other
    · rw [faithful.mismatches_iff anchored there, owner]
      exact clashes
  · rintro ⟨_, _, above, function', opened', path, other, mismatches⟩
    rw [function] at function'
    cases function'
    rw [opened] at opened'
    cases opened'
    obtain ⟨high, chain, -, scope, there, owner⟩ :=
      Check.under_of_above settled anchored inside stands path.to_reflTransGen
    refine ⟨high, chain, fun same => other ?_, ?_⟩
    · rw [same] at owner
      exact mirrors.stands_unique anchored.toCoherent ⟨scope, there, owner⟩ stands
    · rwa [faithful.mismatches_iff anchored there, owner] at mismatches

theorem Anchored.overrideFaults_member (anchored : program.Anchored)
    (settled : linked.Settled program) (listed : cls ∈ program.classes) (member : f ∈ cls.members) :
    program.overrideFaults f = (linked.graph.mismatch? program.arena cls f).toList := by
  rw [overrideFaults, anchored.owningClass_member listed member, Option.bind_some,
    anchored.class_stored listed, ScopeGraph.mismatch?]
  cases function : f.signature? with
  | none =>
    have fits : ¬ linked.graph.Misfits program.arena cls f := by
      rintro ⟨_, _, _, function', -⟩
      rw [function] at function'
      cases function'
    simp [fits]
  | some signature =>
    by_cases clashes : program.Clashes cls f signature
    · simp [clashes, (anchored.clashes_iff settled listed function).mp clashes]
    · simp [clashes, mt (anchored.clashes_iff settled listed function).mpr clashes]

/-- The search above the class of a method ends, with the answer whether the method misfits. -/
theorem Anchored.search_ends (anchored : program.Anchored) (settled : linked.Settled program)
    (listed : cls ∈ program.classes) (member : f ∈ cls.members)
    (function : f.signature? = some signature) :
    ∃ own scope answer, linked.graph.scopeOf (.decl cls.id) = some own ∧
      linked.graph.scope? own = some scope ∧
      Check.Searches linked.graph (Check.clashes program.arena f.name signature) [own]
        scope.supertypes answer ∧
      (answer = true ↔ linked.graph.Misfits program.arena cls f) := by
  have inside : .decl f ∈ program.subtrees := by
    rw [← anchored.declared_class listed] at member
    exact anchored.declared_inside (.inr ⟨_, (mem_classes.mp listed).1, rfl⟩) member
  have ran := Check.overriding_eq settled anchored inside function
  rw [anchored.overrideFaults_member settled listed member, Check.overriding,
    anchored.owningClass_member listed member] at ran
  obtain ⟨within, isClass⟩ := mem_classes.mp listed
  have mirrors := settled.faithful.toMirrors
  obtain ⟨own, stands⟩ := mirrors.type_stands anchored within (.inl (beq_iff_eq.mp isClass))
  have opened := (mirrors.scopeOf_iff anchored.toCoherent).mpr stands
  simp only [opened] at ran
  obtain ⟨scope, there, ran⟩ := Arena.bind_ok ran
  obtain ⟨answer, searched, ran⟩ := Arena.bind_ok ran
  have there := ScopeGraph.scope_eq_ok.mp there
  refine ⟨own, scope, answer, opened, there, ?_, ?_⟩
  · refine Check.searches_of_clashAbove ?_ (List.nodup_singleton own) ?_ searched
    · rw [List.length_singleton]
      omega
    · exact List.forall_mem_singleton.mpr (ScopeGraph.index_lt there)
  · rw [ScopeGraph.mismatch?] at ran
    cases answer with
    | true =>
      obtain ⟨d, -, ran⟩ := Arena.bind_ok ran
      have reported := Except.ok.inj ran
      by_cases misfits : linked.graph.Misfits program.arena cls f
      · simp [misfits]
      · simp [misfits] at reported
    | false =>
      have reported := Except.ok.inj ran
      by_cases misfits : linked.graph.Misfits program.arena cls f
      · simp [misfits] at reported
      · simp [misfits]

/-- The members of the classes of a program are the declarations that belong to a class. -/
theorem Anchored.members_perm (anchored : program.Anchored) :
    (program.declarations.filter fun d => (program.arena.owningClass d.id).isSome).Perm
      (program.classes.flatMap Decl.members) := by
  have single : (program.classes.flatMap Decl.members).Nodup := by
    rw [List.nodup_flatMap]
    constructor
    · intro cls listed
      rw [← anchored.declared_class listed]
      exact (anchored.declared_single _).of_map
    · refine (anchored.classes_single.of_map).pairwise_of_forall_ne ?_
      intro one first other second apart f member member'
      have same := anchored.owningClass_member first member
      rw [anchored.owningClass_member second member'] at same
      exact apart (anchored.decl_inj (mem_classes.mp first).1 (mem_classes.mp second).1
        (Option.some.inj same).symm)
  rw [List.perm_ext_iff_of_nodup (anchored.declarations_single.of_map.filter _) single]
  intro d
  rw [List.mem_filter, mem_declarations, List.mem_flatMap]
  constructor
  · rintro ⟨inside, owned⟩
    obtain ⟨id, owner⟩ := Option.isSome_iff_exists.mp owned
    obtain ⟨cls, listed, rfl, -⟩ := Check.owningClass_class anchored inside owner
    obtain ⟨outer, link, declared, -⟩ := anchored.mem_declared inside
    have same : outer = .decl cls.id := by
      rw [Arena.owningClass, link, Option.bind_some] at owner
      cases outer with
      | decl id =>
        simp only [Arena.declWhere, Option.ite_none_right_eq_some, Option.some.injEq] at owner
        rw [owner.2]
      | program | stmt | expr => cases owner
    subst same
    exact ⟨cls, listed, anchored.declared_class listed ▸ declared⟩
  · rintro ⟨cls, listed, member⟩
    rw [anchored.owningClass_member listed member]
    refine ⟨?_, rfl⟩
    rw [← anchored.declared_class listed] at member
    exact anchored.declared_inside (.inr ⟨_, (mem_classes.mp listed).1, rfl⟩) member

/-- The reports about methods, tree by tree, are those of the members of classes. -/
theorem Anchored.ownFaults_overriding (anchored : program.Anchored) :
    (program.subtrees.flatMap fun t => Diagnostics.ofKind (program.ownFaults t) .overrideMismatch) =
      (program.declarations.filter fun d => (program.arena.owningClass d.id).isSome).flatMap
        program.overrideFaults := by
  rw [declarations, List.filter_filterMap, List.filterMap_eq_flatMap_toList, List.flatMap_assoc]
  refine List.flatMap_congr fun t inside => ?_
  cases t with
  | stmt => rfl
  | expr e =>
    refine List.filter_eq_nil_iff.mpr fun error listed => ?_
    rcases exprFaults_kind listed with kind | kind <;> simp [kind]
  | decl d =>
    obtain ⟨outer, link, -⟩ := anchored.mem_declared inside
    rw [ownFaults, declFaults_ofKind link,
      Diagnostics.ofKind_other (fun _ => conflictFaults_kind) ErrorKind.noConfusion,
      Diagnostics.ofKind_other (fun _ => typesFaults_kind) ErrorKind.noConfusion,
      Diagnostics.ofKind_same fun _ => overrideFaults_kind, List.nil_append, List.nil_append]
    cases owner : program.arena.owningClass d.id with
    | none => simp [overrideFaults, Tree.decl?, owner]
    | some cls => simp [Tree.decl?, Option.filter, owner]

/-- Methods that do not fit what they inherit. The check of a program ends, and so does, with no limit on
visits, the search above the class of each method, classes that extend one another in a circle included.
The check reports, once each, the methods of classes that do not fit a scope above that of their
class. -/
theorem mismatches_reported (built : program.Built) (shape : FrameShape) :
    ∃ analysis, program.analyze shape = .ok analysis ∧
      Check.program analysis.graph program = .ok analysis.faults ∧
      ((program.classes.flatMap Decl.members).map Decl.id).Nodup ∧
      (∀ cls ∈ program.classes, ∀ f ∈ cls.members, ∀ signature, f.signature? = some signature →
        ∃ own scope answer, analysis.graph.scopeOf (.decl cls.id) = some own ∧
          analysis.graph.scope? own = some scope ∧
          Check.Searches analysis.graph (Check.clashes program.arena f.name signature) [own]
            scope.supertypes answer ∧
          (answer = true ↔ analysis.graph.Misfits program.arena cls f)) ∧
      (analysis.faults.ofKind .overrideMismatch).Perm (program.classes.flatMap fun cls =>
        cls.members.filterMap (analysis.graph.mismatch? program.arena cls)) := by
  have anchored := built.anchored
  obtain ⟨linked, faults, laid, settled, checked, -, ran⟩ := anchored.analyze_run shape
  have members := anchored.members_perm
  refine ⟨_, ran, ?_, ?_, fun cls listed f member signature =>
    anchored.search_ends settled listed member, ?_⟩
  · obtain ⟨_, -, ran⟩ := Arena.bind_ok ran
    obtain ⟨_, found, ran⟩ := Arena.bind_ok ran
    obtain ⟨⟨_, _⟩, -, ran⟩ := Arena.bind_ok ran
    cases ran
    exact found
  · exact (members.map _).nodup_iff.mp
      (anchored.declarations_single.sublist (List.filter_sublist.map _))
  · refine (checked.filter _).trans ?_
    rw [← Diagnostics.ofKind, Diagnostics.ofKind_flatMap, anchored.ownFaults_overriding]
    refine (members.flatMap_right _).trans (.of_eq ?_)
    rw [List.flatMap_assoc]
    refine List.flatMap_congr fun cls listed => ?_
    rw [List.filterMap_eq_flatMap_toList]
    exact List.flatMap_congr fun f member => anchored.overrideFaults_member settled listed member

/-- Two classes that extend one another. Both have a method `size`, which agrees, and a method `fill`,
whose formals differ. -/
def roundAbout : List Step :=
  let word (name : String) : Ident := ⟨name, default⟩
  [ .function (word "size") (.primitive .int) [] none, .var (word "a") (.primitive .int),
    .function (word "fill") (.primitive .void) [⟨1⟩] none,
    .cls (word "Cup") (some (word "Jug")) [] [⟨0⟩, ⟨2⟩],
    .function (word "size") (.primitive .int) [] none, .var (word "b") (.primitive .bool),
    .function (word "fill") (.primitive .void) [⟨5⟩] none,
    .cls (word "Jug") (some (word "Cup")) [] [⟨4⟩, ⟨6⟩] ]

/-- In the circle `Cup` misfits with `fill`, and neither class does with `size`. -/
theorem mismatches_reported_round_about :
    ∃ program analysis, Program.assemble roundAbout [⟨3⟩, ⟨7⟩] = some program ∧
      program.analyze {} = .ok analysis ∧
      (∃ cls ∈ program.classes, ∃ f ∈ cls.members, cls.name = "Cup" ∧ f.name = "fill" ∧
        analysis.graph.Misfits program.arena cls f) ∧
      ∀ cls ∈ program.classes, ∀ f ∈ cls.members, f.name = "size" →
        ¬ analysis.graph.Misfits program.arena cls f := by
  have run : ((Program.assemble roundAbout [⟨3⟩, ⟨7⟩]).bind fun program =>
      (program.analyze {}).toOption.map fun analysis =>
        analysis.faults.ofKind .overrideMismatch) =
      some [.overrideMismatch "Cup" "fill" default, .overrideMismatch "Jug" "fill" default] := by
    decide +kernel
  simp only [Option.bind_eq_some_iff, Option.map_eq_some_iff] at run
  obtain ⟨program, made, analysis, ran, found⟩ := run
  have ran := Arena.ok_of_toOption ran
  obtain ⟨_, again, -, -, -, reported⟩ := mismatches_reported (Program.built_of_assemble made) {}
  rw [ran] at again
  cases again
  rw [found] at reported
  refine ⟨program, analysis, made, ran, ?_, ?_⟩
  · have listed := reported.mem_iff.mp List.mem_cons_self
    obtain ⟨cls, among, listed⟩ := List.mem_flatMap.mp listed
    obtain ⟨f, member, report⟩ := List.mem_filterMap.mp listed
    simp only [ScopeGraph.mismatch?, Option.ite_none_right_eq_some, Option.some.injEq,
      SemanticError.overrideMismatch.injEq] at report
    obtain ⟨misfits, owner, named, -⟩ := report
    exact ⟨cls, among, f, member, owner, named, misfits⟩
  · intro cls among f member named misfits
    have listed : .overrideMismatch cls.name f.name f.span ∈ program.classes.flatMap fun cls =>
        cls.members.filterMap (analysis.graph.mismatch? program.arena cls) := by
      refine List.mem_flatMap.mpr ⟨cls, among, List.mem_filterMap.mpr ⟨f, member, ?_⟩⟩
      rw [ScopeGraph.mismatch?, if_pos misfits]
    have concrete := reported.mem_iff.mpr listed
    simp [named] at concrete

end Program

end DecafTac
