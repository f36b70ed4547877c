import Mathlib.Data.List.Find
import DecafTac.Proofs.Scope.Meaning

/-!
What linking gives a program, said by the source alone. A class extends the class, and implements the
interfaces, that the names in its clauses mean at it; a class that names itself is left without a
superclass. Linking never fails: it puts every class of the program below these, in the scopes and in
the hierarchy, and reports exactly the names that mean nothing and the classes that name themselves.
-/
namespace DecafTac

namespace Decl

/-- The name of the class that a declaration extends. -/
def extended : Decl → Option Ident
  | .cls _ _ superclass _ _ => superclass
  | _ => none

/-- The names of the interfaces that a declaration implements. -/
def implemented : Decl → List Ident
  | .cls _ _ _ interfaces _ => interfaces
  | _ => []

end Decl

namespace Program

variable (program : Program)

/-- The class that the `extends` clause of a declaration means. -/
def superclass? (d : Decl) : Option Decl :=
  d.extended.bind fun name => program.meaning [.cls] name.name (.decl d.id)

/-- The class that a declaration is put below: the one it extends, unless that is itself. -/
def base? (d : Decl) : Option Decl :=
  (program.superclass? d).bind fun above => if above.id = d.id then none else some above

/-- The interfaces that some names mean at a declaration. -/
def interfacesNamed (d : Decl) (names : List Ident) : List Decl :=
  names.filterMap fun name => program.meaning [.interface] name.name (.decl d.id)

/-- The types that a declaration can stand in for directly, as its clauses name them. -/
def classType (d : Decl) : ClassType :=
  ⟨d.id, d.name,
    (program.base? d).toList.map Decl.id ++ (program.interfacesNamed d d.implemented).map Decl.id⟩

/-- What is wrong with the `extends` clause of a declaration. -/
def extendsFaults (d : Decl) : Diagnostics :=
  match d.extended with
  | none => []
  | some name =>
    match program.superclass? d with
    | none => [.identifierNotDeclared name.name .cls name.span]
    | some above => if above.id = d.id then [.cyclicInheritance d.name d.span] else []

/-- What is wrong with an `implements` clause of a declaration. -/
def implementsFaults (d : Decl) (names : List Ident) : Diagnostics :=
  names.flatMap fun name =>
    match program.meaning [.interface] name.name (.decl d.id) with
    | none => [.identifierNotDeclared name.name .interface name.span]
    | some _ => []

/-- What is wrong with the clauses of a declaration. -/
def clauseFaults (d : Decl) : Diagnostics :=
  program.extendsFaults d ++ program.implementsFaults d d.implemented

/-- The classes of a program, wherever they stand. -/
def classes : List Decl :=
  program.subtrees.filterMap fun
    | .decl d => if d.isClass then some d else none
    | _ => none

variable {program : Program} {d above : Decl}

theorem mem_classes : d ∈ program.classes ↔ .decl d ∈ program.subtrees ∧ d.isClass = true := by
  rw [classes, List.mem_filterMap]
  constructor
  · rintro ⟨t, inside, same⟩
    cases t with
    | decl other =>
      simp only [Option.ite_none_right_eq_some, Option.some.injEq] at same
      obtain ⟨isClass, rfl⟩ := same
      exact ⟨inside, isClass⟩
    | stmt | expr => cases same
  · rintro ⟨inside, isClass⟩
    exact ⟨.decl d, inside, if_pos isClass⟩

theorem superclass?_class (anchored : program.Anchored) (inside : .decl d ∈ program.subtrees)
    (found : program.superclass? d = some above) : above ∈ program.classes := by
  obtain ⟨name, -, means⟩ := Option.bind_eq_some_iff.mp found
  obtain ⟨there, -, kind⟩ := anchored.meaning_found (.inr ⟨_, inside, rfl⟩) means
  exact mem_classes.mpr ⟨there, by simpa [Decl.isClass] using kind⟩

theorem base?_eq_some : program.base? d = some above ↔
    program.superclass? d = some above ∧ above.id ≠ d.id := by
  rw [base?, Option.bind_eq_some_iff]
  constructor
  · rintro ⟨found, means, chosen⟩
    simp only [Option.ite_none_left_eq_some, Option.some.injEq] at chosen
    obtain ⟨other, rfl⟩ := chosen
    exact ⟨means, other⟩
  · rintro ⟨means, other⟩
    exact ⟨above, means, if_neg other⟩

theorem classes_sublist (program : Program) :
    (program.classes.map .decl).Sublist program.subtrees := by
  unfold classes
  induction program.subtrees with
  | nil => exact List.Sublist.refl _
  | cons t rest ih =>
    rw [List.filterMap_cons]
    split
    · exact ih.cons t
    · rename_i d found
      cases t with
      | decl other =>
        simp only [Option.ite_none_right_eq_some, Option.some.injEq] at found
        obtain ⟨-, rfl⟩ := found
        exact ih.cons_cons _
      | stmt | expr => cases found

/-- Every class is noted once among the classes of a program. -/
theorem Coherent.classes_single (coherent : program.Coherent) :
    (program.classes.map Decl.id).Nodup := by
  apply Decl.ids_nodup
  exact coherent.single_subtrees.sublist ((classes_sublist program).map _)

end Program

/-! ## What one class adds -/

/-- A scope that is put below a superclass, if there is one, and further interfaces. -/
def Scope.below (up : Option ScopeId) (ups : List ScopeId) (scope : Scope) : Scope :=
  { scope with superclass := up.or scope.superclass, interfaces := scope.interfaces ++ ups }

namespace ScopeGraph

theorem modify_same (graph : ScopeGraph) (here : ScopeId) {f : Scope → Scope}
    (same : ∀ scope, f scope = scope) : graph.modify here f = graph := by
  have scopes : graph.scopes.modify here.index f = graph.scopes := by
    apply Array.ext_getElem?
    intro index
    rw [Array.getElem?_modify]
    cases graph.scopes[index]? <;> simp [same]
  rw [modify, scopes]

theorem modify_modify (graph : ScopeGraph) (here : ScopeId) (f g : Scope → Scope) :
    (graph.modify here f).modify here g = graph.modify here fun scope => g (f scope) := by
  have scopes : (graph.scopes.modify here.index f).modify here.index g =
      graph.scopes.modify here.index fun scope => g (f scope) := by
    apply Array.ext_getElem?
    intro index
    rw [Array.getElem?_modify, Array.getElem?_modify, Array.getElem?_modify]
    split
    · rw [Option.map_map]
      rfl
    · rfl
  simp only [modify, scopes]

theorem linkSuperclass_eq (graph : ScopeGraph) (here above : ScopeId) :
    graph.linkSuperclass here above = graph.modify here (Scope.below (some above) []) := by
  rw [linkSuperclass]
  congr 1
  funext scope
  rw [Scope.below, Option.some_or, List.append_nil]

theorem linkInterface_eq (graph : ScopeGraph) (here above : ScopeId) :
    graph.linkInterface here above = graph.modify here (Scope.below none [above]) := by
  rw [linkInterface]
  congr 1

/-- The scope of the class that a declaration is put below. -/
def superclassScope (graph : ScopeGraph) (program : Program) (d : Decl) : Option ScopeId :=
  (program.base? d).bind fun above => graph.scopeOf (.decl above.id)

/-- The scopes of the interfaces that some names mean at a declaration. -/
def interfaceScopes (graph : ScopeGraph) (program : Program) (d : Decl) (names : List Ident) :
    List ScopeId :=
  (program.interfacesNamed d names).filterMap fun above => graph.scopeOf (.decl above.id)

end ScopeGraph

namespace Linked

open ScopeGraph

variable {program : Program} {record : ClassScope} {linked middle after : Linked} {d : Decl}

/-- What resolving clauses adds: links of one scope, and reports. -/
structure Grows (here : ScopeId) (up : Option ScopeId) (ups : List ScopeId) (faults : Diagnostics)
    (linked after : Linked) : Prop where
  graph : after.graph = linked.graph.modify here (Scope.below up ups)
  hierarchy : after.hierarchy = linked.hierarchy
  reports : after.reports = linked.reports ++ faults

namespace Grows

variable {here : ScopeId} {up : Option ScopeId} {ups others : List ScopeId} {faults later : Diagnostics}

theorem refl (here : ScopeId) (linked : Linked) : Grows here none [] [] linked linked := by
  refine ⟨(modify_same _ _ fun scope => ?_).symm, rfl, (List.append_nil _).symm⟩
  rw [Scope.below, Option.none_or, List.append_nil]

theorem report (here : ScopeId) (linked : Linked) (error : SemanticError) :
    Grows here none [] [error] linked (linked.report error) :=
  ⟨(refl here linked).graph, rfl, rfl⟩

theorem trans (first : Grows here up ups faults linked middle)
    (second : Grows here none others later middle after) :
    Grows here up (ups ++ others) (faults ++ later) linked after := by
  refine ⟨?_, second.hierarchy.trans first.hierarchy, ?_⟩
  · rw [second.graph, first.graph, modify_modify]
    congr 1
    funext scope
    rw [Scope.below, Scope.below, Option.none_or, List.append_assoc]
    rfl
  · rw [second.reports, first.reports, List.append_assoc]

theorem faithful (grows : Grows here up ups faults linked after)
    (faithful : linked.graph.Faithful program) : after.graph.Faithful program := by
  rw [grows.graph]
  exact faithful.modify here fun _ => rfl

theorem stands (grows : Grows here up ups faults linked after) {id : ScopeId} {node : Node} :
    after.graph.Stands id node ↔ linked.graph.Stands id node := by
  rw [stands_iff, stands_iff, grows.graph, parents_modify linked.graph here (f := Scope.below up ups)
    fun _ => rfl]

end Grows

theorem linkSuperclass_run (anchored : program.Anchored) (faithful : linked.graph.Faithful program)
    (stands : linked.graph.Stands record.scope (.decl d.id)) (same : record.cls = d.id) {name : Ident}
    (clause : d.extended = some name) :
    ∃ after, linkSuperclass program.arena record d.ident name linked =
        .ok (after, (program.base? d).toList.map Decl.id) ∧
      Grows record.scope (linked.graph.superclassScope program d) [] (program.extendsFaults d)
        linked after := by
  have resolved : program.superclass? d = program.meaning [.cls] name.name (.decl d.id) := by
    rw [Program.superclass?, clause]
    rfl
  unfold linkSuperclass superclassScope Program.extendsFaults Program.base?
  rw [faithful.findDecl_eq anchored stands, clause, resolved, same]
  cases program.meaning [.cls] name.name (.decl d.id) with
  | none => exact ⟨_, rfl, Grows.report ..⟩
  | some above =>
    simp only [bind, Except.bind, Option.map_some, Option.bind_some]
    by_cases own : above.id = d.id
    · simp only [own, if_true]
      exact ⟨_, rfl, Grows.report ..⟩
    · simp only [own, if_false, Option.bind_some]
      cases linked.graph.scopeOf (.decl above.id) with
      | none => exact ⟨_, rfl, Grows.refl ..⟩
      | some scope =>
        refine ⟨_, rfl, ?_, rfl, (List.append_nil _).symm⟩
        exact linkSuperclass_eq ..

/-- Resolving a name that means an interface: its scope, if it has one, is linked before the rest. -/
theorem linkInterface_run {name : Ident} {above : DeclId}
    (found : linked.graph.findDecl program.arena record.scope name.name [.interface] =
      .ok (some above)) (rest : List Ident) :
    ∃ middle, Grows record.scope none (linked.graph.scopeOf (.decl above)).toList [] linked middle ∧
      ∀ after others, linkInterfaces program.arena record rest middle = .ok (after, others) →
        linkInterfaces program.arena record (name :: rest) linked = .ok (after, above :: others) := by
  rw [linkInterfaces, found]
  simp only [bind, Except.bind]
  cases linked.graph.scopeOf (.decl above) with
  | none =>
    refine ⟨linked, Grows.refl .., fun after others ran => ?_⟩
    simp only [ran]
    rfl
  | some scope =>
    refine ⟨{ linked with
      graph := linked.graph.linkInterface record.scope scope
      interfaces := linked.interfaces + 1 }, ⟨linkInterface_eq .., rfl, ?_⟩, ?_⟩
    · exact (List.append_nil _).symm
    · intro after others ran
      simp only [ran]
      rfl

/-- Each name is resolved in turn: what one of them adds changes no meaning and no scope's number. -/
theorem linkInterfaces_run (anchored : program.Anchored) (names : List Ident)
    (faithful : linked.graph.Faithful program)
    (stands : linked.graph.Stands record.scope (.decl d.id)) :
    ∃ after, linkInterfaces program.arena record names linked =
        .ok (after, (program.interfacesNamed d names).map Decl.id) ∧
      Grows record.scope none (linked.graph.interfaceScopes program d names)
        (program.implementsFaults d names) linked after := by
  induction names generalizing linked with
  | nil => exact ⟨linked, rfl, Grows.refl ..⟩
  | cons name rest ih =>
    have found := faithful.findDecl_eq anchored stands [.interface] name.name
    cases means : program.meaning [.interface] name.name (.decl d.id) with
    | none =>
      have first := Grows.report record.scope linked
        (.identifierNotDeclared name.name .interface name.span)
      obtain ⟨after, ran, later⟩ := ih (first.faithful faithful) (first.stands.mpr stands)
      have names : program.interfacesNamed d (name :: rest) = program.interfacesNamed d rest := by
        simp [Program.interfacesNamed, means]
      refine ⟨after, ?_, ?_⟩
      · rw [linkInterfaces, found, means, names]
        exact ran
      · rw [interfaceScopes, names, Program.implementsFaults, List.flatMap_cons, means]
        exact first.trans later
    | some above =>
      rw [means, Option.map_some] at found
      obtain ⟨middle, first, next⟩ := linkInterface_run found rest
      obtain ⟨after, ran, later⟩ := ih (first.faithful faithful) (first.stands.mpr stands)
      have both := first.trans later
      have opened : middle.graph.interfaceScopes program d rest =
          linked.graph.interfaceScopes program d rest := by
        rw [first.graph]
        rfl
      have names : program.interfacesNamed d (name :: rest) =
          above :: program.interfacesNamed d rest := by
        simp [Program.interfacesNamed, means]
      rw [opened] at both
      refine ⟨after, ?_, ?_⟩
      · rw [next _ _ ran, names]
        rfl
      · rw [interfaceScopes, names, Program.implementsFaults, List.flatMap_cons, means,
          List.filterMap_cons]
        cases opens : linked.graph.scopeOf (.decl above.id) <;> rw [opens] at both <;> exact both

theorem linkClass_run (anchored : program.Anchored) (faithful : linked.graph.Faithful program)
    (stands : linked.graph.Stands record.scope (.decl d.id)) (same : record.cls = d.id)
    (listed : d ∈ program.classes) :
    ∃ middle, linkClass program.arena record linked =
        .ok { middle with hierarchy := linked.hierarchy.insert (program.classType d) } ∧
      Grows record.scope (linked.graph.superclassScope program d)
        (linked.graph.interfaceScopes program d d.implemented) (program.clauseFaults d)
        linked middle := by
  obtain ⟨inside, isClass⟩ := Program.mem_classes.mp listed
  have stored : program.arena.decl record.cls = .ok d := by
    rw [Arena.decl, same, anchored.decl_stored inside]
  cases d with
  | cls id name superclass interfaces members =>
    obtain ⟨first, grows, next⟩ : ∃ first,
        Grows record.scope
          (linked.graph.superclassScope program (.cls id name superclass interfaces members)) []
          (program.extendsFaults (.cls id name superclass interfaces members)) linked first ∧
        ∀ middle implemented,
          linkInterfaces program.arena record interfaces first = .ok (middle, implemented) →
          linkClass program.arena record linked = .ok { middle with
            hierarchy := middle.hierarchy.insert ⟨id, name.name,
              (program.base? (.cls id name superclass interfaces members)).toList.map Decl.id ++
                implemented⟩ } := by
      rw [linkClass, stored, same]
      cases superclass with
      | none =>
        refine ⟨linked, Grows.refl .., fun middle implemented ran => ?_⟩
        simp only [bind, Except.bind, ran]
        rfl
      | some above =>
        obtain ⟨first, named, grows⟩ := linkSuperclass_run anchored faithful stands same rfl
        refine ⟨first, grows, fun middle implemented ran => ?_⟩
        simp only [Decl.ident] at named
        simp only [bind, Except.bind, named, ran]
        rfl
    obtain ⟨middle, ran, later⟩ := linkInterfaces_run anchored interfaces
      (grows.faithful faithful) (grows.stands.mpr stands)
    have opened : first.graph.interfaceScopes program (.cls id name superclass interfaces members)
        interfaces = linked.graph.interfaceScopes program
          (.cls id name superclass interfaces members) interfaces := by
      rw [grows.graph]
      rfl
    have both := grows.trans later
    rw [opened] at both
    refine ⟨middle, ?_, both⟩
    rw [next _ _ ran, both.hierarchy]
    rfl
  | var | interface | prototype | function => cases isClass

/-! ## What all classes add -/

/-- The classes in `done` were linked, and no others: each is below what its clauses mean. -/
structure Upto (program : Program) (done : List Decl) (linked : Linked) : Prop where
  faithful : linked.graph.Faithful program
  below : ∀ id scope, linked.graph.scope? id = some scope → ∀ d ∈ done, scope.owner = .decl d.id →
    scope.superclass = linked.graph.superclassScope program d ∧
      scope.interfaces = linked.graph.interfaceScopes program d d.implemented
  apart : ∀ id scope, linked.graph.scope? id = some scope →
    (∀ d ∈ done, scope.owner ≠ .decl d.id) → scope.superclass = none ∧ scope.interfaces = []
  types : ∀ cls, linked.hierarchy.get? cls = (done.find? (·.id == cls)).map program.classType
  reports : linked.reports = done.flatMap program.clauseFaults

theorem upto_entered (anchored : program.Anchored) :
    Upto program [] { graph := program.entered.graph } where
  faithful := entered_faithful anchored
  below _ _ _ d listed := nomatch listed
  apart id scope there _ := by
    have none := ScopeGraph.entered_unlinked program id scope there
    rw [Scope.supertypes, List.append_eq_nil_iff] at none
    exact ⟨by simpa using none.2, none.1⟩
  types _ := rfl
  reports := rfl

end Linked

/-- Of one declaration only the class that was added last is found. -/
theorem Hierarchy.get?_insert (hierarchy : Hierarchy) (type : ClassType) (cls : DeclId) :
    (hierarchy.insert type).get? cls =
      if type.decl = cls then some type else hierarchy.get? cls := by
  rw [Hierarchy.insert, get?, List.find?_append, List.find?_filter, get?]
  by_cases same : type.decl = cls
  · have none : hierarchy.types.find? (fun a => decide ((a.decl != type.decl) = true ∧
        (a.decl == cls) = true)) = none := by
      rw [List.find?_eq_none]
      intro other _
      simp [same]
    rw [none, if_pos same]
    simp [same]
  · have found : hierarchy.types.find? (fun a => decide ((a.decl != type.decl) = true ∧
        (a.decl == cls) = true)) = hierarchy.types.find? (·.decl == cls) := by
      congr 1
      funext other
      by_cases found : other.decl = cls
      · simp [found, Ne.symm same]
      · simp [found]
    rw [found, if_neg same]
    simp [same]

namespace Linked

open ScopeGraph

variable {program : Program} {linked : Linked} {d : Decl} {done : List Decl}

/-- When one more class is linked, its scope, which had no links before, gets those of its clauses, and no
other scope changes. -/
theorem Upto.scope_cases (anchored : program.Anchored) (upto : Upto program done linked)
    {here : ScopeId} (stands : linked.graph.Stands here (.decl d.id))
    (others : ∀ other ∈ done, other.id ≠ d.id) {middle : Linked} {faults : Diagnostics}
    (grows : Grows here (linked.graph.superclassScope program d)
      (linked.graph.interfaceScopes program d d.implemented) faults linked middle)
    {id : ScopeId} {scope : Scope} (there : middle.graph.scope? id = some scope) :
    (scope.owner = .decl d.id ∧ scope.superclass = linked.graph.superclassScope program d ∧
      scope.interfaces = linked.graph.interfaceScopes program d d.implemented) ∨
    (scope.owner ≠ .decl d.id ∧ linked.graph.scope? id = some scope) := by
  rw [grows.graph, scope?_modify] at there
  split at there
  · rename_i same
    subst same
    obtain ⟨before, found, rfl⟩ := Option.map_eq_some_iff.mp there
    have owner : before.owner = .decl d.id := Stands.node_unique ⟨before, found, rfl⟩ stands
    obtain ⟨none, nil⟩ := upto.apart _ before found fun other member eq => by
      rw [owner] at eq
      exact others other member (Node.decl.inj eq).symm
    refine .inl ⟨owner, ?_, ?_⟩
    · simp [Scope.below, none]
    · simp [Scope.below, nil]
  · rename_i elsewhere
    refine .inr ⟨fun owner => elsewhere ?_, there⟩
    exact upto.faithful.toMirrors.stands_unique anchored.toCoherent stands ⟨scope, there, owner⟩

/-- One more class is linked. -/
theorem Upto.linkClass (anchored : program.Anchored) (upto : Upto program done linked)
    {record : ClassScope} (stands : linked.graph.Stands record.scope (.decl d.id))
    (same : record.cls = d.id) (listed : d ∈ program.classes) (fresh : d.id ∉ done.map Decl.id) :
    ∃ after, linkClass program.arena record linked = .ok after ∧ Upto program (done ++ [d]) after ∧
      ∀ id node, after.graph.Stands id node ↔ linked.graph.Stands id node := by
  obtain ⟨middle, ran, grows⟩ := linkClass_run anchored upto.faithful stands same listed
  have others : ∀ other ∈ done, other.id ≠ d.id := by
    intro other member eq
    exact fresh (eq ▸ List.mem_map_of_mem member)
  have above (other : Decl) : middle.graph.superclassScope program other =
      linked.graph.superclassScope program other ∧
      middle.graph.interfaceScopes program other other.implemented =
        linked.graph.interfaceScopes program other other.implemented := by
    rw [grows.graph]
    exact ⟨rfl, rfl⟩
  refine ⟨_, ran, ⟨grows.faithful upto.faithful, ?_, ?_, ?_, ?_⟩, fun id node => grows.stands⟩
  · intro id scope there other member owner
    change scope.superclass = middle.graph.superclassScope program other ∧
      scope.interfaces = middle.graph.interfaceScopes program other other.implemented
    rw [(above other).1, (above other).2]
    rcases List.mem_append.mp member with member | last
    · rcases upto.scope_cases anchored stands others grows there with ⟨own, -⟩ | ⟨-, there⟩
      · rw [own] at owner
        exact absurd (Node.decl.inj owner).symm (others other member)
      · exact upto.below id scope there other member owner
    · rw [List.mem_singleton.mp last] at owner ⊢
      rcases upto.scope_cases anchored stands others grows there with ⟨-, links⟩ | ⟨apart, -⟩
      · exact links
      · exact absurd owner apart
  · intro id scope there apart
    rcases upto.scope_cases anchored stands others grows there with ⟨own, -⟩ | ⟨-, there⟩
    · exact absurd own (apart d (by simp))
    · exact upto.apart id scope there fun other member => apart other (by simp [member])
  · intro cls
    rw [Hierarchy.get?_insert, upto.types, List.find?_append, List.find?_singleton]
    change (if d.id = cls then _ else _) = _
    by_cases own : d.id = cls
    · have none : done.find? (·.id == cls) = none := by
        rw [List.find?_eq_none]
        intro other member
        simpa [← own] using others other member
      simp [own, none]
    · simp [own]
  · change middle.reports = _
    rw [grows.reports, upto.reports, List.flatMap_append, List.flatMap_singleton]

/-- Classes are linked one by one, each in its own scope. -/
theorem Upto.linkAll (anchored : program.Anchored) {graph : ScopeGraph} {records : List ClassScope}
    {rest : List Decl} (own : List.Forall₂
      (fun record d => record.cls = d.id ∧ graph.Stands record.scope (.decl d.id)) records rest)
    (same : ∀ id node, linked.graph.Stands id node ↔ graph.Stands id node)
    (listed : rest ⊆ program.classes) (single : ((done ++ rest).map Decl.id).Nodup)
    (upto : Upto program done linked) :
    ∃ after, linkAll program.arena records linked = .ok after ∧ Upto program (done ++ rest) after := by
  induction own generalizing linked done with
  | nil =>
    rw [List.append_nil]
    exact ⟨linked, rfl, upto⟩
  | @cons record d records rest first _ ih =>
    obtain ⟨here, later⟩ := List.cons_subset.mp listed
    have split : done ++ d :: rest = done ++ [d] ++ rest := by simp
    have fresh : d.id ∉ done.map Decl.id := by
      rw [List.map_append, List.map_cons, List.nodup_middle] at single
      exact fun member => (List.nodup_cons.mp single).1 (List.mem_append_left _ member)
    obtain ⟨next, ran, more, kept⟩ :=
      upto.linkClass anchored ((same _ _).mpr first.2) first.1 here fresh
    obtain ⟨after, last, done⟩ := ih (fun id node => (kept id node).trans (same id node)) later
      (split ▸ single) more
    refine ⟨after, ?_, split ▸ done⟩
    rw [Linked.linkAll, ran]
    exact last

/-- All classes of the program were linked. -/
def Settled (program : Program) (linked : Linked) : Prop :=
  ∃ done, done.Perm program.classes ∧ Upto program done linked

end Linked

/-- A class or an interface of a program has a scope. -/
theorem ScopeGraph.Mirrors.type_stands {graph : ScopeGraph} {program : Program}
    (mirrors : graph.Mirrors program) (anchored : program.Anchored) {d : Decl}
    (inside : .decl d ∈ program.subtrees) (kind : d.kind = .cls ∨ d.kind = .interface) :
    ∃ id, graph.Stands id (.decl d.id) := by
  obtain ⟨decls, opens⟩ : ∃ decls, (Tree.decl d).opens? = some decls := by
    cases d with
    | var => cases kind <;> contradiction
    | cls | interface | prototype | function => exact ⟨_, rfl⟩
  obtain ⟨id, scope, -, there, owner, -⟩ := mirrors.opened anchored.toCoherent inside opens
  exact ⟨id, scope, there, owner⟩

namespace Program.Anchored

variable {program : Program}

/-- The numbers of the declarations of a program tell them apart. -/
theorem decl_inj (anchored : program.Anchored) {a b : Decl} (first : .decl a ∈ program.subtrees)
    (second : .decl b ∈ program.subtrees) (same : a.id = b.id) : a = b := by
  have stored := anchored.decl_stored first
  rw [same, anchored.decl_stored second] at stored
  exact (Option.some.inj stored).symm

/-- A class of a program is stored under its number. -/
theorem class_stored (anchored : program.Anchored) {cls : Decl} (listed : cls ∈ program.classes) :
    program.arena.decl? cls.id = some cls :=
  anchored.decl_stored (mem_classes.mp listed).1

/-- The classes noted while a program is entered are its classes. -/
theorem noted_class (anchored : program.Anchored) {cls : DeclId} {id : ScopeId} :
    ⟨cls, id⟩ ∈ program.entered.classes ↔
      ∃ d ∈ program.classes, cls = d.id ∧ program.entered.graph.Stands id (.decl d.id) := by
  have mirrors := ScopeGraph.entered_mirrors program
  rw [anchored.entered_orderly.noted]
  constructor
  · rintro ⟨stored, stands⟩
    obtain ⟨d, inside, isClass, rfl⟩ := (mirrors.stored_class anchored stands).mp stored
    exact ⟨d, mem_classes.mpr ⟨inside, isClass⟩, rfl, stands⟩
  · rintro ⟨d, listed, rfl, stands⟩
    obtain ⟨inside, isClass⟩ := mem_classes.mp listed
    exact ⟨(mirrors.stored_class anchored stands).mpr ⟨d, inside, isClass, rfl⟩, stands⟩

/-- Linking the classes of a program gives each of them what its clauses mean. -/
theorem link_run (anchored : program.Anchored) :
    ∃ linked, program.entered.graph.link program.arena program.entered.classes = .ok linked ∧
      linked.Settled program := by
  have mirrors := ScopeGraph.entered_mirrors program
  have known (record : ClassScope) (noted : record ∈ program.entered.classes) :
      ∃ d ∈ program.classes, record.cls = d.id ∧
        program.entered.graph.Stands record.scope (.decl d.id) :=
    anchored.noted_class.mp noted
  have : Nonempty Decl := ⟨.var ⟨0⟩ default (.named default)⟩
  choose! class_of listed named stands using known
  have own : List.Forall₂ (fun record d => record.cls = d.id ∧
      program.entered.graph.Stands record.scope (.decl d.id)) program.entered.classes
      (program.entered.classes.map class_of) := by
    rw [List.forall₂_map_right_iff, List.forall₂_same]
    exact fun record noted => ⟨named record noted, stands record noted⟩
  have single : ((program.entered.classes.map class_of).map Decl.id).Nodup := by
    rw [List.map_map]
    refine List.Nodup.map_on ?_ anchored.entered_orderly.once
    intro a first b second same
    have here := stands a first
    rw [show (class_of a).id = (class_of b).id from same] at here
    have cls : a.cls = b.cls := (named a first).trans (same.trans (named b second).symm)
    have scope : a.scope = b.scope :=
      mirrors.stands_unique anchored.toCoherent here (stands b second)
    cases a
    cases b
    cases cls
    cases scope
    rfl
  have perm : (program.entered.classes.map class_of).Perm program.classes := by
    rw [List.perm_ext_iff_of_nodup single.of_map anchored.classes_single.of_map]
    intro d
    constructor
    · intro member
      obtain ⟨record, noted, rfl⟩ := List.mem_map.mp member
      exact listed record noted
    · intro member
      obtain ⟨inside, isClass⟩ := mem_classes.mp member
      obtain ⟨id, stands⟩ := mirrors.type_stands anchored inside (.inl (beq_iff_eq.mp isClass))
      have noted := anchored.noted_class.mpr ⟨d, member, rfl, stands⟩
      refine List.mem_map.mpr ⟨_, noted, ?_⟩
      exact anchored.decl_inj (mem_classes.mp (listed _ noted)).1 inside (named _ noted).symm
  obtain ⟨linked, ran, upto⟩ := (Linked.upto_entered anchored).linkAll anchored own
    (fun id node => Iff.rfl) perm.subset single
  exact ⟨linked, ran, _, perm, upto⟩

end Program.Anchored

namespace Program

/-- The types that a declaration is put below: the interfaces it implements and the class it extends. -/
def supertypes (program : Program) (d : Decl) : List Decl :=
  program.interfacesNamed d d.implemented ++ (program.base? d).toList

theorem supertypes_type {program : Program} (anchored : program.Anchored) {d above : Decl}
    (inside : .decl d ∈ program.subtrees) (listed : above ∈ program.supertypes d) :
    .decl above ∈ program.subtrees ∧ (above.kind = .cls ∨ above.kind = .interface) := by
  rcases List.mem_append.mp listed with interface | base
  · obtain ⟨name, -, means⟩ := List.mem_filterMap.mp interface
    obtain ⟨there, -, kind⟩ := anchored.meaning_found (.inr ⟨_, inside, rfl⟩) means
    exact ⟨there, .inr (List.mem_singleton.mp kind)⟩
  · have found := superclass?_class anchored inside
      (base?_eq_some.mp (Option.mem_toList.mp base)).1
    obtain ⟨there, isClass⟩ := mem_classes.mp found
    exact ⟨there, .inl (beq_iff_eq.mp isClass)⟩

end Program

namespace Linked.Settled

variable {program : Program} {linked : Linked}

theorem faithful (settled : linked.Settled program) : linked.graph.Faithful program := by
  obtain ⟨done, -, upto⟩ := settled
  exact upto.faithful

/-- The class that a class is linked to is the one its clause means. -/
theorem superclassOf (settled : linked.Settled program) (anchored : program.Anchored) {d : Decl}
    (listed : d ∈ program.classes) :
    LaidOut.superclassOf linked.graph d.id = .ok ((program.base? d).map Decl.id) := by
  obtain ⟨done, perm, upto⟩ := settled
  have mirrors := upto.faithful.toMirrors
  obtain ⟨inside, isClass⟩ := Program.mem_classes.mp listed
  obtain ⟨own, stands⟩ := mirrors.type_stands anchored inside (.inl (beq_iff_eq.mp isClass))
  have opened := (mirrors.scopeOf_iff anchored.toCoherent).mpr stands
  obtain ⟨scope, there, owner⟩ := stands
  have link := (upto.below own scope there d (perm.mem_iff.mpr listed) owner).1
  rw [LaidOut.superclassOf, opened]
  simp only [ScopeGraph.scope_eq_ok.mpr there, bind, Except.bind, link, ScopeGraph.superclassScope]
  cases base : program.base? d with
  | none => rfl
  | some above =>
    obtain ⟨inside, kind⟩ := Program.supertypes_type anchored inside
      (List.mem_append_right _ (Option.mem_toList.mpr base))
    obtain ⟨up, stands⟩ := mirrors.type_stands anchored inside kind
    have opened := (mirrors.scopeOf_iff anchored.toCoherent).mpr stands
    obtain ⟨high, there, owner⟩ := stands
    simp only [Option.bind_some, opened, ScopeGraph.owningDecl, ScopeGraph.scope_eq_ok.mpr there,
      bind, Except.bind, owner]
    rfl

/-- The scopes above a scope are those of the types that its class is put below. -/
theorem mem_supertypes (settled : linked.Settled program) (anchored : program.Anchored)
    {id above : ScopeId} {scope : Scope} (there : linked.graph.scope? id = some scope) :
    above ∈ scope.supertypes ↔ ∃ d ∈ program.classes, scope.owner = .decl d.id ∧
      ∃ high ∈ program.supertypes d, linked.graph.Stands above (.decl high.id) := by
  obtain ⟨done, perm, upto⟩ := settled
  have mirrors := upto.faithful.toMirrors
  have opened (d : Decl) : linked.graph.scopeOf (.decl d.id) = some above ↔
      linked.graph.Stands above (.decl d.id) := mirrors.scopeOf_iff anchored.toCoherent
  by_cases linkable : ∃ d ∈ done, scope.owner = .decl d.id
  · obtain ⟨d, member, owner⟩ := linkable
    obtain ⟨superclass, interfaces⟩ := upto.below id scope there d member owner
    have listed : above ∈ scope.supertypes ↔
        ∃ high ∈ program.supertypes d, linked.graph.Stands above (.decl high.id) := by
      rw [Scope.supertypes, interfaces, superclass]
      simp only [ScopeGraph.interfaceScopes, ScopeGraph.superclassScope, Program.supertypes,
        List.mem_append, List.mem_filterMap, Option.mem_toList, Option.bind_eq_some_iff, opened,
        or_and_right, exists_or]
    rw [listed]
    constructor
    · exact fun found => ⟨d, perm.mem_iff.mp member, owner, found⟩
    · rintro ⟨other, among, same, found⟩
      have eq : other = d := by
        rw [owner] at same
        exact anchored.decl_inj (Program.mem_classes.mp among).1
          (Program.mem_classes.mp (perm.mem_iff.mp member)).1 (Node.decl.inj same).symm
      rw [← eq]
      exact found
  · obtain ⟨superclass, interfaces⟩ := upto.apart id scope there fun d member owner =>
      linkable ⟨d, member, owner⟩
    rw [Scope.supertypes, interfaces, superclass]
    constructor
    · exact fun listed => (List.not_mem_nil listed).elim
    · rintro ⟨d, among, owner, -⟩
      exact absurd ⟨d, perm.mem_iff.mpr among, owner⟩ linkable

theorem hierarchy (settled : linked.Settled program) (anchored : program.Anchored) (cls : DeclId) :
    linked.hierarchy.get? cls = (program.classes.find? (·.id == cls)).map program.classType := by
  obtain ⟨done, perm, upto⟩ := settled
  rw [upto.types, List.find?_eq_find?_of_perm perm]
  rintro a ⟨first, same⟩ b ⟨second, same'⟩
  rw [beq_iff_eq] at same same'
  exact anchored.decl_inj (Program.mem_classes.mp (perm.mem_iff.mp first)).1
    (Program.mem_classes.mp (perm.mem_iff.mp second)).1 (same.trans same'.symm)

theorem reports (settled : linked.Settled program) :
    linked.reports.Perm (program.classes.flatMap program.clauseFaults) := by
  obtain ⟨done, perm, upto⟩ := settled
  rw [upto.reports]
  exact perm.flatMap_right _

end Linked.Settled

end DecafTac
