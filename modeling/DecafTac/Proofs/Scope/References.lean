import DecafTac.Proofs.Scope.Reports

/-!
References to types, and `this`. A class, a declaration or an expression refers to types by name, each
from a scope that the graph of scopes tells: a class from its own, a declaration from the one it was
entered into, an expression from that of the nearest node around it that has one. From there a name is
looked for outward, and in each scope the latest declaration of a fitting kind counts. Analysis reports
exactly the references that find nothing, and exactly the uses of `this` outside all classes; what the
clauses of a class find is what the class can stand in for.
-/
namespace DecafTac

/-! ## Around a node of the source -/

namespace Program

variable {program : Program} {t whole : Tree}

theorem top_inside {d : Decl} (top : d ∈ program.top) : .decl d ∈ program.subtrees :=
  List.mem_flatMap.mpr ⟨_, List.mem_map_of_mem top, Tree.self_mem_subtrees _⟩

/-- What lies in a tree of a program is a tree of the program. -/
theorem subtrees_closed (inside : t ∈ program.subtrees) : t.subtrees ⊆ program.subtrees := by
  obtain ⟨root, listed, among⟩ := List.mem_flatMap.mp inside
  intro sub member
  exact List.mem_flatMap.mpr ⟨root, listed, Tree.subtrees_trans among member⟩

theorem part_inside (inside : whole ∈ program.subtrees) (part : t ∈ whole.children) :
    t ∈ program.subtrees :=
  subtrees_closed inside (Tree.part_subtrees part (Tree.self_mem_subtrees t))

/-- What holds of the top level, and of the parts of a tree when it holds of the tree, holds of all trees
of a program. -/
theorem subtrees_induction {P : Tree → Prop} (top : ∀ d ∈ program.top, P (.decl d))
    (step : ∀ t ∈ program.subtrees, P t → ∀ part ∈ t.children, P part) :
    ∀ t ∈ program.subtrees, P t := by
  intro t inside
  obtain ⟨root, listed, member⟩ := List.mem_flatMap.mp inside
  obtain ⟨d, among, rfl⟩ := List.mem_map.mp listed
  have down : ∀ t, t ∈ program.subtrees ∧ P t → ∀ part ∈ t.children,
      part ∈ program.subtrees ∧ P part := by
    rintro t ⟨inside, holds⟩ part within
    exact ⟨part_inside inside within, step t inside holds part within⟩
  exact (Tree.subtrees_all down ⟨top_inside among, top d among⟩ t member).2

namespace Anchored

variable (anchored : program.Anchored)

include anchored

theorem tree_inj (first : t ∈ program.subtrees) (second : whole ∈ program.subtrees)
    (same : t.node = whole.node) : t = whole := by
  have stored := anchored.stored_subtrees t first
  rw [same, anchored.stored_subtrees whole second] at stored
  exact (Option.some.inj stored).symm

/-- The node above a part of a tree is that of the tree. -/
theorem part_parent (inside : whole ∈ program.subtrees) (part : t ∈ whole.children) :
    program.arena.parent? t.node = some whole.node :=
  (anchored.arena.parts (anchored.stored_subtrees whole inside) t part).2

/-- The trees whose nodes are above that of a tree are those that it lies in. -/
theorem mem_ancestors (inside : t ∈ program.subtrees) (around : whole ∈ program.subtrees) :
    whole.node ∈ program.arena.ancestors t.node ↔ ∃ part ∈ whole.children, t ∈ part.subtrees := by
  constructor
  · refine @subtrees_induction program (fun t => whole.node ∈ program.arena.ancestors t.node →
      ∃ part ∈ whole.children, t ∈ part.subtrees) ?_ ?_ t inside
    · intro d top above
      rw [anchored.arena.ancestors_eq, Tree.node, anchored.rooted d top] at above
      rcases List.mem_cons.mp above with root | none
      · cases whole <;> cases root
      · rw [anchored.arena.ancestors_eq] at none
        cases none
    · intro outer inside ih sub part above
      rw [anchored.arena.ancestors_eq, anchored.part_parent inside part] at above
      rcases List.mem_cons.mp above with same | above
      · cases anchored.tree_inj around inside same
        exact ⟨sub, part, Tree.self_mem_subtrees sub⟩
      · obtain ⟨between, among, within⟩ := ih above
        exact ⟨between, among,
          Tree.subtrees_trans within (Tree.part_subtrees part (Tree.self_mem_subtrees sub))⟩
  · rintro ⟨part, among, within⟩
    have start : part ∈ program.subtrees ∧ whole.node ∈ program.arena.ancestors part.node := by
      refine ⟨part_inside around among, ?_⟩
      rw [anchored.arena.ancestors_eq, anchored.part_parent around among]
      exact List.mem_cons_self
    have down : ∀ outer, outer ∈ program.subtrees ∧ whole.node ∈ program.arena.ancestors outer.node →
        ∀ sub ∈ outer.children,
          sub ∈ program.subtrees ∧ whole.node ∈ program.arena.ancestors sub.node := by
      rintro outer ⟨inside, above⟩ sub part
      refine ⟨part_inside inside part, ?_⟩
      rw [anchored.arena.ancestors_eq, anchored.part_parent inside part]
      exact List.mem_cons_of_mem _ above
    exact (Tree.subtrees_all down start t within).2

/-- A tree is inside a class exactly when it lies in a class of the program. -/
theorem enclosingClass_isSome (inside : t ∈ program.subtrees) :
    (program.arena.enclosingClass t.node).isSome ↔
      ∃ cls ∈ program.classes, ∃ part ∈ (Tree.decl cls).children, t ∈ part.subtrees := by
  rw [Arena.enclosingClass, List.findSome?_isSome_iff]
  constructor
  · rintro ⟨above, listed, isClass⟩
    rcases anchored.holds_ancestors (.inr ⟨t, inside, rfl⟩) above listed with rfl | ⟨whole, among, rfl⟩
    · cases isClass
    · have parts := (anchored.mem_ancestors inside among).mp listed
      cases whole with
      | stmt | expr => cases isClass
      | decl cls =>
        simp only [Tree.node, Arena.declWhere, anchored.decl_stored among, Option.any_some] at isClass
        split at isClass
        · exact ⟨cls, mem_classes.mpr ⟨among, by assumption⟩, parts⟩
        · cases isClass
  · rintro ⟨cls, listed, parts⟩
    obtain ⟨among, isClass⟩ := mem_classes.mp listed
    refine ⟨_, (anchored.mem_ancestors inside among).mpr parts, ?_⟩
    simp [Tree.node, Arena.declWhere, anchored.decl_stored among, isClass]

/-- An expression lies in a class exactly when its node is one of the nodes of the class. -/
theorem expr_in_class {e : Expr} (inside : .expr e ∈ program.subtrees) {cls : Decl}
    (listed : cls ∈ program.classes) :
    (∃ part ∈ (Tree.decl cls).children, .expr e ∈ part.subtrees) ↔
      .expr e.id ∈ (Tree.decl cls).nodes := by
  rw [Tree.nodes_eq_map, List.mem_map]
  constructor
  · rintro ⟨part, among, within⟩
    exact ⟨.expr e, Tree.part_subtrees among within, rfl⟩
  · rintro ⟨sub, within, same⟩
    have found := anchored.tree_inj (subtrees_closed (mem_classes.mp listed).1 within) inside same
    subst found
    rw [Tree.subtrees_eq, List.mem_cons, List.mem_flatMap] at within
    exact within.resolve_left (fun same => by cases same)

end Anchored

end Program

/-! ## Looking outward -/

/-- The latest declaration that was entered under a name and is of one of the kinds. -/
def Scope.latest? (scope : Scope) (arena : Arena) (kinds : List DeclKind) (name : String) :
    Option DeclId :=
  (scope.bindings name).reverse.find? fun id =>
    (arena.decl? id).any fun d => kinds.contains d.kind

/-- A type that is referred to by name. -/
structure Reference where
  name : Ident
  /-- The kinds of declarations that may be meant. -/
  kinds : List DeclKind
  expected : Expected
  /-- The scope from which the name is looked for. -/
  home : Option ScopeId

namespace ScopeGraph

variable (graph : ScopeGraph) (arena : Arena)

/-- The scope of the nearest node above a node that has one. -/
def nearest? (node : Node) : Option ScopeId := (arena.ancestors node).findSome? graph.scopeOf

/-- The declaration that a reference means: in the nearest scope that has one, going outward from its
home. -/
def resolve? (reference : Reference) : Option DeclId :=
  (reference.home.bind fun here => (graph.chain here).toOption).bind fun scopes =>
    (scopes.filterMap graph.scope?).findSome? fun scope =>
      scope.latest? arena reference.kinds reference.name.name

/-- The report that a reference means nothing. -/
def unresolved? (reference : Reference) : Option SemanticError :=
  if (graph.resolve? arena reference).isSome then none
  else some (.identifierNotDeclared reference.name.name reference.expected reference.name.span)

/-- The reference in the `extends` clause of a class. -/
def extendsReferences (cls : Decl) : List Reference :=
  cls.extended.toList.map fun name => ⟨name, [.cls], .cls, graph.scopeOf (.decl cls.id)⟩

/-- The references in the `implements` clause of a class. -/
def implementsReferences (cls : Decl) : List Reference :=
  cls.implemented.map fun name => ⟨name, [.interface], .interface, graph.scopeOf (.decl cls.id)⟩

/-- What the clauses of a class mean: the class it extends, unless that is itself, and its interfaces. -/
def clauseTypes (cls : Decl) : List DeclId :=
  ((graph.extendsReferences cls).filterMap (graph.resolve? arena)).filter (· ≠ cls.id) ++
    (graph.implementsReferences cls).filterMap (graph.resolve? arena)

/-- The references in the type of a declaration, in `new` and in the element type of a new array. -/
def typeReferences : Tree → List Reference
  | .decl d => (d.writtenType?.bind TypeExpr.innermostNamed).toList.map fun name =>
    ⟨name, [.cls, .interface], .cls, graph.ownerOf d.id⟩
  | .expr (.new site cls) => [⟨cls, [.cls], .cls, graph.nearest? arena (.expr site.id)⟩]
  | .expr (.newArray site _ element) => element.innermostNamed.toList.map fun name =>
    ⟨name, [.cls, .interface], .cls, graph.nearest? arena (.expr site.id)⟩
  | _ => []

variable {graph} {program : Program} {here : ScopeId} {node : Node}

/-- The scopes from one outward are those of a node and of the nodes above it, up to the outermost. -/
theorem Faithful.chain_stands (faithful : graph.Faithful program) (anchored : program.Anchored)
    {limit : Nat} (stands : graph.Stands here node) (room : here.index < limit) :
    ∃ scopes, graph.chainUpTo limit here = .ok scopes ∧
      List.Forall₂ graph.Stands scopes (node :: program.arena.ancestors node) ∧
      scopes.getLast? = some global := by
  induction limit generalizing here node with
  | zero => omega
  | succ limit ih =>
    have ⟨scope, there, owner⟩ := stands
    have listed : graph.parents[here.index]? = some (node, scope.parent) := by
      rw [parents_getElem?, there, ← owner]
      rfl
    rw [chainUpTo, scope_eq_ok.mpr there, anchored.arena.ancestors_eq]
    simp only [bind, Except.bind]
    rcases faithful.nested _ _ _ listed with ⟨root, none⟩ | ⟨up, outer, inside, lower, above, link⟩
    · obtain ⟨first, stored, owner, -⟩ := faithful.toMirrors.global_scope
      have outermost : graph.Stands global .program := ⟨first, stored, owner⟩
      subst root
      rw [none]
      refine ⟨[here], rfl, .cons stands .nil, ?_⟩
      rw [faithful.toMirrors.stands_unique anchored.toCoherent stands outermost]
      rfl
    · obtain ⟨scopes, ran, nodes, last⟩ := ih above (by omega)
      rw [inside, link]
      refine ⟨here :: scopes, ?_, .cons stands nodes, ?_⟩
      · simp only [ran]
        rfl
      · rw [List.getLast?_cons, last]
        rfl

theorem Faithful.latest?_eq (faithful : graph.Faithful program) (anchored : program.Anchored)
    {scope : Scope} (there : graph.scope? here = some scope) (kinds : List DeclKind)
    (name : String) :
    scope.latest? program.arena kinds name =
      (program.meaningAt kinds name scope.owner).map Decl.id := by
  rw [Scope.latest?, faithful.bindings_eq anchored there, ← List.map_reverse, ← List.filter_reverse,
    List.find?_map, List.find?_filter, Program.meaningAt]
  refine congrArg _ (List.find?_congr fun d member => ?_)
  have stored := anchored.declared_stored scope.owner d (List.mem_reverse.mp member)
  simp [stored, beq_eq_decide]

/-- Going through the scopes of some nodes is going through the nodes. -/
theorem Faithful.findSome?_latest (faithful : graph.Faithful program) (anchored : program.Anchored)
    (kinds : List DeclKind) (name : String) {scopes : List ScopeId} {nodes : List Node}
    (stands : List.Forall₂ graph.Stands scopes nodes) :
    (scopes.filterMap graph.scope?).findSome? (·.latest? program.arena kinds name) =
      nodes.findSome? fun node => (program.meaningAt kinds name node).map Decl.id := by
  induction stands with
  | nil => rfl
  | cons first _ ih =>
    obtain ⟨scope, there, rfl⟩ := first
    rw [List.filterMap_cons_some there, List.findSome?_cons, List.findSome?_cons, ih,
      faithful.latest?_eq anchored there]

/-- A reference from the scope of a node means what its name means there. -/
theorem Faithful.resolve?_eq (faithful : graph.Faithful program) (anchored : program.Anchored)
    (stands : graph.Stands here node) {reference : Reference} (home : reference.home = some here) :
    graph.resolve? program.arena reference =
      (program.meaning reference.kinds reference.name.name node).map Decl.id := by
  obtain ⟨scopes, ran, nodes, -⟩ := faithful.chain_stands anchored stands stands.index_lt
  have through := faithful.findSome?_latest anchored reference.kinds reference.name.name nodes
  rw [resolve?, home, Option.bind_some, chain, ran, Program.meaning, List.map_findSome?]
  exact through

theorem Faithful.unresolved?_eq (faithful : graph.Faithful program) (anchored : program.Anchored)
    (stands : graph.Stands here node) {reference : Reference} (home : reference.home = some here) :
    graph.unresolved? program.arena reference =
      if (program.meaning reference.kinds reference.name.name node).isSome then none
      else some (.identifierNotDeclared reference.name.name reference.expected
        reference.name.span) := by
  rw [unresolved?, faithful.resolve?_eq anchored stands home, Option.isSome_map]

/-- The nearest scope around a node, from which names mean what they mean at the node. -/
def Near (graph : ScopeGraph) (program : Program) (node : Node) : Prop :=
  ∃ here outer, (node :: program.arena.ancestors node).findSome? graph.scopeOf = some here ∧
    graph.Stands here outer ∧
    ∀ kinds name, program.meaning kinds name node = program.meaning kinds name outer

theorem Faithful.near_inside (faithful : graph.Faithful program) (anchored : program.Anchored)
    {t : Tree} (inside : t ∈ program.subtrees) {outer : Node}
    (link : program.arena.parent? t.node = some outer) (near : graph.Near program outer) :
    graph.Near program t.node := by
  have mirrors := faithful.toMirrors
  cases opens : t.opens? with
  | none =>
    obtain ⟨here, around, found, stands, same⟩ := near
    refine ⟨here, around, ?_, stands, fun kinds name => ?_⟩
    · rw [List.findSome?_cons, mirrors.scopeOf_closed anchored inside opens,
        anchored.arena.ancestors_eq, link]
      exact found
    · rw [anchored.meaning_parent (anchored.declared_closed inside opens) link]
      exact same kinds name
  | some decls =>
    obtain ⟨here, scope, opened, there, owner, -⟩ := mirrors.opened anchored.toCoherent inside opens
    refine ⟨here, t.node, ?_, ⟨scope, there, owner⟩, fun _ _ => rfl⟩
    rw [List.findSome?_cons, opened]

/-- Every tree of a program has a nearest scope. -/
theorem Faithful.near (faithful : graph.Faithful program) (anchored : program.Anchored) :
    ∀ t ∈ program.subtrees, graph.Near program t.node := by
  have mirrors := faithful.toMirrors
  have root : graph.Near program .program := by
    obtain ⟨scope, there, owner, -⟩ := mirrors.global_scope
    have stands : graph.Stands global .program := ⟨scope, there, owner⟩
    refine ⟨global, .program, ?_, stands, fun _ _ => rfl⟩
    rw [List.findSome?_cons, (mirrors.scopeOf_iff anchored.toCoherent).mpr stands]
  refine Program.subtrees_induction (fun d top => ?_) fun t inside near part among => ?_
  · exact faithful.near_inside anchored (Program.top_inside top) (anchored.rooted d top) root
  · exact faithful.near_inside anchored (Program.part_inside inside among)
      (anchored.part_parent inside among) near

/-- From the nearest scope above an expression, names mean what they mean at the expression. -/
theorem Faithful.nearest?_stands (faithful : graph.Faithful program) (anchored : program.Anchored)
    {e : Expr} (inside : .expr e ∈ program.subtrees) :
    ∃ here outer, graph.nearest? program.arena (.expr e.id) = some here ∧ graph.Stands here outer ∧
      ∀ kinds name, program.meaning kinds name (.expr e.id) = program.meaning kinds name outer := by
  obtain ⟨here, outer, found, stands, same⟩ := faithful.near anchored _ inside
  rw [List.findSome?_cons, faithful.toMirrors.scopeOf_closed anchored inside rfl] at found
  exact ⟨here, outer, found, stands, same⟩

end ScopeGraph

theorem ScopeGraph.Mirrors.class_stands {graph : ScopeGraph} {program : Program}
    (mirrors : graph.Mirrors program) (anchored : program.Anchored) {cls : Decl}
    (listed : cls ∈ program.classes) :
    ∃ own, graph.scopeOf (.decl cls.id) = some own ∧ graph.Stands own (.decl cls.id) := by
  obtain ⟨inside, isClass⟩ := Program.mem_classes.mp listed
  obtain ⟨own, stands⟩ := mirrors.type_stands anchored inside (.inl (beq_iff_eq.mp isClass))
  exact ⟨own, (mirrors.scopeOf_iff anchored.toCoherent).mpr stands, stands⟩

/-! ## References that mean nothing -/

namespace Program

variable {program : Program} {graph : ScopeGraph} {here : ScopeId} {node outer : Node}

/-- The references of a program: those of the clauses of its classes, and those of its trees. -/
def references (program : Program) (graph : ScopeGraph) : List Reference :=
  program.classes.flatMap (fun cls => graph.extendsReferences cls ++ graph.implementsReferences cls) ++
    program.subtrees.flatMap (graph.typeReferences program.arena)

/-- The report that `this` stands in no class of a program. -/
def strayThis? (program : Program) : Tree → Option SemanticError
  | .expr (.this site) =>
    if program.classes.any fun cls => (Tree.decl cls).nodes.contains (.expr site.id) then none
    else some (.thisOutsideClassScope site.span)
  | _ => none

section Names

variable (faithful : graph.Faithful program) (anchored : program.Anchored)
  (stands : graph.Stands here outer)
  (same : ∀ kinds name, program.meaning kinds name node = program.meaning kinds name outer)

include faithful anchored stands same

/-- A name at a node is a reference from the scope where it means the same. -/
theorem nameFaults_eq (kinds : List DeclKind) (name : Ident) :
    program.nameFaults kinds name node =
      (graph.unresolved? program.arena ⟨name, kinds, .cls, some here⟩).toList := by
  rw [faithful.unresolved?_eq anchored stands rfl, nameFaults, same]
  cases program.meaning kinds name.name outer <;> rfl

theorem typeFaults_eq (type : TypeExpr) :
    program.typeFaults type node = (type.innermostNamed.toList.map fun name =>
      (⟨name, [.cls, .interface], .cls, some here⟩ : Reference)).filterMap
        (graph.unresolved? program.arena) := by
  rw [typeFaults]
  cases type.innermostNamed with
  | none => rfl
  | some name =>
    simp only [nameFaults_eq faithful anchored stands same, List.filterMap_eq_flatMap_toList]
    simp

end Names

theorem clauseFaults_names (faithful : graph.Faithful program) (anchored : program.Anchored)
    {cls : Decl} (listed : cls ∈ program.classes) :
    (program.clauseFaults cls).ofKind .identifierNotDeclared =
      (graph.extendsReferences cls ++ graph.implementsReferences cls).filterMap
        (graph.unresolved? program.arena) := by
  obtain ⟨own, opened, stands⟩ := faithful.toMirrors.class_stands anchored listed
  rw [clauseFaults, Diagnostics.ofKind_append, List.filterMap_append]
  congr 1
  · rw [extendsFaults, ScopeGraph.extendsReferences, superclass?, opened]
    cases cls.extended with
    | none => rfl
    | some name =>
      rw [Option.toList_some, List.map_singleton, List.filterMap_eq_flatMap_toList,
        List.flatMap_singleton, faithful.unresolved?_eq anchored stands rfl, Option.bind_some]
      cases program.meaning [.cls] name.name (.decl cls.id) with
      | none => rfl
      | some above =>
        by_cases own : above.id = cls.id <;> simp [own, Diagnostics.ofKind, SemanticError.kind]
  · rw [implementsFaults, ScopeGraph.implementsReferences, opened, Diagnostics.ofKind_flatMap,
      List.filterMap_map, List.filterMap_eq_flatMap_toList]
    refine List.flatMap_congr fun name _ => ?_
    rw [Function.comp_apply, faithful.unresolved?_eq anchored stands rfl]
    cases program.meaning [.interface] name.name (.decl cls.id) <;> rfl

section Analysis

variable {shape : FrameShape} {analysis : Analysis} {t : Tree}

theorem Anchored.ownFaults_names (anchored : program.Anchored)
    (ran : program.analyze shape = .ok analysis) (settled : analysis.linked.Settled program)
    (inside : t ∈ program.subtrees) :
    Diagnostics.ofKind (program.ownFaults t) .identifierNotDeclared =
      (analysis.graph.typeReferences program.arena t).filterMap
        (analysis.graph.unresolved? program.arena) := by
  have faithful : analysis.graph.Faithful program := settled.faithful
  cases t with
  | stmt => rfl
  | decl d =>
    obtain ⟨home, scope, link, -, owner, there⟩ := anchored.analyze_home ran settled inside
    have stands : analysis.graph.Stands home scope.owner := ⟨scope, there, rfl⟩
    rw [ownFaults, declFaults_ofKind link,
      Diagnostics.ofKind_other (fun _ => conflictFaults_kind) ErrorKind.noConfusion,
      Diagnostics.ofKind_same fun _ => typesFaults_kind,
      Diagnostics.ofKind_other (fun _ => overrideFaults_kind) ErrorKind.noConfusion,
      List.nil_append, List.append_nil, ScopeGraph.typeReferences, owner]
    cases d.writtenType? with
    | none => rfl
    | some type =>
      rw [Option.bind_some, Option.toList_some, List.flatMap_singleton]
      exact typeFaults_eq faithful anchored stands (fun _ _ => rfl) type
  | expr e =>
    obtain ⟨here, outer, found, stands, same⟩ := faithful.nearest?_stands anchored inside
    cases e with
    | new site cls =>
      rw [Expr.id, Expr.site] at found same
      rw [ownFaults, exprFaults, Diagnostics.ofKind_same fun _ => nameFaults_kind,
        nameFaults_eq faithful anchored stands same, ScopeGraph.typeReferences, found,
        List.filterMap_eq_flatMap_toList, List.flatMap_singleton]
    | newArray site size element =>
      rw [Expr.id, Expr.site] at found same
      rw [ownFaults, exprFaults, Diagnostics.ofKind_same fun _ => typeFaults_kind,
        typeFaults_eq faithful anchored stands same, ScopeGraph.typeReferences, found]
    | this site =>
      rw [ownFaults, exprFaults]
      cases program.arena.enclosingClass (.expr site.id) <;> rfl
    | int | double | bool | string | null | binary | unary | assign | name | field | element | call
    | send | readInteger | readLine | knot => rfl

/-- The reports about `this`, tree by tree. -/
theorem Anchored.ownFaults_this (anchored : program.Anchored) (inside : t ∈ program.subtrees) :
    Diagnostics.ofKind (program.ownFaults t) .thisOutsideClassScope =
      (program.strayThis? t).toList := by
  cases t with
  | stmt => rfl
  | decl d =>
    obtain ⟨outer, link, -⟩ := anchored.mem_declared inside
    rw [ownFaults, declFaults_ofKind link,
      Diagnostics.ofKind_other (fun _ => conflictFaults_kind) ErrorKind.noConfusion,
      Diagnostics.ofKind_other (fun _ => typesFaults_kind) ErrorKind.noConfusion,
      Diagnostics.ofKind_other (fun _ => overrideFaults_kind) ErrorKind.noConfusion]
    rfl
  | expr e =>
    cases e with
    | new site cls =>
      exact Diagnostics.ofKind_other (fun _ => nameFaults_kind) ErrorKind.noConfusion
    | newArray site size element =>
      exact Diagnostics.ofKind_other (fun _ => typeFaults_kind) ErrorKind.noConfusion
    | this site =>
      have around : (program.arena.enclosingClass (.expr site.id)).isSome =
          program.classes.any fun cls => (Tree.decl cls).nodes.contains (.expr site.id) := by
        rw [Bool.eq_iff_iff]
        refine (anchored.enclosingClass_isSome inside).trans ?_
        simp only [List.any_eq_true, List.contains_iff_mem]
        exact exists_congr fun cls => and_congr_right fun listed => anchored.expr_in_class inside listed
      rw [ownFaults, exprFaults, strayThis?, ← around]
      cases program.arena.enclosingClass (.expr site.id) <;> rfl
    | int | double | bool | string | null | binary | unary | assign | name | field | element | call
    | send | readInteger | readLine | knot => rfl

/-- Every reference is looked for from a scope, and outward to the outermost. -/
theorem Anchored.references_home (anchored : program.Anchored)
    (ran : program.analyze shape = .ok analysis) (settled : analysis.linked.Settled program)
    {reference : Reference} (listed : reference ∈ program.references analysis.graph) :
    ∃ here scopes, reference.home = some here ∧ analysis.graph.chain here = .ok scopes ∧
      scopes.getLast? = some ScopeGraph.global := by
  have faithful : analysis.graph.Faithful program := settled.faithful
  suffices homed : ∃ here node, reference.home = some here ∧ analysis.graph.Stands here node by
    obtain ⟨here, node, home, stands⟩ := homed
    obtain ⟨scopes, chained, -, last⟩ := faithful.chain_stands anchored stands stands.index_lt
    exact ⟨here, scopes, home, chained, last⟩
  rcases List.mem_append.mp listed with clause | written
  · obtain ⟨cls, among, clause⟩ := List.mem_flatMap.mp clause
    obtain ⟨own, opened, stands⟩ := faithful.toMirrors.class_stands anchored among
    refine ⟨own, _, ?_, stands⟩
    rcases List.mem_append.mp clause with clause | clause
    all_goals
      obtain ⟨name, -, rfl⟩ := List.mem_map.mp clause
      exact opened
  · obtain ⟨t, inside, written⟩ := List.mem_flatMap.mp written
    cases t with
    | stmt => cases written
    | decl d =>
      obtain ⟨home, scope, -, -, owner, there⟩ := anchored.analyze_home ran settled inside
      obtain ⟨name, -, rfl⟩ := List.mem_map.mp written
      exact ⟨home, _, owner, scope, there, rfl⟩
    | expr e =>
      obtain ⟨here, outer, found, stands, -⟩ := faithful.nearest?_stands anchored inside
      cases e with
      | new site cls =>
        cases List.mem_singleton.mp written
        exact ⟨here, outer, found, stands⟩
      | newArray site size element =>
        obtain ⟨name, -, rfl⟩ := List.mem_map.mp written
        exact ⟨here, outer, found, stands⟩
      | int | double | bool | string | null | binary | unary | assign | name | field | element | call
      | send | this | readInteger | readLine | knot => cases written

/-- A class can stand in for what its clauses mean. -/
theorem Anchored.hierarchy_clauses (anchored : program.Anchored)
    (settled : analysis.linked.Settled program) {cls : Decl} (listed : cls ∈ program.classes) :
    analysis.hierarchy.get? cls.id =
      some ⟨cls.id, cls.name, analysis.graph.clauseTypes program.arena cls⟩ := by
  have faithful : analysis.graph.Faithful program := settled.faithful
  obtain ⟨own, opened, stands⟩ := faithful.toMirrors.class_stands anchored listed
  have found : program.classes.find? (·.id == cls.id) = some cls := by
    have some_found : (program.classes.find? (·.id == cls.id)).isSome :=
      List.find?_isSome.mpr ⟨cls, listed, beq_self_eq_true _⟩
    obtain ⟨other, first⟩ := Option.isSome_iff_exists.mp some_found
    have among := List.mem_of_find?_eq_some first
    have same := List.find?_some first
    rw [first, anchored.decl_inj (mem_classes.mp among).1 (mem_classes.mp listed).1
      (beq_iff_eq.mp same)]
  have extending : ((analysis.graph.extendsReferences cls).filterMap
      (analysis.graph.resolve? program.arena)).filter (· ≠ cls.id) =
      (program.base? cls).toList.map Decl.id := by
    rw [ScopeGraph.extendsReferences, opened, base?, superclass?]
    cases cls.extended with
    | none => rfl
    | some name =>
      rw [Option.toList_some, List.map_singleton, List.filterMap_eq_flatMap_toList,
        List.flatMap_singleton, faithful.resolve?_eq anchored stands rfl, Option.bind_some]
      cases program.meaning [.cls] name.name (.decl cls.id) with
      | none => rfl
      | some above => by_cases same : above.id = cls.id <;> simp [same]
  have implementing : (analysis.graph.implementsReferences cls).filterMap
      (analysis.graph.resolve? program.arena) =
      (program.interfacesNamed cls cls.implemented).map Decl.id := by
    rw [ScopeGraph.implementsReferences, opened, interfacesNamed, List.filterMap_map,
      List.map_filterMap]
    exact List.filterMap_congr fun name _ => faithful.resolve?_eq anchored stands rfl
  rw [Analysis.hierarchy, settled.hierarchy anchored, found, ScopeGraph.clauseTypes, extending,
    implementing]
  rfl

end Analysis

/-- References and `this`. Analysis reports, once each, the references of a program that mean nothing
from where they stand outward, and the uses of `this` that stand in no class. What a class can stand in
for is what its clauses mean, in order and without itself. -/
theorem references_reported (built : program.Built) (shape : FrameShape) :
    ∃ analysis, program.analyze shape = .ok analysis ∧ (program.subtrees.map Tree.node).Nodup ∧
      (∀ reference ∈ program.references analysis.graph, ∃ here scopes,
        reference.home = some here ∧ analysis.graph.chain here = .ok scopes ∧
          scopes.getLast? = some ScopeGraph.global) ∧
      (analysis.reports.ofKind .identifierNotDeclared).Perm
        ((program.references analysis.graph).filterMap (analysis.graph.unresolved? program.arena)) ∧
      (analysis.reports.ofKind .thisOutsideClassScope).Perm
        (program.subtrees.filterMap program.strayThis?) ∧
      ∀ cls ∈ program.classes, analysis.hierarchy.get? cls.id =
        some ⟨cls.id, cls.name, analysis.graph.clauseTypes program.arena cls⟩ := by
  have anchored := built.anchored
  obtain ⟨analysis, ran, settled, reports⟩ := anchored.analyze_reports shape
  have faithful : analysis.graph.Faithful program := settled.faithful
  refine ⟨analysis, ran, anchored.single_subtrees, fun _ => anchored.references_home ran settled, ?_, ?_,
    fun cls => anchored.hierarchy_clauses settled⟩
  · refine (reports .identifierNotDeclared ErrorKind.noConfusion).trans (.of_eq ?_)
    rw [references, List.filterMap_append, List.filterMap_flatMap, List.filterMap_flatMap]
    congr 1
    · exact List.flatMap_congr fun cls listed => clauseFaults_names faithful anchored listed
    · exact List.flatMap_congr fun t inside => anchored.ownFaults_names ran settled inside
  · refine (reports .thisOutsideClassScope ErrorKind.noConfusion).trans (.of_eq ?_)
    rw [clauses_ofKind ErrorKind.noConfusion ErrorKind.noConfusion, List.nil_append,
      List.filterMap_eq_flatMap_toList]
    exact List.flatMap_congr fun t inside => anchored.ownFaults_this inside

/-- A class `Box` with a field that has the name of its superclass and an interface that is not there,
a class that extends itself, and a function with a stray `this` and an unknown class. -/
def looseNames : List Step :=
  let word (name : String) : Ident := ⟨name, default⟩
  [ .var (word "Shape") (.primitive .int),
    .cls (word "Box") (some (word "Shape")) [word "Sized"] [⟨0⟩],
    .cls (word "Shape") (some (word "Shape")) [] [],
    .this (.point 7 3), .expr ⟨0⟩, .new (word "Lid") default, .expr ⟨1⟩,
    .block [] [⟨0⟩, ⟨1⟩] default,
    .function (word "main") (.primitive .void) [] (some ⟨2⟩) ]

/-- The field does not hide the class, the interface and `Lid` are reported, and so is `this`. -/
theorem references_reported_loose :
    ∃ program analysis, Program.assemble looseNames [⟨1⟩, ⟨2⟩, ⟨3⟩] = some program ∧
      program.analyze {} = .ok analysis ∧
      (analysis.reports.ofKind .identifierNotDeclared).Perm
        [.identifierNotDeclared "Sized" .interface default,
          .identifierNotDeclared "Lid" .cls default] ∧
      (analysis.reports.ofKind .thisOutsideClassScope).Perm [.thisOutsideClassScope (.point 7 3)] ∧
      analysis.hierarchy.get? ⟨1⟩ = some ⟨⟨1⟩, "Box", [⟨2⟩]⟩ ∧
      analysis.hierarchy.get? ⟨2⟩ = some ⟨⟨2⟩, "Shape", []⟩ := by
  have run : ((Program.assemble looseNames [⟨1⟩, ⟨2⟩, ⟨3⟩]).bind fun program =>
      (program.analyze {}).toOption.map fun analysis =>
        ((program.references analysis.graph).filterMap (analysis.graph.unresolved? program.arena),
          program.subtrees.filterMap program.strayThis?,
          program.classes.map fun cls => (⟨cls.id, cls.name,
            analysis.graph.clauseTypes program.arena cls⟩ : ClassType))) =
      some ([.identifierNotDeclared "Sized" .interface default,
          .identifierNotDeclared "Lid" .cls default], [.thisOutsideClassScope (.point 7 3)],
        [⟨⟨1⟩, "Box", [⟨2⟩]⟩, ⟨⟨2⟩, "Shape", []⟩]) := by
    decide +kernel
  simp only [Option.bind_eq_some_iff, Option.map_eq_some_iff, Prod.mk.injEq] at run
  obtain ⟨program, made, analysis, ran, names, stray, types⟩ := run
  have ran := Arena.ok_of_toOption ran
  obtain ⟨_, again, -, -, reported, outside, known⟩ :=
    references_reported (Program.built_of_assemble made) {}
  rw [ran] at again
  cases again
  have get (type : ClassType) (listed : type ∈ [⟨⟨1⟩, "Box", [⟨2⟩]⟩, ⟨⟨2⟩, "Shape", []⟩]) :
      analysis.hierarchy.get? type.decl = some type := by
    rw [← types] at listed
    obtain ⟨cls, among, rfl⟩ := List.mem_map.mp listed
    exact known cls among
  exact ⟨program, analysis, made, ran, names ▸ reported, stray ▸ outside,
    get _ List.mem_cons_self, get _ (List.mem_cons_of_mem _ List.mem_cons_self)⟩

end Program

end DecafTac
