import Mathlib.Data.List.MinMax
import Mathlib.Data.Prod.Lex
import DecafTac.Proofs.Storage.Cycles

/-!
The reports of an analysis, kind by kind. Linking reports the clauses of classes, the check the trees of
the program, and laying out only cycles; so the reports of any other kind are those of the clauses and
trees. For declarations of one name in one scope this gives the exact list: all are reported but the one
that comes first in the source, in whatever order they were entered.
-/
namespace DecafTac

namespace Diagnostics

variable {reports : Diagnostics} {kind other : ErrorKind}

theorem ofKind_flatMap {α : Type} (items : List α) (faults : α → Diagnostics) (kind : ErrorKind) :
    Diagnostics.ofKind (items.flatMap faults) kind =
      items.flatMap fun item => (faults item).ofKind kind :=
  List.filter_flatMap ..

theorem ofKind_same (all : ∀ error ∈ reports, error.kind = kind) : reports.ofKind kind = reports :=
  List.filter_eq_self.mpr fun error listed => beq_iff_eq.mpr (all error listed)

theorem ofKind_other (all : ∀ error ∈ reports, error.kind = other) (apart : other ≠ kind) :
    reports.ofKind kind = [] := by
  refine List.filter_eq_nil_iff.mpr fun error listed same => apart ?_
  rw [← all error listed]
  exact beq_iff_eq.mp same

end Diagnostics

namespace Program

variable {program : Program} {d : Decl} {outer : Node} {kind : ErrorKind}

/-! ## Where reports come from -/

/-- Linking keeps the scopes that declarations were entered into. -/
theorem analyze_ownerOf {shape : FrameShape} {analysis : Analysis}
    (ran : program.analyze shape = .ok analysis) (id : DeclId) :
    analysis.graph.ownerOf id = program.entered.graph.ownerOf id := by
  obtain ⟨linked, linking, ran⟩ := Arena.bind_ok ran
  obtain ⟨faults, -, ran⟩ := Arena.bind_ok ran
  obtain ⟨⟨layouts, cycles⟩, -, ran⟩ := Arena.bind_ok ran
  cases ran
  have keeps : Linked.Keeps program.arena (·.owners = program.entered.graph.owners) :=
    { superclass := fun same _ _ => same, interface := fun same => same }
  have owners : linked.graph.owners = program.entered.graph.owners :=
    Linked.linkAll_keeps keeps rfl linking
  exact congrArg (List.lookup id) owners

/-- The reports of an analysis that are not of cycles: those of the clauses of classes, and those of
trees. -/
theorem Anchored.analyze_reports (anchored : program.Anchored) (shape : FrameShape) :
    ∃ analysis, program.analyze shape = .ok analysis ∧ analysis.linked.Settled program ∧
      ∀ kind, kind ≠ .cyclicInheritance → (analysis.reports.ofKind kind).Perm
        (program.classes.flatMap (fun cls => (program.clauseFaults cls).ofKind kind) ++
          program.subtrees.flatMap fun t => Diagnostics.ofKind (program.ownFaults t) kind) := by
  obtain ⟨linked, faults, laid, settled, checked, finished, ran⟩ := anchored.analyze_run shape
  refine ⟨_, ran, settled, fun kind apart => ?_⟩
  have cycles : laid.reports.ofKind kind = [] := by
    refine Diagnostics.ofKind_other (fun error listed => ?_) apart.symm
    rw [finished.cutting.reports_eq] at listed
    obtain ⟨cls, -, rfl⟩ := List.mem_map.mp listed
    rfl
  rw [Analysis.reports, Diagnostics.ofKind_append, Diagnostics.ofKind_append, cycles, List.append_nil,
    ← Diagnostics.ofKind_flatMap, ← Diagnostics.ofKind_flatMap]
  exact (settled.reports.filter _).append (checked.filter _)

theorem clauseFaults_kind {error : SemanticError} (listed : error ∈ program.clauseFaults d) :
    error.kind = .identifierNotDeclared ∨ error.kind = .cyclicInheritance := by
  rcases List.mem_append.mp listed with extending | implementing
  · rw [extendsFaults] at extending
    split at extending
    · cases extending
    · split at extending
      · rw [List.mem_singleton.mp extending]
        exact .inl rfl
      · split at extending
        · rw [List.mem_singleton.mp extending]
          exact .inr rfl
        · cases extending
  · obtain ⟨name, -, own⟩ := List.mem_flatMap.mp implementing
    split at own
    · rw [List.mem_singleton.mp own]
      exact .inl rfl
    · cases own

/-- The clauses of classes add nothing but reports of names and of cycles. -/
theorem clauses_ofKind (names : kind ≠ .identifierNotDeclared) (cycles : kind ≠ .cyclicInheritance) :
    program.classes.flatMap (fun cls => (program.clauseFaults cls).ofKind kind) = [] := by
  refine List.flatMap_eq_nil_iff.mpr fun cls _ => List.filter_eq_nil_iff.mpr ?_
  intro error listed
  rcases clauseFaults_kind listed with same | same
  · simpa [same] using names.symm
  · simpa [same] using cycles.symm

theorem exprFaults_kind {e : Expr} {error : SemanticError} (listed : error ∈ program.exprFaults e) :
    error.kind = .identifierNotDeclared ∨ error.kind = .thisOutsideClassScope := by
  unfold exprFaults at listed
  split at listed
  · split at listed
    · cases listed
    · rw [List.mem_singleton.mp listed]
      exact .inr rfl
  · exact .inl (nameFaults_kind listed)
  · exact .inl (typeFaults_kind listed)
  · cases listed

theorem typesFaults_kind {error : SemanticError}
    (listed : error ∈ d.writtenType?.toList.flatMap (program.typeFaults · outer)) :
    error.kind = .identifierNotDeclared := by
  obtain ⟨type, -, unknown⟩ := List.mem_flatMap.mp listed
  exact typeFaults_kind unknown

theorem declFaults_ofKind (link : program.arena.parent? (.decl d.id) = some outer)
    (kind : ErrorKind) : Diagnostics.ofKind (program.declFaults d) kind =
      Diagnostics.ofKind (program.conflictFaults d outer) kind ++
        Diagnostics.ofKind (d.writtenType?.toList.flatMap (program.typeFaults · outer)) kind ++
          Diagnostics.ofKind (program.overrideFaults d) kind := by
  rw [declFaults, link, ← Diagnostics.ofKind_append, ← Diagnostics.ofKind_append]

end Program

/-! ## Declarations of one name -/

/-- The declaration that a tree is. -/
def Tree.decl? : Tree → Option Decl
  | .decl d => some d
  | .stmt _ | .expr _ => none

/-- The place of a declaration in the source: where its name starts, where it stops, and among
declarations in one place the number. Ranks are compared part by part. -/
def Decl.rank (d : Decl) : ℕ ×ₗ ℕ ×ₗ ℕ ×ₗ ℕ ×ₗ ℕ :=
  toLex (d.span.start.line, toLex (d.span.start.col,
    toLex (d.span.stop.line, toLex (d.span.stop.col, d.id.index))))

namespace Check

theorem earlier_iff (a b : Decl) : earlier a b = true ↔ a.rank ≤ b.rank := by
  simp only [earlier, Decl.rank, Prod.Lex.toLex_le_toLex]
  obtain ⟨⟨line, col⟩, ⟨stop, width⟩⟩ := a.span
  obtain ⟨⟨line', col'⟩, ⟨stop', width'⟩⟩ := b.span
  simp only [LE.le, Span.mk.injEq, Position.mk.injEq]
  split <;> simp <;> omega

/-- The earliest of some declarations is the one of the least rank. -/
theorem earliest_eq (decls : List Decl) : earliest decls = decls.argmin Decl.rank := by
  induction decls with
  | nil => rfl
  | cons d rest ih =>
    rw [earliest, ih, List.argmin_cons]
    cases rest.argmin Decl.rank with
    | none => rfl
    | some other =>
      simp only [earlier_iff, ← not_lt]
      by_cases before : other.rank < d.rank <;> simp [before]

end Check

namespace ScopeGraph

/-- Scopes of one program have the same numbers. -/
theorem Mirrors.stands_iff {graph other : ScopeGraph} {program : Program}
    (first : graph.Mirrors program) (second : other.Mirrors program) {id : ScopeId} {node : Node} :
    graph.Stands id node ↔ other.Stands id node := by
  have owners (graph : ScopeGraph) :
      graph.Stands id node ↔ graph.regions[id.index]?.map Prod.fst = some node := by
    simp [regions_getElem?, Stands]
  rw [owners, owners, first.regions, second.regions]

variable (graph : ScopeGraph) (arena : Arena)

/-- The declarations that were entered under the name of a declaration where it was entered. -/
def rivals (d : Decl) : List Decl :=
  ((graph.ownerOf d.id).bind graph.scope?).elim [] fun home =>
    (home.bindings d.name).filterMap arena.decl?

/-- The report that a declaration is not the first of its rivals. -/
def conflict? (d : Decl) : Option SemanticError :=
  ((graph.rivals arena d).argmin Decl.rank).bind fun first =>
    if first.id = d.id then none else some (.declConflict d.name d.span first.span)

end ScopeGraph

namespace Program

variable {program : Program} {d : Decl} {outer : Node} {shape : FrameShape} {analysis : Analysis}

/-- The declarations of a program, wherever they stand. -/
def declarations (program : Program) : List Decl := program.subtrees.filterMap Tree.decl?

theorem mem_declarations : d ∈ program.declarations ↔ .decl d ∈ program.subtrees := by
  rw [declarations, List.mem_filterMap]
  constructor
  · rintro ⟨t, inside, same⟩
    cases t with
    | decl other =>
      cases same
      exact inside
    | stmt | expr => cases same
  · intro inside
    exact ⟨.decl d, inside, rfl⟩

/-- No declaration is listed twice. -/
theorem Coherent.declarations_single (coherent : program.Coherent) :
    (program.declarations.map Decl.id).Nodup := by
  have among (ts : List Tree) : ((ts.filterMap Tree.decl?).map Tree.decl).Sublist ts := by
    induction ts with
    | nil => exact .slnil
    | cons t rest ih =>
      cases t with
      | decl d => exact ih.cons_cons _
      | stmt | expr => exact ih.cons _
  exact Decl.ids_nodup (coherent.single_subtrees.sublist ((among _).map _))

/-- A declaration was entered into the scope of its parent. -/
theorem Anchored.analyze_home (anchored : program.Anchored)
    (ran : program.analyze shape = .ok analysis) (settled : analysis.linked.Settled program)
    (inside : .decl d ∈ program.subtrees) :
    ∃ home scope, program.arena.parent? (.decl d.id) = some scope.owner ∧
      d ∈ program.declared scope.owner ∧ analysis.graph.ownerOf d.id = some home ∧
      analysis.graph.scope? home = some scope := by
  obtain ⟨outer, link, declared, around⟩ := anchored.mem_declared inside
  have mirrors := ScopeGraph.entered_mirrors program
  obtain ⟨home, stands⟩ := (mirrors.has_scope anchored.toCoherent outer).mpr around
  have owner := anchored.entered_orderly.ownerOf anchored mirrors declared stands
  obtain ⟨scope, there, rfl⟩ := (mirrors.stands_iff settled.faithful.toMirrors).mp stands
  exact ⟨home, scope, link, declared, (analyze_ownerOf ran d.id).trans owner, there⟩

/-- The rivals of a declaration are those of its name in the scope of its parent. -/
theorem Anchored.rivals_eq (anchored : program.Anchored)
    (ran : program.analyze shape = .ok analysis) (settled : analysis.linked.Settled program)
    (inside : .decl d ∈ program.subtrees)
    (link : program.arena.parent? (.decl d.id) = some outer) :
    analysis.graph.rivals program.arena d =
      (program.declared outer).filter (·.name == d.name) := by
  obtain ⟨home, scope, link', -, owner, there⟩ := anchored.analyze_home ran settled inside
  rw [link] at link'
  cases link'
  rw [ScopeGraph.rivals, owner, Option.bind_some, there, Option.elim_some,
    settled.faithful.bindings_eq anchored there, List.filterMap_map]
  refine (List.filterMap_congr fun other member => ?_).trans List.filterMap_some
  exact anchored.declared_stored scope.owner other (List.mem_of_mem_filter member)

theorem Anchored.conflict?_eq (anchored : program.Anchored)
    (ran : program.analyze shape = .ok analysis) (settled : analysis.linked.Settled program)
    (inside : .decl d ∈ program.subtrees)
    (link : program.arena.parent? (.decl d.id) = some outer) :
    (analysis.graph.conflict? program.arena d).toList = program.conflictFaults d outer := by
  rw [ScopeGraph.conflict?, anchored.rivals_eq ran settled inside link, conflictFaults,
    Check.earliest_eq]
  cases ((program.declared outer).filter (·.name == d.name)).argmin Decl.rank with
  | none => rfl
  | some first =>
    rw [Option.bind_some]
    by_cases own : first.id = d.id <;> simp [own]

/-- The reports about declarations of one name, tree by tree. -/
theorem Anchored.ownFaults_conflicts (anchored : program.Anchored)
    (ran : program.analyze shape = .ok analysis) (settled : analysis.linked.Settled program)
    {t : Tree} (inside : t ∈ program.subtrees) :
    Diagnostics.ofKind (program.ownFaults t) .declConflict =
      (t.decl?.bind (analysis.graph.conflict? program.arena)).toList := by
  cases t with
  | stmt => rfl
  | expr e =>
    refine List.filter_eq_nil_iff.mpr fun error listed => ?_
    rcases exprFaults_kind listed with kind | kind <;> simp [kind]
  | decl d =>
    obtain ⟨outer, link, -⟩ := anchored.mem_declared inside
    rw [ownFaults, declFaults_ofKind link,
      Diagnostics.ofKind_same fun _ => conflictFaults_kind,
      Diagnostics.ofKind_other (fun _ => typesFaults_kind) ErrorKind.noConfusion,
      Diagnostics.ofKind_other (fun _ => overrideFaults_kind) ErrorKind.noConfusion,
      List.append_nil, List.append_nil]
    exact (anchored.conflict?_eq ran settled inside link).symm

/-- The declarations that a scope has under a name, among those of the program. -/
theorem Anchored.entered_declarations (anchored : program.Anchored) {graph : ScopeGraph}
    (faithful : graph.Faithful program) {id : ScopeId} {scope : Scope}
    (there : graph.scope? id = some scope) (name : String) :
    (program.declarations.filter (·.id ∈ scope.bindings name)).Perm
      ((program.declared scope.owner).filter (·.name == name)) := by
  have holds : program.Holds scope.owner := by
    rcases (faithful.toMirrors.has_scope anchored.toCoherent _).mp ⟨id, scope, there, rfl⟩ with
      root | ⟨t, inside, -, node⟩
    · exact .inl root
    · exact .inr ⟨t, inside, node⟩
  rw [List.perm_ext_iff_of_nodup (anchored.declarations_single.of_map.filter _)
    ((anchored.declared_single scope.owner).of_map.filter _)]
  intro d
  rw [faithful.bindings_eq anchored there, List.mem_filter, mem_declarations, decide_eq_true_eq]
  constructor
  · rintro ⟨inside, listed⟩
    obtain ⟨other, member, same⟩ := List.mem_map.mp listed
    have entered := anchored.declared_inside holds (List.mem_of_mem_filter member)
    rwa [← anchored.decl_inj entered inside same]
  · intro member
    exact ⟨anchored.declared_inside holds (List.mem_of_mem_filter member),
      List.mem_map_of_mem member⟩

/-- All rivals but the first are reported. -/
theorem Anchored.length_conflicts (anchored : program.Anchored)
    (ran : program.analyze shape = .ok analysis) (settled : analysis.linked.Settled program)
    {id : ScopeId} {scope : Scope} (there : analysis.graph.scope? id = some scope) (name : String) :
    ((program.declarations.filter (·.id ∈ scope.bindings name)).filterMap
      (analysis.graph.conflict? program.arena)).length = (scope.bindings name).length - 1 := by
  have faithful := settled.faithful
  have among := anchored.entered_declarations faithful there name
  have single := ((anchored.declared_single scope.owner).sublist
    ((List.filter_sublist (p := (·.name == name))).map _))
  have own (d : Decl) (member : d ∈ (program.declared scope.owner).filter (·.name == name)) :
      analysis.graph.rivals program.arena d =
        (program.declared scope.owner).filter (·.name == name) := by
    obtain ⟨declared, named⟩ := List.mem_filter.mp member
    have inside := mem_declarations.mp (List.mem_of_mem_filter (among.mem_iff.mpr member))
    have link := (anchored.declared_parts scope.owner _ (List.mem_map_of_mem declared)).2
    rw [anchored.rivals_eq ran settled inside link, beq_iff_eq.mp named]
  rw [(among.filterMap _).length_eq, faithful.bindings_eq anchored there, List.length_map]
  generalize (program.declared scope.owner).filter (·.name == name) = same at own single
  cases least : same.argmin Decl.rank with
  | none =>
    rw [List.argmin_eq_none.mp least]
    rfl
  | some first =>
    -- The first of them is listed once, and it is the only one without a report.
    have spared : same.countP (fun d => d.id == first.id) = 1 := by
      have listed : first.id ∈ same.map Decl.id := List.mem_map_of_mem (List.argmin_mem least)
      have once := List.count_eq_one_of_mem single listed
      rwa [List.count, List.countP_map] at once
    have reported : same.countP (fun d => (analysis.graph.conflict? program.arena d).isSome) =
        same.countP fun d => !(d.id == first.id) := by
      refine List.countP_congr fun d member => ?_
      rw [ScopeGraph.conflict?, own d member, least, Option.bind_some]
      by_cases same : first.id = d.id
      · simp [same]
      · simp [same, Ne.symm same]
    have all := List.length_eq_countP_add_countP (fun d => d.id == first.id) (l := same)
    rw [List.length_filterMap_eq_countP, reported]
    simp only [Bool.not_eq_true, Bool.decide_eq_false] at all
    omega

/-- Declarations of one name. Analysis reports, once each, the declarations of a program that are not
the first in the source of those entered under their name where they were entered, with the place of
the first. So of the declarations that a scope has under a name all but one are reported. -/
theorem conflicts_reported (built : program.Built) (shape : FrameShape) :
    ∃ analysis, program.analyze shape = .ok analysis ∧
      (program.declarations.map Decl.id).Nodup ∧
      (∀ d ∈ program.declarations, d ∈ analysis.graph.rivals program.arena d) ∧
      (analysis.reports.ofKind .declConflict).Perm
        (program.declarations.filterMap (analysis.graph.conflict? program.arena)) ∧
      ∀ id scope name, analysis.graph.scope? id = some scope →
        ((program.declarations.filter (·.id ∈ scope.bindings name)).filterMap
          (analysis.graph.conflict? program.arena)).length = (scope.bindings name).length - 1 := by
  have anchored := built.anchored
  obtain ⟨analysis, ran, settled, reports⟩ := anchored.analyze_reports shape
  refine ⟨analysis, ran, anchored.declarations_single, fun d member => ?_, ?_,
    fun id scope name there => anchored.length_conflicts ran settled there name⟩
  · have inside := mem_declarations.mp member
    obtain ⟨outer, link, declared, -⟩ := anchored.mem_declared inside
    rw [anchored.rivals_eq ran settled inside link]
    exact List.mem_filter.mpr ⟨declared, beq_self_eq_true _⟩
  · refine (reports .declConflict ErrorKind.noConfusion).trans (.of_eq ?_)
    rw [clauses_ofKind ErrorKind.noConfusion ErrorKind.noConfusion, List.nil_append, declarations,
      List.filterMap_filterMap, List.filterMap_eq_flatMap_toList]
    exact List.flatMap_congr fun t inside => anchored.ownFaults_conflicts ran settled inside

/-- A class whose first member stands below the other two, which stand in one place. -/
def oneNameThrice : List Step :=
  [ .var ⟨"x", .point 3 5⟩ (.primitive .int), .var ⟨"x", .point 1 5⟩ (.primitive .bool),
    .function ⟨"x", .point 1 5⟩ (.primitive .int) [] none,
    .cls ⟨"Box", .point 1 1⟩ none [] [⟨0⟩, ⟨1⟩, ⟨2⟩] ]

/-- The member that was entered second is spared, and the other two are reported. -/
theorem conflicts_reported_thrice :
    ∃ program analysis scope, Program.assemble oneNameThrice [⟨3⟩] = some program ∧
      program.analyze {} = .ok analysis ∧ analysis.graph.scope? ⟨1⟩ = some scope ∧
      scope.bindings "x" = [⟨0⟩, ⟨1⟩, ⟨2⟩] ∧
      ((program.declarations.filter (·.id ∈ scope.bindings "x")).filterMap
        (analysis.graph.conflict? program.arena)).length = 2 ∧
      (analysis.reports.ofKind .declConflict).Perm
        [.declConflict "x" (.point 3 5) (.point 1 5), .declConflict "x" (.point 1 5) (.point 1 5)] := by
  have run : ((Program.assemble oneNameThrice [⟨3⟩]).bind fun program =>
      (program.analyze {}).toOption.bind fun analysis =>
      (analysis.graph.scope? ⟨1⟩).map fun scope => (scope.bindings "x",
        program.declarations.filterMap (analysis.graph.conflict? program.arena))) =
      some ([⟨0⟩, ⟨1⟩, ⟨2⟩], [.declConflict "x" (.point 3 5) (.point 1 5),
        .declConflict "x" (.point 1 5) (.point 1 5)]) := by
    decide +kernel
  simp only [Option.bind_eq_some_iff, Option.map_eq_some_iff, Prod.mk.injEq] at run
  obtain ⟨program, made, analysis, ran, scope, there, bound, conflicts⟩ := run
  have ran := Arena.ok_of_toOption ran
  obtain ⟨_, again, -, -, reported, counted⟩ := conflicts_reported (Program.built_of_assemble made) {}
  rw [ran] at again
  cases again
  have two := counted _ scope "x" there
  rw [bound] at two
  exact ⟨program, analysis, scope, made, ran, there, bound, by rw [bound, two]; rfl,
    conflicts ▸ reported⟩

end Program

end DecafTac
