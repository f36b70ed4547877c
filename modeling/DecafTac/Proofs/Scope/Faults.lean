import DecafTac.Proofs.Scope.Checking
import DecafTac.Proofs.Scope.Supertypes

/-!
What is wrong with a program, said by the source alone, tree by tree: declarations that are not the
earliest of their name in their scope, names of types that mean none, `this` outside a class, and methods
that clash with what a type above their class has. The check of a program with linked scopes does not
fail, and it reports these faults and no others.
-/
namespace DecafTac

open Relation (ReflTransGen)

/-- The type that is written in a declaration: that of a variable, or the result of a function. -/
def Decl.writtenType? (d : Decl) : Option TypeExpr :=
  d.varType?.or (d.signature?.map Signature.result)

namespace Program

variable (program : Program)

/-- What is wrong with a declaration that is not the earliest of its name in the scope of a node. -/
def conflictFaults (d : Decl) (outer : Node) : Diagnostics :=
  match Check.earliest ((program.declared outer).filter (·.name == d.name)) with
  | none => []
  | some first => if first.id = d.id then [] else [.declConflict d.name d.span first.span]

/-- What is wrong with a name that means nothing of the kinds at a node. -/
def nameFaults (kinds : List DeclKind) (name : Ident) (node : Node) : Diagnostics :=
  match program.meaning kinds name.name node with
  | none => [.identifierNotDeclared name.name .cls name.span]
  | some _ => []

/-- What is wrong with a type that is written at a node. -/
def typeFaults (type : TypeExpr) (node : Node) : Diagnostics :=
  match type.innermostNamed with
  | none => []
  | some name => program.nameFaults [.cls, .interface] name node

/-- Whether the last declaration of a name in the scope of a node is anything but a function of an
agreeing signature. -/
def clashesAt (name : String) (signature : Signature) (node : Node) : Bool :=
  match ((program.declared node).filter (·.name == name)).getLast? with
  | none => false
  | some d =>
    match d.signature? with
    | some inherited => !Check.signaturesAgree signature inherited
    | none => true

/-- A class is put directly below a type. -/
def Under (low high : Decl) : Prop := low ∈ program.classes ∧ high ∈ program.supertypes low

/-- A type above a class, other than the class, clashes with a method of the class. -/
def Clashes (cls d : Decl) (signature : Signature) : Prop :=
  ∃ high, ReflTransGen program.Under cls high ∧ high.id ≠ cls.id ∧
    program.clashesAt d.name signature (.decl high.id) = true

open Classical in
/-- What is wrong with a method that clashes with something above its class. -/
noncomputable def overrideFaults (d : Decl) : Diagnostics :=
  match d.signature?, (program.arena.owningClass d.id).bind program.arena.decl? with
  | some signature, some cls =>
    if program.Clashes cls d signature then [.overrideMismatch cls.name d.name d.span] else []
  | _, _ => []

/-- What is wrong with a declaration itself. The type it gives is looked for where it stands. -/
noncomputable def declFaults (d : Decl) : Diagnostics :=
  match program.arena.parent? (.decl d.id) with
  | none => []
  | some outer =>
    program.conflictFaults d outer ++ d.writtenType?.toList.flatMap (program.typeFaults · outer) ++
      program.overrideFaults d

/-- What is wrong with an expression itself. -/
def exprFaults : Expr → Diagnostics
  | .this site =>
    match program.arena.enclosingClass (.expr site.id) with
    | some _ => []
    | none => [.thisOutsideClassScope site.span]
  | .new site cls => program.nameFaults [.cls] cls (.expr site.id)
  | .newArray site _ element => program.typeFaults element (.expr site.id)
  | _ => []

/-- What is wrong with a tree itself, its parts apart. -/
noncomputable def ownFaults : Tree → Diagnostics
  | .decl d => program.declFaults d
  | .stmt _ => []
  | .expr e => program.exprFaults e

/-- What is wrong in a tree. -/
noncomputable def faultsIn (t : Tree) : Diagnostics := t.subtrees.flatMap program.ownFaults

theorem faultsIn_eq (t : Tree) :
    program.faultsIn t = program.ownFaults t ++ t.children.flatMap program.faultsIn := by
  rw [faultsIn, Tree.subtrees_eq, List.flatMap_cons, List.flatMap_assoc]
  rfl

section Kinds

variable {program} {error : SemanticError} {d : Decl} {outer node : Node}

theorem conflictFaults_kind (listed : error ∈ program.conflictFaults d outer) :
    error.kind = .declConflict := by
  unfold conflictFaults at listed
  split at listed
  · cases listed
  · split at listed
    · cases listed
    · rw [List.mem_singleton.mp listed]
      rfl

theorem nameFaults_kind {kinds : List DeclKind} {name : Ident}
    (listed : error ∈ program.nameFaults kinds name node) : error.kind = .identifierNotDeclared := by
  unfold nameFaults at listed
  split at listed
  · rw [List.mem_singleton.mp listed]
    rfl
  · cases listed

theorem typeFaults_kind {type : TypeExpr} (listed : error ∈ program.typeFaults type node) :
    error.kind = .identifierNotDeclared := by
  unfold typeFaults at listed
  split at listed
  · cases listed
  · exact nameFaults_kind listed

theorem overrideFaults_kind (listed : error ∈ program.overrideFaults d) :
    error.kind = .overrideMismatch := by
  unfold overrideFaults at listed
  split at listed
  · split at listed
    · rw [List.mem_singleton.mp listed]
      rfl
    · cases listed
  · cases listed

/-- The check has nothing to say about classes that extend themselves. -/
theorem ownFaults_kind {t : Tree} (listed : error ∈ program.ownFaults t) :
    error.kind ≠ .cyclicInheritance := by
  cases t with
  | stmt => cases listed
  | decl d =>
    simp only [ownFaults, declFaults] at listed
    split at listed
    · cases listed
    · rcases List.mem_append.mp listed with listed | clash
      · rcases List.mem_append.mp listed with conflict | listed
        · rw [conflictFaults_kind conflict]
          exact ErrorKind.noConfusion
        · obtain ⟨type, -, unknown⟩ := List.mem_flatMap.mp listed
          rw [typeFaults_kind unknown]
          exact ErrorKind.noConfusion
      · rw [overrideFaults_kind clash]
        exact ErrorKind.noConfusion
  | expr e =>
    simp only [ownFaults, exprFaults] at listed
    split at listed
    · split at listed
      · cases listed
      · rw [List.mem_singleton.mp listed]
        exact ErrorKind.noConfusion
    · rw [nameFaults_kind listed]
      exact ErrorKind.noConfusion
    · rw [typeFaults_kind listed]
      exact ErrorKind.noConfusion
    · cases listed

end Kinds

end Program

/-! ## Names in linked scopes -/

/-- Where a tree opens no scope, nothing stands in it. -/
theorem Program.Anchored.declared_closed {program : Program} (anchored : program.Anchored) {t : Tree}
    (inside : t ∈ program.subtrees) (closed : t.opens? = none) : program.declared t.node = [] := by
  have stored := anchored.stored_subtrees t inside
  cases t <;> simp_all [Program.declared, Tree.node]

namespace ScopeGraph

variable {program : Program} {graph : ScopeGraph} {here : ScopeId} {node outer : Node}

/-- From a scope, every name means what it means at a node. -/
def Sees (graph : ScopeGraph) (program : Program) (here : ScopeId) (node : Node) : Prop :=
  ∀ kinds name, graph.findDecl program.arena here name kinds =
    .ok ((program.meaning kinds name node).map Decl.id)

theorem Mirrors.scopeOf_closed (mirrors : graph.Mirrors program) (anchored : program.Anchored)
    {t : Tree} (inside : t ∈ program.subtrees) (closed : t.opens? = none) :
    graph.scopeOf t.node = none := by
  cases opened : graph.scopeOf t.node with
  | none => rfl
  | some id =>
    have stands := (mirrors.scopeOf_iff anchored.toCoherent).mp opened
    rcases (mirrors.has_scope anchored.toCoherent t.node).mp ⟨id, stands⟩ with
      root | ⟨other, among, opens, same⟩
    · cases t <;> cases root
    · have stored := anchored.stored_subtrees t inside
      rw [← same, anchored.stored_subtrees other among] at stored
      cases stored
      rw [closed] at opens
      cases opens

/-- Inside a tree, from the scope it opens or else from the one around it, names mean what they mean at
the tree. -/
theorem Faithful.sees_within (faithful : graph.Faithful program) (anchored : program.Anchored)
    {t : Tree} (inside : t ∈ program.subtrees) (link : program.arena.parent? t.node = some outer)
    (sees : graph.Sees program here outer) :
    graph.Sees program (Check.within graph here t.node) t.node := by
  intro kinds name
  cases opens : t.opens? with
  | none =>
    rw [Check.within, faithful.toMirrors.scopeOf_closed anchored inside opens,
      anchored.meaning_parent (anchored.declared_closed inside opens) link]
    exact sees kinds name
  | some decls =>
    obtain ⟨id, scope, opened, there, owner, -⟩ :=
      faithful.toMirrors.opened anchored.toCoherent inside opens
    rw [Check.within, opened]
    exact faithful.findDecl_eq anchored ⟨scope, there, owner⟩ kinds name

theorem Faithful.stands_within (faithful : graph.Faithful program) (anchored : program.Anchored)
    {t : Tree} (inside : t ∈ program.subtrees) {decls : List Decl} (opens : t.opens? = some decls) :
    graph.Stands (Check.within graph here t.node) t.node := by
  obtain ⟨id, scope, opened, there, owner, -⟩ :=
    faithful.toMirrors.opened anchored.toCoherent inside opens
  rw [Check.within, opened]
  exact ⟨scope, there, owner⟩

end ScopeGraph

namespace Check

open ScopeGraph

variable {program : Program} {graph : ScopeGraph} {here : ScopeId} {node outer : Node}

theorem named_eq (sees : graph.Sees program here node) (kinds : List DeclKind) (name : Ident) :
    named program.arena graph here kinds name = .ok (program.nameFaults kinds name node) := by
  rw [named, sees, Program.nameFaults]
  cases program.meaning kinds name.name node <;> rfl

theorem typed_eq (sees : graph.Sees program here node) (type : TypeExpr) :
    typed program.arena graph here type = .ok (program.typeFaults type node) := by
  rw [typed, Program.typeFaults]
  cases type.innermostNamed with
  | none => rfl
  | some name => exact named_eq sees _ name

/-- Declarations that are all there are found one by one. -/
theorem mapM_decl {arena : Arena} {ids : List DeclId}
    (stored : ∀ id ∈ ids, (arena.decl? id).isSome) :
    ids.mapM arena.decl = .ok (ids.filterMap arena.decl?) := by
  induction ids with
  | nil => rfl
  | cons id rest ih =>
    obtain ⟨here, later⟩ := List.forall_mem_cons.mp stored
    obtain ⟨d, found⟩ := Option.isSome_iff_exists.mp here
    have made : arena.decl id = .ok d := by
      rw [Arena.decl, found]
    rw [List.mapM_cons, made, ih later, List.filterMap_cons_some found]
    rfl

theorem redeclaration_eq (faithful : graph.Faithful program) (anchored : program.Anchored)
    (stands : graph.Stands here outer) (d : Decl) :
    redeclaration program.arena graph here d = .ok (program.conflictFaults d outer) := by
  obtain ⟨scope, there, rfl⟩ := stands
  have stored : ∀ other ∈ (program.declared scope.owner).filter (·.name == d.name),
      program.arena.decl? other.id = some other := by
    intro other member
    exact anchored.declared_stored scope.owner other (List.mem_filter.mp member).1
  have made : (((program.declared scope.owner).filter (·.name == d.name)).map Decl.id).mapM
      program.arena.decl = .ok ((program.declared scope.owner).filter (·.name == d.name)) := by
    rw [mapM_decl]
    · rw [List.filterMap_map]
      exact congrArg _ ((List.filterMap_congr stored).trans List.filterMap_some)
    · intro id listed
      obtain ⟨other, member, rfl⟩ := List.mem_map.mp listed
      rw [stored other member]
      rfl
  rw [redeclaration, ScopeGraph.bindings, scope_eq_ok.mpr there]
  simp only [bind, Except.bind, pure, Except.pure, faithful.bindings_eq anchored there] at made ⊢
  rw [made, Program.conflictFaults]
  simp only
  cases earliest ((program.declared scope.owner).filter (·.name == d.name)) <;> rfl

theorem clashes_eq (faithful : graph.Faithful program) (anchored : program.Anchored) {scope : Scope}
    (there : graph.scope? here = some scope) (name : String) (signature : Signature) :
    clashes program.arena name signature scope =
      .ok (program.clashesAt name signature scope.owner) := by
  rw [clashes, Scope.binding?, faithful.bindings_eq anchored there, List.getLast?_map,
    Program.clashesAt]
  cases last : ((program.declared scope.owner).filter (·.name == name)).getLast? with
  | none => rfl
  | some d =>
    have member := (List.mem_filter.mp (List.mem_of_getLast? last)).1
    have made : program.arena.decl d.id = .ok d := by
      rw [Arena.decl, anchored.declared_stored scope.owner d member]
    simp only [Option.map_some, made, bind, Except.bind]
    cases d.signature? <;> rfl

/-! ## Clashes above a class -/

/-- A search through scopes that are all there comes to an answer, and what it finds lies above what
waits. -/
theorem clashAbove_finds {clash : Scope → Except Dangling Bool} {test : Scope → Bool}
    (agree : ∀ id scope, graph.scope? id = some scope → clash scope = .ok (test scope))
    (closed : ∀ id above, DirectlyAbove graph id above → ∃ scope, graph.scope? above = some scope)
    {limit : Nat} {visited pending : List ScopeId}
    (stored : ∀ id ∈ pending, ∃ scope, graph.scope? id = some scope) :
    ∃ found, clashAbove graph clash limit visited pending = .ok found ∧
      (found = true → ∃ start ∈ pending, ∃ id scope, ReflTransGen (DirectlyAbove graph) start id ∧
        id ∉ visited ∧ graph.scope? id = some scope ∧ test scope = true) := by
  induction limit generalizing visited pending with
  | zero => exact ⟨false, rfl, fun found => nomatch found⟩
  | succ limit ih =>
    rw [clashAbove]
    have first := List.head?_dropWhile_not visited.contains pending
    have within := (List.dropWhile_suffix visited.contains (l := pending)).subset
    cases waiting : pending.dropWhile visited.contains with
    | nil => exact ⟨false, rfl, fun found => nomatch found⟩
    | cons id rest =>
      rw [waiting] at first within
      obtain ⟨here, later⟩ := List.cons_subset.mp within
      have fresh : id ∉ visited := by simpa using first
      obtain ⟨scope, there⟩ := stored id here
      simp only [scope_eq_ok.mpr there, bind, Except.bind, agree id scope there]
      cases tested : test scope with
      | true => exact ⟨true, rfl, fun _ => ⟨id, here, id, scope, .refl, fresh, there, tested⟩⟩
      | false =>
        have next : ∀ other ∈ rest ++ scope.supertypes, ∃ scope, graph.scope? other = some scope := by
          intro other member
          rcases List.mem_append.mp member with member | above
          · exact stored other (later member)
          · exact closed id other ⟨scope, there, above⟩
        obtain ⟨found, ran, clash⟩ := @ih (id :: visited) _ next
        refine ⟨found, ran, fun yes => ?_⟩
        obtain ⟨start, member, other, high, path, apart, stands, clashes⟩ := clash yes
        have new : other ∉ visited := fun known => apart (List.mem_cons_of_mem _ known)
        rcases List.mem_append.mp member with member | above
        · exact ⟨start, later member, other, high, path, new, stands, clashes⟩
        · exact ⟨id, here, other, high, .head ⟨scope, there, above⟩ path, new, stands, clashes⟩

section Overriding

variable {linked : Linked} {d low high : Decl} {a b : ScopeId}

/-- Links between scopes are links between types of the program. -/
theorem under_of_above (settled : linked.Settled program) (anchored : program.Anchored)
    (inside : .decl low ∈ program.subtrees) (stands : linked.graph.Stands a (.decl low.id))
    (path : ReflTransGen (DirectlyAbove linked.graph) a b) :
    ∃ high, ReflTransGen program.Under low high ∧ .decl high ∈ program.subtrees ∧
      linked.graph.Stands b (.decl high.id) := by
  induction path with
  | refl => exact ⟨low, .refl, inside, stands⟩
  | @tail middle above _ step ih =>
    obtain ⟨between, chain, among, own⟩ := ih
    obtain ⟨scope, there, listed⟩ := step
    obtain ⟨d, isClass, owner, high, super, stands⟩ :=
      (settled.mem_supertypes anchored there).mp listed
    obtain ⟨other, there', owner'⟩ := own
    rw [there] at there'
    cases there'
    rw [owner] at owner'
    have same := anchored.decl_inj (Program.mem_classes.mp isClass).1 among (Node.decl.inj owner')
    subst same
    exact ⟨high, .tail chain ⟨isClass, super⟩, (Program.supertypes_type anchored among super).1, stands⟩

/-- Every type above a class has a scope above that of the class. -/
theorem above_of_under (settled : linked.Settled program) (anchored : program.Anchored)
    (stands : linked.graph.Stands a (.decl low.id)) (chain : ReflTransGen program.Under low high) :
    ∃ b, ReflTransGen (DirectlyAbove linked.graph) a b ∧ linked.graph.Stands b (.decl high.id) := by
  induction chain with
  | refl => exact ⟨a, .refl, stands⟩
  | @tail middle above _ step ih =>
    obtain ⟨b, path, scope, there, owner⟩ := ih
    obtain ⟨isClass, super⟩ := step
    obtain ⟨inside, kind⟩ :=
      Program.supertypes_type anchored (Program.mem_classes.mp isClass).1 super
    obtain ⟨up, stands⟩ := settled.faithful.toMirrors.type_stands anchored inside kind
    have listed := (settled.mem_supertypes anchored there).mpr
      ⟨middle, isClass, owner, above, super, stands⟩
    exact ⟨up, .tail path ⟨scope, there, listed⟩, stands⟩

/-- The class that has a declaration of the program as a member is a class of the program. -/
theorem owningClass_class (anchored : program.Anchored) (inside : .decl d ∈ program.subtrees)
    {cls : DeclId} (owner : program.arena.owningClass d.id = some cls) :
    ∃ c ∈ program.classes, c.id = cls ∧ program.arena.decl? cls = some c := by
  obtain ⟨outer, link, isClass⟩ := Option.bind_eq_some_iff.mp owner
  rcases anchored.parent_cases inside with ⟨root, -⟩ | ⟨whole, among, -, above⟩
  · rw [Tree.node, link] at root
    cases root
    cases isClass
  · rw [Tree.node, link] at above
    cases above
    cases whole with
    | stmt | expr => cases isClass
    | decl c =>
      have stored := anchored.decl_stored among
      simp only [Tree.node, Arena.declWhere, stored, Option.any_some] at isClass
      split at isClass
      · rename_i kind
        cases isClass
        exact ⟨c, Program.mem_classes.mpr ⟨among, kind⟩, rfl, stored⟩
      · cases isClass

/-- The search above the class of a method comes to an answer, and what it finds is a clash. -/
theorem overriding_run (settled : linked.Settled program) (anchored : program.Anchored) {c : Decl}
    (isClass : c ∈ program.classes) (owner : program.arena.owningClass d.id = some c.id)
    (signature : Signature) :
    ∃ found, overriding program.arena linked.graph d.id d.ident signature =
        .ok (if found then [.overrideMismatch c.name d.name d.span] else []) ∧
      (found = true → program.Clashes c d signature) := by
  have faithful := settled.faithful
  obtain ⟨within, kind⟩ := Program.mem_classes.mp isClass
  obtain ⟨own, stands⟩ := faithful.toMirrors.type_stands anchored within (.inl (beq_iff_eq.mp kind))
  have opened := (faithful.toMirrors.scopeOf_iff anchored.toCoherent).mpr stands
  have ⟨scope, there, _⟩ := stands
  have closed : ∀ id above, DirectlyAbove linked.graph id above →
      ∃ scope, linked.graph.scope? above = some scope := by
    rintro id above ⟨low, found, listed⟩
    obtain ⟨_, -, -, _, -, high, stored, -⟩ := (settled.mem_supertypes anchored found).mp listed
    exact ⟨high, stored⟩
  obtain ⟨found, searched, clash⟩ := @clashAbove_finds linked.graph _ _
    (fun id scope there => clashes_eq faithful anchored there d.name signature) closed
    (linked.graph.size + 1) [own] scope.supertypes
    (fun id listed => closed own id ⟨scope, there, listed⟩)
  refine ⟨found, ?_, fun yes => ?_⟩
  · have made : program.arena.decl c.id = .ok c := by
      rw [Arena.decl, anchored.decl_stored within]
    rw [overriding, owner]
    simp only [opened, scope_eq_ok.mpr there, bind, Except.bind]
    rw [show d.ident.name = d.name from rfl, searched]
    cases found with
    | true =>
      simp only [if_true, made]
      rfl
    | false => rfl
  · obtain ⟨start, listed, id, high, path, apart, stored, clashes⟩ := clash yes
    obtain ⟨top, chain, -, other, stored', owner'⟩ :=
      under_of_above settled anchored within stands (.head ⟨scope, there, listed⟩ path)
    rw [stored] at stored'
    cases stored'
    refine ⟨top, chain, fun same => apart ?_, owner' ▸ clashes⟩
    rw [same] at owner'
    exact List.mem_singleton.mpr
      (faithful.toMirrors.stands_unique anchored.toCoherent ⟨high, stored, owner'⟩ stands)

/-- A method that is not reported clashes with nothing. -/
theorem not_clashes_of_clean (settled : linked.Settled program) (anchored : program.Anchored)
    {c : Decl} (isClass : c ∈ program.classes) (owner : program.arena.owningClass d.id = some c.id)
    {signature : Signature}
    (ran : overriding program.arena linked.graph d.id d.ident signature = .ok []) :
    ¬ program.Clashes c d signature := by
  have faithful := settled.faithful
  obtain ⟨within, kind⟩ := Program.mem_classes.mp isClass
  obtain ⟨own, stands⟩ := faithful.toMirrors.type_stands anchored within (.inl (beq_iff_eq.mp kind))
  have opened := (faithful.toMirrors.scopeOf_iff anchored.toCoherent).mpr stands
  rintro ⟨top, chain, apart, clashes⟩
  obtain ⟨id, path, high, stored, owner'⟩ := above_of_under settled anchored stands chain
  have other : id ≠ own := by
    rintro rfl
    have same := ScopeGraph.Stands.node_unique ⟨high, stored, owner'⟩ stands
    exact apart (Node.decl.inj same)
  obtain ⟨_, stored', agrees⟩ := overriding_above ran owner opened path other
  rw [stored] at stored'
  cases stored'
  rw [clashes_eq faithful anchored stored, owner'] at agrees
  have free := Except.ok.inj agrees
  rw [show d.ident.name = d.name from rfl, clashes] at free
  cases free

/-- A method is reported exactly when something above its class clashes with it. -/
theorem overriding_eq (settled : linked.Settled program) (anchored : program.Anchored)
    (inside : .decl d ∈ program.subtrees) {signature : Signature}
    (function : d.signature? = some signature) :
    overriding program.arena linked.graph d.id d.ident signature =
      .ok (program.overrideFaults d) := by
  rw [Program.overrideFaults, function]
  cases owner : program.arena.owningClass d.id with
  | none => rw [overriding, owner]; rfl
  | some cls =>
    obtain ⟨c, isClass, rfl, stored⟩ := owningClass_class anchored inside owner
    obtain ⟨found, ran, sound⟩ := overriding_run settled anchored isClass owner signature
    rw [ran, Option.bind_some, stored]
    by_cases clashes : program.Clashes c d signature
    · cases found with
      | true => simp [clashes]
      | false => exact absurd clashes (not_clashes_of_clean settled anchored isClass owner ran)
    · cases found with
      | true => exact absurd (sound rfl) clashes
      | false => simp [clashes]

end Overriding

/-! ## Walking the program -/

/-- A check comes to an end and reports some faults, in whatever order. -/
def Reports (run : Except Dangling Diagnostics) (faults : Diagnostics) : Prop :=
  ∃ found, run = .ok found ∧ found.Perm faults

/-- The check of a tree of any sort. -/
def tree (arena : Arena) (graph : ScopeGraph) (here : ScopeId) : Tree → Except Dangling Diagnostics
  | .decl d => decl arena graph here d
  | .stmt s => stmt arena graph here s
  | .expr e => expr arena graph here e

section Walking

variable {arena : Arena} {faults more : Diagnostics} {run later : Except Dangling Diagnostics}
  {expected : Tree → Diagnostics}

theorem Reports.nil : Reports (.ok []) [] := ⟨[], rfl, .nil⟩

theorem Reports.bind {next : Diagnostics → Except Dangling Diagnostics} (first : Reports run faults)
    (second : ∀ found, found.Perm faults → Reports (next found) more) :
    Reports (run >>= next) more := by
  obtain ⟨found, rfl, perm⟩ := first
  exact second found perm

theorem Reports.append (first : Reports run faults) (second : Reports later more) :
    Reports (do return (← run) ++ (← later)) (faults ++ more) :=
  first.bind fun a some_order => second.bind fun b other => ⟨a ++ b, rfl, some_order.append other⟩

theorem decls_reports {ds : List Decl}
    (each : ∀ part ∈ ds.map .decl, Reports (tree arena graph here part) (expected part)) :
    Reports (decls arena graph here ds) ((ds.map .decl).flatMap expected) := by
  induction ds with
  | nil => exact .nil
  | cons d rest ih =>
    obtain ⟨first, later⟩ := List.forall_mem_cons.mp each
    exact first.append (ih later)

theorem stmts_reports {ss : List Stmt}
    (each : ∀ part ∈ ss.map .stmt, Reports (tree arena graph here part) (expected part)) :
    Reports (stmts arena graph here ss) ((ss.map .stmt).flatMap expected) := by
  induction ss with
  | nil => exact .nil
  | cons s rest ih =>
    obtain ⟨first, later⟩ := List.forall_mem_cons.mp each
    exact first.append (ih later)

theorem exprs_reports {es : List Expr}
    (each : ∀ part ∈ es.map .expr, Reports (tree arena graph here part) (expected part)) :
    Reports (exprs arena graph here es) ((es.map .expr).flatMap expected) := by
  induction es with
  | nil => exact .nil
  | cons e rest ih =>
    obtain ⟨first, later⟩ := List.forall_mem_cons.mp each
    exact first.append (ih later)

theorem optional_reports {e : Option Expr}
    (each : ∀ part ∈ e.toList.map .expr, Reports (tree arena graph here part) (expected part)) :
    Reports (optional arena graph here e) ((e.toList.map .expr).flatMap expected) := by
  cases e with
  | none => exact .nil
  | some e =>
    obtain ⟨found, ran, perm⟩ := each (.expr e) List.mem_cons_self
    exact ⟨found, ran, by simpa using perm⟩

theorem stmt_reports {s : Stmt} (each : ∀ part ∈ s.children,
      Reports (tree arena graph (within graph here (.stmt s.id)) part) (expected part)) :
    Reports (stmt arena graph here s) (s.children.flatMap expected) := by
  cases s with
  | block site locals body =>
    obtain ⟨first, later⟩ := List.forall_mem_append.mp each
    simp only [Stmt.children, List.flatMap_append]
    exact (decls_reports first).append (stmts_reports later)
  | ifThen site test body | whileLoop site test body =>
    obtain ⟨first, later⟩ := List.forall_mem_cons.mp each
    have last := later (.stmt body) List.mem_cons_self
    simp only [Stmt.children, List.flatMap_cons, List.flatMap_nil, List.append_nil]
    exact first.append last
  | ifElse site test yes no =>
    obtain ⟨first, later⟩ := List.forall_mem_cons.mp each
    obtain ⟨second, last⟩ := List.forall_mem_cons.mp later
    refine first.bind fun a one => second.bind fun b two =>
      (last (.stmt no) List.mem_cons_self).bind fun c three => ⟨a ++ b ++ c, rfl, ?_⟩
    simpa [Stmt.children] using one.append (two.append three)
  | forLoop site init test step body =>
    simp only [Stmt.children, List.forall_mem_append, List.forall_mem_singleton] at each
    obtain ⟨⟨⟨first, second⟩, third⟩, last⟩ := each
    refine (optional_reports first).bind fun a one => second.bind fun b two =>
      (optional_reports third).bind fun c three => last.bind fun d four => ⟨a ++ b ++ c ++ d, rfl, ?_⟩
    simpa [Stmt.children] using one.append (two.append (three.append four))
  | ret site value => exact optional_reports each
  | print site args => exact exprs_reports each
  | expr site e =>
    have only := each (.expr e) List.mem_cons_self
    simp only [Stmt.children, List.flatMap_cons, List.flatMap_nil, List.append_nil]
    exact only
  | leave | knot => exact .nil

theorem expr_reports {e : Expr} (sees : graph.Sees program here (.expr e.id))
    (each : ∀ part ∈ e.children.map .expr,
      Reports (tree program.arena graph here part) (expected part)) :
    Reports (expr program.arena graph here e)
      (program.exprFaults e ++ (e.children.map .expr).flatMap expected) := by
  cases e with
  | binary site op left right | assign site left right | element site left right =>
    obtain ⟨first, later⟩ := List.forall_mem_cons.mp each
    have last := later (.expr right) List.mem_cons_self
    refine first.bind fun a one => last.bind fun b two => ⟨a ++ b, rfl, ?_⟩
    simpa [Program.exprFaults, Expr.children] using one.append two
  | unary site op operand | field site operand op =>
    obtain ⟨found, ran, perm⟩ := each (.expr operand) List.mem_cons_self
    refine ⟨found, ran, ?_⟩
    simpa [Program.exprFaults, Expr.children] using perm
  | call => exact exprs_reports each
  | send site receiver name actuals =>
    obtain ⟨first, later⟩ := List.forall_mem_cons.mp each
    exact first.append (exprs_reports later)
  | newArray site size element =>
    have only := each (.expr size) List.mem_cons_self
    have last : typed program.arena graph here element =
        .ok (program.typeFaults element (.expr site.id)) := typed_eq sees element
    refine only.bind fun a one => ⟨a ++ program.typeFaults element (.expr site.id), ?_, ?_⟩
    · rw [last]
      rfl
    · simpa [Program.exprFaults, Expr.children] using
        (one.append_right _).trans List.perm_append_comm
  | this site =>
    refine ⟨program.exprFaults (.this site), ?_, by simp [Expr.children]⟩
    rw [expr, Program.exprFaults]
    cases program.arena.enclosingClass (.expr site.id) <;> rfl
  | new site cls => 
    refine ⟨program.nameFaults [.cls] cls (.expr site.id), named_eq sees _ cls, ?_⟩
    simp [Expr.children, Program.exprFaults]
  | int | double | bool | string | null | name | readInteger | readLine | knot => exact .nil

private theorem own_first (own formals clash body : Diagnostics) :
    (own ++ formals ++ clash ++ body).Perm (own ++ clash ++ (formals ++ body)) := by
  have swapped : (formals ++ clash).Perm (clash ++ formals) := List.perm_append_comm
  simpa only [List.append_assoc] using (swapped.append_right body).append_left own

/-- A declaration is checked where it stands. -/
theorem decl_reports {linked : Linked} (settled : linked.Settled program)
    (anchored : program.Anchored) {d : Decl} (inside : .decl d ∈ program.subtrees)
    (link : program.arena.parent? (.decl d.id) = some outer)
    (stands : linked.graph.Stands here outer)
    (each : ∀ part ∈ d.children, Reports
      (tree program.arena linked.graph (within linked.graph here (.decl d.id)) part) (expected part)) :
    Reports (decl program.arena linked.graph here d)
      (program.declFaults d ++ d.children.flatMap expected) := by
  have faithful := settled.faithful
  have sees : linked.graph.Sees program here outer := faithful.findDecl_eq anchored stands
  have first : Reports (redeclaration program.arena linked.graph here d)
      (program.conflictFaults d outer) :=
    ⟨_, redeclaration_eq faithful anchored stands d, .refl _⟩
  have second (type : TypeExpr) : Reports (typed program.arena linked.graph here type)
      (program.typeFaults type outer) := ⟨_, typed_eq sees type, .refl _⟩
  have last {signature : Signature} (function : d.signature? = some signature) :
      Reports (overriding program.arena linked.graph d.id d.ident signature)
        (program.overrideFaults d) :=
    ⟨_, overriding_eq settled anchored inside function, .refl _⟩
  rw [Program.declFaults, link]
  cases d with
  | var id name type =>
    refine first.bind fun a one => (second type).bind fun b two => ⟨a ++ b, rfl, ?_⟩
    simpa [Decl.writtenType?, Decl.varType?, Decl.children, Program.overrideFaults, Decl.signature?]
      using one.append two
  | cls id name superclass interfaces members | interface id name members =>
    refine first.bind fun a one => (decls_reports each).bind fun b two => ⟨a ++ b, rfl, ?_⟩
    simpa [Decl.writtenType?, Decl.varType?, Decl.children, Program.overrideFaults, Decl.signature?]
      using one.append two
  | prototype id name result formals =>
    refine first.bind fun a one => (second result).bind fun b two =>
      (decls_reports each).bind fun c three => (last rfl).bind fun d four =>
        ⟨a ++ b ++ c ++ d, rfl, ?_⟩
    have whole := ((one.append two).append four).append (three.append (List.Perm.refl []))
    simpa [Decl.writtenType?, Decl.varType?, Decl.signature?, Decl.children] using
      (own_first (a ++ b) c d []).trans whole
  | function id name result formals body =>
    obtain ⟨third, fourth⟩ := List.forall_mem_append.mp each
    refine first.bind fun a one => (second result).bind fun b two =>
      (decls_reports third).bind fun c three => (last rfl).bind fun d four =>
        (fourth (.stmt body) List.mem_cons_self).bind fun e five =>
          ⟨a ++ b ++ c ++ d ++ e, rfl, ?_⟩
    have whole := ((one.append two).append four).append (three.append five)
    simpa [Decl.writtenType?, Decl.varType?, Decl.signature?, Decl.children] using
      (own_first (a ++ b) c d e).trans whole

/-- Every tree of the program is checked where it stands, and so are its parts. -/
theorem tree_reports {linked : Linked} (settled : linked.Settled program)
    (anchored : program.Anchored) {t : Tree} (inside : t ∈ program.subtrees)
    (link : program.arena.parent? t.node = some outer)
    (sees : linked.graph.Sees program here outer)
    (stands : ∀ d, t = .decl d → linked.graph.Stands here outer) :
    Reports (tree program.arena linked.graph here t) (program.faultsIn t) := by
  induction t using Tree.induction generalizing here outer with
  | step t ih =>
    have faithful := settled.faithful
    have within_sees := faithful.sees_within anchored inside link sees
    have each : ∀ part ∈ t.children, Reports
        (tree program.arena linked.graph (within linked.graph here t.node) part)
        (program.faultsIn part) := by
      intro part member
      have stored := anchored.stored_subtrees t inside
      obtain ⟨root, listed, among⟩ := List.mem_flatMap.mp inside
      refine ih part member ?_ (anchored.arena.parts stored part member).2 within_sees ?_
      · exact List.mem_flatMap.mpr ⟨root, listed, Tree.subtrees_trans among
          (Tree.part_subtrees member (Tree.self_mem_subtrees part))⟩
      · rintro d rfl
        obtain ⟨decls, opens, -⟩ := Tree.decl_part member
        exact faithful.stands_within anchored inside opens
    rw [Program.faultsIn_eq]
    cases t with
    | decl d => exact decl_reports settled anchored inside link (stands d rfl) each
    | stmt s => exact stmt_reports each
    | expr e =>
      have same : within linked.graph here (.expr e.id) = here := by
        rw [within, show Node.expr e.id = (Tree.expr e).node from rfl,
          faithful.toMirrors.scopeOf_closed anchored inside rfl]
        rfl
      rw [show (Tree.expr e).node = .expr e.id from rfl, same] at within_sees each
      exact expr_reports within_sees each

end Walking

/-- The check of a program with linked classes reports what is wrong with it, and nothing else. -/
theorem program_reports {linked : Linked} (settled : linked.Settled program)
    (anchored : program.Anchored) :
    Reports (Check.program linked.graph program) (program.subtrees.flatMap program.ownFaults) := by
  have faithful := settled.faithful
  have root : linked.graph.Stands ScopeGraph.global .program := by
    obtain ⟨scope, stored, owner, -⟩ := faithful.toMirrors.global_scope
    exact ⟨scope, stored, owner⟩
  have each : ∀ part ∈ program.top.map .decl, Reports
      (tree program.arena linked.graph ScopeGraph.global part) (program.faultsIn part) := by
    intro part member
    refine tree_reports settled anchored ((Tree.sublist_subtrees _).subset member)
      (anchored.top_parts part member).2 (faithful.findDecl_eq anchored root) fun _ _ => root
  have whole := decls_reports each
  rw [Program.subtrees, List.flatMap_assoc]
  exact whole

end Check

end DecafTac
