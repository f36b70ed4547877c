import DecafTac.Proofs.Scope.Visibility

/-!
The tree of scopes and the tree of the source. A program is entered by steps of three sorts: a
declaration is entered, a scope is opened, and a scope is opened for a class, which is noted. Every step
is made in the scope of the node above, so the scopes are nested as their owners are; a scope is listed
by the one around it, a declaration belongs to the scope of its parent, and the classes noted are those
of the program.
-/
namespace DecafTac

/-! ## Parents in the source -/

/-- Trees that are stored and have one node for a parent. -/
def Arena.Parts (arena : Arena) (outer : Node) (ts : List Tree) : Prop :=
  ∀ t ∈ ts, arena.tree? t.node = some t ∧ arena.parent? t.node = some outer

theorem Arena.Coherent.parts {arena : Arena} (coherent : arena.Coherent) {t : Tree}
    (stored : arena.tree? t.node = some t) : arena.Parts t.node t.children :=
  fun part inside => ⟨coherent.closed _ _ stored part inside, coherent.linked _ _ stored part inside⟩

/-- A coherent program that is the parent of its top-level declarations. -/
structure Program.Anchored (program : Program) : Prop extends Program.Coherent program where
  rooted : ∀ d ∈ program.top, program.arena.parent? (.decl d.id) = some .program

theorem Program.Built.anchored {program : Program} (built : program.Built) : program.Anchored := by
  refine ⟨built.coherent, ?_⟩
  obtain ⟨arena, top, built, ready, closed⟩ := built
  obtain ⟨trees, found, closed⟩ := Arena.bind_ok closed
  cases closed
  have finds : arena.Finds (top.map .decl) (trees.map .decl) :=
    Arena.mapM_found (fun _ _ => Arena.decl_found) found
  intro d member
  have chosen : .decl d.id ∈ top.map Node.decl := by
    rw [← finds.nodes built.forest.named]
    exact List.mem_map.mpr ⟨.decl d, List.mem_map_of_mem member, rfl⟩
  exact (Arena.parent?_adoptAll .program _ ready.stored).trans (if_pos chosen)

namespace Program.Anchored

variable {program : Program}

theorem top_parts (anchored : program.Anchored) :
    program.arena.Parts .program (program.top.map .decl) := by
  intro t listed
  obtain ⟨d, member, rfl⟩ := List.mem_map.mp listed
  refine ⟨?_, anchored.rooted d member⟩
  simp [Arena.tree?, Tree.node, anchored.stored d member]

/-- A tree of a program is a top-level declaration or a part of another tree of it. -/
theorem parent_cases (anchored : program.Anchored) {t : Tree} (inside : t ∈ program.subtrees) :
    (program.arena.parent? t.node = some .program ∧ t ∈ program.top.map .decl) ∨
    ∃ whole ∈ program.subtrees, t ∈ whole.children ∧
      program.arena.parent? t.node = some whole.node := by
  obtain ⟨root, listed, member⟩ := List.mem_flatMap.mp inside
  -- Going down from a top-level declaration, each part has the tree above it for a parent.
  have below (whole : Tree) (within : whole.subtrees ⊆ program.subtrees) (sub : Tree)
      (member : sub ∈ whole.subtrees) : sub = whole ∨ ∃ upper ∈ program.subtrees,
        sub ∈ upper.children ∧ program.arena.parent? sub.node = some upper.node := by
    induction whole using Tree.induction with
    | step whole ih =>
      rw [Tree.subtrees_eq] at member
      rcases List.mem_cons.mp member with same | member
      · exact .inl same
      · obtain ⟨part, among, member⟩ := List.mem_flatMap.mp member
        rcases ih part among (List.Subset.trans (Tree.part_subtrees among) within) member with
          rfl | found
        · have here := within (Tree.self_mem_subtrees whole)
          have stored := anchored.stored_subtrees whole here
          exact .inr ⟨whole, here, among, (anchored.arena.parts stored sub among).2⟩
        · exact .inr found
  rcases below root (fun sub among => List.mem_flatMap.mpr ⟨root, listed, among⟩) t member with
    rfl | found
  · exact .inl ⟨(anchored.top_parts t listed).2, listed⟩
  · exact .inr found

end Program.Anchored

/-! ## One step of entering -/

namespace ScopeGraph

variable {graph : ScopeGraph}

/-- The scope `here` is that of the node. -/
def Stands (graph : ScopeGraph) (here : ScopeId) (node : Node) : Prop :=
  ∃ scope, graph.scope? here = some scope ∧ scope.owner = node

/-- A scope is that of one node. -/
theorem Stands.node_unique {graph : ScopeGraph} {here : ScopeId} {a b : Node}
    (first : graph.Stands here a) (second : graph.Stands here b) : a = b := by
  obtain ⟨scope, there, rfl⟩ := first
  obtain ⟨other, there', rfl⟩ := second
  rw [there] at there'
  cases there'
  rfl

theorem parents_getElem? (graph : ScopeGraph) (id : ScopeId) :
    graph.parents[id.index]? = (graph.scope? id).map fun scope => (scope.owner, scope.parent) := by
  simp [parents, scope?]

theorem parents_length (graph : ScopeGraph) : graph.parents.length = graph.size := by
  simp [parents, size]

theorem stands_iff {here : ScopeId} {node : Node} :
    graph.Stands here node ↔ ∃ around, graph.parents[here.index]? = some (node, around) := by
  simp [Stands, parents_getElem?]

/-- A scope stays the scope of its node while scopes are added. -/
theorem Stands.grows {after : ScopeGraph} {here : ScopeId} {node : Node}
    (stands : graph.Stands here node) (grows : graph.parents <+: after.parents) :
    after.Stands here node := by
  obtain ⟨around, listed⟩ := stands_iff.mp stands
  obtain ⟨more, grown⟩ := grows
  have old : here.index < graph.parents.length := (List.getElem?_eq_some_iff.mp listed).1
  exact stands_iff.mpr ⟨around, by rw [← grown, List.getElem?_append_left old, listed]⟩

theorem Stands.index_lt {here : ScopeId} {node : Node} (stands : graph.Stands here node) :
    here.index < graph.size := by
  obtain ⟨scope, there, -⟩ := stands
  exact ScopeGraph.index_lt there

theorem scope?_enter (graph : ScopeGraph) (here : ScopeId) (name : String) (decl : DeclId)
    (id : ScopeId) : (graph.enter here name decl).scope? id =
      if here = id then
        (graph.scope? id).map fun s => { s with entries := s.entries ++ [(name, decl)] }
      else graph.scope? id :=
  scope?_modify graph here _ id

theorem scope?_next (graph : ScopeGraph) : graph.scope? graph.next = none :=
  Array.getElem?_eq_none (Nat.le_refl _)

theorem scope?_openIn {here : ScopeId} {scope : Scope} (there : graph.scope? here = some scope)
    (owner : Node) (id : ScopeId) : (graph.openIn here owner).scope? id =
      if id = graph.next then some { owner, parent := some here }
      else if id = here then some { scope with children := scope.children ++ [graph.next] }
      else graph.scope? id := by
  have pushed : (graph.push here owner).scope? id =
      if id = graph.next then some { owner, parent := some here } else graph.scope? id := by
    simp [scope?, push, Array.getElem?_push, next, size, ScopeId.ext_iff]
  have attached := scope?_modify (graph.push here owner) here
    (fun s => { s with children := s.children ++ [graph.next] }) id
  refine attached.trans ?_
  rw [pushed]
  by_cases newest : id = graph.next
  · have other : here ≠ id := by
      rintro rfl
      rw [newest, scope?_next] at there
      cases there
    rw [if_pos newest, if_neg other, if_pos newest]
  · rw [if_neg newest, if_neg newest]
    by_cases same : here = id
    · subst same
      rw [if_pos rfl, if_pos rfl, there]
      rfl
    · rw [if_neg same, if_neg (Ne.symm same)]

end ScopeGraph

namespace Entered

open ScopeGraph
open Relation (ReflTransGen)

variable {arena : Arena} {e after : Entered} {here : ScopeId} {outer : Node}

/-- One step of entering, made in the scope of the node that is the parent in the source. -/
inductive Entering (arena : Arena) : Entered → Entered → Prop where
  | declare {e : Entered} {here : ScopeId} {scope : Scope} {d : Decl}
      (there : e.graph.scope? here = some scope)
      (link : arena.parent? (.decl d.id) = some scope.owner) :
      Entering arena e (e.declare here d.ident d.id)
  | opens {e : Entered} {here : ScopeId} {scope : Scope} {node : Node}
      (there : e.graph.scope? here = some scope) (link : arena.parent? node = some scope.owner)
      (other : ∀ id, node = .decl id → ¬ arena.hasClass id) :
      Entering arena e (e.openIn here node)
  | opensClass {e : Entered} {here : ScopeId} {scope : Scope} {id : DeclId}
      (there : e.graph.scope? here = some scope)
      (link : arena.parent? (.decl id) = some scope.owner) (isClass : arena.hasClass id) :
      Entering arena e ((e.openIn here (.decl id)).note id e.graph.next)

/-- Scopes stay the scopes of their nodes, in the same places. -/
theorem Entering.grows (step : Entering arena e after) : e.graph.parents <+: after.graph.parents := by
  cases step with
  | declare there link => exact ⟨[], by rw [List.append_nil, declare_parents]⟩
  | opens there => exact ⟨_, (openIn_parents e _ _).symm⟩
  | opensClass there => exact ⟨_, (openIn_parents e _ _).symm⟩

theorem openIn_stands (e : Entered) (here : ScopeId) (node : Node) :
    (e.openIn here node).graph.Stands e.graph.next node := by
  refine stands_iff.mpr ⟨some here, ?_⟩
  rw [openIn_parents, next, ← parents_length]
  simp

/-! ## Entering takes such steps -/

/-- Steps of entering. -/
abbrev Enters (arena : Arena) : Entered → Entered → Prop := ReflTransGen (Entering arena)

theorem Enters.stands (steps : Enters arena e after) (stands : e.graph.Stands here outer) :
    after.graph.Stands here outer := by
  induction steps with
  | refl => exact stands
  | tail _ step ih => exact ih.grows step.grows

private theorem declare_enters {d : Decl} (link : arena.parent? (.decl d.id) = some outer)
    (stands : e.graph.Stands here outer) : Enters arena e (e.declare here d.ident d.id) := by
  obtain ⟨scope, there, rfl⟩ := stands
  exact .single (.declare there link)

/-- A tree other than a class opens its scope. -/
private theorem openIn_enters {node : Node} (link : arena.parent? node = some outer)
    (stands : e.graph.Stands here outer) (other : ∀ id, node = .decl id → ¬ arena.hasClass id) :
    Enters arena e (e.openIn here node) := by
  obtain ⟨scope, there, rfl⟩ := stands
  exact .single (.opens there link other)

/-- A declaration other than a class is entered and opens its scope. -/
private theorem declare_openIn_enters {d : Decl} (stored : arena.tree? (.decl d.id) = some (.decl d))
    (link : arena.parent? (.decl d.id) = some outer) (stands : e.graph.Stands here outer)
    (other : d.isClass = false) :
    Enters arena e ((e.declare here d.ident d.id).openIn here (.decl d.id)) := by
  have declared := declare_enters link stands
  refine declared.trans (openIn_enters link (declared.stands stands) ?_)
  rintro id same ⟨found, there, isClass⟩
  cases same
  rw [Arena.tree?, there] at stored
  cases stored
  rw [other] at isClass
  cases isClass

private theorem stmt_enters {s : Stmt} (link : arena.parent? (.stmt s.id) = some outer)
    (stands : e.graph.Stands here outer) : Enters arena e (e.openIn here (.stmt s.id)) :=
  openIn_enters link stands (fun _ same => nomatch same)

private theorem body_part {s body : Stmt} (coherent : arena.Coherent)
    (stored : arena.tree? (.stmt s.id) = some (.stmt s)) (inside : .stmt body ∈ s.children) :
    arena.Parts (.stmt s.id) [.stmt body] :=
  List.forall_mem_singleton.mpr (coherent.parts (t := .stmt s) stored _ inside)

mutual

theorem enterDecl_enters (coherent : arena.Coherent) {here : ScopeId} {outer : Node} :
    (d : Decl) → (e : Entered) →
    arena.Parts outer [.decl d] → e.graph.Stands here outer → Enters arena e (enterDecl here d e)
  | .var id name type, e, part, stands =>
    declare_enters (d := .var id name type) (part _ List.mem_cons_self).2 stands
  | .cls id name superclass interfaces members, e, part, stands => by
    obtain ⟨stored, link⟩ := part _ List.mem_cons_self
    have declared := declare_enters (d := .cls id name superclass interfaces members) link stands
    obtain ⟨scope, there, rfl⟩ := declared.stands stands
    have isClass : arena.hasClass id :=
      ⟨_, by simpa [Arena.tree?, Tree.node, Decl.id] using stored, rfl⟩
    refine (declared.tail (.opensClass there link isClass)).trans ?_
    exact enterDecls_enters coherent members _ (coherent.parts stored) (openIn_stands _ here (.decl id))
  | .interface id name members, e, part, stands => by
    obtain ⟨stored, link⟩ := part _ List.mem_cons_self
    refine (declare_openIn_enters stored link stands rfl).trans ?_
    exact enterDecls_enters coherent members _ (coherent.parts stored) (openIn_stands _ here (.decl id))
  | .prototype id name result formals, e, part, stands => by
    obtain ⟨stored, link⟩ := part _ List.mem_cons_self
    refine (declare_openIn_enters stored link stands rfl).trans ?_
    exact enterDecls_enters coherent formals _ (coherent.parts stored) (openIn_stands _ here (.decl id))
  | .function id name result formals body, e, part, stands => by
    obtain ⟨stored, link⟩ := part _ List.mem_cons_self
    have inner : arena.Parts (.decl id) (formals.map .decl ++ [.stmt body]) := coherent.parts stored
    have first := enterDecls_enters coherent formals _
      (fun t member => inner t (List.mem_append_left _ member))
      (openIn_stands (e.declare here name id) here (.decl id))
    refine (declare_openIn_enters stored link stands rfl).trans (first.trans ?_)
    exact enterStmt_enters coherent body _ (fun t member => inner t (List.mem_append_right _ member))
      (first.stands (openIn_stands _ here (.decl id)))

theorem enterDecls_enters (coherent : arena.Coherent) {here : ScopeId} {outer : Node} :
    (ds : List Decl) → (e : Entered) →
    arena.Parts outer (ds.map .decl) → e.graph.Stands here outer →
    Enters arena e (enterDecls here ds e)
  | [], _, _, _ => .refl
  | d :: rest, e, parts, stands => by
    obtain ⟨here, later⟩ := List.forall_mem_cons.mp parts
    have first := enterDecl_enters coherent d e (List.forall_mem_singleton.mpr here) stands
    exact first.trans (enterDecls_enters coherent rest _ later (first.stands stands))

theorem enterStmt_enters (coherent : arena.Coherent) {here : ScopeId} {outer : Node} :
    (s : Stmt) → (e : Entered) →
    arena.Parts outer [.stmt s] → e.graph.Stands here outer → Enters arena e (enterStmt here s e)
  | .block site decls stmts, e, part, stands => by
    obtain ⟨stored, link⟩ := part _ List.mem_cons_self
    have inner : arena.Parts (.stmt site.id) (decls.map .decl ++ stmts.map .stmt) :=
      coherent.parts stored
    have opened := openIn_stands e here (.stmt site.id)
    have first := enterDecls_enters coherent decls _
      (fun t member => inner t (List.mem_append_left _ member)) opened
    refine (stmt_enters link stands).trans (first.trans ?_)
    exact enterStmts_enters coherent stmts _ (fun t member => inner t (List.mem_append_right _ member))
      (first.stands opened)
  | .ifThen site test body, e, part, stands => by
    obtain ⟨stored, link⟩ := part _ List.mem_cons_self
    refine (stmt_enters link stands).trans ?_
    exact enterStmt_enters coherent body _ (body_part coherent stored (by simp [Stmt.children]))
      (openIn_stands e here (.stmt site.id))
  | .ifElse site test yes no, e, part, stands => by
    obtain ⟨stored, link⟩ := part _ List.mem_cons_self
    have opened := openIn_stands e here (.stmt site.id)
    have first := enterStmt_enters coherent yes _ (body_part coherent stored (by simp [Stmt.children])) opened
    refine (stmt_enters link stands).trans (first.trans ?_)
    exact enterStmt_enters coherent no _ (body_part coherent stored (by simp [Stmt.children]))
      (first.stands opened)
  | .whileLoop site test body, e, part, stands => by
    obtain ⟨stored, link⟩ := part _ List.mem_cons_self
    refine (stmt_enters link stands).trans ?_
    exact enterStmt_enters coherent body _ (body_part coherent stored (by simp [Stmt.children]))
      (openIn_stands e here (.stmt site.id))
  | .forLoop site init test step body, e, part, stands => by
    obtain ⟨stored, link⟩ := part _ List.mem_cons_self
    refine (stmt_enters link stands).trans ?_
    exact enterStmt_enters coherent body _ (body_part coherent stored (by simp [Stmt.children]))
      (openIn_stands e here (.stmt site.id))
  | .ret .., _, _, _ | .print .., _, _, _ | .leave .., _, _, _ => .refl
  | .expr .., _, _, _ | .knot .., _, _, _ => .refl

theorem enterStmts_enters (coherent : arena.Coherent) {here : ScopeId} {outer : Node} :
    (ss : List Stmt) → (e : Entered) →
    arena.Parts outer (ss.map .stmt) → e.graph.Stands here outer →
    Enters arena e (enterStmts here ss e)
  | [], _, _, _ => .refl
  | s :: rest, e, parts, stands => by
    obtain ⟨here, later⟩ := List.forall_mem_cons.mp parts
    have first := enterStmt_enters coherent s e (List.forall_mem_singleton.mpr here) stands
    exact first.trans (enterStmts_enters coherent rest _ later (first.stands stands))

end

end Entered

/-! ## What each step keeps -/

namespace ScopeGraph

variable {graph : ScopeGraph} {arena : Arena} {here : ScopeId} {outer owner : Node}

/-- Every scope but that of the program stands in the scope of its owner's parent, and after it. -/
def Nested (graph : ScopeGraph) (arena : Arena) : Prop :=
  ∀ index owner around, graph.parents[index]? = some (owner, around) →
    (owner = .program ∧ around = none) ∨
    ∃ up outer, around = some up ∧ up.index < index ∧ graph.Stands up outer ∧
      arena.parent? owner = some outer

/-- A scope lists those that stand in it, each once. -/
def Listed (graph : ScopeGraph) : Prop :=
  ∀ id scope, graph.scope? id = some scope → ∀ child,
    scope.children.count child = ((graph.scope? child).any (·.parent == some id)).toNat

/-- The declarations that belong to a scope are those entered there. -/
def Owned (graph : ScopeGraph) : Prop :=
  ∀ decl id, (decl, id) ∈ graph.owners ↔
    ∃ scope, graph.scope? id = some scope ∧ decl ∈ scope.entries.map Prod.snd

theorem Nested.of_parents {after : ScopeGraph} (same : after.parents = graph.parents)
    (nested : graph.Nested arena) : after.Nested arena := by
  intro index owner around listed
  rw [same] at listed
  refine (nested index owner around listed).imp_right ?_
  rintro ⟨up, outer, inside, lower, stands, link⟩
  exact ⟨up, outer, inside, lower, stands.grows ⟨[], by rw [List.append_nil, same]⟩, link⟩

theorem Nested.openIn (nested : graph.Nested arena) (stands : graph.Stands here outer)
    (link : arena.parent? owner = some outer) : (graph.openIn here owner).Nested arena := by
  have grows : graph.parents <+: (graph.openIn here owner).parents :=
    ⟨_, (parents_openIn graph here owner).symm⟩
  intro index other around listed
  rw [parents_openIn, List.getElem?_append] at listed
  split at listed
  · refine (nested index other around listed).imp_right ?_
    rintro ⟨up, high, inside, lower, above, link⟩
    exact ⟨up, high, inside, lower, above.grows grows, link⟩
  · rename_i beyond
    rw [List.getElem?_singleton] at listed
    split at listed
    · cases listed
      have lower := stands.index_lt
      rw [← parents_length] at lower
      exact .inr ⟨here, outer, rfl, by omega, stands.grows grows, link⟩
    · cases listed

/-- No scope stands in one that is not there. -/
theorem Nested.parent_lt (nested : graph.Nested arena) {id up : ScopeId} {scope : Scope}
    (there : graph.scope? id = some scope) (around : scope.parent = some up) :
    up.index < graph.size := by
  have listed : graph.parents[id.index]? = some (scope.owner, scope.parent) := by
    rw [parents_getElem?, there]
    rfl
  rcases nested _ _ _ listed with ⟨-, none⟩ | ⟨up', outer, inside, -, stands, -⟩
  · rw [around] at none
    cases none
  · rw [around] at inside
    cases inside
    exact stands.index_lt

private theorem any_enter (name : String) (decl : DeclId) (id child : ScopeId) :
    ((graph.enter here name decl).scope? child).any (·.parent == some id) =
      (graph.scope? child).any (·.parent == some id) := by
  rw [scope?_enter]
  split
  · cases graph.scope? child <;> rfl
  · rfl

theorem Listed.enter (listed : graph.Listed) (name : String) (decl : DeclId) :
    (graph.enter here name decl).Listed := by
  intro id scope found child
  rw [any_enter]
  rw [scope?_enter] at found
  split at found
  · obtain ⟨old, there, rfl⟩ := Option.map_eq_some_iff.mp found
    exact listed id old there child
  · exact listed id scope found child

theorem Listed.openIn (listed : graph.Listed) (nested : graph.Nested arena) {around : Scope}
    (there : graph.scope? here = some around) : (graph.openIn here owner).Listed := by
  have fresh : graph.scope? graph.next = none := scope?_next graph
  have apart : here ≠ graph.next := by
    rintro same
    rw [← same, there] at fresh
    cases fresh
  -- Which scopes stand in one that was there changes for the new scope only.
  have standing (id child : ScopeId) :
      ((graph.openIn here owner).scope? child).any (·.parent == some id) =
        if child = graph.next then here == id else (graph.scope? child).any (·.parent == some id) := by
    rw [scope?_openIn there]
    split
    · rfl
    · split
      · rename_i same
        rw [same, there]
        rfl
      · rfl
  intro id scope found child
  rw [standing]
  rw [scope?_openIn there] at found
  split at found
  · rename_i newest
    cases found
    have empty : ¬ (graph.scope? child).any (·.parent == some id) = true := by
      rw [Option.any_eq_true]
      rintro ⟨inner, stored, inside⟩
      have lower := nested.parent_lt stored (by simpa using inside)
      rw [newest] at lower
      exact Nat.lt_irrefl _ lower
    have other : (here == id) = false := by simpa [newest] using apart
    by_cases last : child = graph.next <;> simp [last, other, empty]
  · split at found
    · rename_i same
      cases found
      have before := listed here around there child
      rw [List.count_append, List.count_singleton, before, same]
      by_cases last : child = graph.next
      · simp [last, fresh]
      · simp [last, Ne.symm last]
    · rename_i other
      have before := listed id scope found child
      by_cases last : child = graph.next
      · have elsewhere : (here == id) = false := beq_false_of_ne (Ne.symm other)
        rw [before, last, fresh]
        simp [elsewhere]
      · rw [before, if_neg last]

theorem Owned.enter (owned : graph.Owned) {around : Scope} (there : graph.scope? here = some around)
    (name : String) (decl : DeclId) : (graph.enter here name decl).Owned := by
  intro other id
  have more : (graph.enter here name decl).owners = (decl, here) :: graph.owners := rfl
  rw [more, List.mem_cons, owned other id, scope?_enter]
  by_cases same : here = id
  · subst same
    simp [there, exists_or, or_comm]
  · simp [same, Ne.symm same]

theorem Owned.openIn (owned : graph.Owned) {around : Scope}
    (there : graph.scope? here = some around) : (graph.openIn here owner).Owned := by
  intro decl id
  have same : (graph.openIn here owner).owners = graph.owners := rfl
  rw [same, owned decl id, scope?_openIn there]
  by_cases newest : id = graph.next
  · simp [newest, scope?_next]
  · by_cases inside : id = here
    · subst inside
      simp [newest, there]
    · simp [newest, inside]

theorem stands_openIn (graph : ScopeGraph) (here id : ScopeId) (owner node : Node) :
    (graph.openIn here owner).Stands id node ↔
      (id = graph.next ∧ node = owner) ∨ graph.Stands id node := by
  rw [stands_iff, stands_iff, parents_openIn]
  by_cases old : id.index < graph.parents.length
  · have other : id ≠ graph.next := by
      rintro rfl
      rw [parents_length] at old
      exact Nat.lt_irrefl _ old
    rw [List.getElem?_append_left old]
    simp [other]
  · rw [List.getElem?_append_right (Nat.le_of_not_lt old), List.getElem?_eq_none (Nat.le_of_not_lt old),
      List.getElem?_singleton]
    have size : graph.next.index = graph.parents.length := (parents_length graph).symm
    have last : id.index - graph.parents.length = 0 ↔ id = graph.next := by
      rw [ScopeId.ext_iff, size]
      omega
    by_cases newest : id = graph.next
    · rw [if_pos (last.mpr newest)]
      simp [newest, eq_comm]
    · rw [if_neg (mt last.mp newest)]
      simp [newest]

end ScopeGraph

namespace Entered

open ScopeGraph

variable {arena : Arena} {e after : Entered}

/-- The classes noted are those that have a scope, each with its own. -/
def Noted (arena : Arena) (e : Entered) : Prop :=
  ∀ cls id, ⟨cls, id⟩ ∈ e.classes ↔ arena.hasClass cls ∧ e.graph.Stands id (.decl cls)

/-- What holds at every point while a program is entered. -/
structure Orderly (arena : Arena) (e : Entered) : Prop where
  nested : e.graph.Nested arena
  listed : e.graph.Listed
  owned : e.graph.Owned
  noted : e.Noted arena
  once : e.classes.Nodup

theorem orderly_empty (arena : Arena) : ({} : Entered).Orderly arena := by
  have only : ∀ id scope, ({} : ScopeGraph).scope? id = some scope →
      id = global ∧ scope = { owner := .program, parent := none } := by
    rintro ⟨index⟩ scope found
    cases index with
    | zero =>
      cases found
      exact ⟨rfl, rfl⟩
    | succ => cases found
  refine ⟨?_, ?_, ?_, ?_, List.nodup_nil⟩
  · intro index owner around listed
    cases index with
    | zero =>
      cases listed
      exact .inl ⟨rfl, rfl⟩
    | succ => cases listed
  · intro id scope found child
    obtain ⟨-, rfl⟩ := only id scope found
    cases inner : ({} : ScopeGraph).scope? child with
    | none => rfl
    | some other =>
      obtain ⟨-, rfl⟩ := only child other inner
      rfl
  · intro decl id
    refine ⟨fun listed => (List.not_mem_nil listed).elim, ?_⟩
    rintro ⟨scope, found, listed⟩
    obtain ⟨-, rfl⟩ := only id scope found
    cases listed
  · intro cls id
    refine ⟨fun listed => (List.not_mem_nil listed).elim, ?_⟩
    rintro ⟨-, scope, found, owner⟩
    obtain ⟨-, rfl⟩ := only id scope found
    cases owner

/-- One step keeps the scopes in order. -/
theorem Entering.orderly (step : Entering arena e after) (orderly : e.Orderly arena) :
    after.Orderly arena := by
  cases step with
  | @declare here scope d there link =>
    have same := declare_parents e here d.ident d.id
    have standing (id : ScopeId) (node : Node) :
        (e.declare here d.ident d.id).graph.Stands id node ↔ e.graph.Stands id node := by
      rw [stands_iff, stands_iff, same]
    refine ⟨orderly.nested.of_parents same, orderly.listed.enter _ _, orderly.owned.enter there _ _,
      ?_, orderly.once⟩
    intro cls id
    rw [standing]
    exact orderly.noted cls id
  | @opens here scope node there link other =>
    refine ⟨orderly.nested.openIn ⟨scope, there, rfl⟩ link, orderly.listed.openIn orderly.nested there,
      orderly.owned.openIn there, ?_, orderly.once⟩
    intro cls id
    have opened := stands_openIn e.graph here id node (.decl cls)
    refine (orderly.noted cls id).trans ⟨?_, ?_⟩
    · rintro ⟨isClass, stands⟩
      exact ⟨isClass, opened.mpr (.inr stands)⟩
    · rintro ⟨isClass, stands⟩
      rcases opened.mp stands with ⟨-, same⟩ | stands
      · exact absurd isClass (other cls same.symm)
      · exact ⟨isClass, stands⟩
  | @opensClass here scope cls there link isClass =>
    have graph : ((e.openIn here (.decl cls)).note cls e.graph.next).graph =
        e.graph.openIn here (.decl cls) := rfl
    have classes : ((e.openIn here (.decl cls)).note cls e.graph.next).classes =
        e.classes ++ [⟨cls, e.graph.next⟩] := rfl
    refine ⟨orderly.nested.openIn ⟨scope, there, rfl⟩ link, orderly.listed.openIn orderly.nested there,
      orderly.owned.openIn there, ?_, ?_⟩
    · intro other id
      rw [graph, classes, List.mem_append, List.mem_singleton, orderly.noted other id, stands_openIn,
        ClassScope.mk.injEq, Node.decl.injEq]
      constructor
      · rintro (⟨isClass, stands⟩ | ⟨rfl, rfl⟩)
        · exact ⟨isClass, .inr stands⟩
        · exact ⟨isClass, .inl ⟨rfl, rfl⟩⟩
      · rintro ⟨isClass, ⟨rfl, rfl⟩ | stands⟩
        · exact .inr ⟨rfl, rfl⟩
        · exact .inl ⟨isClass, stands⟩
    · rw [classes, List.nodup_append]
      refine ⟨orderly.once, List.nodup_singleton _, ?_⟩
      rintro record listed _ last rfl
      rw [List.mem_singleton.mp last] at listed
      obtain ⟨-, found, stored, -⟩ := (orderly.noted cls e.graph.next).mp listed
      rw [scope?_next] at stored
      cases stored

theorem Enters.orderly (steps : Enters arena e after) (orderly : e.Orderly arena) :
    after.Orderly arena := by
  induction steps with
  | refl => exact orderly
  | tail _ step ih => exact step.orderly ih

end Entered

/-- Entering a program leaves its scopes in order. -/
theorem Program.Anchored.entered_orderly {program : Program} (anchored : program.Anchored) :
    program.entered.Orderly program.arena := by
  have root : ({} : Entered).graph.Stands ScopeGraph.global .program := ⟨_, rfl, rfl⟩
  have steps := Entered.enterDecls_enters anchored.arena program.top {} anchored.top_parts root
  exact steps.orderly (Entered.orderly_empty _)

/-! ## What stands in a scope -/

/-- What stands in the scope of a tree are parts of the tree. -/
theorem Tree.opens?_parts {t : Tree} {decls : List Decl} (opens : t.opens? = some decls) :
    (decls.map .decl).Sublist t.children := by
  cases t with
  | decl whole =>
    cases whole with
    | var => cases opens
    | cls | interface | prototype =>
      cases opens
      exact List.Sublist.refl _
    | function =>
      cases opens
      exact List.sublist_append_left ..
  | stmt whole =>
    cases whole with
    | block =>
      cases opens
      exact List.sublist_append_left ..
    | ifThen | ifElse | whileLoop | forLoop =>
      cases opens
      exact List.nil_sublist _
    | ret | print | leave | expr | knot => cases opens
  | expr => cases opens

/-- A declaration that is part of a tree stands in the scope of that tree. -/
theorem Tree.decl_part {t : Tree} {d : Decl} (inside : .decl d ∈ t.children) :
    ∃ decls, t.opens? = some decls ∧ d ∈ decls := by
  cases t with
  | decl whole => cases whole <;> simp_all [children, Decl.children, opens?]
  | stmt whole => cases whole <;> simp_all [children, Stmt.children, opens?]
  | expr whole => simp [children] at inside

/-- The declarations that stand directly in the scope of a node. -/
def Program.declared (program : Program) : Node → List Decl
  | .program => program.top
  | node => ((program.arena.tree? node).bind Tree.opens?).getD []

namespace Program.Anchored

variable {program : Program}

theorem declared_tree (anchored : program.Anchored) {t : Tree} (inside : t ∈ program.subtrees)
    {decls : List Decl} (opens : t.opens? = some decls) : program.declared t.node = decls := by
  have stored := anchored.stored_subtrees t inside
  cases t <;> simp_all [declared, Tree.node]

/-- What stands in the scope of a node are parts of a stored tree, or top-level. -/
theorem declared_cases (anchored : program.Anchored) (outer : Node) :
    (outer = .program ∧ program.declared outer = program.top) ∨ program.declared outer = [] ∨
    ∃ t, t.node = outer ∧ program.arena.tree? t.node = some t ∧
      ((program.declared outer).map .decl).Sublist t.children := by
  have below (same : program.declared outer = ((program.arena.tree? outer).bind Tree.opens?).getD []) :
      program.declared outer = [] ∨ ∃ t, t.node = outer ∧ program.arena.tree? t.node = some t ∧
        ((program.declared outer).map .decl).Sublist t.children := by
    rw [same]
    cases opened : (program.arena.tree? outer).bind Tree.opens? with
    | none => exact .inl rfl
    | some decls =>
      obtain ⟨t, stored, opens⟩ := Option.bind_eq_some_iff.mp opened
      have named := anchored.arena.named _ _ stored
      subst named
      exact .inr ⟨t, rfl, stored, Tree.opens?_parts opens⟩
  cases outer with
  | program => exact .inl ⟨rfl, rfl⟩
  | decl | stmt | expr => exact .inr (below rfl)

/-- What stands in the scope of a node has that node for a parent. -/
theorem declared_parts (anchored : program.Anchored) (outer : Node) :
    program.arena.Parts outer ((program.declared outer).map .decl) := by
  rcases anchored.declared_cases outer with ⟨rfl, same⟩ | none | ⟨t, rfl, stored, parts⟩
  · rw [same]
    exact anchored.top_parts
  · rw [none]
    exact List.forall_mem_nil _
  · exact fun part listed => anchored.arena.parts stored part (parts.subset listed)

/-- No declaration stands twice in one scope. -/
theorem declared_single (anchored : program.Anchored) (outer : Node) :
    ((program.declared outer).map Decl.id).Nodup := by
  apply Decl.ids_nodup
  rcases anchored.declared_cases outer with ⟨rfl, same⟩ | none | ⟨t, rfl, stored, parts⟩
  · rw [same]
    exact anchored.single_subtrees.sublist ((Tree.sublist_subtrees _).map _)
  · rw [none]
    exact List.nodup_nil
  · exact (Tree.children_single (anchored.arena.single _ _ stored)).sublist (parts.map _)

/-- A declaration of a program stands in the scope of its parent, which has one. -/
theorem mem_declared (anchored : program.Anchored) {d : Decl}
    (inside : .decl d ∈ program.subtrees) :
    ∃ outer, program.arena.parent? (.decl d.id) = some outer ∧ d ∈ program.declared outer ∧
      (outer = .program ∨ ∃ t ∈ program.subtrees, t.opens?.isSome ∧ t.node = outer) := by
  rcases anchored.parent_cases inside with ⟨link, listed⟩ | ⟨whole, among, part, link⟩
  · obtain ⟨other, member, same⟩ := List.mem_map.mp listed
    cases same
    exact ⟨.program, link, member, .inl rfl⟩
  · obtain ⟨decls, opens, member⟩ := Tree.decl_part part
    refine ⟨whole.node, link, ?_, .inr ⟨whole, among, by rw [opens]; rfl, rfl⟩⟩
    rwa [anchored.declared_tree among opens]

end Program.Anchored

namespace ScopeGraph.Mirrors

variable {graph : ScopeGraph} {program : Program}

/-- A node has one scope. -/
theorem stands_unique (mirrors : graph.Mirrors program) (coherent : program.Coherent) {node : Node}
    {a b : ScopeId} (first : graph.Stands a node) (second : graph.Stands b node) : a = b := by
  have opened := (mirrors.scopeOf_iff coherent).mpr first
  rw [(mirrors.scopeOf_iff coherent).mpr second] at opened
  exact (Option.some.inj opened).symm

/-- The nodes with a scope are the program and its trees that open one. -/
theorem has_scope (mirrors : graph.Mirrors program) (coherent : program.Coherent) (node : Node) :
    (∃ id, graph.Stands id node) ↔
      node = .program ∨ ∃ t ∈ program.subtrees, t.opens?.isSome ∧ t.node = node := by
  constructor
  · rintro ⟨id, scope, there, rfl⟩
    have inside : (scope.owner, scope.entries) ∈ program.regions := by
      rw [← mirrors.regions]
      refine List.mem_iff_getElem?.mpr ⟨id.index, ?_⟩
      rw [regions_getElem?, there]
      rfl
    rcases List.mem_cons.mp inside with same | inside
    · exact .inl (Prod.mk.inj same).1
    · obtain ⟨t, member, opens⟩ := List.mem_filterMap.mp inside
      obtain ⟨decls, opens, same⟩ := Option.map_eq_some_iff.mp opens
      exact .inr ⟨t, member, by rw [opens]; rfl, (Prod.mk.inj same).1⟩
  · rintro (rfl | ⟨t, member, opens, rfl⟩)
    · obtain ⟨scope, there, owner, -⟩ := mirrors.global_scope
      exact ⟨global, scope, there, owner⟩
    · obtain ⟨decls, opens⟩ := Option.isSome_iff_exists.mp opens
      obtain ⟨id, scope, -, there, owner, -⟩ := mirrors.opened coherent member opens
      exact ⟨id, scope, there, owner⟩

/-- The entries of a scope are the declarations that stand in the scope of its owner. -/
theorem entries_declared (mirrors : graph.Mirrors program) (anchored : program.Anchored)
    {id : ScopeId} {scope : Scope} (there : graph.scope? id = some scope) :
    scope.entries = (program.declared scope.owner).map Decl.entry := by
  have coherent := anchored.toCoherent
  rcases (mirrors.has_scope coherent scope.owner).mp ⟨id, scope, there, rfl⟩ with
    own | ⟨t, inside, opens, owner⟩
  · obtain ⟨first, stored, owner, entries⟩ := mirrors.global_scope
    cases mirrors.stands_unique coherent ⟨scope, there, own⟩ ⟨first, stored, owner⟩
    rw [there] at stored
    cases stored
    rw [entries, own]
    rfl
  · obtain ⟨decls, opens⟩ := Option.isSome_iff_exists.mp opens
    rw [mirrors.entries coherent inside opens there owner.symm, ← owner,
      anchored.declared_tree inside opens]

/-- A declaration is entered once, under its name, into the scope of its parent. -/
theorem count_bindings (mirrors : graph.Mirrors program) (anchored : program.Anchored) {d : Decl}
    {outer : Node} (declared : d ∈ program.declared outer) {id : ScopeId} {scope : Scope}
    (there : graph.scope? id = some scope) (name : String) :
    (scope.bindings name).count d.id = if scope.owner = outer ∧ name = d.name then 1 else 0 := by
  have entries := mirrors.entries_declared anchored there
  have listed (id : DeclId) : id ∈ scope.bindings name ↔
      ∃ other ∈ program.declared scope.owner, other.name = name ∧ other.id = id := by
    simp [Scope.bindings, entries, Decl.entry, and_assoc]
  have single : (scope.bindings name).Nodup := by
    have whole := anchored.declared_single scope.owner
    have ids : scope.entries.map Prod.snd = (program.declared scope.owner).map Decl.id := by
      rw [entries, List.map_map]
      rfl
    rw [← ids] at whole
    exact whole.sublist (List.filter_sublist.map _)
  rw [single.count]
  refine if_congr ?_ rfl rfl
  rw [listed]
  have own := anchored.declared_parts outer _ (List.mem_map_of_mem declared)
  constructor
  · rintro ⟨other, member, rfl, same⟩
    have found := anchored.declared_parts scope.owner _ (List.mem_map_of_mem member)
    -- One number is that of one declaration, which has one parent.
    rw [Tree.node, same, ← Tree.node] at found
    have tree := found.1.symm.trans own.1
    cases tree
    have outer_eq := found.2.symm.trans own.2
    exact ⟨Option.some.inj outer_eq, rfl⟩
  · rintro ⟨rfl, rfl⟩
    exact ⟨d, declared, rfl, rfl⟩

end ScopeGraph.Mirrors

/-! ## The scopes of a program -/

/-- The scopes, the owners of declarations and the classes, as the source has them. -/
structure Entered.FollowsSource (entered : Entered) (program : Program) : Prop where
  /-- The nodes with a scope are the program and its classes, interfaces, functions, blocks,
  conditionals and loops. -/
  nodes : ∀ node, (∃ id, entered.graph.scopeOf node = some id) ↔
    node = .program ∨ ∃ t ∈ program.subtrees, t.opens?.isSome ∧ t.node = node
  /-- No two nodes have one scope, and every scope is that of its owner. -/
  injective : ∀ a b id, entered.graph.scopeOf a = some id → entered.graph.scopeOf b = some id → a = b
  owned : ∀ node id, entered.graph.scopeOf node = some id ↔
    ∃ scope, entered.graph.scope? id = some scope ∧ scope.owner = node
  /-- Scopes stand in the scope of the parent, which has a smaller number and is the only one that
  lists them, once. -/
  nested : ∀ node id, node ≠ .program → entered.graph.scopeOf node = some id →
    ∃ outer up scope, program.arena.parent? node = some outer ∧
      entered.graph.scopeOf outer = some up ∧ entered.graph.scope? id = some scope ∧
      scope.parent = some up ∧ up.index < id.index ∧
      ∀ other around, entered.graph.scope? other = some around →
        around.children.count id = if other = up then 1 else 0
  /-- A declaration is bound once, under its own name, in the scope of its parent and nowhere else. -/
  declared : ∀ d, .decl d ∈ program.subtrees → ∃ outer home,
    program.arena.parent? (.decl d.id) = some outer ∧ entered.graph.scopeOf outer = some home ∧
    entered.graph.ownerOf d.id = some home ∧
    ∀ id scope name, entered.graph.scope? id = some scope →
      (scope.bindings name).count d.id = if id = home ∧ name = d.name then 1 else 0
  /-- The classes noted are those of the program, each once and with its scope. -/
  once : (entered.classes.map ClassScope.cls).Nodup
  classes : ∀ cls id, ⟨cls, id⟩ ∈ entered.classes ↔
    (∃ d, .decl d ∈ program.subtrees ∧ d.isClass = true ∧ d.id = cls) ∧
      entered.graph.scopeOf (.decl cls) = some id

/-- Every declaration belongs to the scope that it is entered into. -/
theorem Entered.Orderly.ownerOf {program : Program} {entered : Entered} (anchored : program.Anchored)
    (mirrors : entered.graph.Mirrors program) (orderly : entered.Orderly program.arena) {d : Decl}
    {outer : Node} {home : ScopeId} (declared : d ∈ program.declared outer)
    (stands : entered.graph.Stands home outer) : entered.graph.ownerOf d.id = some home := by
  obtain ⟨scope, there, rfl⟩ := stands
  apply Table.lookup_of_only
  · apply (orderly.owned d.id home).mpr
    refine ⟨scope, there, ?_⟩
    rw [mirrors.entries_declared anchored there, List.map_map]
    exact List.mem_map.mpr ⟨d, declared, rfl⟩
  · intro other listed
    obtain ⟨found, stored, among⟩ := (orderly.owned d.id other).mp listed
    obtain ⟨⟨name, _⟩, entry, rfl⟩ := List.mem_map.mp among
    have bound : d.id ∈ found.bindings name :=
      List.mem_map.mpr ⟨_, List.mem_filter.mpr ⟨entry, by simp⟩, rfl⟩
    have counted := mirrors.count_bindings anchored declared stored name
    have positive := List.count_pos_iff.mpr bound
    by_cases same : found.owner = scope.owner
    · exact mirrors.stands_unique anchored.toCoherent ⟨found, stored, same⟩ ⟨scope, there, rfl⟩
    · rw [counted, if_neg (fun both => same both.1)] at positive
      cases positive

/-- A scope other than the outermost stands in that of the parent of its node, which alone lists it. -/
theorem Entered.Orderly.enclosed {arena : Arena} {entered : Entered} (orderly : entered.Orderly arena)
    {node : Node} (proper : node ≠ .program) {id : ScopeId} (stands : entered.graph.Stands id node) :
    ∃ outer up scope, arena.parent? node = some outer ∧ entered.graph.Stands up outer ∧
      entered.graph.scope? id = some scope ∧ scope.parent = some up ∧ up.index < id.index ∧
      ∀ other around, entered.graph.scope? other = some around →
        around.children.count id = if other = up then 1 else 0 := by
  obtain ⟨scope, there, rfl⟩ := stands
  have listed : entered.graph.parents[id.index]? = some (scope.owner, scope.parent) := by
    rw [ScopeGraph.parents_getElem?, there]
    rfl
  rcases orderly.nested _ _ _ listed with ⟨root, -⟩ | ⟨up, outer, inside, lower, above, link⟩
  · exact absurd root proper
  · refine ⟨outer, up, scope, link, above, there, inside, lower, ?_⟩
    intro other around found
    rw [orderly.listed other around found id, there, Option.any_some, inside]
    by_cases same : other = up
    · simp [same]
    · have apart : (some up == some other) = false := by simpa using Ne.symm same
      simp [same, apart]

/-- A stored class with a scope is a class of the program, and a class of the program is stored. -/
theorem ScopeGraph.Mirrors.stored_class {graph : ScopeGraph} {program : Program}
    (mirrors : graph.Mirrors program) (anchored : program.Anchored) {cls : DeclId} {id : ScopeId}
    (stands : graph.Stands id (.decl cls)) :
    (∃ d, program.arena.decl? cls = some d ∧ d.isClass = true) ↔
      ∃ d, .decl d ∈ program.subtrees ∧ d.isClass = true ∧ d.id = cls := by
  constructor
  · rintro ⟨d, stored, isClass⟩
    rcases (mirrors.has_scope anchored.toCoherent _).mp ⟨id, stands⟩ with same | ⟨t, inside, -, node⟩
    · cases same
    · have found := anchored.stored_subtrees t inside
      rw [node, Arena.tree?, stored] at found
      cases found
      cases node
      exact ⟨d, inside, isClass, rfl⟩
  · rintro ⟨d, inside, isClass, rfl⟩
    have stored := anchored.stored_subtrees _ inside
    exact ⟨d, by simpa [Arena.tree?, Tree.node] using stored, isClass⟩

/-- The scopes of a program follow its source. Every class, interface, function, block, conditional and
loop has a scope of its own inside the scope of its parent, every declaration is entered once, into the
scope of its parent, and every class is noted once, with its scope. -/
theorem Program.scopes_follow_source {program : Program} (built : program.Built) :
    program.entered.FollowsSource program := by
  have anchored := built.anchored
  have coherent := anchored.toCoherent
  have mirrors := ScopeGraph.entered_mirrors program
  have orderly := anchored.entered_orderly
  have stands {node : Node} {id : ScopeId} :
      program.entered.graph.scopeOf node = some id ↔ program.entered.graph.Stands id node :=
    mirrors.scopeOf_iff coherent
  constructor
  case nodes =>
    intro node
    rw [← mirrors.has_scope coherent]
    exact exists_congr fun id => stands
  case injective =>
    intro a b id first second
    exact (stands.mp first).node_unique (stands.mp second)
  case owned => exact fun node id => stands
  case nested =>
    intro node id proper opened
    obtain ⟨outer, up, scope, link, above, inside⟩ := orderly.enclosed proper (stands.mp opened)
    exact ⟨outer, up, scope, link, stands.mpr above, inside⟩
  case declared =>
    intro d member
    obtain ⟨outer, link, declared, around⟩ := anchored.mem_declared member
    obtain ⟨home, above⟩ := (mirrors.has_scope coherent outer).mpr around
    refine ⟨outer, home, link, stands.mpr above, orderly.ownerOf anchored mirrors declared above, ?_⟩
    intro id scope name there
    rw [mirrors.count_bindings anchored declared there]
    refine if_congr (and_congr_left fun _ => ⟨fun owner => ?_, fun same => ?_⟩) rfl rfl
    · exact mirrors.stands_unique coherent ⟨scope, there, owner⟩ above
    · subst same
      exact ScopeGraph.Stands.node_unique ⟨scope, there, rfl⟩ above
  case once =>
    refine (List.nodup_map_iff_inj_on orderly.once).mpr ?_
    rintro ⟨cls, a⟩ first ⟨cls', b⟩ second same
    cases same
    rw [mirrors.stands_unique coherent ((orderly.noted cls a).mp first).2
      ((orderly.noted cls b).mp second).2]
  case classes =>
    intro cls id
    rw [orderly.noted cls id, stands]
    exact and_congr_left fun above => mirrors.stored_class anchored above

/-- An interface, and a class whose method declares a variable of the name of a field and loops. -/
def Entered.classWithLoop : List Step :=
  let word (name : String) : Ident := ⟨name, default⟩
  [ .var (word "x") (.primitive .int),
    .block [] [] default, .bool true default, .whileLoop ⟨0⟩ ⟨0⟩ default,
    .var (word "x") (.primitive .bool), .block [⟨1⟩] [⟨1⟩] default,
    .function (word "run") (.primitive .void) [] (some ⟨2⟩),
    .cls (word "Class") none [] [⟨0⟩, ⟨2⟩],
    .function (word "run") (.primitive .void) [] none, .interface (word "Runs") [⟨4⟩] ]

theorem Program.scopes_follow_class_with_loop :
    ∃ program, Program.assemble Entered.classWithLoop [⟨5⟩, ⟨3⟩] = some program ∧
      program.entered.FollowsSource program ∧
      program.entered.graph.scopeOf (.stmt ⟨2⟩) = some ⟨5⟩ ∧
      program.entered.graph.scopeOf (.stmt ⟨1⟩) = some ⟨6⟩ ∧
      program.entered.graph.ownerOf ⟨1⟩ = some ⟨5⟩ ∧ program.entered.classes = [⟨⟨3⟩, ⟨3⟩⟩] := by
  have run : (Program.assemble Entered.classWithLoop [⟨5⟩, ⟨3⟩]).map (fun program =>
      (program.entered.graph.scopeOf (.stmt ⟨2⟩), program.entered.graph.scopeOf (.stmt ⟨1⟩),
        program.entered.graph.ownerOf ⟨1⟩, program.entered.classes)) =
      some (some ⟨5⟩, some ⟨6⟩, some ⟨5⟩, [⟨⟨3⟩, ⟨3⟩⟩]) := by
    decide +kernel
  obtain ⟨program, made, facts⟩ := Option.map_eq_some_iff.mp run
  simp only [Prod.mk.injEq] at facts
  exact ⟨program, made, Program.scopes_follow_source (Program.built_of_assemble made), facts⟩

end DecafTac
