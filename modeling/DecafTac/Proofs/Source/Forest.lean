import Mathlib.Data.List.Nodup
import DecafTac.Proofs.Source.Assembly

/-!
In a built arena the stored trees and the parent links tell the same story: the parts of a stored tree
are stored under their own numbers, the parent of each is the tree it is part of, and no node occurs
twice in one tree. The nearest loop around a statement, found by its links, is therefore the innermost
loop that contains it.
-/
namespace DecafTac

namespace Arena

/-! ## Trees and links agree -/

/-- Stored trees and parent links that tell the same story. -/
structure Coherent (arena : Arena) : Prop where
  named : arena.Named
  /-- The parts of a stored tree are stored. -/
  closed : ∀ n t, arena.tree? n = some t → ∀ c ∈ t.children, arena.tree? c.node = some c
  /-- The parent of a part is the tree it is part of. -/
  linked : ∀ n t, arena.tree? n = some t → ∀ c ∈ t.children, arena.parent? c.node = some n
  /-- No node occurs twice in a stored tree. -/
  single : ∀ n t, arena.tree? n = some t → t.nodes.Nodup
  /-- Parents come after their children in some order of as many places as there are nodes. -/
  ranked : ∃ rank : Node → Nat, ∀ c n, arena.parent? c = some n → rank c < rank n ∧ rank n ≤ arena.size

/-- A coherent arena whose nodes with no parent are roots of separate trees. -/
structure Forest (arena : Arena) : Prop extends Coherent arena where
  within : ∀ n t, arena.tree? n = some t → ∀ m ∈ t.nodes, (arena.tree? m).isSome
  apart : ∀ n t m u, arena.tree? n = some t → arena.tree? m = some u → n ≠ m →
    arena.parent? n = none → arena.parent? m = none → t.nodes.Disjoint u.nodes
  claimed : ∀ c n, arena.parent? c = some n → (arena.tree? c).isSome ∧ (arena.tree? n).isSome
  aged : ∃ age : Node → Nat, (∀ n t, arena.tree? n = some t → age n < arena.size) ∧
    ∀ c n, arena.parent? c = some n → age c < age n

theorem forest_empty : Forest {} := by
  have none : ∀ n, ({} : Arena).tree? n = none := by
    intro n
    cases n <;> simp [tree?, decl?, stmt?, expr?]
  have alone : ∀ n, ({} : Arena).parent? n = .none := by
    intro n
    cases n <;> simp [parent?]
  exact {
    named := by simp [Named, none]
    closed := by simp [none]
    linked := by simp [none]
    single := by simp [none]
    ranked := ⟨fun _ => 0, by simp [alone]⟩
    within := by simp [none]
    apart := by simp [none]
    claimed := by simp [alone]
    aged := ⟨fun _ => 0, by simp [none], by simp [alone]⟩ }

/-- A tree that was stored before is stored still, and its parts kept their links. -/
theorem Grows.kept {arena grown : Arena} {made : Tree} (grows : arena.Grows made grown) {n : Node}
    {t : Tree} (stored : arena.tree? n = some t) : grown.tree? n = some t := by
  rw [grows.tree, if_neg, stored]
  rintro rfl
  rw [grows.fresh] at stored
  cases stored

/-- A stored tree is an old one or the one just made. -/
theorem Grows.cases {arena grown : Arena} {made : Tree} (grows : arena.Grows made grown) {n : Node}
    {t : Tree} (stored : grown.tree? n = some t) :
    (n = made.node ∧ t = made) ∨ (n ≠ made.node ∧ arena.tree? n = some t) := by
  rw [grows.tree] at stored
  split at stored
  · rename_i new
    cases stored
    exact .inl ⟨new, rfl⟩
  · rename_i old
    exact .inr ⟨old, stored⟩

theorem Grows.linked {arena grown : Arena} {made : Tree} (grows : arena.Grows made grown) {c n : Node}
    (link : grown.parent? c = some n) :
    (c ∈ made.children.map Tree.node ∧ n = made.node) ∨
      (c ∉ made.children.map Tree.node ∧ arena.parent? c = some n) := by
  rw [grows.parent] at link
  split at link
  · rename_i part
    cases link
    exact .inl ⟨part, rfl⟩
  · rename_i other
    exact .inr ⟨other, link⟩

/-- Ready trees stand apart from one another, so together they repeat no node. -/
theorem Forest.ready_single {arena : Arena} (forest : arena.Forest) {parts : List Tree}
    (stored : ∀ part ∈ parts, arena.tree? part.node = some part)
    (ready : arena.Ready (parts.map Tree.node)) : (parts.flatMap Tree.nodes).Nodup := by
  rw [List.nodup_flatMap]
  refine ⟨fun part inside => forest.single _ _ (stored part inside), ?_⟩
  have distinct : parts.Pairwise fun a b => a.node ≠ b.node := List.pairwise_map.mp ready.distinct
  refine (List.Pairwise.and_mem.mp distinct).imp ?_
  rintro a b ⟨first, second, different⟩
  exact forest.apart _ _ _ _ (stored a first) (stored b second) different
    (ready.unclaimed _ (List.mem_map_of_mem first)) (ready.unclaimed _ (List.mem_map_of_mem second))

section Step

variable {arena grown : Arena} {made : Tree}

private theorem grown_aged (forest : arena.Forest) (grows : arena.Grows made grown)
    (ready : arena.Ready (made.children.map Tree.node)) :
    ∃ age : Node → Nat, (∀ n t, grown.tree? n = some t → age n < grown.size) ∧
      ∀ c n, grown.parent? c = some n → age c < age n := by
  obtain ⟨age, young, older⟩ := forest.aged
  refine ⟨fun n => if n = made.node then arena.size else age n, ?_, ?_⟩
  · intro n t stored
    rw [grows.size]
    rcases grows.cases stored with ⟨rfl, -⟩ | ⟨old, stored⟩
    · simp
    · have := young n t stored
      simp only [old, if_false]
      omega
  · intro c n link
    have oldChild : c ≠ made.node := by
      rintro rfl
      rcases grows.linked link with ⟨part, -⟩ | ⟨-, link⟩
      · have := ready.stored _ part
        rw [grows.fresh] at this
        cases this
      · rw [grows.orphan] at link
        cases link
    rcases grows.linked link with ⟨part, rfl⟩ | ⟨-, link⟩
    · obtain ⟨t, stored⟩ := Option.isSome_iff_exists.mp (ready.stored c part)
      simpa [oldChild] using young c t stored
    · have oldParent : n ≠ made.node := by
        rintro rfl
        have := (forest.claimed c _ link).2
        rw [grows.fresh] at this
        cases this
      simpa [oldChild, oldParent] using older c n link

private theorem made_single (forest : arena.Forest) (grows : arena.Grows made grown)
    (ready : arena.Ready (made.children.map Tree.node)) : made.nodes.Nodup := by
  rw [Tree.nodes_eq, List.nodup_cons]
  refine ⟨?_, forest.ready_single grows.parts ready⟩
  intro member
  obtain ⟨part, inside, member⟩ := List.mem_flatMap.mp member
  have stored := forest.within _ _ (grows.parts part inside) _ member
  rw [grows.fresh] at stored
  cases stored

private theorem made_apart (forest : arena.Forest) (grows : arena.Grows made grown)
    (ready : arena.Ready (made.children.map Tree.node)) {n : Node} {t : Tree}
    (stored : arena.tree? n = some t) (other : n ∉ made.children.map Tree.node)
    (root : arena.parent? n = none) : made.nodes.Disjoint t.nodes := by
  intro m new old
  rw [Tree.nodes_eq] at new
  rcases List.mem_cons.mp new with rfl | new
  · have := forest.within n t stored _ old
    rw [grows.fresh] at this
    cases this
  · obtain ⟨part, member, new⟩ := List.mem_flatMap.mp new
    refine forest.apart _ _ n t (grows.parts part member) stored ?_
      (ready.unclaimed _ (List.mem_map_of_mem member)) root new old
    rintro rfl
    exact other (List.mem_map_of_mem member)

private theorem grown_apart (forest : arena.Forest) (grows : arena.Grows made grown)
    (ready : arena.Ready (made.children.map Tree.node)) {n m : Node} {t u : Tree}
    (first : grown.tree? n = some t) (second : grown.tree? m = some u) (different : n ≠ m)
    (rootN : grown.parent? n = none) (rootM : grown.parent? m = none) :
    t.nodes.Disjoint u.nodes := by
  -- A root of the grown arena is no part of the new tree, so it was a root before.
  have before : ∀ r, grown.parent? r = none →
      r ∉ made.children.map Tree.node ∧ arena.parent? r = none := by
    intro r root
    rw [grows.parent] at root
    split at root
    · cases root
    · rename_i other
      exact ⟨other, root⟩
  obtain ⟨otherN, rootN⟩ := before n rootN
  obtain ⟨otherM, rootM⟩ := before m rootM
  rcases grows.cases first with ⟨rfl, rfl⟩ | ⟨oldN, first⟩
  · rcases grows.cases second with ⟨rfl, -⟩ | ⟨-, second⟩
    · exact absurd rfl different
    · exact made_apart forest grows ready second otherM rootM
  · rcases grows.cases second with ⟨rfl, rfl⟩ | ⟨-, second⟩
    · exact fun x new old => made_apart forest grows ready first otherN rootN old new
    · exact forest.apart n t m u first second different rootN rootM

/-- One ready step keeps an arena a forest: what was there keeps its tree, and the new tree joins roots
that stood apart. -/
theorem Grows.forest (grows : arena.Grows made grown) (forest : arena.Forest)
    (ready : arena.Ready (made.children.map Tree.node)) : grown.Forest := by
  have stays : ∀ m, (arena.tree? m).isSome → (grown.tree? m).isSome := by
    intro m stored
    obtain ⟨t, found⟩ := Option.isSome_iff_exists.mp stored
    rw [grows.kept found]
    rfl
  have claimed : ∀ c n, grown.parent? c = some n → (grown.tree? c).isSome ∧ (grown.tree? n).isSome := by
    intro c n link
    rcases grows.linked link with ⟨part, rfl⟩ | ⟨-, link⟩
    · refine ⟨stays c (ready.stored c part), ?_⟩
      rw [grows.tree, if_pos rfl]
      rfl
    · exact ⟨stays c (forest.claimed c n link).1, stays n (forest.claimed c n link).2⟩
  have aged := grown_aged forest grows ready
  refine { named := ?_, closed := ?_, linked := ?_, single := ?_, ranked := ?_, within := ?_,
           apart := fun _ _ _ _ => grown_apart forest grows ready, claimed := claimed, aged := aged }
  · intro n t stored
    rcases grows.cases stored with ⟨rfl, rfl⟩ | ⟨-, stored⟩
    · rfl
    · exact forest.named n t stored
  · intro n t stored c part
    rcases grows.cases stored with ⟨rfl, rfl⟩ | ⟨-, stored⟩
    · exact grows.kept (grows.parts c part)
    · exact grows.kept (forest.closed n t stored c part)
  · intro n t stored c part
    rw [grows.parent]
    rcases grows.cases stored with ⟨rfl, rfl⟩ | ⟨-, stored⟩
    · rw [if_pos (List.mem_map_of_mem part)]
    · have link := forest.linked n t stored c part
      rw [if_neg, link]
      intro taken
      rw [ready.unclaimed _ taken] at link
      cases link
  · intro n t stored
    rcases grows.cases stored with ⟨rfl, rfl⟩ | ⟨-, stored⟩
    · exact made_single forest grows ready
    · exact forest.single n t stored
  · obtain ⟨age, young, older⟩ := aged
    refine ⟨age, fun c n link => ⟨older c n link, ?_⟩⟩
    obtain ⟨t, stored⟩ := Option.isSome_iff_exists.mp (claimed c n link).2
    exact Nat.le_of_lt (young n t stored)
  · intro n t stored m member
    rcases grows.cases stored with ⟨rfl, rfl⟩ | ⟨-, stored⟩
    · rw [Tree.nodes_eq] at member
      rcases List.mem_cons.mp member with rfl | member
      · rw [stored]
        rfl
      · obtain ⟨part, inside, member⟩ := List.mem_flatMap.mp member
        exact stays m (forest.within _ _ (grows.parts part inside) m member)
    · exact stays m (forest.within n t stored m member)

end Step

/-- Every built arena is a forest. -/
theorem Built.forest {arena : Arena} (built : arena.Built) : arena.Forest := by
  induction built with
  | empty => exact forest_empty
  | step _ ready added ih =>
    obtain ⟨made, grows, listed⟩ := add_grows ih.named ready added
    exact grows.forest ih (listed ▸ ready)

/-! ## The nearest loop -/

/-- Once the limit covers the nodes above, a greater one finds no more ancestors. -/
private theorem climb_succ {arena : Arena} {rank : Node → Nat}
    (ranked : ∀ c n, arena.parent? c = some n → rank c < rank n ∧ rank n ≤ arena.size) (limit : Nat)
    (n : Node) (enough : arena.size ≤ limit + rank n) :
    arena.climb (limit + 1) n = arena.climb limit n := by
  induction limit generalizing n with
  | zero =>
    cases link : arena.parent? n with
    | none => simp [climb, link]
    | some parent =>
      have := ranked n parent link
      omega
  | succ limit ih =>
    cases link : arena.parent? n with
    | none => simp [climb, link]
    | some parent =>
      have := ranked n parent link
      rw [climb, climb]
      simp only [link]
      rw [ih parent (by omega)]

/-- The ancestors of a node are its parent and the ancestors of its parent. -/
theorem Coherent.ancestors_eq {arena : Arena} (coherent : arena.Coherent) (n : Node) :
    arena.ancestors n = match arena.parent? n with
      | none => []
      | some parent => parent :: arena.ancestors parent := by
  obtain ⟨rank, ranked⟩ := coherent.ranked
  cases link : arena.parent? n with
  | none => simp [ancestors, climb, link]
  | some parent =>
    simp only [ancestors, climb, link]
    rw [← climb_succ ranked arena.size parent (by omega)]
    simp only [climb]

/-- A tree around a part is the part itself or lies around the tree whose part it is. -/
theorem Coherent.subtrees_parent {arena : Arena} (coherent : arena.Coherent) {t part : Tree}
    (stored : arena.tree? t.node = some t) (inside : part ∈ t.children) (whole : Tree)
    (kept : arena.tree? whole.node = some whole) (within : part ∈ whole.subtrees) :
    part = whole ∨ t ∈ whole.subtrees := by
  induction whole using Tree.induction with
  | step whole ih =>
    rw [Tree.subtrees_eq] at within
    rcases List.mem_cons.mp within with same | within
    · exact .inl same
    · obtain ⟨child, below, within⟩ := List.mem_flatMap.mp within
      refine .inr ?_
      rcases ih child below (coherent.closed _ _ kept _ below) within with rfl | around
      · -- the part has one parent, so the two trees it is a part of are the same
        have link := coherent.linked _ _ stored _ inside
        rw [coherent.linked _ _ kept _ below] at link
        have same : whole.node = t.node := Option.some.inj link
        rw [same, stored] at kept
        cases kept
        exact Tree.self_mem_subtrees _
      · exact Tree.part_subtrees below around

/-- The nearest loop around a part of a statement is that statement, if it is a loop, and the nearest
loop around it if it is not. -/
theorem Coherent.enclosingLoop_part {arena : Arena} (coherent : arena.Coherent) {s part : Stmt}
    (stored : arena.stmt? s.id = some s) (inside : .stmt part ∈ s.children) :
    arena.enclosingLoop (.stmt part.id) =
      if s.isLoop then some s.id else arena.enclosingLoop (.stmt s.id) := by
  have found : arena.tree? (.stmt s.id) = some (.stmt s) := by simp [tree?, stored]
  have link : arena.parent? (.stmt part.id) = some (.stmt s.id) := coherent.linked _ _ found _ inside
  have above : arena.ancestors (.stmt part.id) = .stmt s.id :: arena.ancestors (.stmt s.id) := by
    rw [coherent.ancestors_eq, link]
  have inner : isInner (.stmt s.id) = true := rfl
  rw [enclosingLoop, enclosingLoop, above, List.takeWhile_cons_of_pos inner, List.findSome?_cons]
  by_cases loop : s.isLoop = true <;> simp [loopAt, stored, loop]

end Arena

/-- A closed program whose stored trees, parent links and top-level declarations agree. -/
structure Program.Coherent (program : Program) : Prop where
  arena : program.arena.Coherent
  stored : ∀ d ∈ program.top, program.arena.decl? d.id = some d
  /-- No node occurs twice in the program. -/
  single : (Decl.nodesAll program.top).Nodup

/-- Closing a forest over ready declarations gives a coherent program. -/
theorem Arena.Forest.close {arena : Arena} {program : Program} {top : List DeclId}
    (forest : arena.Forest) (ready : arena.Ready (top.map .decl))
    (closed : arena.close top = .ok program) : program.Coherent := by
  obtain ⟨trees, found, closed⟩ := Arena.bind_ok closed
  cases closed
  have finds : arena.Finds (top.map .decl) (trees.map .decl) :=
    Arena.mapM_found (fun _ _ => Arena.decl_found) found
  have parts := finds.parts forest.named
  have listed := finds.nodes forest.named
  have tree : ∀ n, (arena.adoptAll .program (top.map .decl)).tree? n = arena.tree? n :=
    arena.tree?_adoptAll .program _
  have parent : ∀ n, (arena.adoptAll .program (top.map .decl)).parent? n =
      if n ∈ top.map .decl then some .program else arena.parent? n :=
    fun n => Arena.parent?_adoptAll .program n ready.stored
  refine ⟨{ named := ?_, closed := ?_, linked := ?_, single := ?_, ranked := ?_ }, ?_, ?_⟩
  · intro n t stored
    exact forest.named n t (tree n ▸ stored)
  · intro n t stored c part
    rw [tree] at stored ⊢
    exact forest.closed n t stored c part
  · intro n t stored c part
    rw [tree] at stored
    have link := forest.linked n t stored c part
    rw [parent, if_neg, link]
    intro taken
    rw [ready.unclaimed _ taken] at link
    cases link
  · intro n t stored
    exact forest.single n t (tree n ▸ stored)
  · obtain ⟨age, young, older⟩ := forest.aged
    refine ⟨fun n => if n = .program then arena.size else age n, ?_⟩
    intro c n link
    rw [parent] at link
    rw [Arena.size_adoptAll]
    split at link
    · rename_i chosen
      cases link
      obtain ⟨t, stored⟩ := Option.isSome_iff_exists.mp (ready.stored c chosen)
      have proper : c ≠ .program := by
        rintro rfl
        cases stored
      simpa [proper] using young c t stored
    · have proper : c ≠ .program := by
        rintro rfl
        cases link
      obtain ⟨t, stored⟩ := Option.isSome_iff_exists.mp (forest.claimed c n link).2
      have inner : n ≠ .program := by
        rintro rfl
        cases stored
      have := young n t stored
      have := older c n link
      simp only [proper, inner, if_false]
      omega
  · intro d member
    have stored := parts (.decl d) (List.mem_map_of_mem member)
    rw [← tree] at stored
    simpa [Arena.tree?, Tree.node] using stored
  · rw [← Tree.flatMap_nodes_decls]
    exact forest.ready_single parts (listed ▸ ready)

/-- Every built program is coherent. -/
theorem Program.Built.coherent {program : Program} (built : program.Built) : program.Coherent := by
  obtain ⟨arena, top, built, ready, closed⟩ := built
  exact built.forest.close ready closed

/-- All trees of a program. -/
def Program.subtrees (program : Program) : List Tree :=
  (program.top.map .decl).flatMap Tree.subtrees

namespace Program.Coherent

variable {program : Program}

/-- The trees of a program are stored. -/
theorem stored_subtrees (coherent : program.Coherent) :
    ∀ t ∈ program.subtrees, program.arena.tree? t.node = some t := by
  intro t member
  obtain ⟨root, listed, member⟩ := List.mem_flatMap.mp member
  obtain ⟨d, top, rfl⟩ := List.mem_map.mp listed
  have stored : program.arena.tree? (Tree.decl d).node = some (.decl d) := by
    simp [Arena.tree?, Tree.node, coherent.stored d top]
  exact Tree.subtrees_all (fun t stored => coherent.arena.closed t.node t stored) stored t member

/-- No two trees of a program have one node. -/
theorem single_subtrees (coherent : program.Coherent) : (program.subtrees.map Tree.node).Nodup := by
  have nodes : program.subtrees.map Tree.node = Decl.nodesAll program.top := by
    have same : Tree.nodes = fun t => t.subtrees.map Tree.node := funext Tree.nodes_eq_map
    rw [Program.subtrees, List.map_flatMap, ← Tree.flatMap_nodes_decls, same]
  rw [nodes]
  exact coherent.single

end Program.Coherent

end DecafTac
