import Mathlib.Data.List.Chain
import Mathlib.Logic.Relation
import DecafTac.Proofs.Source.Forest

/-!
Parent links against children. A list of steps is orderly when each step takes as children nodes that
earlier steps made, and no node is taken twice, be it by a step or as a top-level declaration. Orderly
steps never fail, and in the program they make the parent links say exactly what the children say. A
walk along the links therefore climbs to nodes that were made later and later, ends, and ends at the
program for the nodes below it and for no others.
-/
namespace DecafTac

/-! ## Orderly steps -/

/-- The nodes that steps make, in order. -/
def Tally.nodes (tally : Tally) : List Step → List Node
  | [] => []
  | step :: rest => tally.next step :: (tally.count (tally.next step)).nodes rest

/-- The nodes that steps make from nothing, in order. -/
def Step.nodes (steps : List Step) : List Node := Tally.nodes {} steps

/-- Steps that take what earlier steps made, closed over declarations that they made, with no node
taken twice. -/
structure Step.Orderly (steps : List Step) (top : List DeclId) : Prop where
  earlier : ∀ i (below : i < steps.length), ∀ c ∈ steps[i].children, c ∈ (Step.nodes steps).take i
  listed : ∀ id ∈ top, .decl id ∈ Step.nodes steps
  once : (steps.flatMap Step.children ++ top.map Node.decl).Nodup

/-- Takes steps in order and gives the nodes that they made. -/
def Arena.make (arena : Arena) : List Step → Except Dangling (List Node × Arena)
  | [] => .ok ([], arena)
  | step :: rest => do
    let (node, grown) ← arena.add step
    let (nodes, final) ← grown.make rest
    return (node :: nodes, final)

/-- The children of a node: the top-level declarations of the program, and the parts of a tree in the
order of their positions. -/
def Program.childNodes (program : Program) : Node → List Node
  | .program => program.top.map (.decl ·.id)
  | n => ((program.arena.tree? n).map fun t => t.children.map Tree.node).getD []

namespace Arena

/-! ## What a run of steps leaves -/

/-- An arena that holds what the given steps made, under the given nodes, and nothing else. -/
structure Holds (arena : Arena) (steps : List Step) (nodes : List Node) : Prop where
  forest : arena.Forest
  stored : ∀ n, (arena.tree? n).isSome ↔ n ∈ nodes
  distinct : nodes.Nodup
  parts : List.Forall₂ (fun step n =>
    ∃ t, arena.tree? n = some t ∧ t.children.map Tree.node = step.children) steps nodes
  taken : ∀ c p, arena.parent? c = some p → c ∈ steps.flatMap Step.children
  child : ∀ c p, arena.parent? c = some p → ∃ t, arena.tree? p = some t ∧ c ∈ t.children.map Tree.node
  older : ∀ c p, arena.parent? c = some p → [c, p].Sublist nodes

theorem holds_empty : Holds {} [] [] := by
  have alone : ∀ n, ({} : Arena).parent? n = none := by
    intro n
    cases n <;> simp [parent?]
  exact {
    forest := forest_empty
    stored := by
      intro n
      cases n <;> simp [tree?, decl?, stmt?, expr?]
    distinct := .nil
    parts := .nil
    taken := by simp [alone]
    child := by simp [alone]
    older := by simp [alone] }

section Step

variable {arena grown : Arena} {steps : List Step} {nodes : List Node} {next : Step}
  {made : Tree}

/-- Children that were made before and were not taken before are ready. -/
theorem Holds.ready (holds : arena.Holds steps nodes) {children : List Node}
    (earlier : ∀ c ∈ children, c ∈ nodes) (once : (steps.flatMap Step.children ++ children).Nodup) :
    arena.Ready children := by
  obtain ⟨-, distinct, apart⟩ := List.nodup_append.mp once
  refine ⟨fun c member => (holds.stored c).mpr (earlier c member), ?_, distinct⟩
  intro c member
  cases link : arena.parent? c with
  | none => rfl
  | some p => exact absurd rfl (apart c (holds.taken c p link) c member)

/-- One more step adds its node behind the others and links its children to it. -/
theorem Holds.step (holds : arena.Holds steps nodes) (ready : arena.Ready next.children)
    (makes : arena.Makes next made grown) : grown.Holds (steps ++ [next]) (nodes ++ [made.node]) := by
  have fresh : made.node ∉ nodes := by
    rw [← holds.stored, makes.fresh]
    simp
  refine {
    forest := makes.forest holds.forest (makes.listed ▸ ready)
    stored := ?_, distinct := ?_, parts := ?_, taken := ?_, child := ?_, older := ?_ }
  · intro n
    rw [makes.tree, List.mem_append, List.mem_singleton, ← holds.stored]
    by_cases new : n = made.node <;> simp [new]
  · exact List.nodup_append.mpr ⟨holds.distinct, List.nodup_singleton _, by
      rintro a old b new rfl
      exact fresh (List.mem_singleton.mp new ▸ old)⟩
  · refine List.rel_append (holds.parts.imp ?_) (.cons ⟨made, ?_, makes.listed⟩ .nil)
    · rintro other n ⟨t, stored, listed⟩
      exact ⟨t, makes.kept stored, listed⟩
    · rw [makes.tree, if_pos rfl]
  · intro c p link
    rw [List.flatMap_append, List.mem_append]
    rcases makes.linked link with ⟨part, -⟩ | ⟨-, link⟩
    · exact .inr (by simpa [makes.listed] using part)
    · exact .inl (holds.taken c p link)
  · intro c p link
    rcases makes.linked link with ⟨part, rfl⟩ | ⟨-, link⟩
    · exact ⟨made, by rw [makes.tree, if_pos rfl], part⟩
    · obtain ⟨t, stored, part⟩ := holds.child c p link
      exact ⟨t, makes.kept stored, part⟩
  · intro c p link
    rcases makes.linked link with ⟨part, rfl⟩ | ⟨-, link⟩
    · have old : c ∈ nodes := (holds.stored c).mp (ready.stored c (makes.listed ▸ part))
      exact (List.singleton_sublist.mpr old).append (.refl [made.node])
    · exact (holds.older c p link).trans (List.sublist_append_left _ _)

end Step

/-- Orderly steps all succeed, and the arena then holds what they made. -/
theorem Holds.run {arena : Arena} {before rest : List Step} {nodes : List Node}
    (holds : arena.Holds before nodes)
    (earlier : ∀ i (below : i < rest.length), ∀ c ∈ rest[i].children,
      c ∈ nodes ++ (arena.tally.nodes rest).take i)
    (once : ((before ++ rest).flatMap Step.children).Nodup) :
    ∃ final, arena.make rest = .ok (arena.tally.nodes rest, final) ∧
      final.Holds (before ++ rest) (nodes ++ arena.tally.nodes rest) := by
  induction rest generalizing arena before nodes with
  | nil => exact ⟨arena, rfl, by simpa [Tally.nodes] using holds⟩
  | cons step rest ih =>
    have ready : arena.Ready step.children := by
      refine holds.ready (fun c member => ?_) ?_
      · simpa using earlier 0 (by simp) c member
      · rw [List.flatMap_append, List.flatMap_cons, ← List.append_assoc] at once
        exact once.of_append_left
    obtain ⟨made, grown, makes⟩ := add_makes holds.forest.named ready.stored
    have next : grown.tally.nodes rest = (arena.tally.count (arena.tally.next step)).nodes rest := by
      rw [makes.counted, makes.next]
    have later : ∀ i (below : i < rest.length), ∀ c ∈ rest[i].children,
        c ∈ (nodes ++ [made.node]) ++ (grown.tally.nodes rest).take i := by
      intro i below c member
      have old := earlier (i + 1) (Nat.succ_lt_succ below) c member
      rw [Tally.nodes, List.take_succ_cons, ← next, ← makes.next] at old
      rwa [List.append_assoc]
    obtain ⟨final, ran, held⟩ := ih (holds.step ready makes) later (by rwa [List.append_assoc])
    refine ⟨final, ?_, ?_⟩
    · rw [make, makes.added, Tally.nodes, ← next, ← makes.next]
      simp only [bind, Except.bind, ran]
      rfl
    · rw [Tally.nodes, ← next, ← makes.next]
      simpa [List.append_assoc] using held

/-! ## Walks along the links -/

/-- What holds of a node as soon as it holds of its parent holds of every node. -/
theorem Coherent.climbing {arena : Arena} (coherent : arena.Coherent) {holds : Node → Prop}
    (step : ∀ n, (∀ p, arena.parent? n = some p → holds p) → holds n) (n : Node) : holds n := by
  obtain ⟨rank, ranked⟩ := coherent.ranked
  -- the walk climbs in rank, and no parent has a rank above the number of nodes
  generalize left : arena.size - rank n = measure
  induction measure using Nat.strongRecOn generalizing n with
  | _ measure ih =>
    refine step n fun p link => ih (arena.size - rank p) ?_ p rfl
    have := ranked n p link
    omega

theorem Coherent.ancestors_of_parent {arena : Arena} (coherent : arena.Coherent) {n p : Node}
    (link : arena.parent? n = some p) : arena.ancestors n = p :: arena.ancestors p := by
  rw [coherent.ancestors_eq, link]

theorem Coherent.ancestors_of_root {arena : Arena} (coherent : arena.Coherent) {n : Node}
    (root : arena.parent? n = none) : arena.ancestors n = [] := by
  rw [coherent.ancestors_eq, root]

/-- The walk goes from node to parent. -/
theorem Coherent.ancestors_chain {arena : Arena} (coherent : arena.Coherent) (n : Node) :
    (n :: arena.ancestors n).IsChain fun a b => arena.parent? a = some b := by
  induction n using coherent.climbing with
  | step n ih =>
    cases link : arena.parent? n with
    | none =>
      rw [coherent.ancestors_of_root link]
      exact .singleton n
    | some p =>
      rw [coherent.ancestors_of_parent link]
      exact .cons_cons link (ih p link)

/-- The walk is not cut short: its last node has no parent. -/
theorem Coherent.ancestors_end {arena : Arena} (coherent : arena.Coherent) (n : Node) :
    arena.parent? ((arena.ancestors n).getLastD n) = none := by
  induction n using coherent.climbing with
  | step n ih =>
    cases link : arena.parent? n with
    | none =>
      rw [coherent.ancestors_of_root link]
      exact link
    | some p =>
      rw [coherent.ancestors_of_parent link, List.getLastD_cons]
      exact ih p link

/-- The walk repeats no node. -/
theorem Coherent.ancestors_nodup {arena : Arena} (coherent : arena.Coherent) (n : Node) :
    (n :: arena.ancestors n).Nodup := by
  obtain ⟨rank, ranked⟩ := coherent.ranked
  have climbs : ((n :: arena.ancestors n).map rank).IsChain (· < ·) :=
    (List.isChain_map rank).mpr ((coherent.ancestors_chain n).imp fun a b link => (ranked a b link).1)
  exact .of_map rank (climbs.pairwise.imp Nat.ne_of_lt)

end Arena

/-! ## Links and children in the program -/

namespace Program

/-- What closing an arena over ready declarations leaves. -/
structure Closes (arena : Arena) (top : List DeclId) (program : Program) : Prop where
  coherent : program.Coherent
  closed : arena.close top = .ok program
  listed : program.childNodes .program = top.map .decl
  tree : ∀ n, program.arena.tree? n = arena.tree? n
  parent : ∀ n, program.arena.parent? n =
    if n ∈ top.map .decl then some .program else arena.parent? n

theorem closes_of_ready {arena : Arena} {top : List DeclId} (forest : arena.Forest)
    (ready : arena.Ready (top.map .decl)) : ∃ program, Closes arena top program := by
  obtain ⟨trees, found⟩ := Arena.mapM_stored (fun _ => Arena.decl_stored) ready.stored
  have closed : arena.close top = .ok ⟨arena.adoptAll .program (top.map .decl), trees⟩ := by
    simp only [Arena.close, found]
    rfl
  have listed := (Arena.mapM_found (fun _ _ => Arena.decl_found) found).nodes forest.named
  refine ⟨_, forest.close ready closed, closed, ?_, arena.tree?_adoptAll _ _, ?_⟩
  · rw [← listed, List.map_map]
    rfl
  · exact fun n => Arena.parent?_adoptAll _ n ready.stored

theorem childNodes_of_tree {program : Program} {n : Node} {t : Tree}
    (stored : program.arena.tree? n = some t) : program.childNodes n = t.children.map Tree.node := by
  cases n with
  | program => cases stored
  | decl | stmt | expr => simp [childNodes, stored]

section Closed

variable {arena : Arena} {steps : List Step} {nodes : List Node} {top : List DeclId}
  {program : Program}

/-- The parent of a node is the node that has it as a child. -/
theorem Closes.parent_iff (closes : Closes arena top program) (holds : arena.Holds steps nodes)
    (c p : Node) : program.arena.parent? c = some p ↔ c ∈ program.childNodes p := by
  constructor
  · intro link
    rw [closes.parent] at link
    split at link
    · rename_i listed
      cases link
      rwa [closes.listed]
    · obtain ⟨t, stored, part⟩ := holds.child c p link
      rw [← closes.tree] at stored
      rwa [childNodes_of_tree stored]
  · intro member
    cases stored : program.arena.tree? p with
    | some t =>
      rw [childNodes_of_tree stored] at member
      obtain ⟨part, inside, rfl⟩ := List.mem_map.mp member
      exact closes.coherent.arena.linked p t stored part inside
    | none =>
      cases p with
      | program =>
        rw [closes.listed] at member
        rw [closes.parent, if_pos member]
      | decl | stmt | expr => simp [childNodes, stored] at member

/-- A parent other than the program was made after its child. -/
theorem Closes.later (closes : Closes arena top program) (holds : arena.Holds steps nodes)
    {c p : Node} (link : program.arena.parent? c = some p) : p = .program ∨ [c, p].Sublist nodes := by
  rw [closes.parent] at link
  split at link
  · cases link
    exact .inl rfl
  · exact .inr (holds.older c p link)

end Closed

/-- The walk along the links ends at the program for the nodes below it and for no others. -/
theorem Coherent.ancestors_getLast {program : Program} (coherent : program.Coherent)
    (agree : ∀ c p, program.arena.parent? c = some p ↔ c ∈ program.childNodes p) (n : Node) :
    (program.arena.ancestors n).getLast? = some .program ↔
      Relation.TransGen (fun p c => c ∈ program.childNodes p) .program n := by
  constructor
  · induction n using coherent.arena.climbing with
    | step n ih =>
      intro ends
      cases link : program.arena.parent? n with
      | none =>
        rw [coherent.arena.ancestors_of_root link] at ends
        cases ends
      | some p =>
        have part := (agree n p).mp link
        rw [coherent.arena.ancestors_of_parent link, List.getLast?_cons] at ends
        cases above : (program.arena.ancestors p).getLast? with
        | none =>
          rw [above] at ends
          cases ends
          exact .single part
        | some last =>
          rw [above] at ends
          cases ends
          exact (ih p link above).tail part
  · intro below
    have root : program.arena.ancestors .program = [] := coherent.arena.ancestors_of_root rfl
    induction below with
    | single part => rw [coherent.arena.ancestors_of_parent ((agree _ _).mpr part), root]; rfl
    | tail _ part ih =>
      rw [coherent.arena.ancestors_of_parent ((agree _ _).mpr part), List.getLast?_cons, ih]
      rfl

/-- Orderly steps make a program whose parent links say what its children say. Each node has the
children its step was given, and the walk from a node along the links goes on to the end, meets no node
twice, climbs to nodes made later, and ends at the program exactly for the nodes below it. -/
theorem links_agree {steps : List Step} {top : List DeclId} (orderly : Step.Orderly steps top) :
    ∃ arena program, Arena.make {} steps = .ok (Step.nodes steps, arena) ∧
      arena.close top = .ok program ∧
      program.childNodes .program = top.map .decl ∧
      List.Forall₂ (fun step n => program.childNodes n = step.children) steps (Step.nodes steps) ∧
      (∀ c p, program.arena.parent? c = some p ↔ c ∈ program.childNodes p) ∧
      ∀ n,
        (n :: program.arena.ancestors n).IsChain (fun a b => program.arena.parent? a = some b) ∧
        program.arena.parent? ((program.arena.ancestors n).getLastD n) = none ∧
        (n :: program.arena.ancestors n).Nodup ∧
        (n :: program.arena.ancestors n).IsChain
          (fun a b => b = .program ∨ [a, b].Sublist (Step.nodes steps)) ∧
        ((program.arena.ancestors n).getLast? = some .program ↔
          Relation.TransGen (fun p c => c ∈ program.childNodes p) .program n) := by
  obtain ⟨arena, ran, holds⟩ := Arena.holds_empty.run orderly.earlier orderly.once.of_append_left
  have holds : arena.Holds steps (Step.nodes steps) := holds
  have ready : arena.Ready (top.map .decl) := by
    refine holds.ready (fun c member => ?_) orderly.once
    obtain ⟨id, listed, rfl⟩ := List.mem_map.mp member
    exact orderly.listed id listed
  obtain ⟨program, closes⟩ := closes_of_ready holds.forest ready
  have agree := closes.parent_iff holds
  have coherent := closes.coherent
  refine ⟨arena, program, ran, closes.closed, closes.listed, ?_, agree, fun n => ⟨?_, ?_, ?_, ?_, ?_⟩⟩
  · refine holds.parts.imp ?_
    rintro step n ⟨t, stored, listed⟩
    rw [← closes.tree] at stored
    rw [childNodes_of_tree stored, listed]
  · exact coherent.arena.ancestors_chain n
  · exact coherent.arena.ancestors_end n
  · exact coherent.arena.ancestors_nodup n
  · exact (coherent.arena.ancestors_chain n).imp fun a b link => closes.later holds link
  · exact coherent.ancestors_getLast agree n

/-- A class `A` with a method `f` whose body is `while (true) { this; break; }`, and a loose `null`. -/
def loopAndLoose : List Step :=
  let word (name : String) : Ident := ⟨name, default⟩
  [ .bool true default, .this default, .expr ⟨1⟩, .leave default, .block [] [⟨0⟩, ⟨1⟩] default,
    .whileLoop ⟨0⟩ ⟨2⟩ default, .block [] [⟨3⟩] default, .null default,
    .function (word "f") (.primitive .void) [] (some ⟨4⟩), .cls (word "A") none [] [⟨0⟩] ]

theorem links_agree_loop :
    Step.Orderly loopAndLoose [⟨1⟩] ∧
    ∃ arena program, Arena.make {} loopAndLoose = .ok (Step.nodes loopAndLoose, arena) ∧
      arena.close [⟨1⟩] = .ok program ∧
      program.arena.ancestors (.expr ⟨1⟩) =
        [.stmt ⟨0⟩, .stmt ⟨2⟩, .stmt ⟨3⟩, .stmt ⟨4⟩, .decl ⟨0⟩, .decl ⟨1⟩, .program] ∧
      Relation.TransGen (fun p c => c ∈ program.childNodes p) .program (.expr ⟨1⟩) ∧
      ¬ Relation.TransGen (fun p c => c ∈ program.childNodes p) .program (.expr ⟨2⟩) := by
  have orderly : Step.Orderly loopAndLoose [⟨1⟩] :=
    ⟨by decide +kernel, by decide +kernel, by decide +kernel⟩
  have walks : ((Arena.make {} loopAndLoose).toOption.bind fun made =>
      (made.2.close [⟨1⟩]).toOption.map fun program =>
        (program.arena.ancestors (.expr ⟨1⟩), program.arena.ancestors (.expr ⟨2⟩))) =
      some ([.stmt ⟨0⟩, .stmt ⟨2⟩, .stmt ⟨3⟩, .stmt ⟨4⟩, .decl ⟨0⟩, .decl ⟨1⟩, .program], []) := by
    decide +kernel
  obtain ⟨arena, program, ran, closed, -, -, -, walk⟩ := links_agree orderly
  simp only [ran, closed, Except.toOption, Option.bind_some, Option.map_some, Option.some.injEq,
    Prod.mk.injEq] at walks
  obtain ⟨inner, loose⟩ := walks
  obtain ⟨-, -, -, -, below⟩ := walk (.expr ⟨1⟩)
  obtain ⟨-, -, -, -, apart⟩ := walk (.expr ⟨2⟩)
  refine ⟨orderly, arena, program, ran, closed, inner, below.mp (by rw [inner]; rfl), ?_⟩
  rw [← apart, loose]
  simp

end Program

end DecafTac
