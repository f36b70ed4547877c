import DecafTac.Proofs.Source.Links

/-!
Children that are not there. A step looks for each of its children and fails on one that no step made
before, with one exception: the branches of a conditional, the body of a loop, the operand of a unary
operator and the size of a new array are looked for when the node that takes them is there already, so
that node is found among its own children. Such a node is its own parent until another step takes it
over. Every other link goes to a node that was made later, so no other node is its own ancestor.
-/
namespace DecafTac

/-! ## Children that are looked for late -/

namespace Step

/-- The children that a step looks for when its own node is there already. -/
def late : Step → List Node
  | .ifElse _ yes no _ => .stmt yes :: no.toList.map .stmt
  | .whileLoop _ body _ | .forLoop _ _ _ body _ => [.stmt body]
  | .unary _ operand _ => [.expr operand]
  | .newArray size _ _ => [.expr size]
  | _ => []

theorem late_subset (step : Step) : step.late ⊆ step.children := by
  cases step <;> simp [late, children]

/-- Only statements and expressions are looked for late. -/
theorem late_inner {step : Step} {n : Node} (late : n ∈ step.late) : Arena.isInner n = true := by
  cases step with
  | ifElse test yes no span =>
    rcases List.mem_cons.mp late with rfl | late
    · rfl
    · obtain ⟨other, -, rfl⟩ := List.mem_map.mp late
      rfl
  | whileLoop | forLoop | unary | newArray =>
    cases List.mem_singleton.mp late
    rfl
  | _ => cases late

/-- A node that its own step took as a child, and no later step did. Steps stand in order, each with the
node that it made. -/
def OwnChild (made : List (Step × Node)) (n : Node) : Prop :=
  ∃ before step after, made = before ++ (step, n) :: after ∧ n ∈ step.late ∧
    ∀ later ∈ after, n ∉ later.1.children

end Step

namespace Arena

/-- A node that a step can take as a child: one that is there, or its own node where that is looked for
late. -/
def Accepts (arena : Arena) (step : Step) (c : Node) : Prop :=
  (arena.tree? c).isSome ∨ c ∈ step.late ∧ c = arena.tally.next step

/-! ## When looking for children succeeds -/

section Found

variable {arena : Arena}

private theorem ok_bind_iff {ε α β : Type} {x : Except ε α} {f : α → Except ε β} :
    (∃ b, (x >>= f) = .ok b) ↔ ∃ a, x = .ok a ∧ ∃ b, f a = .ok b := by
  constructor
  · rintro ⟨b, ran⟩
    obtain ⟨a, first, second⟩ := bind_ok ran
    exact ⟨a, first, b, second⟩
  · rintro ⟨a, rfl, b, ran⟩
    exact ⟨b, ran⟩

private theorem ok_pure_iff {ε α : Type} {a : α} : (∃ b, (pure a : Except ε α) = .ok b) ↔ True :=
  iff_true_intro ⟨a, rfl⟩

private theorem error_iff {ε α : Type} {x : Except ε α} {P : Prop}
    (succeeds : (∃ a, x = .ok a) ↔ P) : (∃ e, x = .error e) ↔ ¬ P := by
  rw [← succeeds]
  cases x <;> simp

private theorem mapM_ok_iff {ε ι α : Type} {get : ι → Except ε α} {is : List ι} :
    (∃ as, is.mapM get = .ok as) ↔ ∀ i ∈ is, ∃ a, get i = .ok a := by
  induction is with
  | nil => exact ⟨fun _ => by simp, fun _ => ⟨[], rfl⟩⟩
  | cons i rest ih =>
    simp only [List.mapM_cons, ok_bind_iff, ok_pure_iff, and_true, exists_and_right, ih,
      List.forall_mem_cons]

private theorem option_mapM_ok_iff {ε ι α : Type} {get : ι → Except ε α} {i : Option ι} :
    (∃ a, i.mapM get = .ok a) ↔ ∀ j ∈ i.toList, ∃ a, get j = .ok a := by
  cases i with
  | none => exact ⟨fun _ => by simp, fun _ => ⟨none, rfl⟩⟩
  | some i => cases found : get i <;> simp [found]

private theorem decl_ok_iff {id : DeclId} :
    (∃ d, arena.decl id = .ok d) ↔ (arena.tree? (.decl id)).isSome := by
  cases found : arena.decl? id <;> simp [decl, tree?, found]

private theorem stmt_ok_iff {id : StmtId} :
    (∃ s, arena.stmt id = .ok s) ↔ (arena.tree? (.stmt id)).isSome := by
  cases found : arena.stmt? id <;> simp [stmt, tree?, found]

private theorem expr_ok_iff {id : ExprId} :
    (∃ e, arena.expr id = .ok e) ↔ (arena.tree? (.expr id)).isSome := by
  cases found : arena.expr? id <;> simp [expr, tree?, found]

private theorem stmtOrKnot_ok_iff {id : StmtId} :
    (∃ s, arena.stmtOrKnot id = .ok s) ↔
      (arena.tree? (.stmt id)).isSome ∨ id = arena.nextStmt := by
  by_cases own : id = arena.nextStmt <;> simp [stmtOrKnot, own, stmt_ok_iff]

private theorem exprOrKnot_ok_iff {id : ExprId} :
    (∃ e, arena.exprOrKnot id = .ok e) ↔
      (arena.tree? (.expr id)).isSome ∨ id = arena.nextExpr := by
  by_cases own : id = arena.nextExpr <;> simp [exprOrKnot, own, expr_ok_iff]

/-- A step succeeds when it can take each of its children, and only then. -/
theorem add_ok_iff {step : Step} :
    (∃ made, arena.add step = .ok made) ↔ ∀ c ∈ step.children, arena.Accepts step c := by
  -- first what the step looks for, one child after the other; then what that says of each child
  cases step with
  | function name result formals body =>
    cases body <;>
      simp only [add, ok_bind_iff, ok_pure_iff, and_true, exists_and_right, mapM_ok_iff,
        decl_ok_iff, stmt_ok_iff, Step.children, List.forall_mem_append, List.forall_mem_map] <;>
      simp [Accepts, Step.late]
  | ifElse test yes no span =>
    cases no <;>
      simp only [add, ok_bind_iff, ok_pure_iff, and_true, exists_and_right, stmtOrKnot_ok_iff,
        expr_ok_iff, Step.children] <;>
      simp [Accepts, Step.late, Tally.next, tally, nextStmt]
  | call receiver name actuals span =>
    cases receiver <;>
      simp only [add, ok_bind_iff, ok_pure_iff, and_true, exists_and_right, mapM_ok_iff,
        expr_ok_iff, Step.children] <;>
      simp [Accepts, Step.late]
  | _ =>
    simp only [add, ok_bind_iff, ok_pure_iff, and_true, exists_and_right, mapM_ok_iff,
      option_mapM_ok_iff, decl_ok_iff, stmt_ok_iff, expr_ok_iff, stmtOrKnot_ok_iff,
      exprOrKnot_ok_iff, Step.children, List.forall_mem_append, List.forall_mem_map]
    simp [Accepts, Step.late, Tally.next, tally, nextStmt, nextExpr, and_assoc]

/-- Closing succeeds when every declaration it is given is there, and only then. -/
theorem close_ok_iff {top : List DeclId} :
    (∃ program, arena.close top = .ok program) ↔ ∀ id ∈ top, (arena.tree? (.decl id)).isSome := by
  simp only [close, ok_bind_iff, ok_pure_iff, and_true, mapM_ok_iff, decl_ok_iff]

end Found

/-! ## What a step changes -/

/-- What a step that succeeds changes: there is one more node, and it is the parent of the children of
the step, whatever their parents were. -/
structure Takes (arena : Arena) (step : Step) (node : Node) (grown : Arena) : Prop where
  accepted : ∀ c ∈ step.children, arena.Accepts step c
  next : node = arena.tally.next step
  fresh : arena.tree? node = none
  stored : ∀ n, (grown.tree? n).isSome ↔ (arena.tree? n).isSome ∨ n = node
  parent : ∀ n, grown.parent? n = if n ∈ step.children then some node else arena.parent? n

section Takes

variable {arena : Arena} {step : Step}

/-- A step that pushes a tree takes its children, if it can take each. -/
private theorem push_takes (made : Tree) (accepted : ∀ c ∈ step.children, arena.Accepts step c)
    (next : arena.tally.next step = arena.place made) :
    arena.Takes step (arena.push step.children made).1 (arena.push step.children made).2 := by
  have stored (n : Node) : ((arena.put made).tree? n).isSome ↔
      (arena.tree? n).isSome ∨ n = arena.place made := by
    rw [tree?_put]
    split
    · rename_i own
      simp [own]
    · rename_i other
      simp [other]
  refine ⟨accepted, next.symm, tree?_place arena made, fun n => ?_, fun n => ?_⟩
  · rw [push, tree?_adoptAll, stored]
  · rw [push, parent?_adoptAll, parent?_put]
    intro c member
    rw [stored]
    exact (accepted c member).imp_right fun late => late.2.trans next

theorem of_pure {ε α : Type} {a : α} {P : α → Prop} (holds : P a) :
    ∀ b, (pure a : Except ε α) = .ok b → P b := by
  rintro b ⟨⟩
  exact holds

theorem of_bind {ε α β : Type} {x : Except ε α} {f : α → Except ε β} {P : β → Prop}
    (later : ∀ a b, f a = .ok b → P b) : ∀ b, (x >>= f) = .ok b → P b := by
  intro b ran
  obtain ⟨a, -, ran⟩ := bind_ok ran
  exact later a b ran

private theorem takes_of_accepted (accepted : ∀ c ∈ step.children, arena.Accepts step c) :
    ∀ made, arena.add step = .ok made → arena.Takes step made.1 made.2 := by
  -- each sort of step looks for its children, one bind for each, and ends by pushing its node
  cases step with
  | var => exact of_pure (push_takes (.decl _) accepted rfl)
  | cls | interface => exact of_bind fun _ => of_pure (push_takes (.decl _) accepted rfl)
  | function name result formals body =>
    cases body with
    | none => exact of_bind fun _ => of_pure (push_takes (.decl _) accepted rfl)
    | some => exact of_bind fun _ => of_bind fun _ => of_pure (push_takes (.decl _) accepted rfl)
  | leave => exact of_pure (push_takes (.stmt _) accepted rfl)
  | ret | print | expr => exact of_bind fun _ => of_pure (push_takes (.stmt _) accepted rfl)
  | block | whileLoop =>
    exact of_bind fun _ => of_bind fun _ => of_pure (push_takes (.stmt _) accepted rfl)
  | ifElse test yes no span =>
    cases no with
    | none => exact of_bind fun _ => of_bind fun _ => of_pure (push_takes (.stmt _) accepted rfl)
    | some =>
      exact of_bind fun _ => of_bind fun _ => of_bind fun _ => of_pure (push_takes (.stmt _) accepted rfl)
  | forLoop =>
    exact of_bind fun _ => of_bind fun _ => of_bind fun _ => of_bind fun _ =>
      of_pure (push_takes (.stmt _) accepted rfl)
  | unary | field | newArray => exact of_bind fun _ => of_pure (push_takes (.expr _) accepted rfl)
  | binary | assign | element =>
    exact of_bind fun _ => of_bind fun _ => of_pure (push_takes (.expr _) accepted rfl)
  | call receiver name actuals span =>
    cases receiver with
    | none => exact of_bind fun _ => of_pure (push_takes (.expr _) accepted rfl)
    | some => exact of_bind fun _ => of_bind fun _ => of_pure (push_takes (.expr _) accepted rfl)
  | int | double | bool | string | null | name | new | this | readInteger | readLine =>
    exact of_pure (push_takes (.expr _) accepted rfl)

/-- A step that succeeds makes the next node of its sort the parent of its children. -/
theorem add_takes {node : Node} {grown : Arena} (added : arena.add step = .ok (node, grown)) :
    arena.Takes step node grown :=
  takes_of_accepted (add_ok_iff.mp ⟨_, added⟩) _ added

end Takes

/-! ## What a run of steps leaves -/

/-- An arena made by the given steps, each with its node. A node is there when a step made it; its parent
is what the last step that took it made, and was made later unless it is the node itself. -/
structure Traced (arena : Arena) (made : List (Step × Node)) : Prop where
  stored : ∀ n, (arena.tree? n).isSome ↔ n ∈ made.map Prod.snd
  parent : ∀ n, arena.parent? n = (made.reverse.find? fun m => n ∈ m.1.children).map Prod.snd
  own : ∀ m ∈ made, m.2 ∈ m.1.children → m.2 ∈ m.1.late
  older : ∀ c p, arena.parent? c = some p →
    c = p ∨ (made.map Prod.snd).idxOf c < (made.map Prod.snd).idxOf p

theorem traced_empty : Traced {} [] := by
  have alone : ∀ n, ({} : Arena).parent? n = none := by
    intro n
    cases n <;> simp [parent?]
  refine ⟨fun n => ?_, by simp [alone], by simp, by simp [alone]⟩
  cases n <;> simp [tree?, decl?, stmt?, expr?]

section Traced

variable {arena grown : Arena} {made : List (Step × Node)} {next : Step} {node : Node}

theorem Traced.step (traced : arena.Traced made) (takes : arena.Takes next node grown) :
    grown.Traced (made ++ [(next, node)]) := by
  have fresh : node ∉ made.map Prod.snd := by
    rw [← traced.stored, takes.fresh]
    simp
  refine ⟨fun n => ?_, fun n => ?_, fun m member => ?_, fun c p link => ?_⟩
  · rw [takes.stored, traced.stored]
    simp
  · rw [takes.parent, traced.parent]
    by_cases taken : n ∈ next.children <;> simp [taken]
  · rcases List.mem_append.mp member with old | new
    · exact traced.own m old
    · cases List.mem_singleton.mp new
      intro taken
      rcases takes.accepted node taken with there | ⟨late, -⟩
      · simp [takes.fresh] at there
      · exact late
  · rw [List.map_append, List.idxOf_append, List.idxOf_append]
    rw [takes.parent] at link
    split at link
    · rename_i taken
      cases link
      rcases takes.accepted c taken with there | ⟨-, own⟩
      · have old := (traced.stored c).mp there
        rw [if_pos old, if_neg fresh]
        exact .inr (Nat.lt_add_left _ (List.idxOf_lt_length_iff.mpr old))
      · exact .inl (own.trans takes.next.symm)
    · refine (traced.older c p link).imp id fun before => ?_
      have bound : (made.map Prod.snd).idxOf p ≤ (made.map Prod.snd).length := List.idxOf_le_length
      have old : c ∈ made.map Prod.snd := List.idxOf_lt_length_iff.mp (before.trans_le bound)
      rw [if_pos old]
      split
      · exact before
      · omega

theorem Traced.run {steps : List Step} {nodes : List Node} {final : Arena}
    (traced : arena.Traced made) (ran : arena.make steps = .ok (nodes, final)) :
    final.Traced (made ++ steps.zip nodes) := by
  induction steps generalizing arena made nodes with
  | nil =>
    cases ran
    simpa using traced
  | cons step rest ih =>
    obtain ⟨⟨node, grown⟩, added, ran⟩ := bind_ok ran
    obtain ⟨⟨later, last⟩, ran, same⟩ := bind_ok ran
    cases same
    simpa using ih (traced.step (add_takes added)) ran

/-! ## Nodes that are their own ancestors -/

/-- Where every link but those of a node to itself goes up in rank, only such nodes come back to
themselves. -/
private theorem cycle_iff {parent : Node → Option Node} {rank : Node → Nat}
    (older : ∀ c p, parent c = some p → c = p ∨ rank c < rank p) (n : Node) :
    Relation.TransGen (fun c p => parent c = some p) n n ↔ parent n = some n := by
  constructor
  · intro cycle
    have up : ∀ c p, Relation.ReflTransGen (fun c p => parent c = some p) c p → rank c ≤ rank p := by
      intro c p walk
      induction walk with
      | refl => exact Nat.le_refl _
      | tail _ link ih =>
        rcases older _ _ link with rfl | above
        · exact ih
        · exact ih.trans above.le
    obtain ⟨p, link, walk⟩ := Relation.TransGen.head'_iff.mp cycle
    rcases older n p link with rfl | above
    · exact link
    · exact absurd (up p n walk) (by omega)
  · intro link
    exact .single link

/-- A node is its own parent when its own step took it and no later one did, and only then. -/
theorem Traced.parent_self_iff (traced : arena.Traced made) (n : Node) :
    arena.parent? n = some n ↔ Step.OwnChild made n := by
  rw [traced.parent, Option.map_eq_some_iff]
  constructor
  · rintro ⟨⟨step, node⟩, found, rfl⟩
    obtain ⟨taken, after, before, same, others⟩ := List.find?_eq_some_iff_append.mp found
    have listed : made = before.reverse ++ (step, node) :: after.reverse := by
      rw [← List.reverse_reverse made, same]
      simp
    refine ⟨before.reverse, step, after.reverse, listed, ?_, fun later member => ?_⟩
    · exact traced.own (step, node) (by simp [listed]) (by simpa using taken)
    · simpa using others later (List.mem_reverse.mp member)
  · rintro ⟨before, step, after, rfl, late, others⟩
    refine ⟨(step, n), List.find?_eq_some_iff_append.mpr ⟨?_, after.reverse, before.reverse, ?_, ?_⟩, rfl⟩
    · simpa using step.late_subset late
    · simp
    · intro later member
      simpa using others later (List.mem_reverse.mp member)

theorem Traced.cycle_iff_ownChild (traced : arena.Traced made) (n : Node) :
    Relation.TransGen (fun c p => arena.parent? c = some p) n n ↔ Step.OwnChild made n :=
  (cycle_iff traced.older n).trans (traced.parent_self_iff n)

/-- Closing changes nothing about it: the program comes above all nodes, and a declaration never took
itself. -/
theorem Traced.cycle_iff_ownChild_of_close (traced : arena.Traced made) {top : List DeclId}
    {program : Program} (closed : arena.close top = .ok program) (n : Node) :
    Relation.TransGen (fun c p => program.arena.parent? c = some p) n n ↔ Step.OwnChild made n := by
  have stored : ∀ c ∈ top.map Node.decl, (arena.tree? c).isSome := by
    rw [List.forall_mem_map]
    exact close_ok_iff.mp ⟨program, closed⟩
  obtain ⟨trees, -, same⟩ := bind_ok closed
  cases same
  have parent (c : Node) := parent?_adoptAll .program c stored
  have outside : Node.program ∉ made.map Prod.snd := by
    rw [← traced.stored]
    simp [tree?]
  have older : ∀ c p, (arena.adoptAll .program (top.map .decl)).parent? c = some p →
      c = p ∨ (made.map Prod.snd).idxOf c < (made.map Prod.snd).idxOf p := by
    intro c p link
    rw [parent] at link
    split at link
    · rename_i listed
      cases link
      rw [List.idxOf_eq_length outside, List.idxOf_lt_length_iff, ← traced.stored]
      exact .inr (stored c listed)
    · exact traced.older c p link
  refine (cycle_iff older n).trans ?_
  rw [← traced.parent_self_iff, parent]
  split
  · rename_i listed
    obtain ⟨id, -, rfl⟩ := List.mem_map.mp listed
    rw [traced.parent_self_iff]
    constructor
    · intro own
      cases own
    · rintro ⟨_, _, _, -, late, -⟩
      cases Step.late_inner late
  · rfl

end Traced

/-- What steps do with children that are not there. A step fails exactly if one of them is missing, its
own node where that is looked for late apart, and closing if a declaration is. After steps that all
succeeded, closed or not, a node is its own ancestor exactly if its own step took it so and no later step
took it over. -/
theorem missing_children_refused (arena : Arena) :
    (∀ step : Step,
      (∃ missing, arena.add step = .error missing) ↔
        ∃ c ∈ step.children, arena.tree? c = none ∧
          ¬ (c ∈ step.late ∧ c = arena.tally.next step)) ∧
    (∀ top : List DeclId,
      (∃ missing, arena.close top = .error missing) ↔ ∃ id ∈ top, arena.tree? (.decl id) = none) ∧
    ∀ (steps : List Step) (nodes : List Node), make {} steps = .ok (nodes, arena) → ∀ n,
      (Relation.TransGen (fun c p => arena.parent? c = some p) n n ↔
        Step.OwnChild (steps.zip nodes) n) ∧
      ∀ top program, arena.close top = .ok program →
        (Relation.TransGen (fun c p => program.arena.parent? c = some p) n n ↔
          Step.OwnChild (steps.zip nodes) n) := by
  refine ⟨fun step => ?_, fun top => ?_, fun steps nodes ran n => ?_⟩
  · rw [error_iff add_ok_iff]
    simp [Accepts]
  · rw [error_iff close_ok_iff]
    simp
  · have traced : arena.Traced (steps.zip nodes) := traced_empty.run ran
    exact ⟨traced.cycle_iff_ownChild n, fun _ _ closed => traced.cycle_iff_ownChild_of_close closed n⟩

/-- Two negations of themselves, the first of which a sum takes over. -/
def selfNegations : List Step :=
  [.unary .neg ⟨0⟩ default, .unary .neg ⟨1⟩ default, .null default, .binary .add ⟨0⟩ ⟨2⟩]

theorem missing_children_refused_negations :
    ∃ nodes arena, make {} selfNegations = .ok (nodes, arena) ∧
      Relation.TransGen (fun c p => arena.parent? c = some p) (.expr ⟨1⟩) (.expr ⟨1⟩) ∧
      ¬ Relation.TransGen (fun c p => arena.parent? c = some p) (.expr ⟨0⟩) (.expr ⟨0⟩) ∧
      ∃ missing, arena.add (.binary .add ⟨4⟩ ⟨0⟩) = .error missing := by
  have made : ∃ arena, make {} selfNegations =
      .ok ([.expr ⟨0⟩, .expr ⟨1⟩, .expr ⟨2⟩, .expr ⟨3⟩], arena) ∧ arena.tree? (.expr ⟨4⟩) = none :=
    ⟨_, rfl, rfl⟩
  obtain ⟨arena, ran, missing⟩ := made
  obtain ⟨refused, -, cycles⟩ := missing_children_refused arena
  refine ⟨_, arena, ran, ?_, ?_, ?_⟩
  · rw [(cycles _ _ ran _).1]
    exact ⟨[_], _, [_, _], rfl, by simp [Step.late], by simp [Step.children]⟩
  · rw [(cycles _ _ ran _).1]
    rintro ⟨before, step, after, same, -, others⟩
    rcases before with _ | ⟨_, _ | ⟨_, _ | ⟨_, _ | ⟨_, before⟩⟩⟩⟩ <;> simp [selfNegations] at same
    obtain ⟨rfl, rfl⟩ := same
    simp [Step.children] at others
  · exact (refused _).mpr ⟨.expr ⟨4⟩, by simp [Step.children], missing, by simp [Step.late]⟩

/-- The step takes as a child the node that it makes itself, which was not there. -/
def TakesOwn (arena : Arena) (step : Step) : Prop :=
  ∃ own ∈ step.children, arena.tree? own = none ∧
    ∃ grown, arena.add step = .ok (own, grown) ∧ grown.parent? own = some own

/-- A test and a statement, and no other node. -/
def testAndBreak : Arena where
  stmts := #[⟨.leave ⟨⟨0⟩, default⟩, none⟩]
  exprs := #[⟨.null ⟨⟨0⟩, default⟩, none⟩]

theorem own_node_accepted :
    testAndBreak.TakesOwn (.unary .neg ⟨1⟩ default) ∧
    testAndBreak.TakesOwn (.newArray ⟨1⟩ (.primitive .int) default) ∧
    testAndBreak.TakesOwn (.ifElse ⟨0⟩ ⟨1⟩ none default) ∧
    testAndBreak.TakesOwn (.ifElse ⟨0⟩ ⟨0⟩ (some ⟨1⟩) default) ∧
    testAndBreak.TakesOwn (.whileLoop ⟨0⟩ ⟨1⟩ default) ∧
    testAndBreak.TakesOwn (.forLoop none ⟨0⟩ none ⟨1⟩ default) := by
  refine ⟨⟨.expr ⟨1⟩, ?_, rfl, _, rfl, rfl⟩, ⟨.expr ⟨1⟩, ?_, rfl, _, rfl, rfl⟩,
    ⟨.stmt ⟨1⟩, ?_, rfl, _, rfl, rfl⟩, ⟨.stmt ⟨1⟩, ?_, rfl, _, rfl, rfl⟩,
    ⟨.stmt ⟨1⟩, ?_, rfl, _, rfl, rfl⟩, ⟨.stmt ⟨1⟩, ?_, rfl, _, rfl, rfl⟩⟩ <;>
    simp [Step.children]

end Arena

end DecafTac
