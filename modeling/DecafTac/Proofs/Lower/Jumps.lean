import DecafTac.Proofs.Lower.Parts
import DecafTac.Proofs.Lower.Visits

/-!
Jumps. In a program that is lowered to its end every label that was taken is placed once, and every jump
stays inside its function. A `break` jumps behind the nearest loop around it, and fails when there is
none in its function.
-/
namespace DecafTac

open Emitter (labelName)

/-! ## Labels of a listing -/

namespace Assembled

variable {refs : References} {n m : Nat} {parts : List Part}

theorem le (assembled : Assembled refs n parts m) : n ≤ m := by
  induction assembled with
  | nil => exact Nat.le_refl _
  | segment _ _ formed _ ih => exact Nat.le_trans formed.le ih
  | table _ _ _ ih => exact ih

/-- The labels of a listing are those of its functions and those that were taken. -/
theorem labels_perm (assembled : Assembled refs n parts m) :
    (labels (parts.flatMap Part.code)).Perm
      ((parts.map Part.heading).filterMap Heading.label? ++ Formed.labelsBetween n m) := by
  induction assembled with
  | nil => simp [Formed.labelsBetween_self]
  | @segment n m k body parts label size formed rest ih =>
    have placed : labels ((Part.segment label body size :: parts).flatMap Part.code) =
        label :: (labels body ++ labels (parts.flatMap Part.code)) := by
      simp [Part.code, labels_cons, labels_append, Instruction.label?]
    rw [placed, Formed.labelsBetween_append formed.le rest.le]
    refine List.Perm.cons _ ((formed.labels_perm.append ih).trans ?_)
    exact List.perm_append_comm_assoc _ _ _
  | @table n k parts cls methods _ ih =>
    have placed : labels ((Part.table cls methods :: parts).flatMap Part.code) =
        labels (parts.flatMap Part.code) := by
      simp [Part.code, labels_cons, Instruction.label?]
    rw [placed]
    exact ih

end Assembled

/-- Whether a jump stays inside a function: the label that it goes to is placed between the start and
the end of the function that stand around the jump. -/
def StaysInside (before rest : List Instruction) (target : String) : Prop :=
  ∃ front first second size back, before = front ++ .beginFunc :: first ∧
    rest = second ++ .endFunc size :: back ∧ (∀ i ∈ first ++ second, i.isBracket = false) ∧
    target ∈ labels (first ++ second)

/-- Where an instruction stands in code that is split at another one. -/
private theorem position_cases {body tail before rest : List Instruction} {i j : Instruction}
    (found : body ++ j :: tail = before ++ i :: rest) :
    (∃ after, body = before ++ i :: after ∧ rest = after ++ j :: tail) ∨ i = j ∨
      ∃ between, before = body ++ j :: between ∧ tail = between ++ i :: rest := by
  rcases split_append found with inside | ⟨between, rfl, same⟩
  · exact .inl inside
  · cases between with
    | nil => exact .inr (.inl (List.cons.inj same).1.symm)
    | cons head between =>
      obtain ⟨rfl, later⟩ := List.cons.inj same
      exact .inr (.inr ⟨between, rfl, later⟩)

/-- In a listing of parts, every jump stays inside its function. -/
theorem Assembled.stays_inside {refs : References} {n m : Nat} {parts : List Part}
    (assembled : Assembled refs n parts m) {before rest : List Instruction} {i : Instruction}
    {target : String} (found : parts.flatMap Part.code = before ++ i :: rest)
    (jumps : i.target? = some target) : StaysInside before rest target := by
  induction assembled generalizing before with
  | nil => simp at found
  | @segment n m k body parts label size formed _ ih =>
    have flat : (Part.segment label body size :: parts).flatMap Part.code =
        [.label label, .beginFunc] ++ (body ++ .endFunc size :: parts.flatMap Part.code) := by
      simp [Part.code]
    rw [flat] at found
    match before, found with
    | [], found =>
      obtain ⟨rfl, -⟩ := List.cons.inj found
      cases jumps
    | [_], found =>
      obtain ⟨rfl, -⟩ := List.cons.inj (List.cons.inj found).2
      cases jumps
    | head :: next :: before, found =>
      obtain ⟨rfl, found₁⟩ := List.cons.inj found
      obtain ⟨rfl, found₂⟩ := List.cons.inj found₁
      rcases position_cases found₂ with ⟨after, rfl, rfl⟩ | rfl | ⟨between, rfl, later⟩
      · have plain := formed.unbracketed
        have unlabelled : i.label? = none := by
          cases i <;> first | rfl | cases jumps
        have inside : target ∈ targets (before ++ i :: after) := by
          simp [targets_append, targets_cons, jumps]
        refine ⟨[.label label], before, after, size, parts.flatMap Part.code, rfl, rfl, ?_, ?_⟩
        · intro j member
          refine plain j ?_
          rcases List.mem_append.mp member with member | member
          · exact List.mem_append_left _ member
          · exact List.mem_append_right _ (List.mem_cons_of_mem _ member)
        · have placed := (formed.targets_placed target inside).resolve_right (by simp)
          simpa [labels_append, labels_cons, unlabelled] using placed
      · cases jumps
      · obtain ⟨front, first, second, size', back, rfl, inside⟩ := ih later
        exact ⟨.label label :: .beginFunc :: (body ++ .endFunc size :: front), first, second, size',
          back, by simp, inside⟩
  | @table n k parts cls methods _ ih =>
    have flat : (Part.table cls methods :: parts).flatMap Part.code =
        .methodTable cls methods :: parts.flatMap Part.code := by simp [Part.code]
    rw [flat] at found
    cases before with
    | nil =>
      obtain ⟨rfl, -⟩ := List.cons.inj found
      cases jumps
    | cons head before =>
      obtain ⟨rfl, later⟩ := List.cons.inj found
      obtain ⟨front, first, second, size, back, rfl, inside⟩ := ih later
      exact ⟨.methodTable cls methods :: front, first, second, size, back, rfl, inside⟩

/-! ## Names of labels -/

theorem dot_not_mem_labelName (n : Nat) : '.' ∉ (labelName n).toList := by
  intro member
  rw [labelName, String.toList_append] at member
  rcases List.mem_append.mp member with member | member
  · revert member
    decide
  · rw [Nat.toString_eq_ofList_toDigits, String.toList_ofList] at member
    have digit : Char.isDigit '.' = true :=
      Nat.isDigit_of_mem_toDigits (by decide : 0 < 10) (by decide) member
    revert digit
    decide

theorem head_labelName (n : Nat) : (labelName n).toList.head? = some '_' := by
  rw [labelName, String.toList_append]
  rfl

/-- The label of a method has a dot in it, the other labels have none. -/
theorem methodLabel_ne_labelName (cls method : String) (n : Nat) :
    ClassLayout.methodLabel cls method ≠ labelName n := by
  intro same
  apply dot_not_mem_labelName n
  rw [← same, ClassLayout.methodLabel]
  simp [String.toList_append]

/-! ## Whole programs -/

/-- A listing in which the labels that were taken are placed once each, and jumps stay inside their
functions. -/
structure JumpsClosed (code : List Instruction) : Prop where
  once : ∃ taken, ∀ n, (labels code).count (labelName n) = if n < taken then 1 else 0
  inside : ∀ before i rest target, code = before ++ i :: rest → i.target? = some target →
    StaysInside before rest target

/-- Whether a statement of a body lies in a loop of that body. -/
def InLoop (body part : Stmt) : Prop :=
  ∃ loop : Stmt, loop.isLoop = true ∧ .stmt loop ∈ (Tree.stmt body).subtrees ∧
    .stmt part ∈ (Tree.stmt loop).subtrees

/-- A loop of a body that lies around a statement and inside all other loops around it. -/
structure InnermostLoop (body part loop : Stmt) : Prop where
  isLoop : loop.isLoop = true
  among : .stmt loop ∈ (Tree.stmt body).subtrees
  around : .stmt part ∈ (Tree.stmt loop).subtrees
  innermost : ∀ other : Stmt, other.isLoop = true → .stmt other ∈ (Tree.stmt body).subtrees →
    .stmt part ∈ (Tree.stmt other).subtrees → .stmt loop ∈ (Tree.stmt other).subtrees

/-- A `break` that is lowered from the state `s` jumps behind a loop that was lowered from `begun`. -/
structure JumpsBehind (arena : Arena) (layouts : Layouts) (body : Stmt) (start : LowerState)
    (site : StmtSite) (s : LowerState) (loop : Stmt) (begun : LowerState) : Prop where
  visited : Lower.Visits arena layouts body start loop begun
  jumps : (Lower.stmt arena layouts (.leave site) s).code = [.jump (Lower.exitLabel layouts loop begun)]
  /-- The jump stands in the code of the body. -/
  issued : ∃ before after, (Lower.stmt arena layouts body start).code =
    before ++ .jump (Lower.exitLabel layouts loop begun) :: after
  /-- The code of the loop ends where the jump goes. -/
  placed : ∀ u t code, Lower.stmt arena layouts loop begun = ⟨.ok u, t, code⟩ →
    ∃ inner, code = inner ++ [.label (Lower.exitLabel layouts loop begun)]

/-- What lowering a `break` does is settled by the loops around it. -/
structure BreaksOut (arena : Arena) (layouts : Layouts) (body : Stmt) (start : LowerState)
    (site : StmtSite) (s : LowerState) : Prop where
  fails_iff : (Lower.stmt arena layouts (.leave site) s).value = .error .breakOutsideLoop ↔
    ¬ InLoop body (.leave site)
  leaves : InLoop body (.leave site) →
    (Lower.stmt arena layouts (.leave site) s).value = .ok () ∧
      ∃ loop begun, InnermostLoop body (.leave site) loop ∧
        JumpsBehind arena layouts body start site s loop begun

/-- Lowering a `break` looks the nearest loop up among those that are open. -/
private theorem leave_apply (arena : Arena) (layouts : Layouts) (site : StmtSite) (s : LowerState) :
    (arena.enclosingLoop (.stmt site.id) = none →
      (Lower.stmt arena layouts (.leave site) s).value = .error .breakOutsideLoop) ∧
    ∀ id exit, arena.enclosingLoop (.stmt site.id) = some id → s.loops.exit? id = some exit →
      (Lower.stmt arena layouts (.leave site) s).value = .ok () ∧
        (Lower.stmt arena layouts (.leave site) s).code = [.jump exit] := by
  have lowered : Lower.stmt arena layouts (.leave site) s = (Lower.ofOption .breakOutsideLoop
      ((arena.enclosingLoop (.stmt site.id)).bind s.loops.exit?) >>= fun target =>
        Lower.emit (Emitter.jump target)) s := rfl
  rw [lowered]
  constructor
  · intro none
    rw [none]
    rfl
  · intro id exit found opened
    rw [found, Option.bind_some, opened]
    exact ⟨rfl, rfl⟩

theorem Lower.Around.breaksOut {arena : Arena} {layouts : Layouts} {body : Stmt}
    {start s : LowerState} {site : StmtSite} (visits : Visits arena layouts body start (.leave site) s)
    (around : Around arena layouts body start (.leave site) s) :
    BreaksOut arena layouts body start site s := by
  obtain ⟨fails, jumps⟩ := leave_apply arena layouts site s
  cases around with
  | outside none free =>
    have outside : ¬ InLoop body (.leave site) := by
      rintro ⟨loop, isLoop, among, around⟩
      rw [free loop isLoop among around] at isLoop
      cases isLoop
    exact ⟨⟨fun _ => outside, fun _ => fails none⟩, fun inside => absurd inside outside⟩
  | @inside loop begun isLoop visited found within _ innermost opened =>
    obtain ⟨value, code⟩ := jumps _ _ found opened
    have inside : InLoop body (.leave site) := ⟨loop, isLoop, visited.within, within⟩
    refine ⟨⟨fun failed => ?_, fun outside => absurd inside outside⟩, fun _ => ⟨value, loop, begun, ?_, ?_⟩⟩
    · rw [value] at failed
      cases failed
    · refine ⟨isLoop, visited.within, within, fun other otherLoop among around => ?_⟩
      rcases innermost other otherLoop among around with rfl | outer
      · cases otherLoop
      · exact outer
    · obtain ⟨before, after, issued, -⟩ := visits.covers
      refine ⟨visited, code, ⟨before, after, ?_⟩, fun u t code run => exitLabel_last isLoop run⟩
      rw [issued, code]
      rfl

namespace Program

variable {program : Program} {layouts : Layouts} {layout : Option ClassLayout}

theorem Lowers.subtrees {decl : Decl} (lowers : program.Lowers layouts layout decl) :
    (Tree.decl decl).subtrees ⊆ program.subtrees := by
  have top {decl : Decl} (member : decl ∈ program.top) :
      (Tree.decl decl).subtrees ⊆ program.subtrees :=
    fun sub inside => List.mem_flatMap.mpr ⟨.decl decl, List.mem_map_of_mem member, inside⟩
  cases lowers with
  | top member _ => exact top member
  | method cls _ member _ =>
    exact List.Subset.trans (Tree.part_subtrees (List.mem_map_of_mem member)) (top cls)

/-- There is no loop around the body of a function. -/
theorem Coherent.outermost (coherent : program.Coherent) {id : DeclId} {name : Ident}
    {result : TypeExpr} {formals : List Decl} {body : Stmt}
    (lowers : program.Lowers layouts layout (.function id name result formals body)) :
    program.arena.enclosingLoop (.stmt body.id) = none := by
  have kept := coherent.stored_subtrees _ (lowers.subtrees (Tree.self_mem_subtrees _))
  have link : program.arena.parent? (.stmt body.id) = some (.decl id) :=
    coherent.arena.linked _ _ kept (.stmt body) (by simp [Tree.children, Decl.children])
  rw [Arena.enclosingLoop, coherent.arena.ancestors_eq, link]
  rfl

end Program

/-- Jumps are closed. A program that is lowered to its end has each label that was taken placed once, and
no jump leaves its function. Wherever lowering the body of a function comes to a `break`, this fails if
and only if there is no loop around it in the body; if there is one, it jumps to the label with which the
code of the innermost such loop ends. A body that is lowered to its end has all its `break`s lowered. -/
theorem Program.jumps_closed {program : Program} (built : program.Built) (layouts : Layouts)
    (shape : FrameShape)
    (named : ∀ decl ∈ program.top, decl.isFunction = true → ∀ n, decl.name ≠ labelName n) :
    (∀ summary, (program.generate layouts shape).outcome = .ok summary →
      JumpsClosed (program.generate layouts shape).code) ∧
    ∀ layout id name result formals body,
      program.Lowers layouts layout (.function id name result formals body) →
      ∀ start site,
        (∀ s, Lower.Visits program.arena layouts body start (.leave site) s →
          BreaksOut program.arena layouts body start site s) ∧
        ((Lower.stmt program.arena layouts body start).value = .ok () →
          Lower.Nested body (.leave site) →
          ∃ s, Lower.Visits program.arena layouts body start (.leave site) s) := by
  constructor
  · intro summary succeeds
    obtain ⟨parts, taken, code, heads, assembled⟩ := Program.generate_parts succeeds
    rw [code]
    refine ⟨⟨taken, fun n => ?_⟩, fun _ _ _ _ found jumps => assembled.stays_inside found jumps⟩
    -- no function is named like a label that was taken
    have unlisted : labelName n ∉ program.entryLabels layouts := by
      intro listed
      obtain ⟨layout, decl, lowers, same⟩ := Program.lowers_of_label listed
      cases lowers with
      | top member isFunction => exact named decl member isFunction n same.symm
      | method => exact methodLabel_ne_labelName _ _ n same.symm
    have entries : ((parts.map Part.heading).filterMap Heading.label?).count (labelName n) = 0 := by
      rw [heads]
      exact List.count_eq_zero.mpr unlisted
    rw [assembled.labels_perm.count_eq, List.count_append, entries, Nat.zero_add]
    exact Formed.count_labelsBetween ..
  · intro layout id name result formals body lowers start site
    constructor
    · intro s visits
      have coherent := built.coherent
      have inside : (Tree.stmt body).subtrees ⊆ program.subtrees :=
        List.Subset.trans (Tree.part_subtrees (by simp [Tree.children, Decl.children])) lowers.subtrees
      exact (visits.around coherent.arena
        (fun sub member => coherent.stored_subtrees sub (inside member))
        (coherent.outermost lowers)).breaksOut visits
    · intro succeeds nested
      have run : Lower.stmt program.arena layouts body start = ⟨.ok (),
          (Lower.stmt program.arena layouts body start).state,
          (Lower.stmt program.arena layouts body start).code⟩ := by rw [← succeeds]
      obtain ⟨s, _, _, visits, -⟩ := nested.visits run
      exact ⟨s, visits⟩

namespace TwoLoops

/-- A function with a loop in a loop, either of which is left at once. -/
def steps : List Step :=
  [ .bool true default, .bool true default, .leave default, .whileLoop ⟨1⟩ ⟨0⟩ default, .leave default,
    .block [] [⟨1⟩, ⟨2⟩] default, .whileLoop ⟨0⟩ ⟨3⟩ default, .block [] [⟨4⟩] default,
    .function ⟨"main", default⟩ (.primitive .void) [] (some ⟨5⟩) ]

def inner : Stmt := .whileLoop ⟨⟨1⟩, default⟩ (.bool ⟨⟨1⟩, default⟩ true) (.leave ⟨⟨0⟩, default⟩)

def round : Stmt := .block ⟨⟨3⟩, default⟩ [] [inner, .leave ⟨⟨2⟩, default⟩]

def outer : Stmt := .whileLoop ⟨⟨4⟩, default⟩ (.bool ⟨⟨0⟩, default⟩ true) round

def body : Stmt := .block ⟨⟨5⟩, default⟩ [] [outer]

def code : List Instruction :=
  let slot (name : String) (offset : Int) : Location := ⟨name, .frame, offset⟩
  [ .label "main", .beginFunc,
    .label "_L0", .loadConstant (slot "_tmp0" (-8)) (.int 1), .jumpIfZero (slot "_tmp0" (-8)) "_L1",
    .label "_L2", .loadConstant (slot "_tmp1" (-12)) (.int 1), .jumpIfZero (slot "_tmp1" (-12)) "_L3",
    .jump "_L3", .jump "_L2", .label "_L3", .jump "_L1", .jump "_L0", .label "_L1", .endFunc 8 ]

def main : Decl := .function ⟨0⟩ ⟨"main", default⟩ (.primitive .void) [] body

def layouts : Layouts := { functions := .ofDecls [main] }

private theorem assembled :
    ((Program.assemble steps [⟨0⟩]).map fun program => program.top) = some [main] := by
  rfl

private theorem generated :
    ((Program.assemble steps [⟨0⟩]).map fun program =>
        ((program.generate layouts {}).outcome.toOption, (program.generate layouts {}).code,
          (Lower.stmt program.arena layouts body { emitter := { shape := {} } }).value.toOption)) =
      some (some ⟨15, 1, 0⟩, code, some ()) := by
  decide +kernel

end TwoLoops

/-- Either loop is left to the label behind it. -/
theorem Program.jumps_closed_loops :
    ∃ program, Program.assemble TwoLoops.steps [⟨0⟩] = some program ∧
      (program.generate TwoLoops.layouts {}).code = TwoLoops.code ∧ JumpsClosed TwoLoops.code ∧
      ∃ s, Lower.Visits program.arena TwoLoops.layouts TwoLoops.body { emitter := { shape := {} } }
          (.leave ⟨⟨0⟩, default⟩) s ∧
        BreaksOut program.arena TwoLoops.layouts TwoLoops.body { emitter := { shape := {} } }
          ⟨⟨0⟩, default⟩ s := by
  obtain ⟨program, made, found⟩ := Option.map_eq_some_iff.mp TwoLoops.generated
  obtain ⟨program', made', top⟩ := Option.map_eq_some_iff.mp TwoLoops.assembled
  obtain rfl : program = program' := Option.some.inj (made.symm.trans made')
  obtain ⟨outcome, code, succeeds⟩ : _ ∧ _ ∧ _ := by simpa only [Prod.mk.injEq] using found
  have main : TwoLoops.main ∈ program.top := by simp [top]
  have named : ∀ decl ∈ program.top, decl.isFunction = true → ∀ n, decl.name ≠ labelName n := by
    intro decl member _ n same
    rw [top, List.mem_singleton] at member
    have head := head_labelName n
    rw [← same, member] at head
    revert head
    decide
  have succeeded : (program.generate TwoLoops.layouts {}).outcome = .ok ⟨15, 1, 0⟩ := by
    revert outcome
    cases (program.generate TwoLoops.layouts {}).outcome <;> simp [Except.toOption]
  have lowered : (Lower.stmt program.arena TwoLoops.layouts TwoLoops.body
      { emitter := { shape := {} } }).value = .ok () := by
    revert succeeds
    cases (Lower.stmt program.arena TwoLoops.layouts TwoLoops.body
      { emitter := { shape := {} } }).value <;> simp [Except.toOption]
  have nested : Lower.Nested TwoLoops.body (.leave ⟨⟨0⟩, default⟩) := by
    have outer : Lower.Nested TwoLoops.body TwoLoops.outer := .step .here List.mem_cons_self
    have round : Lower.Nested TwoLoops.body TwoLoops.round :=
      .step outer (List.mem_cons_of_mem _ List.mem_cons_self)
    have inner : Lower.Nested TwoLoops.body TwoLoops.inner := .step round List.mem_cons_self
    exact .step inner (List.mem_cons_of_mem _ List.mem_cons_self)
  obtain ⟨closed, breaks⟩ := Program.jumps_closed (Program.built_of_assemble made) TwoLoops.layouts {}
    named
  obtain ⟨jumps, comes⟩ := breaks _ _ _ _ _ _ (.top main rfl) { emitter := { shape := {} } }
    ⟨⟨0⟩, default⟩
  obtain ⟨s, visits⟩ := comes lowered nested
  exact ⟨program, made, code, code ▸ closed _ succeeded, s, visits, jumps s visits⟩

end DecafTac
