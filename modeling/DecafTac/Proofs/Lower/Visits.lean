import DecafTac.Proofs.Lower.Form
import DecafTac.Proofs.Source.Forest

/-!
The statements that lowering comes to. Lowering a statement lowers some of its parts, each in a state of
its own; what is issued for a part stands in the code of the whole, and a part that fails makes the whole
fail. While a part is lowered, the nearest loop around it is open, and where it ends is known.
-/
namespace DecafTac

/-- The state after some labels were taken and some instructions issued. -/
def LowerState.later (s : LowerState) (labels issued : Nat) : LowerState :=
  { s with emitter := { s.emitter with
      nextLabel := s.emitter.nextLabel + labels
      issued := s.emitter.issued + issued } }

namespace Lower

/-- The label behind a loop that is lowered from a state: the second that it takes. -/
def exitLabel (layouts : Layouts) : Stmt → LowerState → String
  | .forLoop _ init _ _ _, s =>
    Emitter.labelName ((optionalEffect layouts init s).state.emitter.nextLabel + 1)
  | _, s => Emitter.labelName (s.emitter.nextLabel + 1)

section Entering

variable (arena : Arena) (layouts : Layouts)

/-- Among statements in a row, one is lowered after those before it. -/
inductive EntersAmong : List Stmt → LowerState → Stmt → LowerState → Prop where
  | here {first : Stmt} {rest : List Stmt} {s : LowerState} : EntersAmong (first :: rest) s first s
  | later {first part : Stmt} {rest : List Stmt} {s s₁ t : LowerState} {code : List Instruction}
      (run : stmt arena layouts first s = ⟨.ok (), s₁, code⟩) (inside : EntersAmong rest s₁ part t) :
      EntersAmong (first :: rest) s part t

/-- Lowering a statement from a state comes to lowering a part of it from another. -/
inductive Enters : Stmt → LowerState → Stmt → LowerState → Prop where
  | block {site : StmtSite} {decls : List Decl} {body : List Stmt} {part : Stmt} {s s₁ t : LowerState}
      {code : List Instruction}
      (declared : declareLocals decls { s with bindings := s.bindings.enter } = ⟨.ok (), s₁, code⟩)
      (inside : EntersAmong arena layouts body s₁ part t) : Enters (.block site decls body) s part t
  | ifThen {site : StmtSite} {test : Expr} {body : Stmt} {s s₁ : LowerState} {v : Value}
      {code : List Instruction} (tested : value layouts test s = ⟨.ok v, s₁, code⟩) :
      Enters (.ifThen site test body) s body (s₁.later 1 1)
  | ifYes {site : StmtSite} {test : Expr} {yes no : Stmt} {s s₁ : LowerState} {v : Value}
      {code : List Instruction} (tested : value layouts test s = ⟨.ok v, s₁, code⟩) :
      Enters (.ifElse site test yes no) s yes (s₁.later 1 1)
  | ifNo {site : StmtSite} {test : Expr} {yes no : Stmt} {s s₁ s₂ : LowerState} {v : Value}
      {code code' : List Instruction} (tested : value layouts test s = ⟨.ok v, s₁, code⟩)
      (run : stmt arena layouts yes (s₁.later 1 1) = ⟨.ok (), s₂, code'⟩) :
      Enters (.ifElse site test yes no) s no (s₂.later 1 2)
  | whileLoop {site : StmtSite} {test : Expr} {body : Stmt} {s s₁ : LowerState} {v : Value}
      {code : List Instruction} (tested : value layouts test (s.later 2 1) = ⟨.ok v, s₁, code⟩) :
      Enters (.whileLoop site test body) s body
        { s₁.later 0 1 with
          loops := s₁.loops.enter site.id (Emitter.labelName (s.emitter.nextLabel + 1)) }
  | forLoop {site : StmtSite} {init step : Option Expr} {test : Expr} {body : Stmt}
      {s s₀ s₁ : LowerState} {v : Value} {code₀ code : List Instruction}
      (begun : optionalEffect layouts init s = ⟨.ok (), s₀, code₀⟩)
      (tested : value layouts test (s₀.later 2 1) = ⟨.ok v, s₁, code⟩) :
      Enters (.forLoop site init test step body) s body
        { s₁.later 0 1 with
          loops := s₁.loops.enter site.id (Emitter.labelName (s₀.emitter.nextLabel + 1)) }

/-- Lowering a statement from a state comes, in any number of steps, to lowering one in it. -/
inductive Visits (root : Stmt) (start : LowerState) : Stmt → LowerState → Prop where
  | here : Visits root start root start
  | step {whole part : Stmt} {s t : LowerState} (visits : Visits root start whole s)
      (enters : Enters arena layouts whole s part t) : Visits root start part t

end Entering

/-! ## The code of a part -/

section Covering

variable {α β : Type}

/-- The code of a step from one state stands in that of another step, which fails when it fails. -/
def Covers (whole : Lower α) (s : LowerState) (part : Lower β) (t : LowerState) : Prop :=
  ∃ before after, (whole s).code = before ++ ((part t).code ++ after) ∧
    ∀ e, (part t).value = .error e → (whole s).value = .error e

namespace Covers

theorem refl (step : Lower α) (s : LowerState) : Covers step s step s :=
  ⟨[], [], by simp, fun _ fails => fails⟩

theorem trans {γ : Type} {whole : Lower α} {middle : Lower β} {part : Lower γ} {s t u : LowerState}
    (one : Covers whole s middle t) (two : Covers middle t part u) : Covers whole s part u := by
  obtain ⟨before, after, code, fails⟩ := one
  obtain ⟨before', after', code', fails'⟩ := two
  refine ⟨before ++ before', after' ++ after, ?_, fun e failed => fails e (fails' e failed)⟩
  rw [code, code']
  simp only [List.append_assoc]

/-- The first of two steps in a row. -/
theorem first (step : Lower α) (rest : α → Lower β) (s : LowerState) :
    Covers (step >>= rest) s step s := by
  rw [Covers, bind_apply]
  cases result : (step s).value with
  | error e => exact ⟨[], [], by simp, fun _ same => by cases same; rfl⟩
  | ok a => exact ⟨[], (rest a (step s).state).code, by simp, fun _ failed => nomatch failed⟩

/-- The second of two steps in a row. -/
theorem second {step : Lower α} {rest : α → Lower β} {s t : LowerState} {a : α}
    {code : List Instruction} (run : step s = ⟨.ok a, t, code⟩) :
    Covers (step >>= rest) s (rest a) t := by
  rw [Covers, bind_apply, run]
  exact ⟨code, [], by simp, fun _ failed => failed⟩

theorem ensuring (step : Lower α) (after : Emission LowerState Unit) (s : LowerState) :
    Covers (Lower.ensuring step after) s step s :=
  ⟨[], (after (step s).state).code, rfl, fun _ failed => failed⟩

end Covers

end Covering

section Statements

variable {arena : Arena} {layouts : Layouts} {root whole part : Stmt} {start s t : LowerState}

private theorem EntersAmong.covers {body : List Stmt} (enters : EntersAmong arena layouts body s part t) :
    Covers (stmts arena layouts body) s (stmt arena layouts part) t := by
  induction enters with
  | here => exact .first _ _ _
  | later run _ ih => exact (Covers.second run).trans ih

/-- The body of a loop is lowered after its test. -/
private theorem loop_covers {id : StmtId} {test : Lower Value} {body step : Lower Unit}
    {s s₁ : LowerState} {v : Value} {code : List Instruction}
    (tested : test (s.later 2 1) = ⟨.ok v, s₁, code⟩) :
    Covers (loop id test body step) s body
      { s₁.later 0 1 with
        loops := s₁.loops.enter id (Emitter.labelName (s.emitter.nextLabel + 1)) } := by
  refine (Covers.second rfl).trans ?_
  refine (Covers.second rfl).trans ?_
  refine (Covers.second rfl).trans ?_
  refine (Covers.second tested).trans ?_
  refine (Covers.second rfl).trans ?_
  refine (Covers.first _ _ _).trans ?_
  refine (Covers.second rfl).trans ?_
  exact Covers.ensuring _ _ _

theorem Enters.covers (enters : Enters arena layouts whole s part t) :
    Covers (stmt arena layouts whole) s (stmt arena layouts part) t := by
  cases enters with
  | block declared inside =>
    refine (Covers.second rfl).trans ((Covers.ensuring _ _ _).trans ?_)
    exact (Covers.second declared).trans inside.covers
  | ifThen tested =>
    refine (Covers.second tested).trans ((Covers.second rfl).trans ((Covers.second rfl).trans ?_))
    exact Covers.first _ _ _
  | ifYes tested =>
    refine (Covers.second tested).trans ((Covers.second rfl).trans ((Covers.second rfl).trans ?_))
    exact Covers.first _ _ _
  | ifNo tested run =>
    refine (Covers.second tested).trans ((Covers.second rfl).trans ((Covers.second rfl).trans ?_))
    refine (Covers.second run).trans ?_
    refine (Covers.second rfl).trans ((Covers.second rfl).trans ((Covers.second rfl).trans ?_))
    exact Covers.first _ _ _
  | whileLoop tested => exact loop_covers tested
  | forLoop begun tested => exact (Covers.second begun).trans (loop_covers tested)

theorem Visits.covers (visits : Visits arena layouts root start part t) :
    Covers (stmt arena layouts root) start (stmt arena layouts part) t := by
  induction visits with
  | here => exact .refl _ _
  | step _ enters ih => exact ih.trans enters.covers

/-! ## All parts are lowered -/

private theorem EntersAmong.of_mem {body : List Stmt} {u : Unit} {code : List Instruction}
    (run : stmts arena layouts body s = ⟨.ok u, t, code⟩) (member : part ∈ body) :
    ∃ begun ended inner, EntersAmong arena layouts body s part begun ∧
      stmt arena layouts part begun = ⟨.ok (), ended, inner⟩ := by
  induction body generalizing s code with
  | nil => cases member
  | cons first rest ih =>
    obtain ⟨_, s₁, first', second, run₁, run₂, rfl⟩ := bind_run run
    rcases List.mem_cons.mp member with rfl | member
    · exact ⟨s, s₁, first', .here, run₁⟩
    · obtain ⟨begun, ended, inner, enters, run⟩ := ih run₂ member
      exact ⟨begun, ended, inner, .later run₁ enters, run⟩

/-- What is lowered to its end between two changes of the state, is so by itself. -/
private theorem between_run {body : Lower Unit} {enter leave : LowerState → LowerState} {u : Unit}
    {code : List Instruction}
    (run : (modify enter >>= fun _ => ensuring body (Emission.modify leave)) s = ⟨.ok u, t, code⟩) :
    ∃ ended inner, body (enter s) = ⟨.ok (), ended, inner⟩ := by
  obtain ⟨value, -, -⟩ := Emitted.mk.inj run
  have succeeds : (body (enter s)).value = .ok () := value
  exact ⟨(body (enter s)).state, (body (enter s)).code, by rw [← succeeds]⟩

/-- The test and the body of a loop that is lowered to its end. -/
private theorem loop_run {id : StmtId} {test : Lower Value} {body step : Lower Unit} {u : Unit}
    {code : List Instruction} (run : loop id test body step s = ⟨.ok u, t, code⟩) :
    ∃ v s₁ first, test (s.later 2 1) = ⟨.ok v, s₁, first⟩ ∧
      ∃ ended inner, body { s₁.later 0 1 with
        loops := s₁.loops.enter id (Emitter.labelName (s.emitter.nextLabel + 1)) } =
          ⟨.ok (), ended, inner⟩ := by
  obtain ⟨_, run₁, rfl⟩ := emit_bind_run run
  obtain ⟨_, run₂, rfl⟩ := emit_bind_run run₁
  obtain ⟨_, run₃, rfl⟩ := emit_bind_run run₂
  obtain ⟨v, s₁, first, _, tested, run₄, rfl⟩ := bind_run run₃
  obtain ⟨_, run₅, rfl⟩ := emit_bind_run run₄
  obtain ⟨_, _, _, _, inside, -, rfl⟩ := bind_run run₅
  exact ⟨v, s₁, first, tested, between_run inside⟩

/-- A statement that is lowered to its end has all its parts lowered to their ends. -/
theorem Enters.of_child {u : Unit} {code : List Instruction}
    (run : stmt arena layouts whole s = ⟨.ok u, t, code⟩)
    (child : Tree.stmt part ∈ (Tree.stmt whole).children) :
    ∃ begun ended inner, Enters arena layouts whole s part begun ∧
      stmt arena layouts part begun = ⟨.ok (), ended, inner⟩ := by
  cases whole with
  | ret | print | expr | leave | knot => simp [Tree.children, Stmt.children] at child
  | block site decls body =>
    have member : part ∈ body := by simpa [Tree.children, Stmt.children] using child
    obtain ⟨_, _, run₁⟩ := between_run run
    obtain ⟨_, s₁, _, _, declared, run₂, rfl⟩ := bind_run run₁
    obtain ⟨begun, ended, inner, enters, run₃⟩ := EntersAmong.of_mem run₂ member
    exact ⟨begun, ended, inner, .block declared enters, run₃⟩
  | ifThen site test body =>
    obtain rfl : part = body := by simpa [Tree.children, Stmt.children] using child
    obtain ⟨v, s₁, _, _, tested, run₁, rfl⟩ := bind_run run
    obtain ⟨_, run₂, rfl⟩ := emit_bind_run run₁
    obtain ⟨_, run₃, rfl⟩ := emit_bind_run run₂
    obtain ⟨_, ended, inner, _, run₄, -, rfl⟩ := bind_run run₃
    exact ⟨_, ended, inner, .ifThen tested, run₄⟩
  | ifElse site test yes no =>
    have either : part = yes ∨ part = no := by simpa [Tree.children, Stmt.children] using child
    obtain ⟨v, s₁, _, _, tested, run₁, rfl⟩ := bind_run run
    obtain ⟨_, run₂, rfl⟩ := emit_bind_run run₁
    obtain ⟨_, run₃, rfl⟩ := emit_bind_run run₂
    obtain ⟨_, s₂, inner, _, run₄, run₅, rfl⟩ := bind_run run₃
    rcases either with rfl | rfl
    · exact ⟨_, s₂, inner, .ifYes tested, run₄⟩
    · obtain ⟨_, run₆, rfl⟩ := emit_bind_run run₅
      obtain ⟨_, run₇, rfl⟩ := emit_bind_run run₆
      obtain ⟨_, run₈, rfl⟩ := emit_bind_run run₇
      obtain ⟨_, ended, inner', _, run₉, -, rfl⟩ := bind_run run₈
      exact ⟨_, ended, inner', .ifNo tested run₄, run₉⟩
  | whileLoop site test body =>
    obtain rfl : part = body := by simpa [Tree.children, Stmt.children] using child
    obtain ⟨v, s₁, _, tested, ended, inner, inside⟩ := loop_run run
    exact ⟨_, ended, inner, .whileLoop tested, inside⟩
  | forLoop site init test step body =>
    obtain rfl : part = body := by simpa [Tree.children, Stmt.children] using child
    obtain ⟨_, s₀, _, _, begun, run', rfl⟩ := bind_run run
    obtain ⟨v, s₁, _, tested, ended, inner, inside⟩ := loop_run run'
    exact ⟨_, ended, inner, .forLoop begun tested, inside⟩

/-- A statement in another, with none but statements between the two. -/
inductive Nested (root : Stmt) : Stmt → Prop where
  | here : Nested root root
  | step {whole part : Stmt} (nested : Nested root whole)
      (child : Tree.stmt part ∈ (Tree.stmt whole).children) : Nested root part

/-- Lowering a statement to its end comes to every statement in it. -/
theorem Nested.visits {u : Unit} {code : List Instruction}
    (run : stmt arena layouts root start = ⟨.ok u, t, code⟩) (nested : Nested root part) :
    ∃ begun ended inner, Visits arena layouts root start part begun ∧
      stmt arena layouts part begun = ⟨.ok (), ended, inner⟩ := by
  induction nested with
  | here => exact ⟨start, t, code, .here, run⟩
  | step _ child ih =>
    obtain ⟨_, _, _, visits, run'⟩ := ih
    obtain ⟨begun, ended, inner, enters, run''⟩ := Enters.of_child run' child
    exact ⟨begun, ended, inner, .step visits enters, run''⟩

/-! ## The loop around a part -/

private theorem EntersAmong.mem {body : List Stmt} (enters : EntersAmong arena layouts body s part t) :
    part ∈ body := by
  induction enters with
  | here => exact List.mem_cons_self
  | later _ _ ih => exact List.mem_cons_of_mem _ ih

theorem Enters.child (enters : Enters arena layouts whole s part t) :
    Tree.stmt part ∈ (Tree.stmt whole).children := by
  cases enters with
  | block declared inside => simp [Tree.children, Stmt.children, inside.mem]
  | ifThen | ifYes | ifNo | whileLoop | forLoop => simp [Tree.children, Stmt.children]

/-- What is lowered to its end leaves the loops open that are not in it. -/
theorem Forms.keeps {α : Type} (layouts : Layouts) {trees : List Tree} {step : Lower α}
    (forms : ∀ slotSize exits, Forms (references layouts trees slotSize) exits step) {a : α}
    {code : List Instruction} (run : step s = ⟨.ok a, t, code⟩) {id : StmtId}
    (outside : Node.stmt id ∉ trees.map Tree.node) : t.loops.exit? id = s.loops.exit? id := by
  have forming := forms s.emitter.shape.slotSize (s.loops.exits.map Prod.snd) s a t code run rfl
    fun entry member => List.mem_map_of_mem member
  exact forming.kept id outside

private theorem EntersAmong.keeps {trees : List Tree} {body : List Stmt}
    (within : ∀ s ∈ body, (Tree.stmt s).subtrees ⊆ trees)
    (enters : EntersAmong arena layouts body s part t) {id : StmtId}
    (outside : Node.stmt id ∉ trees.map Tree.node) : t.loops.exit? id = s.loops.exit? id := by
  induction enters with
  | here => rfl
  | later run _ ih =>
    rw [List.forall_mem_cons] at within
    exact (ih within.2).trans
      (Forms.keeps layouts (fun _ exits => stmt_forms exits _ within.1) run outside)

/-- A part of what is no loop is lowered with the same loops around it. -/
theorem Enters.keeps (enters : Enters arena layouts whole s part t) (plain : whole.isLoop = false)
    {id : StmtId} (outside : Node.stmt id ∉ Decl.nodesIn whole) :
    t.loops.exit? id = s.loops.exit? id := by
  have listed : Decl.nodesIn whole = (Tree.stmt whole).subtrees.map Tree.node :=
    Tree.nodes_eq_map (.stmt whole)
  rw [listed] at outside
  have inner {child : Tree} (inside : child ∈ (Tree.stmt whole).children) :
      child.subtrees ⊆ (Tree.stmt whole).subtrees := Tree.part_subtrees inside
  cases enters with
  | block declared inside =>
    refine (inside.keeps (fun s member => inner ?_) outside).trans ?_
    · simp [Tree.children, Stmt.children, member]
    · exact Forms.keeps layouts (fun _ _ => declareLocals_forms _) declared outside
  | ifThen tested | ifYes tested =>
    exact Forms.keeps layouts (fun _ _ => value_forms _ (inner (by simp [Tree.children, Stmt.children])))
      tested outside
  | ifNo tested run =>
    have yes := Forms.keeps layouts (fun _ exits =>
      stmt_forms exits _ (inner (by simp [Tree.children, Stmt.children]))) run outside
    exact yes.trans (Forms.keeps layouts (fun _ _ =>
      value_forms _ (inner (by simp [Tree.children, Stmt.children]))) tested outside)
  | whileLoop | forLoop => cases plain

/-- The body of a loop is lowered with the loop open, and its end is the label behind it. -/
theorem Enters.opened (enters : Enters arena layouts whole s part t) (isLoop : whole.isLoop = true) :
    t.loops.exit? whole.id = some (exitLabel layouts whole s) := by
  cases enters with
  | block | ifThen | ifYes | ifNo => cases isLoop
  | whileLoop tested => exact (exit?_enter ..).trans (if_pos rfl)
  | forLoop begun tested =>
    rw [exitLabel, begun]
    exact (exit?_enter ..).trans (if_pos rfl)

/-- What the second of two steps ends with, both end with. -/
private theorem bind_last {α β : Type} {step : Lower α} {rest : α → Lower β} {b : β}
    {code : List Instruction} {i : Instruction} (run : (step >>= rest) s = ⟨.ok b, t, code⟩)
    (last : ∀ a s₁ second, rest a s₁ = ⟨.ok b, t, second⟩ → ∃ inner, second = inner ++ [i]) :
    ∃ inner, code = inner ++ [i] := by
  obtain ⟨a, s₁, first, second, -, run', rfl⟩ := bind_run run
  obtain ⟨inner, rfl⟩ := last a s₁ second run'
  exact ⟨first ++ inner, by rw [List.append_assoc]⟩

private theorem loop_last {id : StmtId} {test : Lower Value} {body step : Lower Unit} {u : Unit}
    {code : List Instruction} (run : loop id test body step s = ⟨.ok u, t, code⟩) :
    ∃ inner, code = inner ++ [.label (Emitter.labelName (s.emitter.nextLabel + 1))] := by
  obtain ⟨_, run₁, rfl⟩ := emit_bind_run run
  obtain ⟨_, run₂, rfl⟩ := emit_bind_run run₁
  refine bind_last run₂ fun _ _ _ placed => bind_last placed fun _ _ _ tested => ?_
  refine bind_last tested fun _ _ _ jumped => bind_last jumped fun _ _ _ inside => ?_
  refine bind_last inside fun _ _ _ stepped => bind_last stepped fun _ _ _ last => ?_
  obtain ⟨-, -, rfl⟩ := emit_run last
  exact ⟨[], rfl⟩

/-- The code of a loop ends with the label behind it. -/
theorem exitLabel_last (isLoop : whole.isLoop = true) {u : Unit} {code : List Instruction}
    (run : stmt arena layouts whole s = ⟨.ok u, t, code⟩) :
    ∃ inner, code = inner ++ [.label (exitLabel layouts whole s)] := by
  cases whole with
  | block | ifThen | ifElse | ret | print | leave | expr | knot => cases isLoop
  | whileLoop => exact loop_last run
  | forLoop site init test step body =>
    obtain ⟨_, s₀, first, second, begun, run', rfl⟩ := bind_run run
    obtain ⟨inner, rfl⟩ := loop_last run'
    rw [exitLabel, begun]
    exact ⟨first ++ inner, by rw [List.append_assoc]⟩

variable (arena layouts) in
/-- The nearest loop around a statement that lowering comes to: there is none in the whole, or it is
open and ends where its code does. -/
inductive Around (root : Stmt) (start : LowerState) (part : Stmt) (t : LowerState) : Prop where
  | outside (none : arena.enclosingLoop (.stmt part.id) = none)
      (free : ∀ loop : Stmt, loop.isLoop = true → .stmt loop ∈ (Tree.stmt root).subtrees →
        .stmt part ∈ (Tree.stmt loop).subtrees → loop = part)
  | inside {loop : Stmt} {s : LowerState} (isLoop : loop.isLoop = true)
      (visits : Visits arena layouts root start loop s)
      (found : arena.enclosingLoop (.stmt part.id) = some loop.id)
      (within : .stmt part ∈ (Tree.stmt loop).subtrees)
      (apart : Node.stmt loop.id ∉ Decl.nodesIn part)
      (innermost : ∀ other : Stmt, other.isLoop = true → .stmt other ∈ (Tree.stmt root).subtrees →
        .stmt part ∈ (Tree.stmt other).subtrees →
        other = part ∨ .stmt loop ∈ (Tree.stmt other).subtrees)
      (opened : t.loops.exit? loop.id = some (exitLabel layouts loop s))

theorem Visits.within (visits : Visits arena layouts root start part t) :
    Tree.stmt part ∈ (Tree.stmt root).subtrees := by
  induction visits with
  | here => exact Tree.self_mem_subtrees _
  | step _ enters ih =>
    exact Tree.subtrees_trans ih (Tree.part_subtrees enters.child (Tree.self_mem_subtrees _))

/-- The parent links and the table of open loops agree on the nearest loop around a statement. -/
theorem Visits.around (coherent : arena.Coherent)
    (stored : ∀ sub ∈ (Tree.stmt root).subtrees, arena.tree? sub.node = some sub)
    (outermost : arena.enclosingLoop (.stmt root.id) = none)
    (visits : Visits arena layouts root start part t) : Around arena layouts root start part t := by
  induction visits with
  | here =>
    refine .outside outermost fun loop _ within around => ?_
    exact Tree.stmt.inj (Tree.eq_of_mem_subtrees within around)
  | @step whole part s t visits enters ih =>
    have kept := stored _ visits.within
    have kept' : arena.stmt? whole.id = some whole := by simpa [Arena.tree?, Tree.node] using kept
    have nearest := coherent.enclosingLoop_part kept' enters.child
    -- a loop around the part is the part itself or lies around the statement whose part it is
    have outward (loop : Stmt) (among : .stmt loop ∈ (Tree.stmt root).subtrees)
        (around : .stmt part ∈ (Tree.stmt loop).subtrees) :
        loop = part ∨ .stmt whole ∈ (Tree.stmt loop).subtrees :=
      (coherent.subtrees_parent kept enters.child _ (stored _ among) around).imp_left
        fun same => (Tree.stmt.inj same).symm
    by_cases isLoop : whole.isLoop = true
    · rw [if_pos isLoop] at nearest
      refine .inside isLoop visits nearest
        (Tree.part_subtrees enters.child (Tree.self_mem_subtrees _)) ?_
        (fun other _ among around => outward other among around) (enters.opened isLoop)
      have single := coherent.single _ _ kept
      rw [Tree.nodes_eq, List.nodup_cons] at single
      exact fun member => single.1 ((Tree.nodes_sublist enters.child).subset member)
    · rw [if_neg isLoop] at nearest
      cases ih with
      | outside none free =>
        refine .outside (nearest.trans none) fun loop loops among around => ?_
        rcases outward loop among around with same | around
        · exact same
        · exact absurd (free loop loops among around ▸ loops) isLoop
      | inside loops visited found within apart innermost opened =>
        have plain : whole.isLoop = false := by simpa using isLoop
        refine .inside loops visited (nearest.trans found)
          (Tree.subtrees_trans within (Tree.part_subtrees enters.child (Tree.self_mem_subtrees _)))
          (fun member => apart (Decl.nodesIn_part enters.child member)) ?_
          ((enters.keeps plain apart).trans opened)
        intro other otherLoops among around
        rcases outward other among around with same | around
        · exact .inl same
        · rcases innermost other otherLoops among around with rfl | outer
          · exact absurd otherLoops isLoop
          · exact .inr outer

end Statements

end Lower

end DecafTac
