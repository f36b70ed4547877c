import DecafTac.Proofs.Lower.Evaluation

/-!
Simulation of statements by their code. Where the code of a statement stands within the code of a
function, the machine follows each run of the statement: it prints the same, and gets behind the code,
to the label that ends the loop around it, or to the end of the function. There is one rule for each
form of code; the rule for loops goes by the rounds of the run.
-/
namespace DecafTac.Lower

open Machine

/-- The labels and the storage of a function are its own: no label is placed twice, and no two of its
temporaries and declarations share a slot. -/
structure Apart (whole : List Instruction) (slot : DeclId → Location) (ids : List DeclId) : Prop where
  labels : (labels whole).Nodup
  temporaries : (scratch whole).Nodup
  free : ∀ id ∈ ids, (slot id).position ∉ scratch whole
  own : ∀ a ∈ ids, ∀ b ∈ ids, (slot a).position = (slot b).position → a = b

variable {arith : Arithmetic} {whole code : List Instruction} {slot : DeclId → Location}
  {ids : List DeclId} {env : Env}

/-! ## Code without jumps -/

private theorem scratch_part {pc : Nat} (at_ : CodeAt whole pc code) :
    (scratch code).Sublist (scratch whole) := by
  obtain ⟨before, rest, rfl, -⟩ := at_
  rw [scratch_append, scratch_append]
  exact (List.sublist_append_left ..).trans (List.sublist_append_right ..)

/-- An assignment that may be left out, as an act. -/
def Assigns (arith : Arithmetic) (env : Env) (e : Option Expr) (cells : Cells) (out : List Datum)
    (cells' : Cells) : Prop :=
  Expr.updateIf arith env cells e = some cells' ∧ out = []

/-- Printing some values, as an act. -/
def Prints (arith : Arithmetic) (env : Env) (args : List Expr) (cells : Cells) (out : List Datum)
    (cells' : Cells) : Prop :=
  Expr.evalAll arith env cells args = some out ∧ cells' = cells

/-- Code without jumps does what `act` says about the cells and what is printed. -/
def Performs (arith : Arithmetic) (slot : DeclId → Location) (ids : List DeclId)
    (act : Cells → List Datum → Cells → Prop) (code : List Instruction) : Prop :=
  ∀ cells m out cells', Agrees slot ids cells m → act cells out cells' → (scratch code).Nodup →
    (∀ id ∈ ids, (slot id).position ∉ scratch code) →
    ∃ m', effects arith code m = some (m', out.map Datum.printed) ∧ Agrees slot ids cells' m'

section Straight

variable (apart : Apart whole slot ids) {pc : Nat} {cells cells' : Cells} {m : Store}
  (at_ : CodeAt whole pc code) (agrees : Agrees slot ids cells m) (printed : List Printed)
include apart at_ agrees

/-- The machine gets through the code of an expression and has its value. -/
theorem Evaluates.reaches {e : Expr} {loc : Location} {d : Datum}
    (evaluates : Evaluates arith slot ids env e code loc) (found : e.eval arith env cells = some d) :
    ∃ m', Reaches arith whole ⟨pc, m, printed⟩ ⟨pc + code.length, m', printed⟩ ∧
      m'.read loc = some d.word ∧ Agrees slot ids cells m' := by
  have part := scratch_part at_
  have free : ∀ id ∈ ids, (slot id).position ∉ scratch code :=
    fun id listed member => apart.free id listed (part.subset member)
  obtain ⟨m', runs, there⟩ :=
    evaluates.leaves cells m d agrees found (apart.temporaries.sublist part) free
  have reached : Reaches arith whole ⟨pc, m, printed⟩ ⟨pc + code.length, m', printed ++ []⟩ :=
    reaches_effects at_ runs.1
  rw [List.append_nil] at reached
  refine ⟨m', reached, there, fun id listed => ?_⟩
  rw [agrees id listed, runs.2 _ (free id listed)]

/-- The machine gets through code without jumps. -/
theorem Performs.reaches {act : Cells → List Datum → Cells → Prop} {out : List Datum}
    (performs : Performs arith slot ids act code) (acts : act cells out cells') :
    ∃ m', Reaches arith whole ⟨pc, m, printed⟩
      ⟨pc + code.length, m', printed ++ out.map Datum.printed⟩ ∧ Agrees slot ids cells' m' := by
  have part := scratch_part at_
  obtain ⟨m', runs, agrees'⟩ := performs cells m out cells' agrees acts
    (apart.temporaries.sublist part) fun id listed member => apart.free id listed (part.subset member)
  exact ⟨m', reaches_effects at_ runs, agrees'⟩

end Straight

/-! ## Where a run ends -/

/-- The machine gets from a state to where a run ends: to `next` when it comes to its end, to the label
`exit?` when it leaves the loop around it, and to the end of the function when it returns. -/
def Arrives (arith : Arithmetic) (whole : List Instruction) (slot : DeclId → Location)
    (ids : List DeclId) (exit? : Option String) (start : Config) (next : Nat) (cells : Cells)
    (printed : List Printed) : Exit → Prop
  | .normal => ∃ m, Agrees slot ids cells m ∧ Reaches arith whole start ⟨next, m, printed⟩
  | .left => ∃ label, exit? = some label ∧ ∀ target, position? whole label = some target →
    ∃ m, Agrees slot ids cells m ∧ Reaches arith whole start ⟨target, m, printed⟩
  | .returned value => ∃ m, Agrees slot ids cells m ∧
    Finishes arith whole start ⟨value.map Datum.word, m, printed⟩

section Arrival

variable {exit? : Option String} {start middle : Config} {next : Nat} {cells : Cells}
  {printed : List Printed} {exit : Exit}

theorem Arrives.after (first : Reaches arith whole start middle)
    (arrives : Arrives arith whole slot ids exit? middle next cells printed exit) :
    Arrives arith whole slot ids exit? start next cells printed exit := by
  cases exit with
  | normal =>
    obtain ⟨m, agrees, reached⟩ := arrives
    exact ⟨m, agrees, first.trans reached⟩
  | left =>
    obtain ⟨label, exits, arrives⟩ := arrives
    refine ⟨label, exits, fun target placed => ?_⟩
    obtain ⟨m, agrees, reached⟩ := arrives target placed
    exact ⟨m, agrees, first.trans reached⟩
  | returned value =>
    obtain ⟨m, agrees, finished⟩ := arrives
    exact ⟨m, agrees, first.finishes finished⟩

/-- A run that came to its end may go on. -/
theorem Arrives.onward {further : Nat}
    (arrives : Arrives arith whole slot ids exit? start next cells printed exit)
    (goes : ∀ m, Reaches arith whole ⟨next, m, printed⟩ ⟨further, m, printed⟩) :
    Arrives arith whole slot ids exit? start further cells printed exit := by
  cases exit with
  | normal =>
    obtain ⟨m, agrees, reached⟩ := arrives
    exact ⟨m, agrees, reached.trans (goes m)⟩
  | left => exact arrives
  | returned value => exact arrives

theorem Arrives.ending {further : Nat}
    (arrives : Arrives arith whole slot ids exit? start next cells printed exit)
    (same : next = further) : Arrives arith whole slot ids exit? start further cells printed exit :=
  same ▸ arrives

end Arrival

/-- Code carries a task out: wherever it stands in the function, the machine follows each run. -/
def Carries (arith : Arithmetic) (whole : List Instruction) (slot : DeclId → Location)
    (ids : List DeclId) (env : Env) (exit? : Option String) (task : Task) (code : List Instruction) :
    Prop :=
  ∀ ⦃pc : Nat⦄ ⦃cells : Cells⦄ ⦃m : Store⦄ (printed : List Printed) ⦃out : List Datum⦄ ⦃exit : Exit⦄
    ⦃cells' : Cells⦄, CodeAt whole pc code → Agrees slot ids cells m →
    Exec arith env task cells out exit cells' →
    Arrives arith whole slot ids exit? ⟨pc, m, printed⟩ (pc + code.length) cells'
      (printed ++ out.map Datum.printed) exit

/-! ## The rules -/

namespace Carries

variable {exit? : Option String} {site : StmtSite} {test : Expr} {body yes no : Stmt}
  {code₁ code₂ code₃ : List Instruction} {loc : Location}

theorem block {decls : List Decl} {stmts : List Stmt}
    (inside : Carries arith whole slot ids (Env.declare env decls) exit? (.all stmts) code) :
    Carries arith whole slot ids env exit? (.stmt (.block site decls stmts)) code := by
  intro pc cells m printed out exit cells' at_ agrees run
  cases run with
  | block run => exact inside printed at_ agrees run

theorem nil : Carries arith whole slot ids env exit? (.all []) [] := by
  intro pc cells m printed out exit cells' _ agrees run
  cases run with
  | nil => exact ⟨m, agrees, by simpa using Reaches.refl _⟩

theorem cons {s : Stmt} {rest : List Stmt}
    (first : Carries arith whole slot ids env exit? (.stmt s) code₁)
    (second : Carries arith whole slot ids env exit? (.all rest) code₂) :
    Carries arith whole slot ids env exit? (.all (s :: rest)) (code₁ ++ code₂) := by
  intro pc cells m printed out exit cells' at_ agrees run
  rw [List.length_append, ← Nat.add_assoc]
  cases run with
  | cons run later =>
    obtain ⟨m₁, agrees₁, reached⟩ := first printed at_.left agrees run
    rw [List.map_append, ← List.append_assoc]
    exact .after reached (second _ at_.right agrees₁ later)
  | stop run ends =>
    cases exit with
    | normal => exact absurd rfl ends
    | left => exact first printed at_.left agrees run
    | returned value => exact first printed at_.left agrees run

/-- Behind a label the code goes on. -/
private theorem past_label {pc : Nat} {label : String} {rest : List Instruction} {m : Store}
    {printed : List Printed} (at_ : CodeAt whole pc (.label label :: rest)) :
    Reaches arith whole ⟨pc, m, printed⟩ ⟨pc + 1, m, printed⟩ := by
  have passes : Reaches arith whole ⟨pc, m, printed⟩ ⟨pc + 1, m, printed ++ []⟩ :=
    reaches_effect at_.fetch rfl
  rwa [List.append_nil] at passes

/-- A test that holds lets the code behind it run. -/
private theorem test_holds (apart : Apart whole slot ids) {pc : Nat} {cells : Cells} {m : Store}
    (printed : List Printed) {label : String} {rest : List Instruction}
    (evaluates : Evaluates arith slot ids env test code₁ loc)
    (at_ : CodeAt whole pc (code₁ ++ .jumpIfZero loc label :: rest)) (agrees : Agrees slot ids cells m)
    (holds : test.eval arith env cells = some (.bool true)) :
    ∃ m', Reaches arith whole ⟨pc, m, printed⟩ ⟨pc + code₁.length + 1, m', printed⟩ ∧
      Agrees slot ids cells m' := by
  obtain ⟨m', reached, there, agrees'⟩ := evaluates.reaches apart at_.left agrees printed holds
  exact ⟨m', reached.trans (reaches_past at_.right.fetch (Store.int?_eq_some there) (by decide)), agrees'⟩

/-- A test that fails leads to the label. -/
private theorem test_fails (apart : Apart whole slot ids) {pc target : Nat} {cells : Cells} {m : Store}
    (printed : List Printed) {label : String} {rest after : List Instruction}
    (evaluates : Evaluates arith slot ids env test code₁ loc)
    (at_ : CodeAt whole pc (code₁ ++ .jumpIfZero loc label :: rest))
    (there : CodeAt whole target (.label label :: after)) (agrees : Agrees slot ids cells m)
    (fails : test.eval arith env cells = some (.bool false)) :
    ∃ m', Reaches arith whole ⟨pc, m, printed⟩ ⟨target + 1, m', printed⟩ ∧
      Agrees slot ids cells m' := by
  obtain ⟨m', reached, found, agrees'⟩ := evaluates.reaches apart at_.left agrees printed fails
  have target := there.position apart.labels
  exact ⟨m', reached.trans ((reaches_jumpIfZero at_.right.fetch target (Store.int?_eq_some found)).trans
    (past_label there)), agrees'⟩

theorem ifThen (apart : Apart whole slot ids) {skip : String}
    (evaluates : Evaluates arith slot ids env test code₁ loc)
    (inside : Carries arith whole slot ids env exit? (.stmt body) code₂) :
    Carries arith whole slot ids env exit? (.stmt (.ifThen site test body))
      (code₁ ++ .jumpIfZero loc skip :: (code₂ ++ [.label skip])) := by
  intro pc cells m printed out exit cells' at_ agrees run
  have inner := at_.right.tail
  cases run with
  | taken holds run =>
    obtain ⟨m₁, reached, agrees₁⟩ := test_holds apart printed evaluates at_ agrees holds
    have arrives := (inside printed inner.left agrees₁ run).onward fun _ => past_label inner.right
    exact (arrives.after reached).ending (by simp; omega)
  | skipped fails =>
    obtain ⟨m₁, reached, agrees₁⟩ := test_fails apart printed evaluates at_ inner.right agrees fails
    have arrives : Arrives arith whole slot ids exit? _ _ cells (printed ++ []) .normal :=
      ⟨m₁, agrees₁, by simpa using reached⟩
    exact arrives.ending (by simp; omega)

theorem ifElse (apart : Apart whole slot ids) {other done : String}
    (evaluates : Evaluates arith slot ids env test code₁ loc)
    (first : Carries arith whole slot ids env exit? (.stmt yes) code₂)
    (second : Carries arith whole slot ids env exit? (.stmt no) code₃) :
    Carries arith whole slot ids env exit? (.stmt (.ifElse site test yes no))
      (code₁ ++ .jumpIfZero loc other ::
        (code₂ ++ .jump done :: .label other :: (code₃ ++ [.label done]))) := by
  intro pc cells m printed out exit cells' at_ agrees run
  have inner := at_.right.tail
  have jump := inner.right
  have last := jump.tail.tail.right
  cases run with
  | chosen holds run =>
    obtain ⟨m₁, reached, agrees₁⟩ := test_holds apart printed evaluates at_ agrees holds
    have leaves : ∀ m, Reaches arith whole ⟨_, m, printed ++ out.map Datum.printed⟩ ⟨_, m, _⟩ :=
      fun m => (reaches_jump jump.fetch (last.position apart.labels)).trans (past_label last)
    exact (((first printed inner.left agrees₁ run).onward leaves).after reached).ending (by simp; omega)
  | other fails run =>
    obtain ⟨m₁, reached, agrees₁⟩ := test_fails apart printed evaluates at_ jump.tail agrees fails
    have arrives := (second printed jump.tail.tail.left agrees₁ run).onward fun _ => past_label last
    exact (arrives.after reached).ending (by simp; omega)

/-- A loop is followed round by round: the machine is back at the top when a round is over. -/
theorem loop (apart : Apart whole slot ids) {step : Option Expr} {top exit : String}
    (evaluates : Evaluates arith slot ids env test code₁ loc)
    (inside : Carries arith whole slot ids env (some exit) (.stmt body) code₂)
    (steps : Performs arith slot ids (Assigns arith env step) code₃) :
    Carries arith whole slot ids env exit? (.loop test step body)
      (.label top :: (code₁ ++ .jumpIfZero loc exit ::
        (code₂ ++ (code₃ ++ [.jump top, .label exit])))) := by
  intro pc cells m printed out ending cells' at_ agrees run
  have tested := at_.tail
  have inner := tested.right.tail
  have stepping := inner.right
  have jump := stepping.right
  have last := jump.tail
  generalize rounds : Task.loop test step body = task at run
  induction run generalizing m printed with
  | ended fails =>
    cases rounds
    obtain ⟨m₁, reached, agrees₁⟩ := test_fails apart printed evaluates tested last agrees fails
    have arrives : Arrives arith whole slot ids exit? _ _ _ (printed ++ []) .normal :=
      ⟨m₁, agrees₁, by simpa using (past_label at_).trans reached⟩
    exact arrives.ending (by simp; omega)
  | again holds run stepped _ _ ih =>
    cases rounds
    obtain ⟨m₁, reached, agrees₁⟩ := test_holds apart printed evaluates tested agrees holds
    obtain ⟨m₂, agrees₂, through⟩ := inside printed inner.left agrees₁ run
    obtain ⟨m₃, after, agrees₃⟩ := steps.reaches apart stepping.left agrees₂ _ ⟨stepped, rfl⟩
    rw [List.map_nil, List.append_nil] at after
    rw [List.map_append, ← List.append_assoc printed]
    have round := (past_label at_).trans (reached.trans (through.trans (after.trans
      (reaches_jump jump.fetch (at_.position apart.labels)))))
    exact (ih evaluates inside steps _ agrees₃ rfl).after round
  | broken holds run =>
    cases rounds
    obtain ⟨m₁, reached, agrees₁⟩ := test_holds apart printed evaluates tested agrees holds
    obtain ⟨label, same, leaves⟩ := inside printed inner.left agrees₁ run
    cases same
    obtain ⟨m₂, agrees₂, through⟩ := leaves _ (last.position apart.labels)
    have arrives : Arrives arith whole slot ids exit? _ _ _ _ .normal :=
      ⟨m₂, agrees₂, (past_label at_).trans (reached.trans (through.trans (past_label last)))⟩
    exact arrives.ending (by simp; omega)
  | gone holds run =>
    cases rounds
    obtain ⟨m₁, reached, agrees₁⟩ := test_holds apart printed evaluates tested agrees holds
    obtain ⟨m₂, agrees₂, finished⟩ := inside printed inner.left agrees₁ run
    exact ⟨m₂, agrees₂, ((past_label at_).trans reached).finishes finished⟩
  | block | taken | skipped | chosen | other | whileLoop | forLoop | ret | retNone | print | leave | expr
  | nil | cons | stop => cases rounds

theorem whileLoop (rounds : Carries arith whole slot ids env exit? (.loop test none body) code) :
    Carries arith whole slot ids env exit? (.stmt (.whileLoop site test body)) code := by
  intro pc cells m printed out exit cells' at_ agrees run
  cases run with
  | whileLoop run => exact rounds printed at_ agrees run

theorem forLoop (apart : Apart whole slot ids) {init step : Option Expr}
    (starts : Performs arith slot ids (Assigns arith env init) code₁)
    (rounds : Carries arith whole slot ids env exit? (.loop test step body) code₂) :
    Carries arith whole slot ids env exit? (.stmt (.forLoop site init test step body))
      (code₁ ++ code₂) := by
  intro pc cells m printed out exit cells' at_ agrees run
  rw [List.length_append, ← Nat.add_assoc]
  cases run with
  | forLoop started run =>
    obtain ⟨m₁, reached, agrees₁⟩ := starts.reaches apart at_.left agrees printed ⟨started, rfl⟩
    rw [List.map_nil, List.append_nil] at reached
    exact (rounds printed at_.right agrees₁ run).after reached

theorem ret (apart : Apart whole slot ids) {e : Expr}
    (evaluates : Evaluates arith slot ids env e code₁ loc) :
    Carries arith whole slot ids env exit? (.stmt (.ret site (some e)))
      (code₁ ++ [.ret (some loc)]) := by
  intro pc cells m printed out exit cells' at_ agrees run
  cases run with
  | ret found =>
    obtain ⟨m₁, reached, there, agrees₁⟩ := evaluates.reaches apart at_.left agrees printed found
    refine ⟨m₁, agrees₁, reached.finishes ⟨_, .refl _, ?_⟩⟩
    simp [step, at_.right.fetch, there]

theorem retNone : Carries arith whole slot ids env exit? (.stmt (.ret site none)) [.ret none] := by
  intro pc cells m printed out exit cells' at_ agrees run
  cases run with
  | retNone =>
    refine ⟨m, agrees, _, .refl _, ?_⟩
    simp [step, at_.fetch]

theorem print (apart : Apart whole slot ids) {args : List Expr}
    (performs : Performs arith slot ids (Prints arith env args) code) :
    Carries arith whole slot ids env exit? (.stmt (.print site args)) code := by
  intro pc cells m printed out exit cells' at_ agrees run
  cases run with
  | print found =>
    obtain ⟨m₁, reached, agrees₁⟩ := performs.reaches apart at_ agrees printed ⟨found, rfl⟩
    exact ⟨m₁, agrees₁, reached⟩

theorem expr (apart : Apart whole slot ids) {e : Expr}
    (performs : Performs arith slot ids (Assigns arith env (some e)) code) :
    Carries arith whole slot ids env exit? (.stmt (.expr site e)) code := by
  intro pc cells m printed out exit cells' at_ agrees run
  cases run with
  | expr assigned =>
    obtain ⟨m₁, reached, agrees₁⟩ := performs.reaches apart at_ agrees printed ⟨assigned, rfl⟩
    exact ⟨m₁, agrees₁, reached⟩

theorem leave {label : String} :
    Carries arith whole slot ids env (some label) (.stmt (.leave site)) [.jump label] := by
  intro pc cells m printed out exit cells' at_ agrees run
  cases run with
  | leave =>
    refine ⟨label, rfl, fun target placed => ⟨m, agrees, ?_⟩⟩
    rw [List.map_nil, List.append_nil]
    exact reaches_jump at_.fetch placed

end Carries

end DecafTac.Lower
