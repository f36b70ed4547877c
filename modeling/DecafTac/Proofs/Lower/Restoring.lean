import DecafTac.Proofs.Lower.Acceptance
import DecafTac.Proofs.Lower.Scoping
import DecafTac.Proofs.Lower.Steps

/-!
What lowering a statement leaves as it was. A block binds names only for as long as it lasts and a loop
is open only while its body is lowered, whether or not something inside fails; an assignment changes no
more than tags. So the names of the function mean the same locations after a statement as before it, and
the same loops are open. The numbers of labels and temporaries only grow.
-/
namespace DecafTac

open Relation (ReflTransGen)

/-! ## Bindings that differ in tags -/

namespace Bindings

/-- The names of each block, with their locations. -/
def places (stack : List (List (String × Value))) : List (List (String × Location)) :=
  stack.map fun table => table.map fun entry => (entry.1, entry.2.loc)

/-- Bindings that have the places of others, block by block. -/
def Alike (b c : Bindings) : Prop :=
  ∀ stack, b.Models stack → ∃ stack', c.Models stack' ∧ places stack' = places stack

/-- Bindings that have the places of others in all blocks but the innermost. -/
def Opens (b c : Bindings) : Prop :=
  ∀ stack, b.Models stack → ∃ top stack', c.Models (top :: stack') ∧ places stack' = places stack

variable {b c d : Bindings} {stack : List (List (String × Value))}

theorem places_retagged (name : String) (tag : Tag) (stack : List (List (String × Value))) :
    places (retagged name tag stack) = places stack := by
  induction stack with
  | nil => rfl
  | cons top rest ih =>
    rw [retagged]
    split
    · simp only [places, List.map_cons, retagIn, List.map_map, List.cons.injEq, and_true]
      refine List.map_congr_left fun entry _ => ?_
      by_cases same : entry.1 = name <;> simp [same, retagValue]
    · rw [places, List.map_cons]
      exact congrArg _ ih

theorem places_lookup (stack : List (List (String × Value))) (name : String) :
    (stack.flatten.lookup name).map Value.loc = (places stack).flatten.lookup name := by
  rw [places, ← List.map_flatten]
  exact (Table.lookup_map_value (fun _ value => value.loc) stack.flatten name).symm

namespace Alike

theorem refl (b : Bindings) : b.Alike b := fun stack models => ⟨stack, models, rfl⟩

theorem trans (one : b.Alike c) (two : c.Alike d) : b.Alike d := by
  intro stack models
  obtain ⟨middle, models', same⟩ := one stack models
  obtain ⟨last, models'', same'⟩ := two middle models'
  exact ⟨last, models'', same'.trans same⟩

theorem retag (b : Bindings) (name : String) (tag : Tag) : b.Alike (b.retag name tag) :=
  fun stack models => ⟨_, models.retag name tag, places_retagged name tag stack⟩

theorem depth (alike : b.Alike c) (models : b.Models stack) : c.depth = b.depth := by
  obtain ⟨stack', models', same⟩ := alike stack models
  have counted := congrArg List.length same
  simp only [places, List.length_map, models.depth, models'.depth] at counted
  omega

theorem lookup (alike : b.Alike c) (models : b.Models stack) (name : String) :
    (c.lookup name).map Value.loc = (b.lookup name).map Value.loc := by
  obtain ⟨stack', models', same⟩ := alike stack models
  rw [models'.lookup, models.lookup, places_lookup, places_lookup, same]

end Alike

namespace Opens

theorem enter (b : Bindings) : b.Opens b.enter := fun stack models => ⟨[], stack, models.enter, rfl⟩

theorem declare (opens : b.Opens c) (name : String) (value : Value) :
    b.Opens (c.declare name value) := by
  intro stack models
  obtain ⟨top, stack', models', same⟩ := opens stack models
  exact ⟨_, stack', models'.declare name value, same⟩

theorem alike (opens : b.Opens c) (alike : c.Alike d) : b.Opens d := by
  intro stack models
  obtain ⟨top, stack', models', same⟩ := opens stack models
  obtain ⟨all, models'', same'⟩ := alike _ models'
  cases all with
  | nil => cases same'
  | cons top' rest => exact ⟨top', rest, models'', (List.cons.inj same').2.trans same⟩

/-- Leaving the innermost block brings the others back. -/
theorem leave (opens : b.Opens c) : b.Alike c.leave := by
  intro stack models
  obtain ⟨top, rest, models', same⟩ := opens stack models
  have more : rest ≠ [] := by
    rintro rfl
    have counted := congrArg List.length same
    simp only [places, List.length_map, models.depth, List.length_nil] at counted
    omega
  have left := models'.leave
  rw [if_neg more] at left
  exact ⟨rest, left, same⟩

end Opens

end Bindings

namespace Lower

/-! ## Statements -/

/-- What a step inside a function leaves as it was: the places of names, and the open loops. -/
structure Restored (before after : LowerState) : Prop where
  bindings : before.bindings.Alike after.bindings
  loops : after.loops = before.loops

theorem Restored.trans {s t u : LowerState} (one : Restored s t) (two : Restored t u) : Restored s u :=
  ⟨one.bindings.trans two.bindings, two.loops.trans one.loops⟩

/-- No loop among some nodes is open. -/
def ClosedTo (nodes : List Node) (s : LowerState) : Prop :=
  ∀ entry ∈ s.loops.exits, Node.stmt entry.1 ∉ nodes

/-- A step that, where no loop among some nodes is open, leaves all as it was. -/
def Restores (nodes : List Node) {α : Type} (step : Lower α) : Prop :=
  ∀ s, ClosedTo nodes s → Restored s (step s).state

namespace Restores

variable {α β : Type} {nodes : List Node}

theorem bind {step : Lower α} {rest : α → Lower β} (first : Restores nodes step)
    (second : ∀ a, Restores nodes (rest a)) : Restores nodes (step >>= rest) := by
  intro s apart
  have one := first s apart
  rw [Lower.bind_apply]
  cases (step s).value with
  | error error => exact one
  | ok a =>
    refine one.trans (second a (step s).state ?_)
    rw [ClosedTo, one.loops]
    exact apart

theorem still {step : Lower α} (same : ∀ s, (step s).state.bindings = s.bindings)
    (loops : ∀ s, (step s).state.loops = s.loops) : Restores nodes step := by
  intro s _
  refine ⟨?_, loops s⟩
  rw [same]
  exact .refl _

theorem retag (name : String) (tag : Tag) :
    Restores nodes (Lower.modify (LowerState.retag · name tag)) := by
  intro s _
  simp only [Lower.modify, LowerState.retag]
  split
  · exact ⟨.retag _ name tag, rfl⟩
  · exact ⟨.refl _, rfl⟩

/-- Expressions leave all as it was. -/
theorem closed (nodes : List Node) : Closed fun _ step => Restores nodes step where
  pure _ := .still (fun _ => rfl) fun _ => rfl
  bind := .bind
  fail _ := .still (fun _ => rfl) fun _ => rfl
  get := .still (fun _ => rfl) fun _ => rfl
  shape := .still (fun _ => rfl) fun _ => rfl
  emit _ := .still (fun _ => rfl) fun _ => rfl
  retag := .retag

theorem emit (step : Emit α) : Restores nodes (Lower.emit step) := (closed nodes).emit step

theorem mono {more : List Node} {step : Lower α} (restores : Restores nodes step)
    (within : nodes ⊆ more) : Restores more step :=
  fun s apart => restores s fun entry open' inside => apart entry open' (within inside)

end Restores

/-- The variables of a block are bound in the innermost block. -/
theorem declareLocals_opens (decls : List Decl) {b : Bindings} {s : LowerState}
    (opens : b.Opens s.bindings) :
    (declareLocals decls s).value = .ok () ∧ b.Opens (declareLocals decls s).state.bindings ∧
      (declareLocals decls s).state.loops = s.loops := by
  induction decls generalizing s with
  | nil => exact ⟨rfl, opens, rfl⟩
  | cons decl rest ih =>
    cases decl with
    | var id name type => exact ih (opens.declare _ _)
    | cls | interface | prototype | function => exact ih opens

theorem inBlock_restores {nodes : List Node} (decls : List Decl) {body : Lower Unit}
    (restores : Restores nodes body) :
    Restores nodes (inBlock do
      declareLocals decls
      body) := by
  intro s apart
  obtain ⟨done, opens, loops⟩ := declareLocals_opens decls
    (s := { s with bindings := s.bindings.enter }) (.enter s.bindings)
  have inside := restores (declareLocals decls { s with bindings := s.bindings.enter }).state
    (by rw [ClosedTo, loops]; exact apart)
  have ran : ((do declareLocals decls; body) { s with bindings := s.bindings.enter }).state =
      (body (declareLocals decls { s with bindings := s.bindings.enter }).state).state := by
    rw [Lower.bind_apply, done]
  refine ⟨?_, ?_⟩
  · show s.bindings.Alike
      ((do declareLocals decls; body) { s with bindings := s.bindings.enter }).state.bindings.leave
    rw [ran]
    exact (opens.alike inside.bindings).leave
  · show ((do declareLocals decls; body) { s with bindings := s.bindings.enter }).state.loops = s.loops
    rw [ran]
    exact inside.loops.trans loops

/-- A loop that was not open is open while its body is lowered, and no longer. -/
theorem inLoop_restores {inner nodes : List Node} (id : StmtId) (exit : String) {body : Lower Unit}
    (own : Node.stmt id ∈ nodes) (within : inner ⊆ nodes) (fresh : Node.stmt id ∉ inner)
    (restores : Restores inner body) : Restores nodes (inLoop id exit body) := by
  intro s apart
  have others : s.loops.exits.filter (·.1 != id) = s.loops.exits := by
    refine List.filter_eq_self.mpr fun entry listed => ?_
    refine bne_iff_ne.mpr fun same => apart entry listed ?_
    rwa [same]
  have entered : s.loops.enter id exit = ⟨(id, exit) :: s.loops.exits⟩ := by
    rw [LoopExits.enter, others]
  have inside := restores { s with loops := s.loops.enter id exit } (by
    intro entry listed
    rw [entered] at listed
    rcases List.mem_cons.mp listed with rfl | listed
    · exact fresh
    · exact fun member => apart entry listed (within member))
  refine ⟨inside.bindings, ?_⟩
  show (body { s with loops := s.loops.enter id exit }).state.loops.leave id = s.loops
  rw [inside.loops, entered, LoopExits.leave, List.filter_cons_of_neg (by simp), others]

theorem loop_restores {inner nodes : List Node} (id : StmtId) {test : Lower Value}
    {body step : Lower Unit} (own : Node.stmt id ∈ nodes) (within : inner ⊆ nodes)
    (fresh : Node.stmt id ∉ inner) (tests : Restores nodes test) (rounds : Restores inner body)
    (steps : Restores nodes step) : Restores nodes (loop id test body step) :=
  (Restores.emit _).bind fun _ => (Restores.emit _).bind fun _ => (Restores.emit _).bind fun _ =>
    tests.bind fun _ => (Restores.emit _).bind fun _ =>
      (inLoop_restores id _ own within fresh rounds).bind fun _ => steps.bind fun _ =>
        (Restores.emit _).bind fun _ => .emit _

section Statements

variable (arena : Arena) (layouts : Layouts)

/-- A part of a statement in which no node occurs twice is such a statement, and does not hold the node
of the whole. -/
private theorem nodes_part {whole : Stmt} (single : (Tree.stmt whole).nodes.Nodup) (part : Stmt)
    (child : Tree.stmt part ∈ (Tree.stmt whole).children) :
    (Tree.stmt part).nodes.Nodup ∧ (Tree.stmt part).nodes ⊆ (Tree.stmt whole).nodes ∧
      Node.stmt whole.id ∉ (Tree.stmt part).nodes := by
  have sublist := Tree.nodes_sublist child
  rw [Tree.nodes_eq, List.nodup_cons] at single
  rw [Tree.nodes_eq (.stmt whole)]
  exact ⟨sublist.nodup single.2, fun node member => List.mem_cons_of_mem _ (sublist.subset member),
    fun member => single.1 (sublist.subset member)⟩

mutual

/-- A statement in which no node occurs twice leaves all as it was. -/
theorem stmt_restores : ∀ body : Stmt, (Tree.stmt body).nodes.Nodup →
    Restores (Tree.stmt body).nodes (stmt arena layouts body)
  | .block _ decls body, single =>
    inBlock_restores decls (stmts_restores body fun part member =>
      have ⟨once, within, _⟩ := nodes_part single part (by simp [Tree.children, Stmt.children, member])
      ⟨once, within⟩)
  | .ifThen _ test body, single =>
    have ⟨once, within, _⟩ := nodes_part single body (by simp [Tree.children, Stmt.children])
    ((Restores.closed _).value layouts test).bind fun _ => (Restores.emit _).bind fun _ =>
      (Restores.emit _).bind fun _ => ((stmt_restores body once).mono within).bind fun _ => .emit _
  | .ifElse _ test yes no, single =>
    have ⟨once, within, _⟩ := nodes_part single yes (by simp [Tree.children, Stmt.children])
    have ⟨once', within', _⟩ := nodes_part single no (by simp [Tree.children, Stmt.children])
    ((Restores.closed _).value layouts test).bind fun _ => (Restores.emit _).bind fun _ =>
      (Restores.emit _).bind fun _ => ((stmt_restores yes once).mono within).bind fun _ =>
        (Restores.emit _).bind fun _ => (Restores.emit _).bind fun _ => (Restores.emit _).bind fun _ =>
          ((stmt_restores no once').mono within').bind fun _ => .emit _
  | .whileLoop site test body, single =>
    have ⟨once, within, fresh⟩ := nodes_part single body (by simp [Tree.children, Stmt.children])
    loop_restores site.id (by rw [Tree.nodes_eq]; exact List.mem_cons_self) within fresh
      ((Restores.closed _).value layouts test) (stmt_restores body once) ((Restores.closed _).pure ())
  | .forLoop site init test step body, single =>
    have ⟨once, within, fresh⟩ := nodes_part single body (by simp [Tree.children, Stmt.children])
    ((Restores.closed _).optionalEffect layouts init).bind fun _ =>
      loop_restores site.id (by rw [Tree.nodes_eq]; exact List.mem_cons_self) within fresh
        ((Restores.closed _).value layouts test) (stmt_restores body once)
        ((Restores.closed _).optionalEffect layouts step)
  | .ret _ none, _ => .emit _
  | .ret _ (some e), _ => ((Restores.closed _).value layouts e).bind fun _ => .emit _
  | .print _ args, _ => (Restores.closed _).printAll layouts args
  | .leave _, _ =>
    (Restores.closed _).get.bind fun _ => ((Restores.closed _).ofOption _ _).bind fun _ => .emit _
  | .expr _ e, _ => (Restores.closed _).effect layouts e
  | .knot _, _ => (Restores.closed _).pure ()

theorem stmts_restores {nodes : List Node} : ∀ body : List Stmt,
    (∀ part ∈ body, (Tree.stmt part).nodes.Nodup ∧ (Tree.stmt part).nodes ⊆ nodes) →
    Restores nodes (stmts arena layouts body)
  | [], _ => (Restores.closed _).pure ()
  | part :: rest, parts =>
    have ⟨⟨once, within⟩, others⟩ := List.forall_mem_cons.mp parts
    ((stmt_restores part once).mono within).bind fun _ => stmts_restores rest others

end

end Statements

/-! ## Where lowering comes to -/

/-- A step after which a state is again as it should be. -/
def Keeps (P : LowerState → Prop) {α : Type} (step : Lower α) : Prop := ∀ s, P s → P (step s).state

theorem Keeps.bind {P : LowerState → Prop} {α β : Type} {step : Lower α} {rest : α → Lower β}
    (first : Keeps P step) (second : ∀ a, Keeps P (rest a)) : Keeps P (step >>= rest) := by
  intro s holds
  rw [Lower.bind_apply]
  cases (step s).value with
  | error error => exact first s holds
  | ok a => exact second a _ (first s holds)

/-- Sites in a row are all lowered from states as they should be. -/
theorem inTurn_keeps {P : LowerState → Prop} {α β : Type} {site : α → Site} {step : α → Lower β}
    {items : List α} {s : LowerState} {visit : Visit} (keeps : ∀ a ∈ items, Keeps P (step a))
    (holds : P s) (listed : visit ∈ inTurn site step items s) : P visit.2 := by
  induction items generalizing s with
  | nil => cases listed
  | cons a rest ih =>
    obtain ⟨first, others⟩ := List.forall_mem_cons.mp keeps
    rcases List.mem_cons.mp listed with rfl | listed
    · exact holds
    · obtain ⟨_, -, listed⟩ := mem_after.mp listed
      exact ih others (first s holds) listed

/-- A state from which some nodes can be lowered: the known locations are there, the bindings are those
of a stack of blocks, and no loop among the nodes is open. -/
structure Admits (nodes : List Node) (s : LowerState) : Prop where
  kept : ∃ arity, s.Kept arity
  modelled : ∃ stack, s.bindings.Models stack
  apart : ClosedTo nodes s

/-- A state between functions in which no loop is open. -/
structure Idle (shape : FrameShape) (globals : Nat) (s : LowerState) : Prop
    extends Between shape globals s where
  closed : s.loops.exits = []

/-- The state that a site is lowered from lets it be lowered. -/
def Admitted (shape : FrameShape) (globals : Nat) : Visit → Prop
  | (.stmt body, s) => Admits (Tree.stmt body).nodes s
  | (.function _ _, s) | (.top _, s) => Idle shape globals s
  | (.place _, _) | (.effect _, _) => True

namespace Admits

variable {nodes : List Node} {s : LowerState}

theorem mono {fewer : List Node} (admits : Admits nodes s) (within : fewer ⊆ nodes) : Admits fewer s :=
  ⟨admits.kept, admits.modelled, fun entry listed inside => admits.apart entry listed (within inside)⟩

/-- A step that is accounted for and leaves all as it was. -/
theorem step {α : Type} {step : Lower α} {gives : α → List Location}
    {vars : LowerState → List (DeclId × Location)} (admits : Admits nodes s)
    (sound : ∀ arity, Sound arity [] [] step gives vars) (restores : Restores nodes step) :
    Admits nodes (step s).state := by
  obtain ⟨⟨arity, kept⟩, ⟨stack, models⟩, apart⟩ := admits
  obtain ⟨-, kept', -⟩ := sound arity s kept (by simp) (by simp)
  obtain ⟨alike, loops⟩ := restores s apart
  obtain ⟨stack', models', -⟩ := alike stack models
  refine ⟨⟨arity, kept'⟩, ⟨stack', models'⟩, ?_⟩
  rw [ClosedTo, loops]
  exact apart

theorem later (admits : Admits nodes s) (labels issued : Nat) : Admits nodes (s.later labels issued) := by
  obtain ⟨⟨arity, kept⟩, modelled, apart⟩ := admits
  exact ⟨⟨arity, kept.inFunction, kept.holds, kept.global⟩, modelled, apart⟩

theorem enterLoop (admits : Admits nodes s) {id : StmtId} (exit : String)
    (fresh : Node.stmt id ∉ nodes) : Admits nodes { s with loops := s.loops.enter id exit } := by
  obtain ⟨⟨arity, kept⟩, modelled, apart⟩ := admits
  refine ⟨⟨arity, kept.inFunction, kept.holds, kept.global⟩, modelled, fun entry listed => ?_⟩
  rcases List.mem_cons.mp listed with rfl | listed
  · exact fresh
  · exact apart entry (List.mem_of_mem_filter listed)

theorem declared (admits : Admits nodes s) (decls : List Decl) :
    Admits nodes (declareLocals decls { s with bindings := s.bindings.enter }).state := by
  obtain ⟨⟨arity, kept⟩, ⟨stack, models⟩, apart⟩ := admits
  obtain ⟨-, kept', -⟩ := declareLocals_sound [] decls { s with bindings := s.bindings.enter }
    ⟨kept.inFunction, kept.holds, kept.global⟩ (by simp) (by simp)
  obtain ⟨-, opens, loops⟩ := declareLocals_opens decls
    (s := { s with bindings := s.bindings.enter }) (.enter s.bindings)
  obtain ⟨top, stack', models', -⟩ := opens stack models
  refine ⟨⟨arity, kept'⟩, ⟨_, models'⟩, ?_⟩
  rw [ClosedTo, loops]
  exact apart

theorem value (admits : Admits nodes s) (layouts : Layouts) (e : Expr) :
    Admits nodes (value layouts e s).state :=
  admits.step (fun _ => value_quiet layouts e) ((Restores.closed nodes).value layouts e)

theorem stmt (admits : Admits nodes s) (arena : Arena) (layouts : Layouts) {part : Stmt}
    (once : (Tree.stmt part).nodes.Nodup) (within : (Tree.stmt part).nodes ⊆ nodes) :
    Admits nodes (stmt arena layouts part s).state :=
  admits.step (fun _ => stmt_sound arena layouts [] part)
    ((stmt_restores arena layouts part once).mono within)

variable {arena : Arena} {layouts : Layouts} {shape : FrameShape} {globals : Nat} {visit : Visit}

theorem loop {id : StmtId} {test : Expr} {body : Stmt} {step : Option Expr}
    (fresh : Node.stmt id ∉ (Tree.stmt body).nodes) (admits : Admits (Tree.stmt body).nodes s)
    (listed : visit ∈ loopParts arena layouts id test body step s) :
    Admitted shape globals visit := by
  rcases List.mem_cons.mp listed with rfl | listed
  · trivial
  · obtain ⟨_, -, listed⟩ := mem_after.mp listed
    rcases List.mem_cons.mp listed with rfl | listed
    · exact (((admits.later 2 1).value layouts test).later 0 1).enterLoop _ fresh
    · obtain ⟨_, -, listed⟩ := mem_after.mp listed
      obtain ⟨e, -, rfl⟩ := List.mem_map.mp listed
      trivial

/-- What a statement comes to can be lowered from the state it is lowered from. -/
theorem comes {whole : Stmt} (single : (Tree.stmt whole).nodes.Nodup)
    (admits : Admits (Tree.stmt whole).nodes s) (listed : visit ∈ stmtParts arena layouts whole s) :
    Admitted shape globals visit := by
  have parts := nodes_part single
  simp only [Tree.children, Stmt.children] at parts
  cases whole with
  | block site decls body =>
    obtain ⟨_, -, listed⟩ := mem_after.mp listed
    have admits := inTurn_keeps (fun part member s admits => by
      obtain ⟨once, within, -⟩ := parts part (by simp [member])
      exact admits.stmt arena layouts once within) (admits.declared decls) listed
    obtain ⟨part, member, same⟩ := mem_inTurn listed
    obtain ⟨-, within, -⟩ := parts part (by simp [member])
    obtain ⟨site, t⟩ := visit
    cases same
    exact admits.mono within
  | ifThen site test body =>
    obtain ⟨-, within, -⟩ := parts body (by simp)
    rcases List.mem_cons.mp listed with rfl | listed
    · trivial
    · obtain ⟨_, -, listed⟩ := mem_after.mp listed
      cases List.mem_singleton.mp listed
      exact ((admits.value layouts test).later 1 1).mono within
  | ifElse site test yes no =>
    obtain ⟨once, within, -⟩ := parts yes (by simp)
    obtain ⟨-, within', -⟩ := parts no (by simp)
    have tested := (admits.value layouts test).later 1 1
    rcases List.mem_cons.mp listed with rfl | listed
    · trivial
    · obtain ⟨_, -, listed⟩ := mem_after.mp listed
      rcases List.mem_cons.mp listed with rfl | listed
      · exact tested.mono within
      · obtain ⟨_, -, listed⟩ := mem_after.mp listed
        cases List.mem_singleton.mp listed
        exact ((tested.stmt arena layouts once within).later 1 2).mono within'
  | whileLoop site test body =>
    obtain ⟨-, within, fresh⟩ := parts body (by simp)
    exact (admits.mono within).loop fresh listed
  | forLoop site init test step body =>
    obtain ⟨-, within, fresh⟩ := parts body (by simp)
    rcases List.mem_append.mp listed with listed | listed
    · obtain ⟨e, -, rfl⟩ := List.mem_map.mp listed
      trivial
    · obtain ⟨_, -, listed⟩ := mem_after.mp listed
      have begun := (admits.mono within).step (fun _ => optionalEffect_quiet layouts init)
        ((Restores.closed _).optionalEffect layouts init)
      exact begun.loop fresh listed
  | ret site result =>
    obtain ⟨e, -, rfl⟩ := List.mem_map.mp listed
    trivial
  | print site args =>
    obtain ⟨e, -, same⟩ := mem_inTurn listed
    obtain ⟨site, t⟩ := visit
    cases same
    trivial
  | expr site e =>
    cases List.mem_singleton.mp listed
    trivial
  | leave | knot => cases listed

end Admits

section Functions

variable {arena : Arena} {layouts : Layouts} {shape : FrameShape} {globals : Nat} {s : LowerState}

private theorem bindFormals_modelled (e : Emitter) (formals : List Decl) (slot : Nat) {b : Bindings}
    {top : List (String × Value)} (models : b.Models [top]) :
    ∃ top', (bindFormals e formals slot b).Models [top'] := by
  induction formals generalizing slot b top with
  | nil => exact ⟨top, models⟩
  | cons formal rest ih =>
    cases formal with
    | var id name type => exact ih _ (models.declare _ _)
    | cls | interface | prototype | function => exact ih _ models

/-- The body of a function can be lowered from the state it starts in. -/
theorem Idle.started (idle : Idle shape globals s) (layout : Option ClassLayout) (formals : List Decl)
    (nodes : List Node) : Admits nodes (started layout formals s) := by
  refine ⟨⟨_, idle.toBetween.started layout formals⟩, ?_, ?_⟩
  · cases layout with
    | none =>
      obtain ⟨top, models⟩ := bindFormals_modelled _ formals 0 Bindings.models_empty
      exact ⟨[top], models⟩
    | some layout =>
      obtain ⟨top, models⟩ := bindFormals_modelled _ formals 1 Bindings.models_empty
      exact ⟨[top], models⟩
  · intro entry listed
    rw [started_loops, idle.closed] at listed
    cases listed

theorem segment_idle (label : String) (layout : Option ClassLayout) (formals : List Decl)
    {body : Lower Unit} {nodes : List Node} {vars : LowerState → List (DeclId × Location)}
    (sound : ∀ arity, Sound arity [] [] body (fun _ => []) vars) (restores : Restores nodes body) :
    Keeps (Idle shape globals) (segment label layout formals body) := by
  intro s idle
  have opened := started_emitter layout formals s
  have ended : Between shape globals (body (started layout formals s)).state := by
    refine (sound _).between (idle.toBetween.started layout formals) ?_ ?_
    · rw [opened]
      exact idle.shaped
    · rw [opened]
      exact idle.counted
  have loops := (restores _ (idle.started layout formals nodes).apart).loops
  rw [started_loops] at loops
  rw [segment_apply]
  refine ⟨⟨ended.shaped, ended.counted, ended.stored⟩, ?_⟩
  show (body (started layout formals s)).state.loops.exits = []
  rw [loops, idle.closed]

variable (arena layouts)

theorem function_idle (layout : Option ClassLayout) {decl : Decl}
    (single : (Tree.decl decl).nodes.Nodup) :
    Keeps (Idle shape globals) (function arena layouts layout decl) := by
  cases decl with
  | var | cls | interface => exact fun _ idle => idle
  | prototype id name result formals =>
    exact segment_idle _ layout formals (fun _ => .pure _ _ (by simp)) ((Restores.closed []).pure ())
  | function id name result formals body =>
    have once : (Tree.stmt body).nodes.Nodup := by
      rw [Tree.nodes_eq, List.nodup_cons] at single
      exact (Tree.nodes_sublist (by simp [Tree.children, Decl.children])).nodup single.2
    exact segment_idle _ layout formals (fun _ => stmt_sound arena layouts [] body)
      (stmt_restores arena layouts body once)

theorem methods_idle (layout : ClassLayout) {members : List Decl}
    (single : ∀ member ∈ members, (Tree.decl member).nodes.Nodup) :
    Keeps (Idle shape globals) (methods arena layouts layout members) := by
  induction members with
  | nil => exact fun _ idle => idle
  | cons member rest ih =>
    obtain ⟨first, others⟩ := List.forall_mem_cons.mp single
    exact (function_idle arena layouts (some layout) first).bind fun _ => ih others

theorem topLevel_idle {decl : Decl} (single : ∀ sub ∈ (Tree.decl decl).subtrees, sub.nodes.Nodup) :
    Keeps (Idle shape globals) (topLevel arena layouts decl) := by
  cases decl with
  | cls id name superclass interfaces members =>
    have found : Keeps (Idle shape globals) (classLayout layouts name.name) := by
      intro s idle
      rw [classLayout]
      cases layouts.class? name.name <;> exact idle
    refine found.bind fun layout => (methods_idle arena layouts layout ?_).bind fun _ => ?_
    · intro member listed
      exact single _ (Tree.part_subtrees (List.mem_map_of_mem listed) (Tree.self_mem_subtrees _))
    · exact fun s idle => ⟨⟨idle.shaped, idle.counted, idle.stored⟩, idle.closed⟩
  | var | interface | prototype | function =>
    exact function_idle arena layouts none (single _ (Tree.self_mem_subtrees _))

end Functions

/-- What lowering a statement leaves as it was, and what it only lets grow. -/
structure SameContext (before after : LowerState) : Prop where
  depth : after.bindings.depth = before.bindings.depth
  /-- Every name has the location it had; its tag may differ. -/
  located : ∀ name, (after.bindings.lookup name).map Value.loc =
    (before.bindings.lookup name).map Value.loc
  loops : after.loops = before.loops
  method : after.method = before.method
  labels : before.emitter.nextLabel ≤ after.emitter.nextLabel
  temps : before.emitter.nextTemp ≤ after.emitter.nextTemp

end Lower

open Lower (Visit Site Comes)

namespace Program

variable {program : Program} {layouts : Layouts} {shape : FrameShape} {visit whole part : Visit}

theorem Coherent.nodes_single (coherent : program.Coherent) {t : Tree} (inside : t ∈ program.subtrees) :
    t.nodes.Nodup :=
  coherent.arena.single _ _ (coherent.stored_subtrees t inside)

/-- What a site comes to can be lowered from the state it is lowered from. -/
theorem Coherent.admitted_part (coherent : program.Coherent) {globals : Nat}
    (inside : whole.1.tree ∈ program.subtrees) (admitted : Lower.Admitted shape globals whole)
    (comes : Comes program.arena layouts whole part) : Lower.Admitted shape globals part := by
  obtain ⟨site, s⟩ := whole
  have expression {e : Expr} (same : part.1.tree = .expr e) : Lower.Admitted shape globals part := by
    obtain ⟨site, t⟩ := part
    cases site with
    | place | effect => trivial
    | stmt | function | top => cases same
  cases site with
  | place e | effect e =>
    rcases comes.below.tree with ⟨same, -⟩ | child
    · exact expression same
    · obtain ⟨operand, -, same⟩ := List.mem_map.mp child
      exact expression same.symm
  | stmt body => exact admitted.comes (coherent.nodes_single inside) comes
  | function layout decl =>
    cases decl with
    | function id name result formals body =>
      cases List.mem_singleton.mp comes
      exact admitted.started layout formals _
    | var | cls | interface | prototype => cases comes
  | top decl =>
    cases decl with
    | cls id name superclass interfaces members =>
      simp only [Comes, Site.parts] at comes
      cases found : layouts.class? name.name with
      | none =>
        rw [found] at comes
        cases comes
      | some layout =>
        rw [found] at comes
        have idle := Lower.inTurn_keeps (fun member listed => Lower.function_idle program.arena layouts
          (some layout) (coherent.nodes_single (part_inside inside (List.mem_map_of_mem listed))))
          admitted comes
        obtain ⟨member, -, same⟩ := Lower.mem_inTurn comes
        obtain ⟨site, t⟩ := part
        cases same
        exact idle
    | var | interface | prototype | function =>
      cases List.mem_singleton.mp comes
      exact admitted

/-- Wherever lowering comes to, the state lets it go on. -/
theorem Anchored.admitted_reached (anchored : program.Anchored)
    (reached : program.Reaches layouts shape visit) :
    Lower.Admitted shape (Lower.varsAmong program.top).length visit := by
  obtain ⟨root, listed, path⟩ := reached
  induction path with
  | refl =>
    have opened : Lower.Idle shape (Lower.varsAmong program.top).length
        (Lower.opening program.top shape) := by
      refine ⟨Lower.opening_between program.top shape, ?_⟩
      obtain ⟨globals, opened⟩ := Lower.opening_eq program.top shape
      rw [opened]
    have idle := Lower.inTurn_keeps (fun decl top => Lower.topLevel_idle program.arena layouts
      fun sub inside => anchored.nodes_single (subtrees_closed (top_inside top) inside)) opened listed
    obtain ⟨decl, -, same⟩ := Lower.mem_inTurn listed
    obtain ⟨site, s⟩ := root
    cases same
    exact idle
  | tail path comes ih =>
    exact anchored.admitted_part (anchored.fits_reached ⟨root, listed, path⟩).inside ih comes

/-- Lowering a statement restores its context. Wherever lowering comes to a statement, and however
lowering it ends, the function has the same names at the same locations afterwards and the same loops are
open, with the same ends; the class and the receiver are unchanged, and no label or temporary is numbered
anew. -/
theorem context_restored (built : program.Built) {body : Stmt} {s : LowerState}
    (reached : program.Reaches layouts shape (.stmt body, s)) :
    Lower.SameContext s (Lower.stmt program.arena layouts body s).state := by
  have anchored := built.anchored
  have single := anchored.nodes_single (anchored.fits_reached reached).inside
  obtain ⟨⟨arity, kept⟩, ⟨stack, models⟩, apart⟩ := anchored.admitted_reached reached
  obtain ⟨alike, loops⟩ := Lower.stmt_restores program.arena layouts body single s apart
  obtain ⟨advance, -⟩ := Lower.stmt_sound program.arena layouts [] body s kept (by simp) (by simp)
  exact
    { depth := alike.depth models
      located := alike.lookup models
      loops := loops
      method := (Lower.stmt_inner program.arena layouts body s).1.method
      labels := advance.labels
      temps := advance.temps }

end Program

namespace Stranded

/-- A function with a loop around a block that hides a variable and fails at a name that means
nothing. -/
def steps : List Step :=
  let word (name : String) : Ident := ⟨name, default⟩
  [ .var (word "x") (.primitive .int), .var (word "x") (.primitive .bool), .name (word "x"),
    .name (word "y"), .assign ⟨0⟩ ⟨1⟩, .expr ⟨2⟩, .block [⟨1⟩] [⟨0⟩] default, .bool true default,
    .whileLoop ⟨3⟩ ⟨1⟩ default, .block [⟨0⟩] [⟨2⟩] default,
    .function (word "main") (.primitive .void) [] (some ⟨3⟩) ]

/-- The block. -/
def inner : Stmt :=
  .block ⟨⟨1⟩, default⟩ [.var ⟨1⟩ ⟨"x", default⟩ (.primitive .bool)]
    [.expr ⟨⟨0⟩, default⟩ (.assign ⟨⟨2⟩, default⟩ (.name ⟨⟨0⟩, default⟩ ⟨"x", default⟩)
      (.name ⟨⟨1⟩, default⟩ ⟨"y", default⟩))]

/-- The loop around it. -/
def rounds : Stmt := .whileLoop ⟨⟨2⟩, default⟩ (.bool ⟨⟨3⟩, default⟩ true) inner

/-- The body of the function. -/
def body : Stmt := .block ⟨⟨3⟩, default⟩ [.var ⟨0⟩ ⟨"x", default⟩ (.primitive .int)] [rounds]

def main : Decl := .function ⟨2⟩ ⟨"main", default⟩ (.primitive .void) [] body

/-- The state that the block is lowered from. -/
def begun : LowerState where
  emitter := { shape := {}, nextLabel := 2, nextTemp := 1, locals := 2, inFunction := true, issued := 5 }
  bindings := { visible := [("x", ⟨⟨⟨"x", .frame, -8⟩, .int⟩, 1⟩)], depth := 1 }
  loops := ⟨[(⟨2⟩, Emitter.labelName 1)]⟩

private theorem steps_top : (Program.assemble steps [⟨2⟩]).map Program.top = some [main] := by rfl

private theorem begun_reached {program : Program} (top : program.top = [main]) :
    program.Reaches {} {} (.stmt inner, begun) := by
  rw [Program.Reaches, top]
  let start := Lower.started none [] (Lower.opening [main] {})
  let looping := (Lower.declareLocals [.var ⟨0⟩ ⟨"x", default⟩ (.primitive .int)]
    { start with bindings := start.bindings.enter }).state
  have first : Comes program.arena {} (.stmt body, start) (.stmt rounds, looping) := by
    rw [Comes, Site.parts, body, Lower.stmtParts, Lower.mem_after]
    exact ⟨(), rfl, List.mem_cons_self⟩
  have second : Comes program.arena {} (.stmt rounds, looping) (.stmt inner, begun) := by
    rw [Comes, Site.parts, rounds, Lower.stmtParts, Lower.loopParts]
    exact List.mem_cons_of_mem _ (Lower.mem_after.mpr ⟨_, rfl, List.mem_cons_self⟩)
  refine ⟨_, List.mem_cons_self, ?_⟩
  exact .head (List.mem_singleton_self _) (.head (List.mem_singleton_self _) (.head first (.single second)))

end Stranded

/-- In the loop the block fails with its own variable bound; afterwards the name is that of the outer
variable again, and the loop is open as before. -/
theorem Program.context_restored_stranded :
    ∃ program, Program.assemble Stranded.steps [⟨2⟩] = some program ∧
      program.Reaches {} {} (.stmt Stranded.inner, Stranded.begun) ∧
      (Lower.stmt program.arena {} Stranded.inner Stranded.begun).value = .error (.unboundName "y") ∧
      Lower.SameContext Stranded.begun
        (Lower.stmt program.arena {} Stranded.inner Stranded.begun).state := by
  obtain ⟨program, made, top⟩ := Option.map_eq_some_iff.mp Stranded.steps_top
  have reached := Stranded.begun_reached top
  exact ⟨program, made, reached, rfl,
    Program.context_restored (Program.built_of_assemble made) reached⟩

end DecafTac
