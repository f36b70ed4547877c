import DecafTac.Proofs.Lower.Bracketing
import DecafTac.Proofs.Lower.Renumbering

/-!
Functions are lowered independently. From one function to the next, lowering keeps the variables of the
program with their tags, and the next numbers. Assigning an object to a variable of the program gives the
variable the tag of the object, and later functions see it. Where no function leaves another tag behind,
what a function is lowered to depends on the functions before it by the numbers alone. So code generation
succeeds or fails whatever the order of functions and classes, and gives each function the same segment.
-/
namespace DecafTac

open Renumbering (Ends Any)

/-- Parts of two listings that are the same up to the numbers of temporaries and labels. -/
inductive Part.Renumbered (names : List String) : Part → Part → Prop where
  | segment {body body' : List Instruction} (label : String) (size : Int) (temps labels : Nat × Nat)
      (same : List.Forall₂ (Renumbering.Instr ⟨names, temps, labels⟩) body body') :
      Renumbered names (.segment label body size) (.segment label body' size)
  | table (cls : String) (methods : List String) :
      Renumbered names (.table cls methods) (.table cls methods)

/-- The name of a variable. -/
def Tree.storageName? : Tree → Option String
  | .decl (.var _ name _) => some name.name
  | _ => none

/-- The names under which a program keeps storage: those of its variables, and that of the receiver. -/
def Program.storageNames (program : Program) : List String :=
  "this" :: program.subtrees.filterMap Tree.storageName?

/-- The variables that are declared in a target have these names. -/
def Target.Named (names : List String) : Target → Prop
  | .function _ decl => ∀ id name type,
      Tree.decl (.var id name type) ∈ (Tree.decl decl).subtrees → name.name ∈ names
  | .table _ => True

/-- The numbers that come next in two states. -/
def Renumbering.next (names : List String) (s s' : LowerState) : Renumbering where
  names
  temps := (s.emitter.nextTemp, s'.emitter.nextTemp)
  labels := (s.emitter.nextLabel, s'.emitter.nextLabel)

namespace Lower

/-! ## Between functions -/

/-- A state between functions, with these variables of the program and no loop open. -/
structure Resting (shape : FrameShape) (count : Nat) (globals : List (String × Value))
    (s : LowerState) : Prop extends Between shape count s where
  known : s.globals = globals
  closed : s.loops.exits = []

variable {names : List String} {shape : FrameShape} {count : Nat} {globals : List (String × Value)}
  {s s' : LowerState}

/-- Formals get their slots from the shape alone. -/
theorem bindFormals_shape {e e' : Emitter} (same : e.shape = e'.shape) (formals : List Decl) (slot : Nat)
    (b : Bindings) : bindFormals e formals slot b = bindFormals e' formals slot b := by
  induction formals generalizing slot b with
  | nil => rfl
  | cons formal rest ih =>
    cases formal with
    | var id name type =>
      rw [bindFormals, bindFormals, ih, Emitter.param, Emitter.param, same]
    | cls | interface | prototype | function => exact ih (slot + 1) b

theorem bindFormals_named (e : Emitter) {formals : List Decl}
    (named : ∀ id name type, Decl.var id name type ∈ formals → name.name ∈ names) (slot : Nat)
    {b : Bindings} (before : ∀ loc ∈ b.locations, loc.name ∈ names) :
    ∀ loc ∈ (bindFormals e formals slot b).locations, loc.name ∈ names := by
  induction formals generalizing slot b with
  | nil => exact before
  | cons formal rest ih =>
    have later := ih fun id name type member => named id name type (List.mem_cons_of_mem _ member)
    cases formal with
    | var id name type =>
      apply later
      intro loc member
      rcases List.mem_cons.mp (declare_locations _ _ _ member) with rfl | old
      · exact named id name type List.mem_cons_self
      · exact before loc old
    | cls | interface | prototype | function => exact later (slot + 1) before

/-- From two such states, the body of a function starts alike. -/
theorem Resting.starts_alike (first : Resting shape count globals s)
    (second : Resting shape count globals s') (receiver : "this" ∈ names)
    (stored : ∀ entry ∈ globals, entry.2.loc.name ∈ names) (layout : Option ClassLayout)
    {formals : List Decl}
    (named : ∀ id name type, Decl.var id name type ∈ formals → name.name ∈ names) :
    (Renumbering.next names s s').States (started layout formals s) (started layout formals s') := by
  have shapes : s.emitter.shape = s'.emitter.shape := first.shaped.trans second.shaped.symm
  have same : s.globals = s'.globals := first.known.trans second.known.symm
  have outside : ∀ loc ∈ s.globals.map (·.2.loc), loc.name ∈ names := by
    rw [first.known, List.forall_mem_map]
    exact stored
  have emitters : (Renumbering.next names s s').Emitters (started layout formals s).emitter
      (started layout formals s').emitter := by
    rw [started_emitter, started_emitter]
    exact ⟨shapes, rfl, first.counted.trans second.counted.symm, rfl, ⟨0, rfl, rfl⟩, ⟨0, rfl, rfl⟩⟩
  have exits : (Renumbering.next names s s').Exits (started layout formals s).loops.exits
      (started layout formals s').loops.exits := by
    rw [started_loops, started_loops, first.closed, second.closed]
    exact .nil
  -- a method knows its receiver besides its formals and the variables of the program
  cases layout with
  | none =>
    refine ⟨emitters, same, bindFormals_shape ?_ formals 0 {}, rfl, exits, fun loc member => ?_⟩
    · exact shapes
    · simp only [LowerState.locations, List.mem_append] at member
      rcases member with (member | member) | member
      · exact bindFormals_named _ named 0 (by simp [Bindings.locations]) loc member
      · cases member
      · exact outside loc member
  | some layout =>
    refine ⟨emitters, same, bindFormals_shape ?_ formals 1 {}, ?_, exits, fun loc member => ?_⟩
    · exact shapes
    · simp only [started, openFrame, Emitter.param, shapes]
    · simp only [LowerState.locations, List.mem_append] at member
      rcases member with (member | member) | member
      · exact bindFormals_named _ named 1 (by simp [Bindings.locations]) loc member
      · cases List.mem_singleton.mp member
        exact receiver
      · exact outside loc member

/-- A target that is lowered to its end leaves no loop open. -/
theorem target_closes {arena : Arena} {layouts : Layouts} {t : Target} (proper : t.Proper)
    (closed : s.loops.exits = []) (succeeds : (target arena layouts t s).value = .ok ()) :
    (target arena layouts t s).state.loops.exits = [] := by
  have lowering := target_lowering arena layouts proper
  generalize target arena layouts t = step at lowering succeeds ⊢
  have run : step s = ⟨.ok (), (step s).state, (step s).code⟩ := by rw [← succeeds]
  cases lowering with
  | @function cls layout decl signature inside signed =>
    rw [← function_segment arena layouts signed] at run ⊢
    obtain ⟨-, -, -, -, -, left⟩ := function_assembles arena layout decl (List.Subset.refl _)
      s () _ _ run rfl closed
    exact left
  | table laidOut => exact closed
  | unknown missing => cases succeeds

/-! ## One target in two states -/

section Targets

variable {arena : Arena} {layouts layouts' : Layouts} {t : Target}

theorem bodyOf_alike {r : Renumbering} (agree : layouts.Agree layouts') {decl : Decl}
    (covers : r.Covers (.decl decl)) :
    r.Lowers Any (bodyOf arena layouts decl) (bodyOf arena layouts' decl) := by
  cases decl with
  | function id name result formals body =>
    refine Renumbering.stmt_lowers arena agree body (covers.part ?_)
    simp [Tree.children, Decl.children]
  | var | cls | interface | prototype => exact .pure trivial

/-- The body of a function, in two states between functions. -/
theorem body_runs_alike (agree : layouts.Agree layouts') {cls : Option String} {decl : Decl}
    (named : (Target.function cls decl).Named names) (receiver : "this" ∈ names)
    (stored : ∀ entry ∈ globals, entry.2.loc.name ∈ names) (first : Resting shape count globals s)
    (second : Resting shape count globals s') {signature : Signature}
    (signed : decl.signature? = some signature) (layout : Option ClassLayout) :
    (Renumbering.next names s s').States
        (bodyOf arena layouts decl (started layout signature.formals s)).state
        (bodyOf arena layouts' decl (started layout signature.formals s')).state ∧
      List.Forall₂ (Renumbering.next names s s').Instr
        (bodyOf arena layouts decl (started layout signature.formals s)).code
        (bodyOf arena layouts' decl (started layout signature.formals s')).code ∧
      Ends Any (bodyOf arena layouts decl (started layout signature.formals s)).value
        (bodyOf arena layouts' decl (started layout signature.formals s')).value := by
  have formals : ∀ id name type, Decl.var id name type ∈ signature.formals → name.name ∈ names := by
    intro id name type member
    apply named id name type
    refine Tree.part_subtrees ?_ (Tree.self_mem_subtrees _)
    cases decl with
    | var | cls | interface => cases signed
    | prototype | function =>
      cases signed
      simp [Tree.children, Decl.children, member]
  have covers : (Renumbering.next names s s').Covers (.decl decl) := named
  exact bodyOf_alike agree covers _ _ (first.starts_alike second receiver stored layout formals)

theorem inClass_unique (agree : layouts.Agree layouts') {cls : Option String}
    {layout layout' : Option ClassLayout} (first : Target.InClass layouts cls layout)
    (second : Target.InClass layouts' cls layout') : layout = layout' := by
  cases first with
  | none =>
    cases second
    rfl
  | some found =>
    cases second with
    | some found' =>
      rw [agree.classes] at found
      rw [Option.some.inj (found.symm.trans found')]

/-- What a target is lowered to is the same in both states, up to the numbers. -/
theorem gives_alike (agree : layouts.Agree layouts') (named : t.Named names)
    (receiver : "this" ∈ names) (stored : ∀ entry ∈ globals, entry.2.loc.name ∈ names)
    (first : Resting shape count globals s) (second : Resting shape count globals s')
    {part part' : Part} (one : t.Gives arena layouts s part) (other : t.Gives arena layouts' s' part') :
    part.Renumbered names part' := by
  cases one with
  | function inside signed lowered =>
    cases other with
    | function inside' signed' lowered' =>
      cases signed.symm.trans signed'
      cases inClass_unique agree inside inside'
      subst lowered lowered'
      obtain ⟨after, code, -⟩ :=
        body_runs_alike agree named receiver stored first second signed _
      rw [after.emitter.locals, after.emitter.shape]
      exact .segment _ _ _ _ code
  | table laidOut =>
    cases other with
    | table laidOut' =>
      rw [agree.classes] at laidOut
      cases laidOut.symm.trans laidOut'
      exact .table _ _

/-- A function fails in both states or in neither, and leaves the same variables behind. -/
theorem function_alike (agree : layouts.Agree layouts') {cls : Option String} {decl : Decl}
    (isFunction : decl.isFunction = true) (named : (Target.function cls decl).Named names)
    (receiver : "this" ∈ names) (stored : ∀ entry ∈ globals, entry.2.loc.name ∈ names)
    (first : Resting shape count globals s) (second : Resting shape count globals s')
    (layout : Option ClassLayout) :
    Ends Any (function arena layouts layout decl s).value
        (function arena layouts' layout decl s').value ∧
      (function arena layouts layout decl s).state.globals =
        (function arena layouts' layout decl s').state.globals := by
  obtain ⟨signature, signed⟩ := Decl.signature_of_function isFunction
  rw [function_segment arena layouts signed, function_segment arena layouts' signed, segment_apply,
    segment_apply]
  obtain ⟨after, -, ends⟩ := body_runs_alike agree named receiver stored first second signed layout
  exact ⟨ends, after.globals⟩

/-- So does every target. -/
theorem target_alike (agree : layouts.Agree layouts') (proper : t.Proper) (named : t.Named names)
    (receiver : "this" ∈ names) (stored : ∀ entry ∈ globals, entry.2.loc.name ∈ names)
    (first : Resting shape count globals s) (second : Resting shape count globals s') :
    Ends Any (target arena layouts t s).value (target arena layouts' t s').value ∧
      (target arena layouts t s).state.globals = (target arena layouts' t s').state.globals := by
  have same : s.globals = s'.globals := first.known.trans second.known.symm
  cases t with
  | function cls decl =>
    cases cls with
    | none => exact function_alike agree proper named receiver stored first second none
    | some cls =>
      rw [target, target]
      cases laidOut : layouts.class? cls with
      | none =>
        rw [classLayout_unknown layouts laidOut,
          classLayout_unknown layouts' (agree.classes cls ▸ laidOut), fail_bind, fail_bind]
        exact ⟨.error _, same⟩
      | some layout =>
        rw [classLayout_known layouts laidOut,
          classLayout_known layouts' (agree.classes cls ▸ laidOut), Lower.pure_bind, Lower.pure_bind]
        exact function_alike agree proper named receiver stored first second (some layout)
  | table cls =>
    rw [target, target]
    cases laidOut : layouts.class? cls with
    | none =>
      rw [classLayout_unknown layouts laidOut,
        classLayout_unknown layouts' (agree.classes cls ▸ laidOut), fail_bind]
      exact ⟨.error _, same⟩
    | some layout =>
      rw [classLayout_known layouts laidOut,
        classLayout_known layouts' (agree.classes cls ▸ laidOut), Lower.pure_bind]
      exact ⟨.ok trivial, same⟩

end Targets

/-! ## Targets in a row -/

/-- A target that can be lowered by itself leaves the variables of the program as it finds them. -/
def Steady (arena : Arena) (layouts : Layouts) (s : LowerState) (t : Target) : Prop :=
  (target arena layouts t s).value = .ok () → (target arena layouts t s).state.globals = s.globals

instance (arena : Arena) (layouts : Layouts) (s : LowerState) (t : Target) :
    Decidable (Steady arena layouts s t) :=
  inferInstanceAs (Decidable (_ → _))

section Run

variable {arena : Arena} {layouts layouts' : Layouts} {start : LowerState}

/-- Whether a target can be lowered is told by the start, wherever between functions it is lowered. If it
can, the state is again one between functions. -/
theorem target_rests {t : Target} (agree : layouts.Agree layouts') (proper : t.Proper)
    (named : t.Named names) (receiver : "this" ∈ names)
    (stored : ∀ entry ∈ globals, entry.2.loc.name ∈ names)
    (opened : Resting shape count globals start) (steady : Steady arena layouts start t)
    (rest : Resting shape count globals s) :
    ((target arena layouts' t s).value = .ok () ↔ (target arena layouts t start).value = .ok ()) ∧
      ((target arena layouts' t s).value = .ok () →
        Resting shape count globals (target arena layouts' t s).state) := by
  obtain ⟨ends, same⟩ := target_alike agree proper named receiver stored opened rest
  have alike : (target arena layouts' t s).value = .ok () ↔
      (target arena layouts t start).value = .ok () := by
    generalize (target arena layouts t start).value = result at ends
    generalize (target arena layouts' t s).value = result' at ends
    cases ends <;> simp
  refine ⟨alike, fun succeeds => ?_⟩
  obtain ⟨between, -⟩ := target_brackets arena layouts' proper s rest.toBetween
  refine ⟨between, ?_, target_closes proper rest.closed succeeds⟩
  rw [← same, steady (alike.mp succeeds), opened.known]

/-- Targets are lowered to their end exactly when each of them can be lowered at the start. Then each
gives what it is lowered to in some state between functions. -/
theorem targets_run (agree : layouts.Agree layouts') (receiver : "this" ∈ names)
    (stored : ∀ entry ∈ globals, entry.2.loc.name ∈ names)
    (opened : Resting shape count globals start) (list : List Target)
    (proper : ∀ t ∈ list, t.Proper) (named : ∀ t ∈ list, t.Named names)
    (steady : ∀ t ∈ list, Steady arena layouts start t) (rest : Resting shape count globals s) :
    ((targets arena layouts' list s).value = .ok () ↔
        ∀ t ∈ list, (target arena layouts t start).value = .ok ()) ∧
      ((targets arena layouts' list s).value = .ok () →
        ∃ parts, (targets arena layouts' list s).code = parts.flatMap Part.code ∧
          List.Forall₂ (fun t part => ∃ u, Resting shape count globals u ∧
            t.Gives arena layouts' u part) list parts) := by
  induction list generalizing s with
  | nil => exact ⟨by simp [targets], fun _ => ⟨[], rfl, .nil⟩⟩
  | cons t others ih =>
    rw [List.forall_mem_cons] at proper named steady
    obtain ⟨alike, rests⟩ :=
      target_rests agree proper.1 named.1 receiver stored opened steady.1 rest
    rw [targets, Lower.bind_apply, List.forall_mem_cons, ← alike]
    cases result : (target arena layouts' t s).value with
    | error error =>
      refine ⟨by simp, fun succeeds => ?_⟩
      cases succeeds
    | ok =>
      obtain ⟨later, parts⟩ := ih proper.2 named.2 steady.2 (rests result)
      refine ⟨by simp [later], fun succeeds => ?_⟩
      obtain ⟨part, own, gives⟩ := target_gives arena layouts' proper.1 result
      obtain ⟨parts, code, all⟩ := parts succeeds
      refine ⟨part :: parts, ?_, .cons ⟨s, rest, gives⟩ all⟩
      rw [List.flatMap_cons, own, code]

end Run

/-! ## The start -/

theorem storage_named {e : Emitter} {decls : List Decl}
    (named : ∀ id name type, Decl.var id name type ∈ decls → name.name ∈ names) :
    ∀ entry ∈ storage e decls, entry.2.name ∈ names := by
  induction decls generalizing e with
  | nil => simp [storage]
  | cons decl rest ih =>
    have later {e : Emitter} : ∀ entry ∈ storage e rest, entry.2.name ∈ names :=
      ih fun id name type member => named id name type (List.mem_cons_of_mem _ member)
    cases decl with
    | var id name type =>
      rw [storage, List.forall_mem_cons]
      refine ⟨?_, later⟩
      have own := named id name type List.mem_cons_self
      unfold Emitter.allocate
      split <;> exact own
    | cls | interface | prototype | function => exact later

/-- The start depends on the variables alone, in their order. -/
theorem opening_congr {decls decls' : List Decl} (same : varsAmong decls = varsAmong decls')
    (shape : FrameShape) : opening decls shape = opening decls' shape := by
  have only (decls : List Decl) : declareGlobals decls = declareGlobals (varsAmong decls) := by
    induction decls with
    | nil => rfl
    | cons decl rest ih =>
      cases decl with
      | var id name type =>
        change _ = declareGlobals (.var id name type :: varsAmong rest)
        rw [declareGlobals, declareGlobals, ih]
      | cls | interface | prototype | function => exact ih
  rw [opening, opening, only, same, ← only]

/-- A single variable has no order. -/
theorem varsAmong_eq_of_perm {decls decls' : List Decl} (perm : decls.Perm decls')
    (few : (varsAmong decls).length ≤ 1) : varsAmong decls = varsAmong decls' := by
  have moved : (varsAmong decls).Perm (varsAmong decls') := perm.filter _
  generalize varsAmong decls = found at few moved ⊢
  cases found with
  | nil => exact (List.nil_perm.mp moved).symm
  | cons decl rest =>
    rw [List.length_cons] at few
    obtain rfl : rest = [] := List.length_eq_zero_iff.mp (by omega)
    exact List.singleton_perm.mp moved

theorem opening_rests (decls : List Decl) (shape : FrameShape) :
    Resting shape (varsAmong decls).length (opening decls shape).globals (opening decls shape) := by
  obtain ⟨globals, opened⟩ := opening_eq decls shape
  refine ⟨opening_between decls shape, rfl, ?_⟩
  rw [opened]

theorem opening_named {decls : List Decl} (shape : FrameShape)
    (named : ∀ id name type, Decl.var id name type ∈ decls → name.name ∈ names) :
    ∀ entry ∈ (opening decls shape).globals, entry.2.loc.name ∈ names := by
  obtain ⟨globals, declared, stored⟩ := declareGlobals_apply decls { emitter := { shape } } rfl
  intro entry member
  rw [opening, declared] at member
  have listed : entry.2.loc ∈ globals.map (·.2.loc) := List.mem_map_of_mem member
  rw [stored, List.map_nil, List.append_nil, List.mem_reverse] at listed
  obtain ⟨own, among, same⟩ := List.mem_map.mp listed
  rw [← same]
  exact storage_named named own among

end Lower

/-! ## Programs in another order -/

/-- What is related, one by one, to a list without repetitions is a function of it. -/
theorem exists_map_of_forall₂ {α β : Type} {rel : α → β → Prop} {list : List α} {given : List β}
    (distinct : list.Nodup) (all : List.Forall₂ rel list given) (elsewhere : β) :
    ∃ f : α → β, given = list.map f ∧ ∀ a ∈ list, rel a (f a) := by
  classical
  induction all with
  | nil => exact ⟨fun _ => elsewhere, rfl, by simp⟩
  | @cons a b rest others own _ ih =>
    obtain ⟨fresh, distinct⟩ := List.nodup_cons.mp distinct
    obtain ⟨f, rfl, related⟩ := ih distinct
    have kept : ∀ x ∈ rest, Function.update f a b x = f x := by
      intro x member
      refine Function.update_of_ne (fun same => fresh ?_) b f
      rwa [← same]
    refine ⟨Function.update f a b, ?_, ?_⟩
    · rw [List.map_cons, Function.update_self, List.map_congr_left kept]
    · rw [List.forall_mem_cons, Function.update_self]
      refine ⟨own, fun x member => ?_⟩
      rw [kept x member]
      exact related x member

namespace Program

variable {program one other : Program}

/-- No function of a program that can be lowered by itself, right after the variables have their storage,
leaves one of them with another tag. -/
def Steady (program : Program) (layouts : Layouts) (shape : FrameShape) : Prop :=
  ∀ t ∈ program.targets, Lower.Steady program.arena layouts (Lower.opening program.top shape) t

instance (program : Program) (layouts : Layouts) (shape : FrameShape) :
    Decidable (program.Steady layouts shape) :=
  inferInstanceAs (Decidable (∀ t ∈ program.targets, _))

theorem variable_named {id : DeclId} {name : Ident} {type : TypeExpr}
    (inside : Tree.decl (.var id name type) ∈ program.subtrees) : name.name ∈ program.storageNames :=
  List.mem_cons_of_mem _ (List.mem_filterMap.mpr ⟨_, inside, rfl⟩)

theorem targets_named {t : Target} (member : t ∈ program.targets) : t.Named program.storageNames := by
  cases t with
  | table cls => trivial
  | function cls decl =>
    intro id name type inside
    have standing := targets_inside member
    obtain ⟨root, top, below⟩ := List.mem_flatMap.mp standing
    exact variable_named (List.mem_flatMap.mpr ⟨root, top, Tree.subtrees_trans below inside⟩)

theorem generate_isOk (program : Program) (layouts : Layouts) (shape : FrameShape) :
    (program.generate layouts shape).outcome.isOk = true ↔
      layouts.functions.hasEntryPoint = true ∧
        (Lower.targets program.arena layouts program.targets
          (Lower.opening program.top shape)).value = .ok () := by
  unfold generate
  split
  · rename_i entry
    simp only [Lower.program_apply, Lower.topLevels_eq, entry, true_and]
    rw [targets]
    cases (Lower.targets program.arena layouts _ _).value <;>
      simp [Except.isOk, Except.toBool, Except.map]
  · rename_i missing
    simp [missing, Except.isOk, Except.toBool]

theorem generate_code {layouts : Layouts} (entry : layouts.functions.hasEntryPoint = true)
    (shape : FrameShape) :
    (program.generate layouts shape).code =
      (Lower.targets program.arena layouts program.targets (Lower.opening program.top shape)).code := by
  rw [generate, if_pos entry, Lower.program_apply, Lower.topLevels_eq]
  rfl

/-- Code generation for the same declarations in another order, against layouts that agree. -/
theorem Reordered.generate_alike (reordered : one.Reordered other) (coherent : one.Coherent)
    {layouts layouts' : Layouts} (agree : layouts.Agree layouts') {shape : FrameShape}
    (kept : Lower.varsAmong one.top = Lower.varsAmong other.top) (steady : one.Steady layouts shape) :
    ((one.generate layouts shape).outcome.isOk = (other.generate layouts' shape).outcome.isOk) ∧
      ((one.generate layouts shape).outcome.isOk = true → ∃ before after : Target → Part,
        (one.generate layouts shape).code = one.targets.flatMap (fun t => (before t).code) ∧
        (other.generate layouts' shape).code = other.targets.flatMap (fun t => (after t).code) ∧
        ∀ t ∈ one.targets, (∃ s, t.Gives one.arena layouts s (before t)) ∧
          (before t).Renumbered one.storageNames (after t)) := by
  have perm : one.targets.Perm other.targets := reordered.top.flatMap_right _
  have opened := Lower.opening_rests one.top shape
  have receiver : "this" ∈ one.storageNames := List.mem_cons_self
  have stored : ∀ entry ∈ (Lower.opening one.top shape).globals,
      entry.2.loc.name ∈ one.storageNames :=
    Lower.opening_named shape fun id name type member =>
      variable_named ((Tree.sublist_subtrees _).subset (List.mem_map_of_mem member))
  have start : Lower.opening other.top shape = Lower.opening one.top shape :=
    Lower.opening_congr kept.symm shape
  obtain ⟨alone, parts⟩ := Lower.targets_run (.refl layouts) receiver stored opened one.targets
    (fun _ => targets_proper) (fun _ => targets_named) steady opened
  obtain ⟨alone', parts'⟩ := Lower.targets_run agree receiver stored opened other.targets
    (fun _ => targets_proper) (fun t member => targets_named (perm.mem_iff.mpr member))
    (fun t member => steady t (perm.mem_iff.mpr member)) opened
  have entry : layouts.functions.hasEntryPoint = layouts'.functions.hasEntryPoint := by
    rw [FunctionTable.hasEntryPoint, FunctionTable.hasEntryPoint, agree.functions]
  -- both succeed when there is an entry point and each target can be lowered at the start
  have alike : (one.generate layouts shape).outcome.isOk = true ↔
      (other.generate layouts' shape).outcome.isOk = true := by
    rw [generate_isOk, generate_isOk, ← reordered.arena, start, ← entry, alone, alone']
    simp only [perm.mem_iff]
  refine ⟨Bool.eq_iff_iff.mpr alike, fun succeeds => ?_⟩
  obtain ⟨found, ran⟩ := (generate_isOk _ _ _).mp succeeds
  obtain ⟨found', ran'⟩ := (generate_isOk _ _ _).mp (alike.mp succeeds)
  rw [← reordered.arena, start] at ran'
  obtain ⟨parts, code, gives⟩ := parts ran
  obtain ⟨parts', code', gives'⟩ := parts' ran'
  have distinct := targets_nodup coherent reordered.names
  obtain ⟨before, rfl, own⟩ := exists_map_of_forall₂ distinct gives (.table "" [])
  obtain ⟨after, rfl, own'⟩ :=
    exists_map_of_forall₂ (perm.nodup_iff.mp distinct) gives' (.table "" [])
  refine ⟨before, after, ?_, ?_, fun t member => ?_⟩
  · rw [generate_code found, code, List.flatMap_map]
  · rw [generate_code found', ← reordered.arena, start, code', List.flatMap_map]
  · obtain ⟨s, rest, gives⟩ := own t member
    obtain ⟨s', rest', gives'⟩ := own' t (perm.mem_iff.mp member)
    exact ⟨⟨s, gives⟩, Lower.gives_alike agree (targets_named member) receiver stored rest rest'
      gives gives'⟩

/-- One arena, closed over its declarations in two orders. -/
theorem close_perm {arena : Arena} {top reordered : List DeclId} (ready : arena.Ready (top.map .decl))
    (perm : top.Perm reordered) (closed : arena.close top = .ok one)
    (again : arena.close reordered = .ok other) : one.arena = other.arena ∧ one.top.Perm other.top := by
  have same := Arena.close_ready ready
  have same' := Arena.close_ready (ready.perm (perm.map Node.decl))
  rw [closed] at same
  rw [again] at same'
  cases same
  cases same'
  exact ⟨Arena.adoptAll_perm _ (perm.map _), perm.filterMap _⟩

/-- Functions are lowered independently. An accepted program is closed over the declarations of an arena
in two orders, both with the same order of variables. No function leaves a variable of the program with
another tag, and none has the name that is kept for the element type of another's result. Then compiling
succeeds in both orders or in neither. If it succeeds, the code of each order is a row of parts for its
functions and tables, and the two parts of each function are the same but for the numbers of temporaries
and labels. -/
theorem functions_independent {arena : Arena} {top reordered : List DeclId} {options : Options}
    {analysis : Analysis} (built : arena.Built) (ready : arena.Ready (top.map .decl))
    (perm : top.Perm reordered) (closed : arena.close top = .ok one)
    (again : arena.close reordered = .ok other)
    (kept : Lower.varsAmong one.top = Lower.varsAmong other.top)
    (ran : one.analyze options.shape = .ok analysis) (clean : analysis.reports = [])
    (apart : one.ElementsApart) (steady : one.Steady analysis.layouts options.shape) :
    ∃ first second, one.compile options = .ok first ∧ other.compile options = .ok second ∧
      first.outcome.isOk = second.outcome.isOk ∧
      (first.outcome.isOk = true → ∃ before after : Target → Part,
        first.code = one.targets.flatMap (fun t => (before t).code) ∧
        second.code = other.targets.flatMap (fun t => (after t).code) ∧
        ∀ t ∈ one.targets, (∃ s, t.Gives one.arena analysis.layouts s (before t)) ∧
          (before t).Renumbered one.storageNames (after t)) := by
  have first : one.Built := ⟨arena, top, built, ready, closed⟩
  have second : other.Built := ⟨arena, reordered, built, ready.perm (perm.map _), again⟩
  obtain ⟨accepts, -⟩ := accepts_of_analyze first ran clean
  obtain ⟨same, moved⟩ := close_perm ready perm closed again
  have swapped : one.Reordered other := ⟨same, moved, accepts.top_names⟩
  obtain ⟨analysis', ran', clean', agree⟩ :=
    swapped.accepted first.anchored second.anchored ran clean apart
  refine ⟨_, _, compile_accepted ran clean, compile_accepted ran' clean', ?_⟩
  have okay (generated : Except LowerError Summary) :
      ((generated.map fun summary => (summary, ([] : Diagnostics))).mapError
        CompileError.lowering).isOk = generated.isOk := by
    cases generated <;> rfl
  simp only [okay]
  exact swapped.generate_alike first.coherent agree kept steady

/-- The declarations that are made in steps, closed in two orders. -/
def inOrders? (steps : List Step) (top reordered : List DeclId) :
    Option (Arena × Program × Program) := do
  let arena ← Arena.assemble {} steps
  let one ← (arena.close top).toOption
  let other ← (arena.close reordered).toOption
  return (arena, one, other)

theorem inOrders?_eq_some {steps : List Step} {top reordered : List DeclId} {arena : Arena}
    (made : inOrders? steps top reordered = some (arena, one, other)) :
    arena.Built ∧ arena.close top = .ok one ∧ arena.close reordered = .ok other := by
  simp only [inOrders?, bind, Option.bind_eq_some_iff, pure, Option.some.injEq, Prod.mk.injEq] at made
  obtain ⟨_, made, _, closed, _, again, rfl, rfl, rfl⟩ := made
  exact ⟨Arena.Built.empty.assemble made, Arena.ok_of_toOption closed, Arena.ok_of_toOption again⟩

/-- An interface `I`, a class `C` that implements it, a variable `g` of the given type, a function `f`
that assigns an object of `C` to it, and `main`, which calls a method of what is in `g`. -/
def assigning (type : String) : List Step :=
  let word (name : String) : Ident := ⟨name, default⟩
  [ .function (word "m") (.primitive .void) [] none, .interface (word "I") [⟨0⟩],
    .function (word "m") (.primitive .void) [] none, .cls (word "C") none [word "I"] [⟨2⟩],
    .var (word "g") (.named (word type)),
    .name (word "g"), .new (word "C") default, .assign ⟨0⟩ ⟨1⟩, .expr ⟨2⟩,
    .function (word "f") (.primitive .void) [] (some ⟨0⟩),
    .name (word "g"), .call (some ⟨3⟩) (word "m") [] default, .expr ⟨4⟩,
    .function (word "main") (.primitive .void) [] (some ⟨1⟩) ]

theorem functions_independent_main_first :
    ∃ arena one other analysis first second,
      inOrders? (assigning "C") [⟨1⟩, ⟨3⟩, ⟨4⟩, ⟨5⟩, ⟨6⟩] [⟨6⟩, ⟨1⟩, ⟨3⟩, ⟨4⟩, ⟨5⟩] =
        some (arena, one, other) ∧
      Lower.varsAmong one.top = Lower.varsAmong other.top ∧
      one.analyze {} = .ok analysis ∧ analysis.reports = [] ∧ one.ElementsApart ∧
      one.Steady analysis.layouts {} ∧ one.compile {} = .ok first ∧ other.compile {} = .ok second ∧
      first.outcome.isOk = true ∧ second.outcome.isOk = true ∧
      ∃ before after : Target → Part,
        first.code = one.targets.flatMap (fun t => (before t).code) ∧
        second.code = other.targets.flatMap (fun t => (after t).code) ∧
        ∀ t ∈ one.targets, (∃ s, t.Gives one.arena analysis.layouts s (before t)) ∧
          (before t).Renumbered one.storageNames (after t) := by
  have run : ((inOrders? (assigning "C") [⟨1⟩, ⟨3⟩, ⟨4⟩, ⟨5⟩, ⟨6⟩] [⟨6⟩, ⟨1⟩, ⟨3⟩, ⟨4⟩, ⟨5⟩]).bind
      fun made => (made.2.1.analyze {}).toOption.bind fun analysis =>
      (made.2.1.compile {}).toOption.map fun compiled =>
        (analysis.reports, decide (made.1.Ready ([⟨1⟩, ⟨3⟩, ⟨4⟩, ⟨5⟩, ⟨6⟩].map .decl)),
          decide ((Lower.varsAmong made.2.1.top).length ≤ 1),
          made.2.1.top.all fun f => made.2.1.top.all fun g => f.name != g.name ++ "_elem",
          decide (made.2.1.Steady analysis.layouts {}), compiled.outcome.isOk)) =
      some ([], true, true, true, true, true) := by
    decide +kernel
  simp only [Option.bind_eq_some_iff, Option.map_eq_some_iff, Prod.mk.injEq, Prod.exists,
    decide_eq_true_eq] at run
  obtain ⟨arena, one, other, made, analysis, ran, compiled, compiles, clean, ready, few, apart, steady,
    succeeds⟩ := run
  obtain ⟨built, closed, again⟩ := inOrders?_eq_some made
  have perm : [(⟨1⟩ : DeclId), ⟨3⟩, ⟨4⟩, ⟨5⟩, ⟨6⟩].Perm [⟨6⟩, ⟨1⟩, ⟨3⟩, ⟨4⟩, ⟨5⟩] := by decide
  have kept := Lower.varsAmong_eq_of_perm (close_perm ready perm closed again).2 few
  have apart : one.ElementsApart := by
    intro f first g second same
    have differs := List.all_eq_true.mp (List.all_eq_true.mp apart f first) g second
    simp [same] at differs
  obtain ⟨first, second, compiles', compiles'', alike, parts⟩ :=
    @functions_independent _ _ _ _ _ {} _ built ready perm closed again kept
      (Arena.ok_of_toOption ran) clean apart steady
  cases (Arena.ok_of_toOption compiles).symm.trans compiles'
  exact ⟨arena, one, other, analysis, _, second, made, kept, Arena.ok_of_toOption ran, clean, apart,
    steady, compiles', compiles'', succeeds, alike ▸ succeeds, parts succeeds⟩

/-- A class `C`, a function `all` that gives an array, a function that has the name under which the
element type of that array is kept and gives an object of `C`, and `main`, which calls a method of what
it gives. -/
def elements : List Step :=
  let word (name : String) : Ident := ⟨name, default⟩
  [ .function (word "m") (.primitive .void) [] none, .cls (word "C") none [] [⟨0⟩],
    .function (word "all") (.array (.primitive .int)) [] none,
    .function (word "all_elem") (.named (word "C")) [] none,
    .call none (word "all_elem") [] default, .call (some ⟨0⟩) (word "m") [] default, .expr ⟨1⟩,
    .function (word "main") (.primitive .void) [] (some ⟨0⟩) ]

/-- Nothing is reported about these declarations in either order, and the variables keep theirs, but
compiling succeeds in the first order only. -/
def OrderMatters (steps : List Step) (top reordered : List DeclId) : Prop :=
  ∃ arena one other a b first second, inOrders? steps top reordered = some (arena, one, other) ∧
    arena.Ready (top.map .decl) ∧ top.Perm reordered ∧
    Lower.varsAmong one.top = Lower.varsAmong other.top ∧
    one.analyze {} = .ok a ∧ a.reports = [] ∧ other.analyze {} = .ok b ∧ b.reports = [] ∧
    one.compile {} = .ok first ∧ other.compile {} = .ok second ∧
    first.outcome.isOk = true ∧ second.outcome.isOk = false

theorem orderMatters_of_run {steps : List Step} {top reordered : List DeclId} (perm : top.Perm reordered)
    (run : ((inOrders? steps top reordered).bind fun made =>
      (made.2.1.analyze {}).toOption.bind fun a => (made.2.2.analyze {}).toOption.bind fun b =>
      (made.2.1.compile {}).toOption.bind fun first => (made.2.2.compile {}).toOption.map fun second =>
        (decide (made.1.Ready (top.map .decl)), decide ((Lower.varsAmong made.2.1.top).length ≤ 1),
          a.reports, b.reports, first.outcome.isOk, second.outcome.isOk)) =
      some (true, true, [], [], true, false)) :
    OrderMatters steps top reordered := by
  simp only [Option.bind_eq_some_iff, Option.map_eq_some_iff, Prod.mk.injEq, Prod.exists,
    decide_eq_true_eq] at run
  obtain ⟨arena, one, other, made, a, ran, b, ran', first, compiles, second, compiles', ready, few,
    clean, clean', succeeds, fails⟩ := run
  obtain ⟨-, closed, again⟩ := inOrders?_eq_some made
  exact ⟨arena, one, other, a, b, first, second, made, ready, perm,
    Lower.varsAmong_eq_of_perm (close_perm ready perm closed again).2 few,
    Arena.ok_of_toOption ran, clean, Arena.ok_of_toOption ran', clean', Arena.ok_of_toOption compiles,
    Arena.ok_of_toOption compiles', succeeds, fails⟩

/-- The order matters in two ways. Where `g` is declared with an interface, `main` can call its method
only after `f` has left it with the tag of a class. And where a function has the name that is kept for
the element type of another's result, the later of the two says what it gives. -/
theorem functions_ordered :
    OrderMatters (assigning "I") [⟨1⟩, ⟨3⟩, ⟨4⟩, ⟨5⟩, ⟨6⟩] [⟨6⟩, ⟨1⟩, ⟨3⟩, ⟨4⟩, ⟨5⟩] ∧
      OrderMatters elements [⟨1⟩, ⟨2⟩, ⟨3⟩, ⟨4⟩] [⟨1⟩, ⟨3⟩, ⟨2⟩, ⟨4⟩] := by
  constructor
  · apply orderMatters_of_run (by decide)
    decide +kernel
  · apply orderMatters_of_run (by decide)
    decide +kernel

end Program

end DecafTac
