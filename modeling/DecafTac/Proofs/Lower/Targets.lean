import DecafTac.Proofs.Lower.Parts
import DecafTac.Proofs.Scope.Overriding
import DecafTac.Proofs.Storage.TopLevel

/-!
What code is generated for. A program is lowered function by function and table by table, in the order
of its declarations: lowering it is lowering the list of its targets, one after the other.
-/
namespace DecafTac

/-- What code is generated for: a function, with the name of its class if it is a method, or the method
table of a class. -/
inductive Target where
  | function (cls : Option String) (decl : Decl)
  | table (cls : String)

/-- What code is generated for in a top-level declaration: a function, or the methods of a class and then
its table. -/
def Decl.targets : Decl → List Target
  | .cls _ name _ _ members =>
    (members.filter Decl.isFunction).map (.function (some name.name)) ++ [.table name.name]
  | decl => ([decl].filter Decl.isFunction).map (.function none)

/-- What code is generated for in a program, in order. -/
def Program.targets (program : Program) : List Target := program.top.flatMap Decl.targets

/-- What is lowered as a function is one. -/
def Target.Proper : Target → Prop
  | .function _ decl => decl.isFunction = true
  | .table _ => True

/-- What a declaration is lowered to: functions that stand in it, and a table under its name. -/
theorem Decl.targets_cases {decl : Decl} {t : Target} (member : t ∈ decl.targets) :
    (∃ cls f, t = .function cls f ∧ f.isFunction = true ∧
      Tree.decl f ∈ (Tree.decl decl).subtrees) ∨ t = .table decl.name := by
  have one {cls : Option String} {decls : List Decl}
      (inside : ∀ f ∈ decls, Tree.decl f ∈ (Tree.decl decl).subtrees)
      (member : t ∈ (decls.filter Decl.isFunction).map (Target.function cls)) :
      ∃ cls f, t = .function cls f ∧ f.isFunction = true ∧
        Tree.decl f ∈ (Tree.decl decl).subtrees := by
    obtain ⟨f, chosen, rfl⟩ := List.mem_map.mp member
    obtain ⟨among, isFunction⟩ := List.mem_filter.mp chosen
    exact ⟨cls, f, rfl, isFunction, inside f among⟩
  cases decl with
  | cls id name superclass interfaces members =>
    rcases List.mem_append.mp member with member | member
    · refine .inl (one (fun f among => ?_) member)
      exact Tree.part_subtrees (List.mem_map_of_mem among) (Tree.self_mem_subtrees _)
    · exact .inr (List.mem_singleton.mp member)
  | var | interface | prototype | function =>
    unfold Decl.targets at member
    refine .inl (one (fun f among => ?_) member)
    rw [List.mem_singleton.mp among]
    exact Tree.self_mem_subtrees _

theorem Program.targets_proper {program : Program} {t : Target} (member : t ∈ program.targets) :
    t.Proper := by
  obtain ⟨decl, -, member⟩ := List.mem_flatMap.mp member
  rcases Decl.targets_cases member with ⟨cls, f, rfl, isFunction, -⟩ | rfl
  · exact isFunction
  · trivial

/-- A function that is lowered stands in the program. -/
theorem Program.targets_inside {program : Program} {cls : Option String} {f : Decl}
    (member : .function cls f ∈ program.targets) : Tree.decl f ∈ program.subtrees := by
  obtain ⟨decl, top, member⟩ := List.mem_flatMap.mp member
  rcases Decl.targets_cases member with ⟨_, _, same, -, inside⟩ | same
  · cases same
    exact List.mem_flatMap.mpr ⟨.decl decl, List.mem_map_of_mem top, inside⟩
  · cases same

theorem Decl.targets_nodup {decl : Decl} (single : (Tree.decl decl).subtrees.Nodup) :
    decl.targets.Nodup := by
  have one {own : Option String} {decls : List Decl} (distinct : decls.Nodup) :
      ((decls.filter Decl.isFunction).map (Target.function own)).Nodup :=
    (distinct.filter _).map fun _ _ same => (Target.function.inj same).2
  cases decl with
  | cls id name superclass interfaces members =>
    have parts : (members.map Tree.decl).Nodup := by
      rw [Tree.subtrees_eq] at single
      exact (List.nodup_cons.mp single).2.sublist (Tree.sublist_subtrees _)
    refine (one (List.Nodup.of_map _ parts)).append (List.nodup_singleton _) ?_
    intro t method table
    cases List.mem_singleton.mp table
    obtain ⟨other, -, same⟩ := List.mem_map.mp method
    cases same
  | var | interface | prototype | function =>
    unfold Decl.targets
    exact one (List.nodup_singleton _)

/-- Where top-level names are different, nothing is lowered twice. -/
theorem Program.targets_nodup {program : Program} (coherent : program.Coherent)
    (names : (program.top.map Decl.name).Nodup) : program.targets.Nodup := by
  have single := List.Nodup.of_map _ coherent.single_subtrees
  rw [Program.subtrees, List.nodup_flatMap, List.pairwise_map] at single
  obtain ⟨each, apart⟩ := single
  refine List.nodup_flatMap.mpr ⟨fun d top => ?_, ?_⟩
  · exact Decl.targets_nodup (each _ (List.mem_map_of_mem top))
  · refine (apart.and (List.pairwise_map.mp names)).imp ?_
    rintro d d' ⟨disjoint, different⟩ t first second
    rcases Decl.targets_cases first with ⟨_, _, rfl, -, inside⟩ | rfl
    · rcases Decl.targets_cases second with ⟨_, _, same, -, inside'⟩ | same
      · cases same
        exact disjoint inside inside'
      · cases same
    · rcases Decl.targets_cases second with ⟨_, _, same, -, -⟩ | same
      · cases same
      · exact different (Target.table.inj same)

/-- The label of a function, by the name of its class. -/
def Target.label (cls : Option String) (name : String) : String :=
  (cls.map fun cls => ClassLayout.methodLabel cls name).getD name

/-- The layout that a function is lowered with: that of its class, if it is a method. -/
abbrev Target.InClass (layouts : Layouts) : Option String → Option ClassLayout → Prop :=
  Option.Rel fun name layout => layouts.class? name = some layout

theorem Target.label_eq {layouts : Layouts} {cls : Option String} {layout : Option ClassLayout}
    {name : String} (inside : Target.InClass layouts cls layout) :
    Target.label cls name = Lower.functionLabel layout name := by
  cases inside with
  | none => rfl
  | some laidOut =>
    rw [← Layouts.name_of_class? laidOut]
    rfl

/-- A part of a listing is what a target is lowered to in a state: a segment with the label of a function,
the code of its body and the size of its frame, or the table of a class. -/
inductive Target.Gives (arena : Arena) (layouts : Layouts) (s : LowerState) : Target → Part → Prop where
  | function {cls : Option String} {layout : Option ClassLayout} {decl : Decl} {signature : Signature}
      {run : Emitted LowerState (Except LowerError Unit)} (inside : Target.InClass layouts cls layout)
      (signed : decl.signature? = some signature)
      (lowered : Lower.bodyOf arena layouts decl (Lower.started layout signature.formals s) = run) :
      Gives arena layouts s (.function cls decl) (.segment (Target.label cls decl.name) run.code
        (slotBytes run.state.emitter.shape.slotSize run.state.emitter.locals))
  | table {cls : String} {layout : ClassLayout} (laidOut : layouts.class? cls = some layout) :
      Gives arena layouts s (.table cls) (.table cls layout.table)

namespace Lower

/-! ## Steps in a row -/

section Steps

variable {α β γ : Type}

protected theorem pure_bind (a : α) (f : α → Lower β) : (Pure.pure a >>= f) = f a := rfl

protected theorem bind_assoc (x : Lower α) (f : α → Lower β) (g : β → Lower γ) :
    (x >>= f >>= g) = x >>= fun a => f a >>= g := by
  funext s
  simp only [Lower.bind_apply]
  cases (x s).value with
  | error error => rfl
  | ok a =>
    dsimp only
    cases (f a (x s).state).value with
    | error error => rfl
    | ok b => simp only [List.append_assoc]

/-- A step that is followed by nothing. -/
theorem bind_nothing (x : Lower Unit) : (x >>= fun _ => Pure.pure ()) = x := by
  funext s
  rw [Lower.bind_apply]
  obtain ⟨value, state, code⟩ := x s
  cases value with
  | error error => rfl
  | ok => simp only [Lower.pure_apply, List.append_nil]

/-- Nothing follows a failure. -/
theorem fail_bind (error : LowerError) (f : α → Lower β) : (fail error >>= f) = fail error := rfl

end Steps

/-! ## Targets in a row -/

section Program

variable (arena : Arena) (layouts : Layouts)

/-- Lowers what one part is generated for. -/
def target : Target → Lower Unit
  | .function none decl => function arena layouts none decl
  | .function (some cls) decl => do
    let layout ← classLayout layouts cls
    function arena layouts (some layout) decl
  | .table cls => do
    let layout ← classLayout layouts cls
    methodTable layout

/-- Lowers targets in order. -/
def targets : List Target → Lower Unit
  | [] => return ()
  | t :: rest => do
    target arena layouts t
    targets rest

theorem targets_append (first second : List Target) :
    targets arena layouts (first ++ second) =
      (targets arena layouts first >>= fun _ => targets arena layouts second) := by
  induction first with
  | nil => rfl
  | cons t rest ih => rw [List.cons_append, targets, targets, ih, Lower.bind_assoc]

theorem targets_singleton (t : Target) : targets arena layouts [t] = target arena layouts t :=
  bind_nothing _

/-- Lowering what is no function does nothing. -/
theorem function_skips {decl : Decl} (other : ¬ decl.isFunction = true) (layout : Option ClassLayout) :
    function arena layouts layout decl = Pure.pure () := by
  cases decl with
  | var | cls | interface => rfl
  | prototype | function => exact absurd rfl other

/-- A function that is no method is its own target. -/
theorem function_eq (decl : Decl) :
    function arena layouts none decl =
      targets arena layouts (([decl].filter Decl.isFunction).map (.function none)) := by
  rw [List.filter_cons]
  split
  · exact (targets_singleton arena layouts (.function none decl)).symm
  · rename_i other
    exact function_skips arena layouts other none

theorem classLayout_known {cls : String} {layout : ClassLayout}
    (laidOut : layouts.class? cls = some layout) :
    classLayout layouts cls = Pure.pure layout := by
  rw [classLayout, laidOut]
  rfl

theorem classLayout_unknown {cls : String} (missing : layouts.class? cls = none) :
    classLayout layouts cls = fail (.unknownClass cls) := by
  rw [classLayout, missing]
  rfl

theorem methods_eq {cls : String} {layout : ClassLayout}
    (laidOut : layouts.class? cls = some layout) (members : List Decl) :
    methods arena layouts layout members =
      targets arena layouts ((members.filter Decl.isFunction).map (.function (some cls))) := by
  induction members with
  | nil => rfl
  | cons member rest ih =>
    rw [methods, List.filter_cons, ih]
    split
    · rw [List.map_cons, targets, target, classLayout_known layouts laidOut, Lower.pure_bind]
    · rename_i other
      rw [function_skips arena layouts other, Lower.pure_bind]

/-- Where a class has no layout, the first of its targets fails as the class does. -/
theorem targets_unknown {cls : String} (missing : layouts.class? cls = none) (members : List Decl) :
    targets arena layouts (members.map (.function (some cls)) ++ [.table cls]) =
      fail (.unknownClass cls) := by
  have failing := classLayout_unknown layouts missing
  cases members with
  | nil => rw [List.map_nil, List.nil_append, targets_singleton, target, failing, fail_bind]
  | cons member rest =>
    rw [List.map_cons, List.cons_append, targets, target, failing, fail_bind, fail_bind]

theorem topLevel_eq (decl : Decl) :
    topLevel arena layouts decl = targets arena layouts decl.targets := by
  cases decl with
  | cls id name superclass interfaces members =>
    rw [topLevel, Decl.targets]
    cases laidOut : layouts.class? name.name with
    | none =>
      rw [targets_unknown arena layouts laidOut, classLayout_unknown layouts laidOut, fail_bind]
    | some layout =>
      rw [targets_append, targets_singleton, target, classLayout_known layouts laidOut,
        Lower.pure_bind, Lower.pure_bind, methods_eq arena layouts laidOut]
  | var | interface | prototype | function =>
    unfold topLevel Decl.targets
    exact function_eq arena layouts _

/-- What lowering a target is: a segment or a table, or a failure for want of a layout. -/
inductive Lowering : Target → Lower Unit → Prop where
  | function {cls : Option String} {layout : Option ClassLayout} {decl : Decl} {signature : Signature}
      (inside : Target.InClass layouts cls layout) (signed : decl.signature? = some signature) :
      Lowering (.function cls decl) (segment (functionLabel layout decl.name) layout signature.formals
        (bodyOf arena layouts decl))
  | table {cls : String} {layout : ClassLayout} (laidOut : layouts.class? cls = some layout) :
      Lowering (.table cls) (methodTable layout)
  | unknown {cls : String} (missing : layouts.class? cls = none) (t : Target) :
      Lowering t (fail (.unknownClass cls))

theorem target_lowering {t : Target} (proper : t.Proper) :
    Lowering arena layouts t (target arena layouts t) := by
  have segment_of {cls : Option String} {layout : Option ClassLayout} {decl : Decl}
      (isFunction : decl.isFunction = true) (inside : Target.InClass layouts cls layout) :
      Lowering arena layouts (.function cls decl) (function arena layouts layout decl) := by
    obtain ⟨signature, signed⟩ := Decl.signature_of_function isFunction
    rw [function_segment arena layouts signed]
    exact .function inside signed
  cases t with
  | function cls decl =>
    cases cls with
    | none => exact segment_of proper .none
    | some cls =>
      rw [target]
      cases laidOut : layouts.class? cls with
      | none =>
        rw [classLayout_unknown layouts laidOut, fail_bind]
        exact .unknown laidOut _
      | some layout =>
        rw [classLayout_known layouts laidOut, Lower.pure_bind]
        exact segment_of proper (.some laidOut)
  | table cls =>
    rw [target]
    cases laidOut : layouts.class? cls with
    | none =>
      rw [classLayout_unknown layouts laidOut, fail_bind]
      exact .unknown laidOut _
    | some layout =>
      rw [classLayout_known layouts laidOut, Lower.pure_bind]
      exact .table laidOut

/-- A target that is lowered to its end gives its part. -/
theorem target_gives {t : Target} (proper : t.Proper) {s : LowerState}
    (succeeds : (target arena layouts t s).value = .ok ()) :
    ∃ part, (target arena layouts t s).code = part.code ∧ t.Gives arena layouts s part := by
  have lowering := target_lowering arena layouts proper
  generalize target arena layouts t = step at lowering succeeds ⊢
  cases lowering with
  | function inside signed =>
    refine ⟨_, ?_, .function inside signed rfl⟩
    rw [segment_apply, Target.label_eq inside]
    rfl
  | table laidOut =>
    refine ⟨_, ?_, .table laidOut⟩
    rw [← Layouts.name_of_class? laidOut]
    rfl
  | unknown missing => cases succeeds

/-- Lowering the declarations of a program is lowering its targets. -/
theorem topLevels_eq (decls : List Decl) :
    topLevels arena layouts decls = targets arena layouts (decls.flatMap Decl.targets) := by
  induction decls with
  | nil => rfl
  | cons decl rest ih => rw [topLevels, topLevel_eq, ih, List.flatMap_cons, targets_append]

end Program

end Lower

/-- Compiling a program without reports is generating its code. -/
theorem Program.compile_accepted {program : Program} {options : Options} {analysis : Analysis}
    (ran : program.analyze options.shape = .ok analysis) (clean : analysis.reports = []) :
    program.compile options =
      .ok ⟨((program.generate analysis.layouts options.shape).outcome.map (·, [])).mapError .lowering,
        (program.generate analysis.layouts options.shape).code⟩ := by
  simp only [compile, ran, clean, bind, Except.bind, List.isEmpty_nil, Bool.not_true, Bool.false_and,
    Bool.false_eq_true, if_false]
  cases outcome : (program.generate analysis.layouts options.shape).outcome <;> rfl

end DecafTac
