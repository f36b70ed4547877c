import DecafTac.Proofs.Lower.Form
import DecafTac.Proofs.Lower.Frames
import DecafTac.Proofs.Source.Forest

/-!
The parts of a listing. A program that is lowered to its end gives one segment for each function and one
method table for each class, in the order of the program; the bodies of the segments are formed, and
take their labels one after the other.
-/
namespace DecafTac

/-- What a part of a listing is for: a function, by its label, or the table of a class. -/
inductive Heading where
  | function (label : String)
  | table (cls : String) (methods : List String)

/-- The label of a function. -/
def Heading.label? : Heading → Option String
  | .function label => some label
  | .table .. => none

/-- A part of a listing: the segment of a function, or the method table of a class. -/
inductive Part where
  | segment (label : String) (body : List Instruction) (size : Int)
  | table (cls : String) (methods : List String)

namespace Part

def code : Part → List Instruction
  | .segment label body size => .label label :: .beginFunc :: (body ++ [.endFunc size])
  | .table cls methods => [.methodTable cls methods]

def heading : Part → Heading
  | .segment label _ _ => .function label
  | .table cls methods => .table cls methods

end Part

/-- Parts with formed bodies, which take the labels from one number to another. -/
inductive Assembled (refs : References) : Nat → List Part → Nat → Prop where
  | nil {n : Nat} : Assembled refs n [] n
  | segment {n m k : Nat} {body : List Instruction} {parts : List Part} (label : String) (size : Int)
      (formed : Formed refs [] n body m) (rest : Assembled refs m parts k) :
      Assembled refs n (.segment label body size :: parts) k
  | table {n k : Nat} {parts : List Part} (cls : String) (methods : List String)
      (rest : Assembled refs n parts k) : Assembled refs n (.table cls methods :: parts) k

namespace Assembled

variable {refs : References}

theorem append {n m k : Nat} {first second : List Part} (one : Assembled refs n first m)
    (two : Assembled refs m second k) : Assembled refs n (first ++ second) k := by
  induction one with
  | nil => exact two
  | segment label size formed _ ih => exact .segment label size formed (ih two)
  | table cls methods _ ih => exact .table cls methods (ih two)

end Assembled

namespace Lower

/-- The headings of a function. -/
def functionHeadings (layout : Option ClassLayout) (decl : Decl) : List Heading :=
  if decl.isFunction then [.function (functionLabel layout decl.name)] else []

/-- The headings of a top-level declaration: those of a class are its methods and then its table. -/
def headings (layouts : Layouts) : Decl → List Heading
  | .cls _ name _ _ members =>
    match layouts.class? name.name with
    | some layout =>
      members.flatMap (functionHeadings (some layout)) ++ [.table layout.name layout.table]
    | none => []
  | decl => functionHeadings none decl

section Steps

variable {α β : Type} {refs : References}

/-- A step between functions that gives parts with the given headings when it succeeds. -/
def Assembles (refs : References) (heads : List Heading) (step : Lower α) : Prop :=
  ∀ s a t code, step s = ⟨.ok a, t, code⟩ → s.emitter.shape.slotSize = refs.slotSize →
    s.loops.exits = [] → ∃ parts, code = parts.flatMap Part.code ∧ parts.map Part.heading = heads ∧
      Assembled refs s.emitter.nextLabel parts t.emitter.nextLabel ∧
      t.emitter.shape = s.emitter.shape ∧ t.loops.exits = []

namespace Assembles

theorem pure (a : α) : Assembles refs [] (Pure.pure a : Lower α) := by
  intro s _ _ _ run _ closed
  cases run
  exact ⟨[], rfl, rfl, .nil, rfl, closed⟩

theorem bind {heads₁ heads₂ : List Heading} {step : Lower α} {rest : α → Lower β}
    (first : Assembles refs heads₁ step) (second : ∀ a, Assembles refs heads₂ (rest a)) :
    Assembles refs (heads₁ ++ heads₂) (step >>= rest) := by
  intro s b u code run sized closed
  obtain ⟨a, t, code₁, code₂, one, two, rfl⟩ := bind_run run
  obtain ⟨parts₁, rfl, heads₁, assembled₁, shape₁, closed₁⟩ := first s a t code₁ one sized closed
  obtain ⟨parts₂, rfl, heads₂, assembled₂, shape₂, closed₂⟩ :=
    second a t b u code₂ two (by rw [shape₁, sized]) closed₁
  exact ⟨parts₁ ++ parts₂, List.flatMap_append.symm, by rw [List.map_append, heads₁, heads₂],
    assembled₁.append assembled₂, shape₂.trans shape₁, closed₂⟩

end Assembles

theorem started_loops (layout : Option ClassLayout) (formals : List Decl) (s : LowerState) :
    (started layout formals s).loops = s.loops := by
  cases layout <;> rfl

/-- The segment of a body that gives formed code. -/
theorem segment_assembles (label : String) (layout : Option ClassLayout) (formals : List Decl)
    {body : Lower Unit} (forms : Forms refs [] body) :
    Assembles refs [.function label] (segment label layout formals body) := by
  intro s u t code run sized closed
  rw [segment_apply] at run
  obtain ⟨value, rfl, rfl⟩ := Emitted.mk.inj run
  have opened := started_emitter layout formals s
  have shaped : (started layout formals s).emitter.shape = s.emitter.shape := by rw [opened]
  have numbered : (started layout formals s).emitter.nextLabel = s.emitter.nextLabel := by rw [opened]
  have none : (started layout formals s).loops.exits = [] := by rw [started_loops, closed]
  obtain ⟨formed, shape, loops⟩ := forms (started layout formals s) u _ _ (by rw [← value])
    (by rw [shaped, sized]) (by simp [none])
  rw [numbered] at formed
  rw [none] at loops
  exact ⟨[.segment label _ _], (List.flatMap_singleton ..).symm, rfl, .segment label _ formed .nil,
    shape.trans shaped, List.subset_nil.mp loops⟩

theorem methodTable_assembles (layout : ClassLayout) :
    Assembles refs [.table layout.name layout.table] (methodTable layout) := by
  intro s _ _ _ run _ closed
  cases run
  exact ⟨[.table layout.name layout.table], rfl, rfl, .table _ _ .nil, rfl, closed⟩

end Steps

section Program

variable (arena : Arena) {layouts : Layouts} {trees : List Tree} {slotSize : Int}

theorem function_assembles (layout : Option ClassLayout) (decl : Decl)
    (within : (Tree.decl decl).subtrees ⊆ trees) :
    Assembles (references layouts trees slotSize) (functionHeadings layout decl)
      (function arena layouts layout decl) := by
  cases decl with
  | var | cls | interface => exact .pure ()
  | prototype id name result formals => exact segment_assembles _ layout formals (.pure ())
  | function id name result formals body =>
    refine segment_assembles _ layout formals (stmt_forms [] body ?_)
    exact part_within within (by simp [Tree.children, Decl.children])

theorem methods_assembles (layout : ClassLayout) (members : List Decl)
    (within : ∀ decl ∈ members, (Tree.decl decl).subtrees ⊆ trees) :
    Assembles (references layouts trees slotSize) (members.flatMap (functionHeadings (some layout)))
      (methods arena layouts layout members) := by
  induction members with
  | nil => exact .pure ()
  | cons member rest ih =>
    rw [List.forall_mem_cons] at within
    exact (function_assembles arena (some layout) member within.1).bind fun _ => ih within.2

theorem topLevel_assembles (decl : Decl) (within : (Tree.decl decl).subtrees ⊆ trees) :
    Assembles (references layouts trees slotSize) (headings layouts decl)
      (topLevel arena layouts decl) := by
  cases decl with
  | cls id name superclass interfaces members =>
    intro s u t code run sized closed
    obtain ⟨layout, _, _, code', laidOut, run', rfl⟩ := bind_run run
    obtain ⟨found, rfl, rfl⟩ := ofOption_run laidOut
    have parts : Assembles (references layouts trees slotSize) _ _ :=
      (methods_assembles arena layout members fun member inside =>
        part_within within (List.mem_map_of_mem inside)).bind fun _ => methodTable_assembles layout
    rw [headings, found]
    exact parts _ u t code' run' sized closed
  | var | interface | prototype | function =>
    exact function_assembles arena none _ within

theorem topLevels_assembles (decls : List Decl)
    (within : ∀ decl ∈ decls, (Tree.decl decl).subtrees ⊆ trees) :
    Assembles (references layouts trees slotSize) (decls.flatMap (headings layouts))
      (topLevels arena layouts decls) := by
  induction decls with
  | nil => exact .pure ()
  | cons decl rest ih =>
    rw [List.forall_mem_cons] at within
    exact (topLevel_assembles arena decl within.1).bind fun _ => ih within.2

end Program

end Lower

/-- The headings of the parts that a program is lowered to. -/
def Program.headings (program : Program) (layouts : Layouts) : List Heading :=
  program.top.flatMap (Lower.headings layouts)

/-- The labels of the functions that a program is lowered to. -/
def Program.entryLabels (program : Program) (layouts : Layouts) : List String :=
  (program.headings layouts).filterMap Heading.label?

/-- A segment is for a function that code is generated for. -/
theorem Program.lowers_of_label {program : Program} {layouts : Layouts} {label : String}
    (listed : label ∈ program.entryLabels layouts) :
    ∃ layout decl, program.Lowers layouts layout decl ∧
      label = Lower.functionLabel layout decl.name := by
  have one {layout : Option ClassLayout} {decl : Decl}
      (member : .function label ∈ Lower.functionHeadings layout decl) :
      decl.isFunction = true ∧ label = Lower.functionLabel layout decl.name := by
    unfold Lower.functionHeadings at member
    split at member
    · rename_i isFunction
      exact ⟨isFunction, Heading.function.inj (List.mem_singleton.mp member)⟩
    · cases member
  obtain ⟨heading, member, same⟩ := List.mem_filterMap.mp listed
  cases heading with
  | table => cases same
  | function other =>
    cases same
    obtain ⟨decl, top, member⟩ := List.mem_flatMap.mp member
    unfold Lower.headings at member
    split at member
    · split at member
      · rename_i layout laidOut
        rcases List.mem_append.mp member with member | member
        · obtain ⟨method, among, member⟩ := List.mem_flatMap.mp member
          obtain ⟨isFunction, named⟩ := one member
          exact ⟨some layout, method, .method top laidOut among isFunction, named⟩
        · cases List.mem_singleton.mp member
      · cases member
    · obtain ⟨isFunction, named⟩ := one member
      exact ⟨none, decl, .top top isFunction, named⟩

/-- A program that is lowered to its end gives its parts, numbered through from zero. -/
theorem Program.generate_parts {program : Program} {layouts : Layouts} {shape : FrameShape}
    {summary : Summary} (succeeds : (program.generate layouts shape).outcome = .ok summary) :
    ∃ parts n, (program.generate layouts shape).code = parts.flatMap Part.code ∧
      parts.map Part.heading = program.headings layouts ∧
      Assembled (Lower.references layouts program.subtrees shape.slotSize) 0 parts n := by
  unfold Program.generate at succeeds ⊢
  split at succeeds
  · rename_i entry
    rw [if_pos entry]
    have within : ∀ decl ∈ program.top, (Tree.decl decl).subtrees ⊆ program.subtrees :=
      fun decl member sub inside =>
        List.mem_flatMap.mpr ⟨.decl decl, List.mem_map_of_mem member, inside⟩
    obtain ⟨globals, opened⟩ := Lower.opening_eq program.top shape
    simp only [Lower.program_apply, opened] at succeeds ⊢
    cases result : Lower.topLevels program.arena layouts program.top _ with
    | mk value t code =>
      rw [result] at succeeds
      cases value with
      | error e => cases succeeds
      | ok u =>
        obtain ⟨parts, made, heads, assembled, -⟩ :=
          Lower.topLevels_assembles program.arena program.top within _ u t code result rfl rfl
        exact ⟨parts, _, made, heads, assembled⟩
  · cases succeeds

end DecafTac
