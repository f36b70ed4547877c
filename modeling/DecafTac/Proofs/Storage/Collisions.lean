import DecafTac.Proofs.Storage.Conformance

/-!
Members of one name in the lineage of a class. In an accepted program, a method that has the name of
something inherited overrides a method of a matching signature. A variable that is declared again further
down is not laid out again. So a class has one field for each name under which its lineage declares
variables, in the order of their first declarations. Nothing is said against a variable that comes behind a
method of its name, and such a name, and no other, is a field and a method at once.
-/
namespace DecafTac

/-- The names of the members of one sort, in order. -/
def Decl.namesOf (fits : Decl → Bool) (members : List Decl) : List String :=
  (members.filter fits).map Decl.name

theorem Decl.namesOf_append_pos {fits : Decl → Bool} {members : List Decl} {member : Decl}
    (fit : fits member = true) : namesOf fits (members ++ [member]) =
      namesOf fits members ++ [member.name] := by
  simp [namesOf, fit]

theorem Decl.namesOf_append_neg {fits : Decl → Bool} {members : List Decl} {member : Decl}
    (other : fits member = false) : namesOf fits (members ++ [member]) = namesOf fits members := by
  simp [namesOf, other]

/-- Whether a declaration is a variable. -/
def Decl.isVar (d : Decl) : Bool := d.varType?.isSome

/-- A method among some members that has the name of an earlier one overrides it: both are methods, and
their signatures match. -/
def MethodsOverride (members : List Decl) : Prop :=
  members.Pairwise fun high low => high.name = low.name → low.isFunction = true →
    ∃ above below, high.signature? = some above ∧ low.signature? = some below ∧ below.Matches above

/-- No variable among some members comes behind a method of its name. -/
def VariablesClear (members : List Decl) : Prop :=
  members.Pairwise fun high low => high.isFunction = true → low.isVar = true → high.name ≠ low.name

instance (members : List Decl) : Decidable (VariablesClear members) :=
  inferInstanceAs (Decidable (List.Pairwise _ _))

/-- Among some members there is a method of the given name and, behind it, a variable. -/
def MethodHidden (members : List Decl) (name : String) : Prop :=
  ∃ method field, [method, field].Sublist members ∧ method.isFunction = true ∧
    field.isVar = true ∧ method.name = name ∧ field.name = name

theorem VariablesClear.not_hidden {members : List Decl} (clear : VariablesClear members) (name : String) :
    ¬ MethodHidden members name := by
  rintro ⟨method, field, inOrder, isFunction, isVar, rfl, named⟩
  exact List.pairwise_iff_forall_sublist.mp clear inOrder isFunction isVar named.symm

/-- A variable is no function. -/
theorem Decl.not_function_of_isVar {d : Decl} (isVar : d.isVar = true) : d.isFunction = false := by
  cases d <;> first | rfl | cases isVar

/-- A method that comes behind a variable has another name: otherwise it would have to override it. -/
theorem MethodsOverride.behind_variable {members : List Decl} (overrides : MethodsOverride members) :
    members.Pairwise fun high low =>
      high.name = low.name → high.isVar = true → low.isFunction = false := by
  refine overrides.imp ?_
  intro high low override named isVar
  by_contra other
  obtain ⟨above, -, known, -⟩ := override named (Bool.of_not_eq_false other)
  have noFunction := Decl.not_function_of_isVar isVar
  rw [Decl.isFunction_eq, known] at noFunction
  cases noFunction

/-- Variables and methods of one name are of one sort, where variables are clear of the methods before
them. -/
theorem MethodsOverride.one_sort {members : List Decl} (overrides : MethodsOverride members)
    (clear : VariablesClear members) :
    members.Pairwise fun high low => high.name = low.name →
      (high.isVar = true → low.isFunction = false) ∧ (high.isFunction = true → low.isVar = false) := by
  refine (overrides.behind_variable.and clear).imp ?_
  rintro high low ⟨behind, apart⟩ named
  refine ⟨behind named, fun isFunction => ?_⟩
  by_contra other
  exact apart isFunction (Bool.of_not_eq_false other) named

/-- A name is that of a variable and of a method exactly when the method comes first. -/
theorem MethodsOverride.hidden_iff {members : List Decl} (overrides : MethodsOverride members)
    (name : String) : MethodHidden members name ↔
      name ∈ Decl.namesOf Decl.isVar members ∧ name ∈ Decl.namesOf Decl.isFunction members := by
  constructor
  · rintro ⟨method, field, inOrder, isFunction, isVar, named, rfl⟩
    have listed : method ∈ members := inOrder.subset List.mem_cons_self
    have among : field ∈ members := inOrder.subset (List.mem_cons_of_mem _ List.mem_cons_self)
    refine ⟨List.mem_map_of_mem (List.mem_filter.mpr ⟨among, isVar⟩), ?_⟩
    rw [← named]
    exact List.mem_map_of_mem (List.mem_filter.mpr ⟨listed, isFunction⟩)
  · rintro ⟨fields, methods⟩
    obtain ⟨field, among, rfl⟩ := List.mem_map.mp fields
    obtain ⟨method, listed, named⟩ := List.mem_map.mp methods
    obtain ⟨among, isVar⟩ := List.mem_filter.mp among
    obtain ⟨listed, isFunction⟩ := List.mem_filter.mp listed
    obtain ⟨before, later, rfl⟩ := List.append_of_mem among
    rcases List.mem_append.mp listed with earlier | listed
    · have inOrder : [method, field].Sublist (before ++ field :: later) :=
        (List.singleton_sublist.mpr earlier).append (List.singleton_sublist.mpr List.mem_cons_self)
      exact ⟨method, field, inOrder, isFunction, isVar, named, rfl⟩
    · rcases List.mem_cons.mp listed with rfl | listed
      · rw [Decl.not_function_of_isVar isVar] at isFunction
        cases isFunction
      · have behind := (List.pairwise_append.mp overrides.behind_variable).2.1
        have other := (List.pairwise_cons.mp behind).1 method listed named.symm isVar
        rw [isFunction] at other
        cases other

namespace ClassLayout

variable {layout : ClassLayout} {members more : List Decl} {slotSize : Int}

/-- A layout has the variables and the methods of some members, each name once. -/
structure Holds (layout : ClassLayout) (members : List Decl) : Prop where
  fields : layout.fields.map Prod.fst = (Decl.namesOf Decl.isVar members).eraseDups
  methods : layout.methods.map Prod.fst = (Decl.namesOf Decl.isFunction members).eraseDups

theorem Holds.start (name : String) : Holds { name } [] := ⟨rfl, rfl⟩

theorem Holds.derive (holds : layout.Holds members) (name : String) :
    (layout.derive name).Holds members := ⟨holds.fields, holds.methods⟩

/-- One more name at the end of some is new, or was there. -/
theorem eraseDups_append_singleton (names : List String) (name : String) :
    (names ++ [name]).eraseDups = withName names.eraseDups name := by
  rw [List.eraseDups_append, withName]
  by_cases there : name ∈ names
  · simp [List.removeAll, there]
  · simp [List.removeAll, there, List.eraseDups_cons]

theorem Holds.hasField (holds : layout.Holds members) (name : String) :
    layout.hasField name = true ↔ name ∈ Decl.namesOf Decl.isVar members := by
  rw [hasField_iff, holds.fields, List.mem_eraseDups]

theorem Holds.hasMethod (holds : layout.Holds members) (name : String) :
    layout.hasMethod name = true ↔ name ∈ Decl.namesOf Decl.isFunction members := by
  rw [hasMethod_iff, holds.methods, List.mem_eraseDups]

/-- A variable comes behind the fields, unless one of its name is there. -/
theorem Holds.addField (holds : layout.Holds members) (member : Decl) {type : TypeExpr}
    (isVar : member.isVar = true) :
    (layout.addField slotSize member.name type).Holds (members ++ [member]) where
  fields := by
    rw [addField_fields, holds.fields, Decl.namesOf_append_pos isVar, eraseDups_append_singleton]
  methods := by
    rw [addField_methods, holds.methods, Decl.namesOf_append_neg (Decl.not_function_of_isVar isVar)]

/-- A method comes behind the others, or takes the place of the one of its name. -/
theorem Holds.addMethod (holds : layout.Holds members) (member : Decl) {result : TypeExpr}
    (isFunction : member.isFunction = true) (noVar : member.isVar = false) :
    (layout.addMethod member.name result).Holds (members ++ [member]) where
  fields := by rw [addMethod_fields, holds.fields, Decl.namesOf_append_neg noVar]
  methods := by
    rw [addMethod_methods, holds.methods, Decl.namesOf_append_pos isFunction, eraseDups_append_singleton]

theorem Holds.addMember (holds : layout.Holds members) (member : Decl) :
    (ClassLayout.addMember slotSize layout member).Holds (members ++ [member]) := by
  cases member with
  | var id name type => exact holds.addField (.var id name type) rfl
  | prototype id name result formals =>
    exact holds.addMethod (.prototype id name result formals) rfl rfl
  | function id name result formals body =>
    exact holds.addMethod (.function id name result formals body) rfl rfl
  | cls | interface =>
    refine ⟨?_, ?_⟩
    · rw [Decl.namesOf_append_neg rfl]
      exact holds.fields
    · rw [Decl.namesOf_append_neg rfl]
      exact holds.methods

theorem Holds.addMembers (holds : layout.Holds members) :
    (more.foldl (ClassLayout.addMember slotSize) layout).Holds (members ++ more) := by
  induction more generalizing layout members with
  | nil => rwa [List.append_nil]
  | cons member rest ih =>
    rw [List.append_cons]
    exact ih (holds.addMember member)

/-! ## Offsets -/

theorem InStep.length_fields (inStep : layout.InStep slotSize) (holds : layout.Holds members) :
    layout.fieldCount = (Decl.namesOf Decl.isVar members).eraseDups.length := by
  rw [← inStep.counted, ← holds.fields, List.length_map]

/-- Offsets differ, when 32 bits hold them. -/
theorem InStep.offsets_nodup (inStep : layout.InStep slotSize) (wide : 0 < slotSize)
    (fits : ∀ n < layout.fieldCount, Fits32 (slotSize * n)) : (layout.fields.map Prod.snd).Nodup := by
  rw [inStep.offsets]
  refine List.Nodup.map_on ?_ List.nodup_range
  intro a first b second same
  rw [slotBytes_of_fits (fits a (List.mem_range.mp first)),
    slotBytes_of_fits (fits b (List.mem_range.mp second))] at same
  exact eq_of_slots wide same

end ClassLayout

namespace Program

open Relation (ReflTransGen)

variable {program : Program} {cls : Decl} {members : List Decl} {slotSize : Int}

/-- A class that is laid out along all links has what its lineage declares. -/
theorem Lays.holds {layout : ClassLayout} (lays : program.Lays slotSize (fun _ => False) cls layout) :
    ∃ members, program.Lineage cls members ∧ layout.Holds members := by
  induction lays with
  | @root cls alone =>
    exact ⟨cls.members, .root (alone.resolve_left id), (ClassLayout.Holds.start cls.name).addMembers⟩
  | @derived cls above layout kept link laid ih =>
    obtain ⟨inherited, upper, holds⟩ := ih
    exact ⟨inherited ++ cls.members, .derived link upper, (holds.derive cls.name).addMembers⟩

/-- In a faultless program, the methods of a lineage override what they have the name of. -/
theorem Lineage.overrides (lineage : program.Lineage cls members) (anchored : program.Anchored)
    (faultless : program.Faultless) (listed : cls ∈ program.classes) : MethodsOverride members := by
  -- Within one class no name is declared twice, so the names of its members are of no concern.
  have once {c : Decl} (among : c ∈ program.classes) {d other : Decl} (first : d ∈ c.members)
      (second : other ∈ c.members) (named : d.name = other.name) : d = other := by
    rw [← anchored.declared_class among] at first second
    exact faultless.declared_once anchored (.inr ⟨_, (mem_classes.mp among).1, rfl⟩) first second named
  have own {c : Decl} (among : c ∈ program.classes) : MethodsOverride c.members := by
    have single := anchored.declared_single (.decl c.id)
    rw [anchored.declared_class among] at single
    refine (List.pairwise_map.mp single).imp_of_mem ?_
    intro high low first second apart named
    rw [once among first second named] at apart
    exact absurd rfl apart
  induction lineage with
  | @root cls alone => exact own listed
  | @derived cls above inherited link upper ih =>
    have step : program.Extends cls above := ⟨listed, link⟩
    refine List.pairwise_append.mpr ⟨ih (anchored.extends_class step), own listed, ?_⟩
    intro high first low second named isFunction
    obtain ⟨below, function⟩ := Decl.signature_of_function isFunction
    obtain ⟨declarer, among, path, declares⟩ :=
      upper.declarer first anchored (anchored.extends_class step)
    by_cases same : declarer.id = cls.id
    · -- The lineage came back to the class, which has one member of the name.
      cases anchored.class_inj among listed same
      cases once listed declares second named
      exact ⟨below, below, function, function, .refl below⟩
    · have climbs : ReflTransGen program.Under cls declarer :=
        (ReflTransGen.head step path).lift (fun d => d) fun _ _ => Extends.under
      rw [← anchored.declared_class among] at declares
      obtain ⟨above, known, fits⟩ :=
        faultless.overrides anchored listed second function climbs same declares named
      exact ⟨above, below, known, function, fits⟩

/-- Where members collide along a lineage. When an analysis reports nothing, the methods in the lineage of
a top-level class override methods, with matching signatures, wherever they have the name of something
declared further up. A name is a field and a method of the layout exactly when the lineage declares a method
of that name and a variable behind it; without such a variable, two members of one name are never a variable
and a method. The layout counts a field for each name of a variable in the lineage, once and in order, and
the fields lie one after the other, each at an offset of its own when 32 bits hold these. -/
theorem members_apart (built : program.Built) {shape : FrameShape} {analysis : Analysis}
    (ran : program.analyze shape = .ok analysis) (clean : analysis.reports = [])
    (top : cls ∈ program.top) (isClass : cls.isClass = true) :
    ∃ layout members, analysis.layouts.class? cls.name = some layout ∧
      program.Lineage cls members ∧ MethodsOverride members ∧
      (∀ name, layout.hasField name = true ∧ layout.hasMethod name = true ↔ MethodHidden members name) ∧
      (VariablesClear members →
        (members.Pairwise fun high low => high.name = low.name →
          (high.isVar = true → low.isFunction = false) ∧
            (high.isFunction = true → low.isVar = false)) ∧
        ∀ name, ¬ (layout.hasField name = true ∧ layout.hasMethod name = true)) ∧
      layout.fieldCount = (Decl.namesOf Decl.isVar members).eraseDups.length ∧
      layout.fields.map Prod.fst = (Decl.namesOf Decl.isVar members).eraseDups ∧
      layout.fields.map Prod.snd = (List.range layout.fieldCount).map (slotBytes shape.slotSize) ∧
      (0 < shape.slotSize → (∀ n < layout.fieldCount, Fits32 (shape.slotSize * n)) →
        (layout.fields.map Prod.snd).Nodup) := by
  have anchored := built.anchored
  have reached : cls ∈ program.classes := anchored.reached_class ⟨cls, top, isClass, .refl⟩
  obtain ⟨layout, found, lays⟩ := built.laid_out ran clean top isClass
  obtain ⟨members, lineage, holds⟩ := lays.holds
  have inStep := lays.inStep
  have overrides := lineage.overrides anchored (anchored.faultless ran clean) reached
  have both (name : String) :
      layout.hasField name = true ∧ layout.hasMethod name = true ↔ MethodHidden members name := by
    rw [holds.hasField, holds.hasMethod, overrides.hidden_iff]
  refine ⟨layout, members, found, lineage, overrides, both, fun clear => ⟨overrides.one_sort clear, ?_⟩,
    inStep.length_fields holds, holds.fields, inStep.offsets, inStep.offsets_nodup⟩
  intro name collides
  exact clear.not_hidden name ((both name).mp collides)

end Program

namespace Pixels

/-- A class `Pixel` below `Point`. Both declare a variable `x` and a method `move`. -/
def steps : List Step :=
  let word (name : String) : Ident := ⟨name, default⟩
  [ .var (word "x") (.primitive .int), .var (word "y") (.primitive .int),
    .function (word "move") (.primitive .void) [] none,
    .cls (word "Point") none [] [⟨0⟩, ⟨1⟩, ⟨2⟩],
    .function (word "move") (.primitive .void) [] none, .var (word "x") (.primitive .bool),
    .var (word "lit") (.primitive .bool),
    .cls (word "Pixel") (some (word "Point")) [] [⟨4⟩, ⟨5⟩, ⟨6⟩] ]

def point : Decl :=
  .cls ⟨3⟩ ⟨"Point", default⟩ none []
    [ .var ⟨0⟩ ⟨"x", default⟩ (.primitive .int), .var ⟨1⟩ ⟨"y", default⟩ (.primitive .int),
      .prototype ⟨2⟩ ⟨"move", default⟩ (.primitive .void) [] ]

def pixel : Decl :=
  .cls ⟨7⟩ ⟨"Pixel", default⟩ (some ⟨"Point", default⟩) []
    [ .prototype ⟨4⟩ ⟨"move", default⟩ (.primitive .void) [],
      .var ⟨5⟩ ⟨"x", default⟩ (.primitive .bool), .var ⟨6⟩ ⟨"lit", default⟩ (.primitive .bool) ]

private theorem steps_top : (Program.assemble steps [⟨7⟩, ⟨3⟩]).map (fun program =>
      (program.top, program.base? pixel, program.base? point)) =
    some ([pixel, point], some point, none) := by
  rfl

private theorem steps_run :
    ((Program.assemble steps [⟨7⟩, ⟨3⟩]).bind fun program =>
      (program.analyze {}).toOption.bind fun analysis =>
      (analysis.layouts.class? "Pixel").map fun layout =>
        (analysis.reports, layout.fields, layout.fieldCount)) =
      some ([], [("x", 0), ("y", 4), ("lit", 8)], 3) := by
  decide +kernel

end Pixels

/-- A lineage that declares a variable twice and overrides a method. -/
theorem Program.members_apart_pixels :
    ∃ program analysis layout, Program.assemble Pixels.steps [⟨7⟩, ⟨3⟩] = some program ∧
      program.analyze {} = .ok analysis ∧ analysis.reports = [] ∧ Pixels.pixel ∈ program.top ∧
      analysis.layouts.class? "Pixel" = some layout ∧
      program.Lineage Pixels.pixel (Pixels.point.members ++ Pixels.pixel.members) ∧
      MethodsOverride (Pixels.point.members ++ Pixels.pixel.members) ∧
      VariablesClear (Pixels.point.members ++ Pixels.pixel.members) ∧
      (∀ name, ¬ (layout.hasField name = true ∧ layout.hasMethod name = true)) ∧
      layout.fieldCount = 3 ∧ layout.fields.map Prod.fst = ["x", "y", "lit"] ∧
      (layout.fields.map Prod.snd).Nodup := by
  have run := Pixels.steps_run
  simp only [Option.bind_eq_some_iff, Option.map_eq_some_iff, Prod.mk.injEq] at run
  obtain ⟨program, made, analysis, ran, layout, found, clean, -⟩ := run
  have ran := Arena.ok_of_toOption ran
  have top := Pixels.steps_top
  rw [made, Option.map_some, Option.some.injEq, Prod.mk.injEq, Prod.mk.injEq] at top
  obtain ⟨top, below, alone⟩ := top
  have listed : Pixels.pixel ∈ program.top := by simp [top]
  obtain ⟨_, members, again, lineage, overrides, -, sorted, count, fields, -, apart⟩ :=
    Program.members_apart (Program.built_of_assemble made) ran clean listed rfl
  cases found.symm.trans again
  have all : members = Pixels.point.members ++ Pixels.pixel.members := by
    cases lineage with
    | root none => cases none.symm.trans below
    | derived link upper =>
      cases link.symm.trans below
      cases upper with
      | root => rfl
      | derived link => cases link.symm.trans alone
  subst all
  have clear : VariablesClear (Pixels.point.members ++ Pixels.pixel.members) := by decide
  have three : layout.fieldCount = 3 := count
  exact ⟨program, analysis, layout, made, ran, clean, listed, found, lineage, overrides, clear,
    (sorted clear).2, three, fields, apart (by decide) (by rw [three]; decide)⟩

/-- A class `Low` with a variable `size` below a class with a method `size`. -/
def Program.sizeBelowSize : List Step :=
  let word (name : String) : Ident := ⟨name, default⟩
  [ .function (word "size") (.primitive .int) [] none, .cls (word "High") none [] [⟨0⟩],
    .var (word "size") (.primitive .int), .cls (word "Low") (some (word "High")) [] [⟨2⟩] ]

/-- A class `Wide` of five variables. -/
def Program.fiveFields : List Step :=
  let field (name : String) : Step := .var ⟨name, default⟩ (.primitive .int)
  [ field "a", field "b", field "c", field "d", field "e",
    .cls ⟨"Wide", default⟩ none [] [⟨0⟩, ⟨1⟩, ⟨2⟩, ⟨3⟩, ⟨4⟩] ]

/-- Members that collide. Nothing is reported for a variable below a method of its name, and the name is a
field and a method then. A variable that is declared again is no second field: the lineage of `Pixel`
declares four variables, two of them under one name, and the class has three fields. And where four slots
take all numbers, the first and the last of five fields have one offset. -/
theorem Program.members_collide :
    (∃ program analysis layout, Program.assemble Program.sizeBelowSize [⟨1⟩, ⟨3⟩] = some program ∧
      program.analyze {} = .ok analysis ∧ analysis.reports = [] ∧
      analysis.layouts.class? "Low" = some layout ∧
      layout.hasField "size" = true ∧ layout.hasMethod "size" = true) ∧
    (∃ program analysis layout, Program.assemble Pixels.steps [⟨7⟩, ⟨3⟩] = some program ∧
      program.analyze {} = .ok analysis ∧ analysis.reports = [] ∧ Pixels.pixel ∈ program.top ∧
      program.base? Pixels.pixel = some Pixels.point ∧
      .var ⟨0⟩ ⟨"x", default⟩ (.primitive .int) ∈ Pixels.point.members ∧
      .var ⟨5⟩ ⟨"x", default⟩ (.primitive .bool) ∈ Pixels.pixel.members ∧
      analysis.layouts.class? "Pixel" = some layout ∧
      (Decl.namesOf Decl.isVar (Pixels.point.members ++ Pixels.pixel.members)).length = 4 ∧
      layout.fieldCount = 3) ∧
    ∃ program analysis layout, Program.assemble Program.fiveFields [⟨5⟩] = some program ∧
      program.analyze { slotSize := 1073741824 } = .ok analysis ∧ analysis.reports = [] ∧
      analysis.layouts.class? "Wide" = some layout ∧
      layout.fieldOffset? "a" = some 0 ∧ layout.fieldOffset? "e" = some 0 := by
  refine ⟨?_, ?_, ?_⟩
  · have run : ((Program.assemble Program.sizeBelowSize [⟨1⟩, ⟨3⟩]).bind fun program =>
        (program.analyze {}).toOption.bind fun analysis =>
        (analysis.layouts.class? "Low").map fun layout =>
          (analysis.reports, layout.hasField "size", layout.hasMethod "size")) =
        some ([], true, true) := by
      decide +kernel
    simp only [Option.bind_eq_some_iff, Option.map_eq_some_iff, Prod.mk.injEq] at run
    obtain ⟨program, made, analysis, ran, layout, found, clean, field, method⟩ := run
    exact ⟨program, analysis, layout, made, Arena.ok_of_toOption ran, clean, found, field, method⟩
  · have run := Pixels.steps_run
    simp only [Option.bind_eq_some_iff, Option.map_eq_some_iff, Prod.mk.injEq] at run
    obtain ⟨program, made, analysis, ran, layout, found, clean, -, count⟩ := run
    have top := Pixels.steps_top
    rw [made, Option.map_some, Option.some.injEq, Prod.mk.injEq, Prod.mk.injEq] at top
    obtain ⟨top, below, -⟩ := top
    refine ⟨program, analysis, layout, made, Arena.ok_of_toOption ran, clean, by simp [top], below, ?_,
      ?_, found, rfl, count⟩
    · exact List.mem_cons_self
    · exact List.mem_cons_of_mem _ List.mem_cons_self
  · have run : ((Program.assemble Program.fiveFields [⟨5⟩]).bind fun program =>
        (program.analyze { slotSize := 1073741824 }).toOption.bind fun analysis =>
        (analysis.layouts.class? "Wide").map fun layout =>
          (analysis.reports, layout.fieldOffset? "a", layout.fieldOffset? "e")) =
        some ([], some 0, some 0) := by
      decide +kernel
    simp only [Option.bind_eq_some_iff, Option.map_eq_some_iff, Prod.mk.injEq] at run
    obtain ⟨program, made, analysis, ran, layout, found, clean, first, last⟩ := run
    exact ⟨program, analysis, layout, made, Arena.ok_of_toOption ran, clean, found, first, last⟩

end DecafTac
