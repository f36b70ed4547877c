import DecafTac.Proofs.Storage.Types

/-!
Interfaces of accepted programs. A method is checked where it is declared, against every type above the
class that declares it. So what a class has under a name conforms to the interfaces that the class which
declares it implements, or that a class above that one does, however far below the method is inherited.
It need not conform to an interface that only a class below the declaration implements.
-/
namespace DecafTac

open Relation (ReflTransGen)

/-- Among some declarations one is the earliest. -/
theorem Check.earliest_isSome {decls : List Decl} {d : Decl} (member : d ∈ decls) :
    (Check.earliest decls).isSome := by
  cases decls with
  | nil => cases member
  | cons first rest =>
    rw [Check.earliest]
    cases Check.earliest rest <;> rfl

namespace Program

/-! ## Programs in which nothing is wrong -/

/-- Nothing is wrong with any tree of a program. -/
def Faultless (program : Program) : Prop := ∀ t ∈ program.subtrees, program.ownFaults t = []

variable {program : Program} {cls high d other f g : Decl} {outer : Node}

theorem Anchored.faultless (anchored : program.Anchored) {shape : FrameShape} {analysis : Analysis}
    (ran : program.analyze shape = .ok analysis) (clean : analysis.reports = []) :
    program.Faultless := by
  obtain ⟨linked, faults, laid, -, checked, -, again⟩ := anchored.analyze_run shape
  rw [ran] at again
  cases again
  simp only [Analysis.reports, List.append_eq_nil_iff] at clean
  obtain ⟨⟨-, rfl⟩, -⟩ := clean
  exact List.flatMap_eq_nil_iff.mp checked.nil_eq.symm

/-- A declaration that stands in a scope of a faultless program. -/
theorem Faultless.declared (faultless : program.Faultless) (anchored : program.Anchored)
    (holds : program.Holds outer) (member : d ∈ program.declared outer) :
    program.conflictFaults d outer = [] ∧ program.overrideFaults d = [] := by
  have none := faultless _ (anchored.declared_inside holds member)
  have link := (anchored.declared_parts outer _ (List.mem_map_of_mem member)).2
  rw [ownFaults, declFaults] at none
  rw [Tree.node] at link
  simp only [link, List.append_eq_nil_iff] at none
  exact ⟨none.1.1, none.2⟩

/-- A declaration is the earliest of its name. -/
private theorem earliest_of_conflictFaults {first : Decl}
    (found : Check.earliest ((program.declared outer).filter (·.name == d.name)) = some first)
    (none : program.conflictFaults d outer = []) : first.id = d.id := by
  rw [conflictFaults, found] at none
  by_contra different
  simp only [if_neg different] at none
  cases none

/-- In one scope of a faultless program, a name is declared once. -/
theorem Faultless.declared_once (faultless : program.Faultless) (anchored : program.Anchored)
    (holds : program.Holds outer) (first : d ∈ program.declared outer)
    (second : other ∈ program.declared outer) (named : d.name = other.name) : d = other := by
  have listed : d ∈ (program.declared outer).filter (·.name == d.name) :=
    List.mem_filter.mpr ⟨first, beq_self_eq_true _⟩
  obtain ⟨earliest, found⟩ := Option.isSome_iff_exists.mp (Check.earliest_isSome listed)
  have one := earliest_of_conflictFaults found (faultless.declared anchored holds first).1
  rw [named] at found
  have two := earliest_of_conflictFaults found (faultless.declared anchored holds second).1
  exact anchored.decl_inj (anchored.declared_inside holds first)
    (anchored.declared_inside holds second) (one.symm.trans two)

/-! ## What stands above a method -/

theorem Extends.under (step : program.Extends cls high) : program.Under cls high :=
  ⟨step.1, List.mem_append_right _ (Option.mem_toList.mpr step.2)⟩

theorem Anchored.under_inside (anchored : program.Anchored) (listed : cls ∈ program.classes)
    (path : ReflTransGen program.Under cls high) : .decl high ∈ program.subtrees := by
  cases path with
  | refl => exact (mem_classes.mp listed).1
  | tail _ step => exact (supertypes_type anchored (mem_classes.mp step.1).1 step.2).1

/-- The members of a class stand in its scope. -/
theorem Anchored.declared_class (anchored : program.Anchored) (listed : cls ∈ program.classes) :
    program.declared (.decl cls.id) = cls.members := by
  obtain ⟨inside, isClass⟩ := mem_classes.mp listed
  cases cls with
  | cls => exact anchored.declared_tree inside rfl
  | var | interface | prototype | function => cases isClass

/-- The class of a method is the one that has it as a member. -/
theorem Anchored.owningClass_member (anchored : program.Anchored) (listed : cls ∈ program.classes)
    (member : f ∈ cls.members) : program.arena.owningClass f.id = some cls.id := by
  rw [← anchored.declared_class listed] at member
  have link := (anchored.declared_parts _ _ (List.mem_map_of_mem member)).2
  rw [Tree.node] at link
  simp [Arena.owningClass, link, Arena.declWhere, anchored.class_stored listed,
    (mem_classes.mp listed).2]

/-- A method of a class agrees with everything of its name that stands in a type above the class. -/
theorem Faultless.overrides (faultless : program.Faultless) (anchored : program.Anchored)
    (listed : cls ∈ program.classes) (own : f ∈ cls.members) {signature : Signature}
    (function : f.signature? = some signature) (path : ReflTransGen program.Under cls high)
    (apart : high.id ≠ cls.id) (inherited : g ∈ program.declared (.decl high.id))
    (named : g.name = f.name) :
    ∃ above, g.signature? = some above ∧ signature.Matches above := by
  have owner := anchored.owningClass_member listed own
  rw [← anchored.declared_class listed] at own
  have agrees : ¬ program.Clashes cls f signature := by
    intro clashes
    have none := (faultless.declared anchored (.inr ⟨_, (mem_classes.mp listed).1, rfl⟩) own).2
    rw [overrideFaults, function, owner, Option.bind_some, anchored.class_stored listed] at none
    simp [clashes] at none
  have above := anchored.under_inside listed path
  have holds : program.Holds (.decl high.id) := .inr ⟨_, above, rfl⟩
  have free : program.clashesAt f.name signature (.decl high.id) = false :=
    Bool.eq_false_iff.mpr fun clash => agrees ⟨high, path, apart, clash⟩
  have among : g ∈ (program.declared (.decl high.id)).filter (·.name == f.name) :=
    List.mem_filter.mpr ⟨inherited, by simp [named]⟩
  obtain ⟨last, found⟩ := Option.isSome_iff_exists.mp
    (List.getLast?_isSome.mpr (List.ne_nil_of_mem among))
  have member := List.mem_filter.mp (List.mem_of_getLast? found)
  have same := faultless.declared_once anchored holds member.1 inherited
    ((beq_iff_eq.mp member.2).trans named.symm)
  subst same
  rw [clashesAt, found] at free
  cases known : last.signature? with
  | none =>
    simp only [known] at free
    cases free
  | some above =>
    simp only [known, Bool.not_eq_false'] at free
    exact ⟨above, rfl, Check.signaturesAgree_matches free⟩

/-! ## Interfaces -/

/-- The function that a class has under a name, and the class that declares it: the class itself, or else
the one from which the class it extends has it. -/
inductive Offers (program : Program) (method : String) : Decl → Decl → Decl → Prop where
  | own {cls f : Decl} (member : f ∈ cls.members) (isFunction : f.isFunction = true)
      (named : f.name = method) : Offers program method cls cls f
  | inherited {cls above declarer f : Decl}
      (missing : ∀ d ∈ cls.members, d.isFunction = true → d.name ≠ method)
      (link : program.base? cls = some above) (next : Offers program method above declarer f) :
      Offers program method cls declarer f

/-- The class that declares what a class has lies above that class, or is it. -/
theorem Offers.declares {method : String} {declarer : Decl}
    (offers : program.Offers method cls declarer f) (anchored : program.Anchored)
    (listed : cls ∈ program.classes) :
    declarer ∈ program.classes ∧ f ∈ declarer.members ∧ f.isFunction = true ∧ f.name = method := by
  induction offers with
  | own member isFunction named => exact ⟨listed, member, isFunction, named⟩
  | inherited missing link next ih => exact ih (anchored.extends_class ⟨listed, link⟩)

/-- The parts of the layout of a class are in step. -/
theorem Lays.inStep {slotSize : Int} {cut : Decl → Prop} {layout : ClassLayout}
    (lays : program.Lays slotSize cut cls layout) : layout.InStep slotSize := by
  induction lays with
  | @root cls _ => exact (ClassLayout.InStep.start slotSize cls.name).addMembers _
  | derived _ _ _ ih => exact (ih.derive _).addMembers _

/-- A label in the layout of a class is that of the function which the class has. -/
theorem Lays.offers {slotSize : Int} {cut : Decl → Prop} {layout : ClassLayout}
    (lays : program.Lays slotSize cut cls layout) {method label : String}
    (found : layout.label? method = some label) :
    ∃ declarer f, program.Offers method cls declarer f ∧
      label = ClassLayout.methodLabel declarer.name method := by
  induction lays with
  | @root cls _ =>
    rw [(ClassLayout.InStep.start slotSize cls.name).addMembers_label] at found
    split at found
    · rename_i any
      obtain ⟨f, member, isMethod⟩ := List.any_eq_true.mp any
      simp only [ClassLayout.isMethod, Bool.and_eq_true, beq_iff_eq] at isMethod
      exact ⟨cls, f, .own member isMethod.1 isMethod.2, (Option.some.inj found).symm⟩
    · cases found
  | @derived cls above layout kept link laid ih =>
    rw [(laid.inStep.derive cls.name).addMembers_label] at found
    split at found
    · rename_i any
      obtain ⟨f, member, isMethod⟩ := List.any_eq_true.mp any
      simp only [ClassLayout.isMethod, Bool.and_eq_true, beq_iff_eq] at isMethod
      exact ⟨cls, f, .own member isMethod.1 isMethod.2, (Option.some.inj found).symm⟩
    · rename_i missing
      obtain ⟨declarer, f, offers, named⟩ := ih found
      refine ⟨declarer, f, .inherited (fun d member isFunction same => missing ?_) link offers, named⟩
      refine List.any_eq_true.mpr ⟨d, member, ?_⟩
      simp [ClassLayout.isMethod, isFunction, same]

/-- A top-level class of an accepted program has a layout, along its `extends` clauses. -/
theorem Built.laid_out (built : program.Built) {shape : FrameShape} {analysis : Analysis}
    (ran : program.analyze shape = .ok analysis) (clean : analysis.reports = [])
    (top : cls ∈ program.top) (isClass : cls.isClass = true) :
    ∃ layout, analysis.layouts.class? cls.name = some layout ∧
      program.Lays shape.slotSize (fun _ => False) cls layout := by
  obtain ⟨accepts, -⟩ := Program.accepts_of_analyze built ran clean
  obtain ⟨-, -, classes⟩ := built.anchored.analyze_clean ran clean
  have lays := classes cls.name
  rw [find_named accepts.top_names top isClass] at lays
  generalize analysis.layouts.class? cls.name = found at lays
  cases lays with
  | some lays => exact ⟨_, rfl, lays⟩

/-- Interface conformance of accepted programs. When an analysis reports nothing, each method of a
top-level class has the label of a function that the class declares or inherits. That function agrees, in
its result and its formals, with what is declared under its name in every interface that the class which
declares it implements, or that a class above that one implements. -/
theorem methods_conform (built : program.Built) {shape : FrameShape} {analysis : Analysis}
    (ran : program.analyze shape = .ok analysis) (clean : analysis.reports = [])
    (top : cls ∈ program.top) (isClass : cls.isClass = true) :
    ∃ layout, analysis.layouts.class? cls.name = some layout ∧
      ∀ method slot, layout.methodSlot? method = some slot →
        ∃ declarer f signature, program.Offers method cls declarer f ∧
          f.signature? = some signature ∧
          layout.table[slot]? = some (ClassLayout.methodLabel declarer.name method) ∧
          ∀ above, ReflTransGen program.Extends declarer above →
            ∀ id name members,
              .interface id name members ∈ program.interfacesNamed above above.implemented →
              ∀ g ∈ members, g.name = method →
                ∃ promised, g.signature? = some promised ∧ signature.Matches promised := by
  have anchored := built.anchored
  have faultless := anchored.faultless ran clean
  have reached : cls ∈ program.classes := anchored.reached_class ⟨cls, top, isClass, .refl⟩
  obtain ⟨layout, found, lays⟩ := built.laid_out ran clean top isClass
  refine ⟨layout, found, fun method slot placed => ?_⟩
  obtain ⟨label, labelled, here⟩ := lays.inStep.label_at_slot placed
  obtain ⟨declarer, f, offers, rfl⟩ := lays.offers labelled
  obtain ⟨listed, own, isFunction, rfl⟩ := offers.declares anchored reached
  obtain ⟨signature, function⟩ := Decl.signature_of_function isFunction
  refine ⟨declarer, f, signature, offers, function, here, ?_⟩
  intro above chain number name members implemented g member named
  have between : above ∈ program.classes := by
    cases chain with
    | refl => exact listed
    | tail _ step => exact anchored.extends_class step
  have climbs : ReflTransGen program.Under declarer above :=
    chain.lift (fun d => d) fun _ _ => Extends.under
  have path := climbs.tail ⟨between, List.mem_append_left _ implemented⟩
  have inside := anchored.under_inside listed path
  have apart : (Decl.interface number name members).id ≠ declarer.id := by
    intro same
    obtain ⟨declared, kind⟩ := mem_classes.mp listed
    rw [← anchored.decl_inj inside declared same] at kind
    cases kind
  apply faultless.overrides anchored listed own function path apart ?_ named
  have stands := anchored.declared_tree inside rfl
  rw [Tree.node] at stands
  rw [stands]
  exact member

end Program

namespace Gauges

/-- A class `Low` below `Mid` below `Base`. The method `size` of `Mid` gives an `int`, as the interface
that `Base` implements has it, and the one that `Low` implements has it give a `bool`. -/
def steps : List Step :=
  let word (name : String) : Ident := ⟨name, default⟩
  [ .function (word "size") (.primitive .int) [] none, .interface (word "Sized") [⟨0⟩],
    .cls (word "Base") none [word "Sized"] [],
    .function (word "size") (.primitive .int) [] none, .cls (word "Mid") (some (word "Base")) [] [⟨3⟩],
    .function (word "size") (.primitive .bool) [] none, .interface (word "Flagged") [⟨5⟩],
    .cls (word "Low") (some (word "Mid")) [word "Flagged"] [] ]

/-- A method `size` that takes nothing. -/
def size (id : Nat) (result : TypeExpr) : Decl := .prototype ⟨id⟩ ⟨"size", default⟩ result []

def sized : Decl := .interface ⟨1⟩ ⟨"Sized", default⟩ [size 0 (.primitive .int)]

def flagged : Decl := .interface ⟨6⟩ ⟨"Flagged", default⟩ [size 5 (.primitive .bool)]

def base : Decl := .cls ⟨2⟩ ⟨"Base", default⟩ none [⟨"Sized", default⟩] []

def mid : Decl :=
  .cls ⟨4⟩ ⟨"Mid", default⟩ (some ⟨"Base", default⟩) [] [size 3 (.primitive .int)]

def low : Decl := .cls ⟨7⟩ ⟨"Low", default⟩ (some ⟨"Mid", default⟩) [⟨"Flagged", default⟩] []

private theorem steps_top : (Program.assemble steps [⟨7⟩, ⟨4⟩, ⟨2⟩, ⟨1⟩, ⟨6⟩]).map (fun program =>
      (program.top, program.base? low, program.base? mid,
        program.interfacesNamed base base.implemented,
        program.interfacesNamed low low.implemented)) =
    some ([low, mid, base, sized, flagged], some mid, some base, [sized], [flagged]) := by
  rfl

private theorem steps_run :
    ((Program.assemble steps [⟨7⟩, ⟨4⟩, ⟨2⟩, ⟨1⟩, ⟨6⟩]).bind fun program =>
      (program.analyze {}).toOption.bind fun analysis =>
      (analysis.layouts.class? "Low").map fun layout =>
        (analysis.reports, layout.methodSlot? "size", layout.table)) =
      some ([], some 0, ["_Mid.size"]) := by
  decide +kernel

end Gauges

/-- A method that is inherited, and an interface that is implemented above the class that declares it. -/
theorem Program.methods_conform_gauges :
    ∃ program analysis layout signature promised,
      Program.assemble Gauges.steps [⟨7⟩, ⟨4⟩, ⟨2⟩, ⟨1⟩, ⟨6⟩] = some program ∧
      program.analyze {} = .ok analysis ∧ analysis.reports = [] ∧ Gauges.low ∈ program.top ∧
      analysis.layouts.class? "Low" = some layout ∧ layout.methodSlot? "size" = some 0 ∧
      layout.table[0]? = some (ClassLayout.methodLabel "Mid" "size") ∧
      program.Offers "size" Gauges.low Gauges.mid (Gauges.size 3 (.primitive .int)) ∧
      program.Extends Gauges.mid Gauges.base ∧
      Gauges.sized ∈ program.interfacesNamed Gauges.base Gauges.base.implemented ∧
      (Gauges.size 3 (.primitive .int)).signature? = some signature ∧
      (Gauges.size 0 (.primitive .int)).signature? = some promised ∧ signature.Matches promised := by
  have run := Gauges.steps_run
  simp only [Option.bind_eq_some_iff, Option.map_eq_some_iff, Prod.mk.injEq] at run
  obtain ⟨program, made, analysis, ran, layout, found, clean, placed, -⟩ := run
  have ran := Arena.ok_of_toOption ran
  have top := Gauges.steps_top
  rw [made, Option.map_some, Option.some.injEq] at top
  simp only [Prod.mk.injEq] at top
  obtain ⟨top, lower, upper, implemented, -⟩ := top
  have listed : Gauges.low ∈ program.top := by simp [top]
  have extends_base : program.Extends Gauges.mid Gauges.base := by
    refine ⟨Program.mem_classes.mpr ⟨(Tree.sublist_subtrees _).subset ?_, rfl⟩, upper⟩
    exact List.mem_map_of_mem (by simp [top])
  have among : Gauges.sized ∈ program.interfacesNamed Gauges.base Gauges.base.implemented := by
    simp [implemented]
  obtain ⟨_, again, conform⟩ :=
    Program.methods_conform (Program.built_of_assemble made) ran clean listed rfl
  cases found.symm.trans again
  obtain ⟨declarer, f, signature, offers, function, label, agrees⟩ := conform "size" 0 placed
  have offered := offers
  cases offers with
  | own member => cases member
  | inherited _ link next =>
    cases link.symm.trans lower
    cases next with
    | inherited missing => exact absurd rfl (missing _ List.mem_cons_self rfl)
    | own member _ _ =>
      cases List.mem_singleton.mp member
      obtain ⟨promised, given, fits⟩ :=
        agrees Gauges.base (.single extends_base) _ _ _ among _ List.mem_cons_self rfl
      exact ⟨program, analysis, layout, signature, promised, made, ran, clean, listed, found, placed,
        label, offered, extends_base, among, function, given, fits⟩

/-- An interface that is implemented below the class that declares a method is not looked at: `Low` has
the method `size` of `Mid`, which gives an `int`, and implements an interface where `size` gives a
`bool`. -/
theorem Program.inherited_method_unchecked :
    ∃ program analysis layout signature promised,
      Program.assemble Gauges.steps [⟨7⟩, ⟨4⟩, ⟨2⟩, ⟨1⟩, ⟨6⟩] = some program ∧
      program.analyze {} = .ok analysis ∧ analysis.reports = [] ∧ Gauges.low ∈ program.top ∧
      analysis.layouts.class? "Low" = some layout ∧ layout.methodSlot? "size" = some 0 ∧
      layout.table[0]? = some (ClassLayout.methodLabel "Mid" "size") ∧
      program.Offers "size" Gauges.low Gauges.mid (Gauges.size 3 (.primitive .int)) ∧
      Gauges.flagged ∈ program.interfacesNamed Gauges.low Gauges.low.implemented ∧
      (Gauges.size 3 (.primitive .int)).signature? = some signature ∧
      (Gauges.size 5 (.primitive .bool)).signature? = some promised ∧
      ¬ signature.Matches promised := by
  have run := Gauges.steps_run
  simp only [Option.bind_eq_some_iff, Option.map_eq_some_iff, Prod.mk.injEq] at run
  obtain ⟨program, made, analysis, ran, layout, found, clean, placed, table⟩ := run
  have top := Gauges.steps_top
  rw [made, Option.map_some, Option.some.injEq] at top
  simp only [Prod.mk.injEq] at top
  obtain ⟨top, lower, -, -, implemented⟩ := top
  refine ⟨program, analysis, layout, _, _, made, Arena.ok_of_toOption ran, clean, by simp [top], found,
    placed, by rw [table]; rfl, ?_, by simp [implemented], rfl, rfl, ?_⟩
  · exact .inherited (fun _ member => nomatch member) lower (.own List.mem_cons_self rfl rfl)
  · intro fits
    cases fits.result

end DecafTac
