import DecafTac.Proofs.Storage.Reordering
import DecafTac.Proofs.Storage.Types

/-!
Accepted programs in another order. Whether anything is reported about a program does not depend on the
order of its top-level declarations, not even where classes that nothing reaches extend one another in a
circle. The layouts of an accepted program and of the same program in another order agree in all that
code generation asks them for, except for one thing: a function may have the name under which the element
type of another's result is kept, and then it depends on the order which of the two types is found.
-/
namespace DecafTac

/-- Layouts that say the same of every class, and of every function that there is. -/
structure Layouts.Agree (one other : Layouts) : Prop where
  classes : ∀ name, one.class? name = other.class? name
  functions : ∀ name, one.functions.function? name = other.functions.function? name
  results : ∀ name entry, one.functions.function? name = some entry →
    one.functions.resultType? name = other.functions.resultType? name

theorem Layouts.Agree.refl (layouts : Layouts) : layouts.Agree layouts :=
  ⟨fun _ => rfl, fun _ => rfl, fun _ _ _ => rfl⟩

namespace Program

variable {program one other : Program}

/-- A function whose name is kept for the element type of another's result gives that type itself. -/
def ElementsApart (program : Program) : Prop :=
  ∀ f ∈ program.top, ∀ g ∈ program.top, f.name = g.name ++ "_elem" →
    ∀ own result, f.signature? = some own → g.signature? = some result →
      ∀ element, (Tag.ofType result.result).element? = some element → Tag.ofType own.result = element

/-! ## What is reported -/

/-- When nothing is reported about a program, told by the source alone. -/
theorem Anchored.reports_nil_iff (anchored : program.Anchored) {shape : FrameShape}
    {analysis : Analysis} (ran : program.analyze shape = .ok analysis) :
    analysis.reports = [] ↔ program.classes.flatMap program.clauseFaults = [] ∧
      program.subtrees.flatMap program.ownFaults = [] ∧ program.Breaks [] := by
  obtain ⟨linked, faults, laid, settled, checked, finished, again⟩ := anchored.analyze_run shape
  rw [ran] at again
  cases again
  have heads := finished.heads_break anchored settled
  have cycles : laid.reports = [] ↔ program.Breaks [] := by
    rw [finished.cutting.reports_eq, List.map_eq_nil_iff, List.reverse_eq_nil_iff]
    constructor
    · intro none
      rwa [none] at heads
    · intro none
      exact none.none_needed heads
  have linking : linked.reports = [] ↔ program.classes.flatMap program.clauseFaults = [] := by
    rw [← List.length_eq_zero_iff, settled.reports.length_eq, List.length_eq_zero_iff]
  have checking : faults = [] ↔ program.subtrees.flatMap program.ownFaults = [] := by
    rw [← List.length_eq_zero_iff, checked.length_eq, List.length_eq_zero_iff]
  rw [Analysis.reports, List.append_eq_nil_iff, List.append_eq_nil_iff, linking, checking, cycles,
    and_assoc]

namespace Reordered

variable (reordered : one.Reordered other)

include reordered

theorem reached : one.Reached = other.Reached := by
  funext cls
  simp only [Reached, reordered.extends_eq, reordered.top.mem_iff]

/-- The same classes break the cycles. -/
theorem breaks {chosen : List Decl} (breaks : one.Breaks chosen) : other.Breaks chosen := by
  constructor
  · exact breaks.single
  · rw [← reordered.extends_eq, ← reordered.reached]
    exact breaks.loops
  · rw [← reordered.extends_eq, ← reordered.reached]
    exact breaks.each

/-- Nothing is reported in another order. -/
theorem clean (first : one.Anchored) (second : other.Anchored) {shape : FrameShape} {a b : Analysis}
    (ran : one.analyze shape = .ok a) (again : other.analyze shape = .ok b) (clean : a.reports = []) :
    b.reports = [] := by
  obtain ⟨clauses, faults, breaks⟩ := (first.reports_nil_iff ran).mp clean
  rw [second.reports_nil_iff again, ← reordered.clauseFaults, ← reordered.ownFaults]
  refine ⟨?_, ?_, reordered.breaks breaks⟩
  · have same := reordered.classes.flatMap_right one.clauseFaults
    rw [clauses] at same
    exact List.nil_perm.mp same
  · have same := reordered.subtrees.flatMap_right one.ownFaults
    rw [faults] at same
    exact List.nil_perm.mp same

theorem elementsApart (apart : one.ElementsApart) : other.ElementsApart := by
  intro f first g second
  exact apart f (reordered.top.mem_iff.mpr first) g (reordered.top.mem_iff.mpr second)

end Reordered

/-! ## Results of functions -/

/-- Where element types are apart, the result type of each function is found. -/
theorem ElementsApart.resultType? (apart : program.ElementsApart)
    (names : (program.top.map Decl.name).Nodup) {f : Decl} (top : f ∈ program.top)
    {signature : Signature} (function : f.signature? = some signature) :
    (FunctionTable.ofDecls program.top).resultType? f.name = some (Tag.ofType signature.result) := by
  have isFunction : f.isFunction = true := by
    rw [Decl.isFunction_eq, function]
    rfl
  have own : (f.name, Tag.ofType signature.result) ∈
      recordsOf (program.top.filter Decl.isFunction) :=
    mem_recordsOf.mpr ⟨f, List.mem_filter.mpr ⟨top, isFunction⟩, Decl.recorded?_function function⟩
  rw [FunctionTable.resultType?, FunctionTable.types_ofDecls names]
  cases last : (recordsOf (program.top.filter Decl.isFunction)).findSome? (written? f.name) with
  | none =>
    have none := List.findSome?_eq_none_iff.mp last _ own
    simp [written?] at none
  | some value =>
    obtain ⟨record, listed, wrote⟩ := List.exists_of_findSome?_eq_some last
    obtain ⟨g, among, recorded⟩ := mem_recordsOf.mp listed
    obtain ⟨second, isFunction'⟩ := List.mem_filter.mp among
    obtain ⟨result, given⟩ := Decl.signature_of_function isFunction'
    rw [Decl.recorded?_function given] at recorded
    cases recorded
    by_cases same : g.name = f.name
    · have alike := List.inj_on_of_nodup_map names second top same
      subst alike
      cases given.symm.trans function
      rw [written?, if_pos rfl] at wrote
      exact wrote.symm
    · obtain ⟨named, element⟩ := (written?_type same).mp wrote
      rw [apart f top g second named.symm signature result function given value element]

/-- Accepted programs in another order are accepted, and their layouts agree. -/
theorem Reordered.accepted (reordered : one.Reordered other) (first : one.Anchored)
    (second : other.Anchored) {shape : FrameShape} {a : Analysis} (ran : one.analyze shape = .ok a)
    (clean : a.reports = []) (apart : one.ElementsApart) :
    ∃ b, other.analyze shape = .ok b ∧ b.reports = [] ∧ a.layouts.Agree b.layouts := by
  obtain ⟨linked, faults, laid, -, -, -, again⟩ := second.analyze_run shape
  have clean' := reordered.clean first second ran again clean
  obtain ⟨-, functions, classes⟩ := first.analyze_clean ran clean
  obtain ⟨-, functions', classes'⟩ := second.analyze_clean again clean'
  refine ⟨_, again, clean', ?_, ?_, ?_⟩
  · exact fun name => reordered.lays_same (classes name) (classes' name)
  · intro name
    rw [functions, functions', FunctionTable.function?_ofDecls, FunctionTable.function?_ofDecls,
      reordered.find_top Decl.isFunction]
  · intro name entry found
    rw [functions, FunctionTable.function?_ofDecls] at found
    obtain ⟨f, chosen, -⟩ := Option.bind_eq_some_iff.mp found
    have top := List.mem_of_find?_eq_some chosen
    have fits := List.find?_some chosen
    rw [Bool.and_eq_true, beq_iff_eq] at fits
    obtain ⟨isFunction, rfl⟩ := fits
    obtain ⟨signature, function⟩ := Decl.signature_of_function isFunction
    have names := (reordered.top.map Decl.name).nodup_iff.mp reordered.names
    rw [functions, functions', apart.resultType? reordered.names top function,
      (reordered.elementsApart apart).resultType? names (reordered.top.mem_iff.mp top) function]

end Program

end DecafTac
