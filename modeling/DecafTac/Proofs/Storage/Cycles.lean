import Mathlib.Data.List.Chain
import Mathlib.Data.List.Find
import DecafTac.Proofs.Scope.Faults
import DecafTac.Proofs.Storage.TopLevel

/-!
Cycles of superclasses. Classes are laid out along their links, so the classes that wait for one another
are a path of links; a link back into that path closes a cycle all of which waits, and no class of the
cycle was laid out before. That link is given up and the class it leads to is reported. So each cycle
that is met loses one link and gets one report, and every class is laid out along the links that are
left.
-/
namespace DecafTac

open Relation (ReflTransGen TransGen)

namespace LaidOut

variable {arena : Arena} {graph : ScopeGraph} {slotSize : Int} {known : DeclId → Prop}
  {up : DeclId → Option DeclId}

/-- Classes that are closed under their links, with the link of each. -/
structure Tower (arena : Arena) (graph : ScopeGraph) (known : DeclId → Prop)
    (up : DeclId → Option DeclId) : Prop where
  isClass : ∀ cls, known cls → arena.hasClass cls
  link : ∀ cls, known cls → superclassOf graph cls = .ok (up cls)
  closed : ∀ cls above, known cls → up cls = some above → known above

/-- A link from a class to the one above it. -/
def Up (up : DeclId → Option DeclId) (low high : DeclId) : Prop := up low = some high

/-! ## Laying out does not fail -/

theorem Tower.layOut_total (tower : Tower arena graph known up) (slotSize : Int) (limit : Nat)
    (under : List DeclId) (cls : DeclId) (laid : LaidOut) (inside : known cls) :
    ∃ after, layOut arena graph slotSize limit under cls laid = .ok after := by
  have stored (id : DeclId) (inside : known id) : ∃ d, arena.decl id = .ok d ∧ d.isClass = true := by
    obtain ⟨d, stored, isClass⟩ := tower.isClass id inside
    exact ⟨d, by rw [Arena.decl, stored], isClass⟩
  induction limit generalizing under cls laid with
  | zero => exact ⟨laid, rfl⟩
  | succ limit ih =>
    unfold layOut
    split
    · exact ⟨laid, rfl⟩
    · obtain ⟨d, made, isClass⟩ := stored cls inside
      cases d with
      | var | interface | prototype | function => cases isClass
      | cls id name superclass interfaces members =>
        simp only [made, tower.link cls inside, bind, Except.bind]
        cases link : up cls with
        | none => exact ⟨_, rfl⟩
        | some above =>
          have next := tower.closed cls above inside link
          simp only
          split
          · obtain ⟨high, found, -⟩ := stored above next
            have reported : ∃ after, reportCycle arena laid above = .ok after := by
              unfold reportCycle
              split
              · exact ⟨_, rfl⟩
              · rw [found]
                exact ⟨_, rfl⟩
            obtain ⟨after, reported⟩ := reported
            rw [reported]
            exact ⟨_, rfl⟩
          · obtain ⟨after, ran⟩ := ih (cls :: under) above laid next
            rw [ran]
            exact ⟨_, rfl⟩

theorem Tower.layOutAll_total (tower : Tower arena graph known up) (slotSize : Int) (decls : List Decl)
    (laid : LaidOut) (inside : ∀ d ∈ decls, d.isClass = true → known d.id) :
    ∃ after, layOutAll arena graph slotSize decls laid = .ok after := by
  induction decls generalizing laid with
  | nil => exact ⟨laid, rfl⟩
  | cons d rest ih =>
    obtain ⟨first, later⟩ := List.forall_mem_cons.mp inside
    unfold layOutAll
    by_cases isClass : d.isClass = true
    · obtain ⟨middle, ran⟩ := tower.layOut_total slotSize (arena.decls.size + 1) [] d.id laid
        (first isClass)
      rw [if_pos isClass, ran]
      exact ih middle later
    · rw [if_neg isClass]
      exact ih laid later

/-! ## Links that are given up -/

/-- The classes of a record whose superclass was not laid out before them, latest first. -/
def cutsIn (up : DeclId → Option DeclId) : List (DeclId × ClassLayout) → List DeclId
  | [] => []
  | (cls, _) :: earlier =>
    match up cls with
    | none => cutsIn up earlier
    | some above =>
      if (earlier.lookup above).isSome then cutsIn up earlier else cls :: cutsIn up earlier

theorem cutsIn_built {built : List (DeclId × ClassLayout)} {cls : DeclId}
    (cut : cls ∈ cutsIn up built) : (built.lookup cls).isSome := by
  induction built with
  | nil => cases cut
  | cons entry earlier ih =>
    obtain ⟨first, layout⟩ := entry
    rw [Table.lookup_cons]
    by_cases same : cls = first
    · rw [if_pos same]
      rfl
    · rw [if_neg same]
      apply ih
      rw [cutsIn] at cut
      split at cut
      · exact cut
      · split at cut
        · exact cut
        · exact (List.mem_cons.mp cut).resolve_left same

/-- Every cycle with a class in the record has a cut: the class of it that was laid out first. -/
theorem exists_cut {built : List (DeclId × ClassLayout)} {cls : DeclId}
    (stands : (built.lookup cls).isSome) (loop : TransGen (Up up) cls cls) :
    ∃ cut ∈ cutsIn up built, ReflTransGen (Up up) cls cut := by
  induction built generalizing cls with
  | nil => cases stands
  | cons entry earlier ih =>
    obtain ⟨first, layout⟩ := entry
    have older {other : DeclId} (cut : other ∈ cutsIn up earlier) :
        other ∈ cutsIn up ((first, layout) :: earlier) := by
      rw [cutsIn]
      split
      · exact cut
      · split
        · exact cut
        · exact List.mem_cons_of_mem _ cut
    rw [Table.lookup_cons] at stands
    by_cases same : cls = first
    · subst same
      obtain ⟨above, link, back⟩ := TransGen.head'_iff.mp loop
      by_cases before : (earlier.lookup above).isSome
      · obtain ⟨cut, listed, path⟩ := ih before (.tail' back link)
        exact ⟨cut, older listed, .head link path⟩
      · refine ⟨cls, ?_, .refl⟩
        rw [cutsIn, show up cls = some above from link]
        simp [before]
    · rw [if_neg same] at stands
      obtain ⟨cut, listed, path⟩ := ih stands loop
      exact ⟨cut, older listed, path⟩

/-! ## Classes that wait -/

/-- Each class on the stack, but the first, is linked to the one before it. -/
def Stacked (up : DeclId → Option DeclId) (stack : List DeclId) : Prop :=
  stack.IsChain fun low high => Up up high low

theorem Stacked.reaches {stack : List DeclId} {cls waiting : DeclId}
    (stacked : Stacked up (cls :: stack)) (member : waiting ∈ cls :: stack) :
    ReflTransGen (Up up) waiting cls := by
  induction stack generalizing cls with
  | nil =>
    rw [List.mem_singleton.mp member]
  | cons next rest ih =>
    rw [Stacked, List.isChain_cons_cons] at stacked
    rcases List.mem_cons.mp member with rfl | member
    · exact .refl
    · exact (ih stacked.2 member).tail stacked.1

theorem Stacked.link {stack : List DeclId} {cls waiting : DeclId}
    (stacked : Stacked up (cls :: stack)) (member : waiting ∈ stack) :
    ∃ above ∈ cls :: stack, Up up waiting above := by
  induction stack generalizing cls with
  | nil => cases member
  | cons next rest ih =>
    rw [Stacked, List.isChain_cons_cons] at stacked
    rcases List.mem_cons.mp member with rfl | member
    · exact ⟨cls, List.mem_cons_self, stacked.1⟩
    · obtain ⟨above, among, link⟩ := ih stacked.2 member
      exact ⟨above, List.mem_cons_of_mem _ among, link⟩

/-- When the first class on the stack is linked back into it, no link leads out of it. -/
theorem Stacked.closed {stack : List DeclId} {cls above high : DeclId}
    (stacked : Stacked up (cls :: stack)) (link : up cls = some above) (back : above ∈ cls :: stack)
    (path : ReflTransGen (Up up) cls high) : high ∈ cls :: stack := by
  induction path with
  | refl => exact List.mem_cons_self
  | @tail low high _ step ih =>
    rcases List.mem_cons.mp ih with rfl | member
    · rw [Up, link] at step
      cases step
      exact back
    · obtain ⟨next, among, own⟩ := stacked.link member
      rw [Up, step] at own
      cases own
      exact among

/-- The report about a class that closes a cycle. -/
def cycleReport (arena : Arena) (cls : DeclId) : Option SemanticError :=
  (arena.decl? cls).map fun d => .cyclicInheritance d.name d.span

/-- What holds of the record while some classes wait: it is closed under links but for those to classes
that wait, and the links given up are on different cycles, one report for each. -/
structure Cutting (arena : Arena) (known : DeclId → Prop) (up : DeclId → Option DeclId)
    (under : List DeclId) (laid : LaidOut) : Prop where
  known : ∀ cls, (laid.built.lookup cls).isSome → known cls
  closed : ∀ cls above, (laid.built.lookup cls).isSome → up cls = some above →
    (laid.built.lookup above).isSome ∨ above ∈ under
  loops : ∀ cls ∈ cutsIn up laid.built, TransGen (Up up) cls cls
  apart : (cutsIn up laid.built).Pairwise fun new old => ¬ ReflTransGen (Up up) new old
  cyclic : laid.cyclic = (cutsIn up laid.built).filterMap up
  reports : laid.reports = laid.cyclic.reverse.filterMap (cycleReport arena)

namespace Cutting

variable {under : List DeclId} {laid middle after : LaidOut} {cls : DeclId}

theorem start (arena : Arena) (known : DeclId → Prop) (up : DeclId → Option DeclId) :
    Cutting arena known up [] {} where
  known _ stands := nomatch stands
  closed _ _ stands := nomatch stands
  loops _ cut := nomatch cut
  apart := .nil
  cyclic := rfl
  reports := rfl

/-- One more class waits. -/
theorem wait (cutting : Cutting arena known up under laid) (cls : DeclId) :
    Cutting arena known up (cls :: under) laid :=
  { cutting with
    closed := fun low above stands link =>
      (cutting.closed low above stands link).imp_right (List.mem_cons_of_mem _) }

/-- What a class that is kept adds to the record, whether or not its link is given up. -/
private theorem keep_built (cutting : Cutting arena known up (cls :: under) laid)
    (inside : known cls) (members : List Decl) (start : ClassLayout)
    (own : ∀ above, up cls = some above →
      (laid.built.lookup above).isSome ∨ above ∈ cls :: under) :
    (∀ id, ((laid.keep slotSize cls members start).built.lookup id).isSome → known id) ∧
    ∀ low above, ((laid.keep slotSize cls members start).built.lookup low).isSome →
      up low = some above →
      ((laid.keep slotSize cls members start).built.lookup above).isSome ∨ above ∈ under := by
  have stands (id : DeclId) : ((laid.keep slotSize cls members start).built.lookup id).isSome ↔
      id = cls ∨ (laid.built.lookup id).isSome := by
    rw [LaidOut.keep, Table.lookup_cons]
    by_cases same : id = cls <;> simp [same]
  refine ⟨fun id found => ?_, fun low above found link => ?_⟩
  · rcases (stands id).mp found with rfl | before
    · exact inside
    · exact cutting.known id before
  · have next : (laid.built.lookup above).isSome ∨ above ∈ cls :: under := by
      rcases (stands low).mp found with rfl | before
      · exact own above link
      · exact cutting.closed low above before link
    rcases next with before | waits
    · exact .inl ((stands above).mpr (.inr before))
    · rcases List.mem_cons.mp waits with same | waits
      · exact .inl ((stands above).mpr (.inl same))
      · exact .inr waits

/-- A class is kept whose superclass was laid out before it, or which has none. -/
theorem keep (cutting : Cutting arena known up (cls :: under) laid) (inside : known cls)
    (members : List Decl) (start : ClassLayout)
    (used : ∀ above, up cls = some above → (laid.built.lookup above).isSome) :
    Cutting arena known up under (laid.keep slotSize cls members start) := by
  obtain ⟨all_known, closed⟩ := keep_built cutting inside members start
    fun above link => .inl (used above link)
  have same : cutsIn up (laid.keep slotSize cls members start).built = cutsIn up laid.built := by
    rw [LaidOut.keep, cutsIn]
    split
    · rfl
    · rename_i above link
      rw [if_pos (used above link)]
  refine ⟨all_known, closed, ?_, ?_, ?_, cutting.reports⟩
  · rw [same]
    exact cutting.loops
  · rw [same]
    exact cutting.apart
  · rw [same]
    exact cutting.cyclic

section Closing

variable {above : DeclId} (cutting : Cutting arena known up (cls :: under) laid)
  (stacked : Stacked up (cls :: under)) (unbuilt : ∀ id ∈ cls :: under, laid.built.lookup id = none)
  (link : up cls = some above) (back : above ∈ cls :: under)

include stacked unbuilt link back

/-- No link was given up on a cycle that waits. -/
theorem no_cut {cut : DeclId} (path : ReflTransGen (Up up) cls cut) :
    cut ∉ cutsIn up laid.built := by
  intro listed
  have built := cutsIn_built listed
  rw [unbuilt cut (stacked.closed link back path)] at built
  cases built

include cutting

/-- A class that closes a cycle was not reported before. -/
theorem not_reported : above ∉ laid.cyclic := by
  rw [cutting.cyclic]
  intro listed
  obtain ⟨cut, among, same⟩ := List.mem_filterMap.mp listed
  obtain ⟨next, step, rest⟩ := TransGen.head'_iff.mp (cutting.loops cut among)
  rw [Up, same] at step
  cases step
  exact no_cut stacked unbuilt link back (.head link rest) among

/-- A class is kept whose link closes a cycle: the link is given up, and the cycle is reported. -/
theorem close (inside : known cls) (members : List Decl) (start : ClassLayout)
    (reported : reportCycle arena laid above = .ok middle) :
    Cutting arena known up under (middle.keep slotSize cls members start) := by
  unfold reportCycle at reported
  rw [if_neg (by simpa using cutting.not_reported stacked unbuilt link back)] at reported
  obtain ⟨d, made, reported⟩ := Arena.bind_ok reported
  cases reported
  obtain ⟨all_known, closed⟩ := keep_built cutting inside members start
    fun other own => .inr (by
      rw [link] at own
      cases own
      exact back)
  have cuts : cutsIn up (laid.keep slotSize cls members start).built =
      cls :: cutsIn up laid.built := by
    rw [LaidOut.keep, cutsIn, link]
    simp [unbuilt above back]
  refine ⟨all_known, closed, ?_, ?_, ?_, ?_⟩
  · change ∀ id ∈ cutsIn up (laid.keep slotSize cls members start).built, _
    rw [cuts]
    exact List.forall_mem_cons.mpr ⟨.head' link (stacked.reaches back), cutting.loops⟩
  · change (cutsIn up (laid.keep slotSize cls members start).built).Pairwise _
    rw [cuts]
    exact List.pairwise_cons.mpr ⟨fun old listed path =>
      no_cut stacked unbuilt link back path listed, cutting.apart⟩
  · change above :: laid.cyclic =
      (cutsIn up (laid.keep slotSize cls members start).built).filterMap up
    rw [cuts, List.filterMap_cons_some link, cutting.cyclic]
  · change laid.reports ++ [.cyclicInheritance d.name d.span] =
      (above :: laid.cyclic).reverse.filterMap (cycleReport arena)
    have report : cycleReport arena above = some (.cyclicInheritance d.name d.span) := by
      rw [cycleReport, decl_of_ok made]
      rfl
    rw [List.reverse_cons, List.filterMap_append, ← cutting.reports, List.filterMap_cons_some report]
    rfl

end Closing

end Cutting

/-- Laying out a class keeps the links given up on different cycles. -/
theorem Tower.layOut_cutting (tower : Tower arena graph known up) {limit : Nat} {under : List DeclId}
    {cls : DeclId} {laid after : LaidOut} (room : arena.decls.size < limit + under.length)
    (waits : Waiting arena under) (made : Made arena graph slotSize laid.cyclic laid.built)
    (unbuilt : ∀ id ∈ under, laid.built.lookup id = none) (stacked : Stacked up (cls :: under))
    (inside : known cls) (cutting : Cutting arena known up under laid)
    (ran : layOut arena graph slotSize limit under cls laid = .ok after) :
    Cutting arena known up under after := by
  induction limit generalizing under cls laid after with
  | zero =>
    cases ran
    exact cutting
  | succ limit ih =>
    obtain ⟨rfl, -⟩ | ⟨fresh, free, id, name, _, _, members, middle, start, declared, above, rfl⟩ :=
      layOut_cases ran
    · exact cutting
    · have unbuilt' : ∀ id ∈ cls :: under, laid.built.lookup id = none :=
        List.forall_mem_cons.mpr ⟨fresh, unbuilt⟩
      have own := tower.link cls inside
      cases above with
      | root link =>
        refine (cutting.wait cls).keep inside members _ fun above goes => ?_
        rw [← Except.ok.inj (link.symm.trans own)] at goes
        cases goes
      | @closing above _ link back reported =>
        have goes := Except.ok.inj (own.symm.trans link)
        exact (cutting.wait cls).close stacked unbuilt' goes back inside members _ reported
      | @below above _ link apart inner =>
        have goes := Except.ok.inj (own.symm.trans link)
        have next := tower.closed cls above inside goes
        have waits' : Waiting arena (cls :: under) :=
          ⟨List.forall_mem_cons.mpr ⟨stored_of_decl? declared, waits.stored⟩,
            List.nodup_cons.mpr ⟨free, waits.distinct⟩⟩
        have room' : arena.decls.size < limit + (cls :: under).length := by
          rw [List.length_cons]
          omega
        have stacked' : Stacked up (above :: cls :: under) := List.isChain_cons_cons.mpr ⟨goes, stacked⟩
        have between := ih room' waits' made unbuilt' stacked' next (cutting.wait cls) inner
        obtain ⟨-, complete⟩ := layOut_advances limit (cls :: under) above laid middle room' waits' made
          unbuilt' inner
        refine between.keep inside members _ fun other link => ?_
        rw [goes] at link
        cases link
        exact complete (tower.isClass above next) apart

theorem Tower.layOutAll_cutting (tower : Tower arena graph known up) {decls : List Decl}
    {laid after : LaidOut} (inside : ∀ d ∈ decls, d.isClass = true → known d.id)
    (made : Made arena graph slotSize laid.cyclic laid.built)
    (cutting : Cutting arena known up [] laid)
    (ran : layOutAll arena graph slotSize decls laid = .ok after) :
    Cutting arena known up [] after := by
  induction decls generalizing laid with
  | nil =>
    cases ran
    exact cutting
  | cons d rest ih =>
    obtain ⟨first, later⟩ := List.forall_mem_cons.mp inside
    unfold layOutAll at ran
    split at ran
    · rename_i isClass
      obtain ⟨middle, head, tail⟩ := Arena.bind_ok ran
      have room : arena.decls.size < arena.decls.size + 1 + ([] : List DeclId).length := by
        rw [List.length_nil]
        omega
      have none : Waiting arena [] := ⟨List.forall_mem_nil _, List.nodup_nil⟩
      obtain ⟨advanced, -⟩ := layOut_advances _ [] d.id laid middle room none made
        (List.forall_mem_nil _) head
      refine ih later advanced.made ?_ tail
      exact tower.layOut_cutting room none made (List.forall_mem_nil _) (.singleton _) (first isClass)
        cutting head
    · exact ih later made cutting ran

end LaidOut

/-! ## Layouts along the links that are left -/

/-- The members of a class. -/
def Decl.members : Decl → List Decl
  | .cls _ _ _ _ members => members
  | _ => []

namespace Program

variable (program : Program)

/-- A class extends another, which is not itself. -/
def Extends (low high : Decl) : Prop := low ∈ program.classes ∧ program.base? low = some high

/-- A class that is reached along `extends` clauses from the top level. -/
def Reached (cls : Decl) : Prop :=
  ∃ first ∈ program.top, first.isClass = true ∧ ReflTransGen program.Extends first cls

/-- The layout of a class when some classes are cut off from what they extend: its members are added to
the layout of the class it extends, or to nothing. -/
inductive Lays (slotSize : Int) (cut : Decl → Prop) : Decl → ClassLayout → Prop where
  | root {cls : Decl} (alone : cut cls ∨ program.base? cls = none) :
      Lays slotSize cut cls
        (cls.members.foldl (ClassLayout.addMember slotSize) { name := cls.name })
  | derived {cls above : Decl} {layout : ClassLayout} (kept : ¬ cut cls)
      (link : program.base? cls = some above) (laid : Lays slotSize cut above layout) :
      Lays slotSize cut cls
        (cls.members.foldl (ClassLayout.addMember slotSize) (layout.derive cls.name))

/-- One class on each cycle of classes that extend one another, among those that are reached. -/
structure Breaks (chosen : List Decl) : Prop where
  single : chosen.Nodup
  loops : ∀ cls ∈ chosen, TransGen program.Extends cls cls ∧ program.Reached cls
  each : ∀ cls, TransGen program.Extends cls cls → program.Reached cls →
    ∃! one, one ∈ chosen ∧ ReflTransGen program.Extends cls one

/-- The number of the class that the class of a number extends. -/
def upward (id : DeclId) : Option DeclId :=
  (program.arena.decl? id).bind fun d => (program.base? d).map Decl.id

/-- The number of a class that is reached. -/
def ReachedId (id : DeclId) : Prop := ∃ cls, program.Reached cls ∧ cls.id = id

variable {program : Program} {slotSize : Int} {cut : Decl → Prop} {cls low high : Decl}

/-- A class has one layout at most. -/
theorem Lays.unique {one other : ClassLayout} (first : program.Lays slotSize cut cls one)
    (second : program.Lays slotSize cut cls other) : one = other := by
  induction first generalizing other with
  | root alone =>
    cases second with
    | root => rfl
    | derived kept link =>
      rcases alone with gone | none
      · exact absurd gone kept
      · rw [none] at link
        cases link
  | derived kept link _ ih =>
    cases second with
    | root alone =>
      rcases alone with gone | none
      · exact absurd gone kept
      · rw [none] at link
        cases link
    | derived _ link' laid =>
      rw [link] at link'
      cases link'
      rw [ih laid]

namespace Anchored

theorem extends_class (anchored : program.Anchored) (step : program.Extends low high) :
    high ∈ program.classes :=
  superclass?_class anchored (mem_classes.mp step.1).1 (base?_eq_some.mp step.2).1

theorem reached_class (anchored : program.Anchored) (reached : program.Reached cls) :
    cls ∈ program.classes := by
  obtain ⟨first, top, isClass, path⟩ := reached
  induction path with
  | refl =>
    exact mem_classes.mpr ⟨(Tree.sublist_subtrees _).subset (List.mem_map_of_mem top), isClass⟩
  | tail _ step _ => exact anchored.extends_class step

theorem upward_eq (anchored : program.Anchored) (listed : cls ∈ program.classes) :
    program.upward cls.id = (program.base? cls).map Decl.id := by
  rw [upward, anchored.class_stored listed]
  rfl

theorem up_of_extends (anchored : program.Anchored) (step : program.Extends low high) :
    LaidOut.Up program.upward low.id high.id := by
  rw [LaidOut.Up, anchored.upward_eq step.1, step.2]
  rfl

theorem extends_of_up (anchored : program.Anchored) (listed : low ∈ program.classes) {id : DeclId}
    (step : LaidOut.Up program.upward low.id id) : ∃ high, program.Extends low high ∧ high.id = id := by
  rw [LaidOut.Up, anchored.upward_eq listed] at step
  obtain ⟨high, link, same⟩ := Option.map_eq_some_iff.mp step
  exact ⟨high, ⟨listed, link⟩, same⟩

/-- Paths of links are paths of `extends` clauses. -/
theorem path_of_up (anchored : program.Anchored) (listed : low ∈ program.classes) {id : DeclId}
    (path : ReflTransGen (LaidOut.Up program.upward) low.id id) :
    ∃ high ∈ program.classes, ReflTransGen program.Extends low high ∧ high.id = id := by
  induction path with
  | refl => exact ⟨low, listed, .refl, rfl⟩
  | tail _ step ih =>
    obtain ⟨middle, between, chain, rfl⟩ := ih
    obtain ⟨high, link, same⟩ := anchored.extends_of_up between step
    exact ⟨high, anchored.extends_class link, chain.tail link, same⟩

theorem class_inj (anchored : program.Anchored) {a b : Decl} (first : a ∈ program.classes)
    (second : b ∈ program.classes) (same : a.id = b.id) : a = b :=
  anchored.decl_inj (mem_classes.mp first).1 (mem_classes.mp second).1 same

theorem loop_iff (anchored : program.Anchored) (listed : cls ∈ program.classes) :
    TransGen (LaidOut.Up program.upward) cls.id cls.id ↔ TransGen program.Extends cls cls := by
  constructor
  · intro loop
    obtain ⟨id, step, rest⟩ := TransGen.head'_iff.mp loop
    obtain ⟨next, link, rfl⟩ := anchored.extends_of_up listed step
    obtain ⟨back, among, chain, same⟩ := anchored.path_of_up (anchored.extends_class link) rest
    rw [anchored.class_inj among listed same] at chain
    exact .head' link chain
  · intro loop
    exact loop.lift Decl.id fun _ _ step => anchored.up_of_extends step

theorem path_iff (anchored : program.Anchored) (first : low ∈ program.classes)
    (second : high ∈ program.classes) :
    ReflTransGen (LaidOut.Up program.upward) low.id high.id ↔
      ReflTransGen program.Extends low high := by
  constructor
  · intro path
    obtain ⟨found, among, chain, same⟩ := anchored.path_of_up first path
    rwa [anchored.class_inj among second same] at chain
  · intro path
    exact path.lift Decl.id fun _ _ step => anchored.up_of_extends step

/-- The classes that are reached, as they are linked. -/
theorem tower (anchored : program.Anchored) {linked : Linked} (settled : linked.Settled program) :
    LaidOut.Tower program.arena linked.graph program.ReachedId program.upward where
  isClass := by
    rintro _ ⟨cls, reached, rfl⟩
    obtain ⟨inside, isClass⟩ := mem_classes.mp (anchored.reached_class reached)
    exact ⟨cls, anchored.decl_stored inside, isClass⟩
  link := by
    rintro _ ⟨cls, reached, rfl⟩
    have listed := anchored.reached_class reached
    rw [settled.superclassOf anchored listed, anchored.upward_eq listed]
  closed := by
    rintro _ above ⟨cls, ⟨first, top, isClass, path⟩, rfl⟩ step
    obtain ⟨high, link, same⟩ :=
      anchored.extends_of_up (anchored.reached_class ⟨first, top, isClass, path⟩) step
    exact ⟨high, ⟨first, top, isClass, path.tail link⟩, same⟩

end Anchored

end Program

namespace LaidOut

variable {program : Program} {graph : ScopeGraph} {slotSize : Int} {cyclic : List DeclId}
  {built : List (DeclId × ClassLayout)} {cls : Decl} {layout : ClassLayout} {laid : LaidOut}

theorem mem_cutsIn_cons {up : DeclId → Option DeclId} {first other : DeclId}
    {earlier : List (DeclId × ClassLayout)} (different : other ≠ first) :
    other ∈ cutsIn up ((first, layout) :: earlier) ↔ other ∈ cutsIn up earlier := by
  rw [cutsIn]
  split
  · rfl
  · split
    · rfl
    · simp [different]

theorem startAmong_link {earlier : List (DeclId × ClassLayout)} {id : DeclId} {name : String}
    {above : Option DeclId} (link : superclassOf graph id = .ok above) :
    startAmong graph earlier id name =
      ((above.bind fun high => earlier.lookup high).map (·.derive name)).getD { name } := by
  rw [startAmong, link]
  cases above with
  | none => rfl
  | some high =>
    simp only [Option.bind_some]
    cases earlier.lookup high <;> rfl

/-- A class that is laid out next has the layout along the links that were not given up, if those before
it have. -/
theorem lays_next (anchored : program.Anchored) (listed : cls ∈ program.classes)
    (link : superclassOf graph cls.id = .ok ((program.base? cls).map Decl.id))
    {earlier : List (DeclId × ClassLayout)} (fresh : earlier.lookup cls.id = none) {cut : Decl → Prop}
    (gone : cut cls ↔ cls.id ∈ cutsIn program.upward ((cls.id, layout) :: earlier))
    (above : ∀ c ∈ program.classes, ∀ l, earlier.lookup c.id = some l →
      program.Lays slotSize cut c l) :
    program.Lays slotSize cut cls (cls.members.foldl (ClassLayout.addMember slotSize)
      (startAmong graph earlier cls.id cls.name)) := by
  rw [cutsIn, anchored.upward_eq listed] at gone
  rw [startAmong_link link]
  cases base : program.base? cls with
  | none => exact .root (.inr base)
  | some high =>
    rw [base] at gone
    simp only [Option.map_some, Option.bind_some]
    cases before : earlier.lookup high.id with
    | none =>
      refine .root (.inl (gone.mpr ?_))
      simp [before]
    | some layout =>
      refine .derived (fun is => ?_) base
        (above high (anchored.extends_class ⟨listed, base⟩) layout before)
      have cut := gone.mp is
      simp only [Option.map_some, before, Option.isSome_some, if_true] at cut
      have stands := cutsIn_built cut
      rw [fresh] at stands
      cases stands

/-- Every class in a record has the layout along the links that were not given up. -/
theorem Made.lays (anchored : program.Anchored) {known : DeclId → Prop}
    (tower : Tower program.arena graph known program.upward)
    (made : Made program.arena graph slotSize cyclic built)
    (inside : ∀ id, (built.lookup id).isSome → known id) {cut : Decl → Prop}
    (cuts : ∀ d ∈ program.classes, (built.lookup d.id).isSome →
      (cut d ↔ d.id ∈ cutsIn program.upward built))
    (listed : cls ∈ program.classes) (found : built.lookup cls.id = some layout) :
    program.Lays slotSize cut cls layout := by
  induction made generalizing cls layout with
  | start => cases found
  | @next earlier id own name above interfaces members made fresh declared used ih =>
    have stands (other : DeclId) (before : (earlier.lookup other).isSome) : other ≠ id := by
      rintro rfl
      rw [fresh] at before
      cases before
    have ih {c : Decl} {l : ClassLayout} (among : c ∈ program.classes)
        (found : earlier.lookup c.id = some l) : program.Lays slotSize cut c l := by
      apply ih ?_ ?_ among found
      · intro other before
        apply inside
        rw [Table.lookup_cons, if_neg (stands other before)]
        exact before
      · intro d among before
        rw [← mem_cutsIn_cons (stands d.id before)]
        apply cuts d among
        rw [Table.lookup_cons, if_neg (stands d.id before)]
        exact before
    rw [Table.lookup_cons] at found
    by_cases same : cls.id = id
    · subst same
      rw [if_pos rfl] at found
      cases found
      have here {l : ClassLayout} : (((cls.id, l) :: earlier).lookup cls.id).isSome := by
        rw [Table.lookup_cons, if_pos rfl]
        rfl
      have link := tower.link cls.id (inside cls.id here)
      have gone := cuts cls listed here
      have stored := anchored.class_stored listed
      rw [anchored.upward_eq listed] at link
      rw [declared] at stored
      obtain rfl := Option.some.inj stored
      exact lays_next anchored listed link fresh gone fun c among l => ih among
    · rw [if_neg same] at found
      exact ih listed found

/-- Under a name stands the layout of the first top-level class of that name. -/
theorem Made.topLevel_find? (made : Made program.arena graph slotSize laid.cyclic laid.built)
    (anchored : program.Anchored)
    (complete : ∀ d ∈ program.top, d.isClass = true → (laid.built.lookup d.id).isSome)
    (name : String) :
    (laid.topLevel program.top).find? (·.name == name) =
      (program.top.find? fun d => d.isClass && d.name == name).bind fun d =>
        laid.built.lookup d.id := by
  rw [topLevel, Layouts.find?_addClass, List.nil_append, List.find?_filterMap]
  congr 1
  apply List.find?_congr
  intro d top
  cases found : laid.built.lookup d.id with
  | none =>
    have other : d.isClass = false := by
      rw [← Bool.not_eq_true]
      intro isClass
      have stands := complete d top isClass
      rw [found] at stands
      cases stands
    rw [other]
    rfl
  | some layout =>
    obtain ⟨isClass, named⟩ := laid_top anchored.toCoherent made top found
    rw [isClass, Option.any_some, named, Bool.true_and]

end LaidOut

/-! ## One link on each cycle -/

section Functional

variable {up : DeclId → Option DeclId} {a b c : DeclId}

/-- What lies above a class on a cycle is on that cycle. -/
theorem LaidOut.loop_back (loop : TransGen (LaidOut.Up up) a a) (path : ReflTransGen (LaidOut.Up up) a b) :
    ReflTransGen (LaidOut.Up up) b a := by
  induction path with
  | refl => exact .refl
  | @tail middle next _ step ih =>
    obtain ⟨other, first, rest⟩ := TransGen.head'_iff.mp (TransGen.trans_right ih loop)
    rw [LaidOut.Up, step] at first
    cases first
    exact rest

/-- Of classes that cannot all be reached from one another, one is above a class on a cycle. -/
theorem LaidOut.one_on_cycle {ids : List DeclId}
    (apart : ids.Pairwise fun new old => ¬ ReflTransGen (LaidOut.Up up) new old)
    (loop : TransGen (LaidOut.Up up) a a) (first : b ∈ ids) (second : c ∈ ids)
    (path : ReflTransGen (LaidOut.Up up) a b) (other : ReflTransGen (LaidOut.Up up) a c) : b = c := by
  by_contra different
  have both : ids.Pairwise fun x y => ¬ (ReflTransGen (LaidOut.Up up) x y ∧
      ReflTransGen (LaidOut.Up up) y x) := apart.imp fun no yes => no yes.1
  have : Std.Symm fun x y => ¬ (ReflTransGen (LaidOut.Up up) x y ∧ ReflTransGen (LaidOut.Up up) y x) :=
    ⟨fun x y no yes => no yes.symm⟩
  apply both.forall first second different
  exact ⟨(LaidOut.loop_back loop path).trans other, (LaidOut.loop_back loop other).trans path⟩

end Functional

namespace Program.Anchored

variable {program : Program}

theorem decl_named (anchored : program.Anchored) {id : DeclId} {d : Decl}
    (stored : program.arena.decl? id = some d) : d.id = id := by
  have found := anchored.arena.named (.decl id) (.decl d) (by simp [Arena.tree?, stored])
  exact Node.decl.inj found

/-- Numbers of classes on different cycles, one on each that is reached. -/
theorem breaks (anchored : program.Anchored) {ids : List DeclId}
    (inside : ∀ id ∈ ids, program.ReachedId id ∧ TransGen (LaidOut.Up program.upward) id id)
    (apart : ids.Pairwise fun new old => ¬ ReflTransGen (LaidOut.Up program.upward) new old)
    (each : ∀ id, program.ReachedId id → TransGen (LaidOut.Up program.upward) id id →
      ∃ one ∈ ids, ReflTransGen (LaidOut.Up program.upward) id one) :
    program.Breaks (ids.filterMap program.arena.decl?) := by
  have listed (cls : Decl) : cls ∈ ids.filterMap program.arena.decl? ↔
      cls.id ∈ ids ∧ program.Reached cls := by
    rw [List.mem_filterMap]
    constructor
    · rintro ⟨id, member, stored⟩
      obtain ⟨⟨own, reached, rfl⟩, -⟩ := inside id member
      have found := anchored.class_stored (anchored.reached_class reached)
      rw [stored] at found
      cases found
      exact ⟨member, reached⟩
    · rintro ⟨member, reached⟩
      exact ⟨cls.id, member,
        anchored.class_stored (anchored.reached_class reached)⟩
  refine ⟨?_, ?_, ?_⟩
  · have single : ids.Nodup := by
      apply apart.imp
      rintro a b other rfl
      exact other .refl
    refine single.filterMap fun a b d first second => ?_
    rw [← anchored.decl_named first, anchored.decl_named second]
  · intro cls member
    obtain ⟨among, reached⟩ := (listed cls).mp member
    exact ⟨(anchored.loop_iff (anchored.reached_class reached)).mp (inside cls.id among).2, reached⟩
  · intro cls loop reached
    have own := anchored.reached_class reached
    have loop := (anchored.loop_iff own).mpr loop
    have on (one : Decl) : (one ∈ ids.filterMap program.arena.decl? ∧
        ReflTransGen program.Extends cls one) ↔ one.id ∈ ids ∧ program.Reached one ∧
          ReflTransGen (LaidOut.Up program.upward) cls.id one.id := by
      rw [listed, and_assoc]
      refine and_congr_right fun _ => and_congr_right fun found => ?_
      exact (anchored.path_iff own (anchored.reached_class found)).symm
    obtain ⟨id, member, path⟩ := each cls.id ⟨cls, reached, rfl⟩ loop
    obtain ⟨⟨one, found, rfl⟩, -⟩ := inside id member
    refine ⟨one, (on one).mpr ⟨member, found, path⟩, ?_⟩
    intro other there
    obtain ⟨member', found', path'⟩ := (on other).mp there
    exact anchored.class_inj (anchored.reached_class found') (anchored.reached_class found)
      (LaidOut.one_on_cycle apart loop member' member path' path)

end Program.Anchored

/-! ## Analysis -/

/-- The report that a class extends itself, directly or through others. -/
def Decl.cyclicReport (cls : Decl) : SemanticError := .cyclicInheritance cls.name cls.span

theorem LaidOut.Cutting.reports_eq {arena : Arena} {known : DeclId → Prop}
    {up : DeclId → Option DeclId} {under : List DeclId} {laid : LaidOut}
    (cutting : LaidOut.Cutting arena known up under laid) :
    laid.reports = (laid.cyclic.filterMap arena.decl?).reverse.map Decl.cyclicReport := by
  rw [cutting.reports, ← List.filterMap_reverse, List.map_filterMap]
  rfl

theorem Diagnostics.ofKind_append (first second : Diagnostics) (kind : ErrorKind) :
    Diagnostics.ofKind (first ++ second) kind = first.ofKind kind ++ second.ofKind kind :=
  List.filter_append ..

namespace Program

variable {program : Program}

/-- The classes whose `extends` clause means themselves. -/
def selfExtending (program : Program) : List Decl :=
  program.classes.filter fun cls => (program.superclass? cls).map Decl.id == some cls.id

theorem clauseFaults_cyclic (cls : Decl) : (program.clauseFaults cls).ofKind .cyclicInheritance =
    if (program.superclass? cls).map Decl.id == some cls.id then [cls.cyclicReport] else [] := by
  have interfaces (names : List Ident) :
      (program.implementsFaults cls names).ofKind .cyclicInheritance = [] := by
    rw [Diagnostics.ofKind, List.filter_eq_nil_iff]
    intro error listed
    obtain ⟨name, -, own⟩ := List.mem_flatMap.mp listed
    split at own
    · rw [List.mem_singleton.mp own]
      exact Bool.false_ne_true
    · cases own
  rw [clauseFaults, Diagnostics.ofKind_append, interfaces, List.append_nil, extendsFaults]
  cases clause : cls.extended with
  | none => simp [superclass?, clause, Diagnostics.ofKind]
  | some name =>
    cases program.superclass? cls with
    | none => rfl
    | some above =>
      by_cases own : above.id = cls.id
      · simp [own, Diagnostics.ofKind, SemanticError.kind, Decl.cyclicReport]
      · simp [own, Diagnostics.ofKind]

end Program

namespace LaidOut

variable {program : Program} {graph : ScopeGraph} {slotSize : Int} {laid : LaidOut}

/-- What laying out the top level of a program leaves behind. -/
structure Finished (program : Program) (graph : ScopeGraph) (slotSize : Int) (laid : LaidOut) :
    Prop where
  made : Made program.arena graph slotSize laid.cyclic laid.built
  complete : ∀ d ∈ program.top, d.isClass = true → (laid.built.lookup d.id).isSome
  cutting : Cutting program.arena program.ReachedId program.upward [] laid

/-- Every class that is reached is laid out. -/
theorem Finished.reached (finished : Finished program graph slotSize laid)
    (anchored : program.Anchored) {cls : Decl} (reached : program.Reached cls) :
    (laid.built.lookup cls.id).isSome := by
  obtain ⟨first, top, isClass, path⟩ := reached
  induction path with
  | refl => exact finished.complete first top isClass
  | tail _ step ih =>
    have up := anchored.up_of_extends step
    exact (finished.cutting.closed _ _ ih up).resolve_right List.not_mem_nil

/-- One link is given up on each cycle. -/
theorem Finished.cuts_break (finished : Finished program graph slotSize laid)
    (anchored : program.Anchored) :
    program.Breaks ((cutsIn program.upward laid.built).filterMap program.arena.decl?) := by
  have cutting := finished.cutting
  apply anchored.breaks
  · intro id cut
    exact ⟨cutting.known id (cutsIn_built cut), cutting.loops id cut⟩
  · exact cutting.apart
  · rintro _ ⟨cls, reached, rfl⟩ loop
    exact exists_cut (finished.reached anchored reached) loop

/-- One class is reported on each cycle: the one that the link given up leads to. -/
theorem Finished.heads_break (finished : Finished program graph slotSize laid)
    (anchored : program.Anchored) {linked : Linked} (settled : linked.Settled program) :
    program.Breaks (laid.cyclic.filterMap program.arena.decl?) := by
  have cutting := finished.cutting
  have onward {cut head : DeclId} (loop : TransGen (Up program.upward) cut cut)
      (link : Up program.upward cut head) : ReflTransGen (Up program.upward) head cut :=
    loop_back loop (.single link)
  rw [cutting.cyclic]
  apply anchored.breaks
  · intro head listed
    obtain ⟨cut, among, link⟩ := List.mem_filterMap.mp listed
    have loop := cutting.loops cut among
    refine ⟨?_, .tail' (onward loop link) link⟩
    exact (anchored.tower settled).closed cut head (cutting.known cut (cutsIn_built among)) link
  · rw [List.pairwise_filterMap]
    refine cutting.apart.imp_of_mem fun {new old} _ among no head link head' link' path => ?_
    exact no (.head link (path.trans (onward (cutting.loops old among) link')))
  · rintro _ ⟨cls, reached, rfl⟩ loop
    obtain ⟨cut, among, path⟩ := exists_cut (finished.reached anchored reached) loop
    obtain ⟨head, link, -⟩ := TransGen.head'_iff.mp (cutting.loops cut among)
    exact ⟨head, List.mem_filterMap.mpr ⟨cut, among, link⟩, path.tail link⟩

/-- The layouts by name are those along the links that were not given up. -/
theorem Finished.lays {linked : Linked} (finished : Finished program linked.graph slotSize laid)
    (anchored : program.Anchored) (settled : linked.Settled program) (name : String) :
    Option.Rel (program.Lays slotSize
        (· ∈ (cutsIn program.upward laid.built).filterMap program.arena.decl?))
      (program.top.find? fun d => d.isClass && d.name == name)
      ((laid.topLevel program.top).find? (·.name == name)) := by
  rw [finished.made.topLevel_find? anchored finished.complete]
  cases first : program.top.find? fun d => d.isClass && d.name == name with
  | none => exact .none
  | some d =>
    have top := List.mem_of_find?_eq_some first
    have fits := List.find?_some first
    rw [Bool.and_eq_true] at fits
    obtain ⟨isClass, -⟩ := fits
    obtain ⟨layout, found⟩ := Option.isSome_iff_exists.mp (finished.complete d top isClass)
    rw [Option.bind_some, found]
    refine .some (finished.made.lays anchored (anchored.tower settled) finished.cutting.known ?_
      (anchored.reached_class ⟨d, top, isClass, .refl⟩) found)
    intro cls listed _
    rw [List.mem_filterMap]
    constructor
    · rintro ⟨id, cut, stored⟩
      rwa [anchored.decl_named stored]
    · intro cut
      exact ⟨cls.id, cut, anchored.class_stored listed⟩

/-- Where no link is given up, the layouts are those along all links. -/
theorem Finished.lays_all {linked : Linked} (finished : Finished program linked.graph slotSize laid)
    (anchored : program.Anchored) (settled : linked.Settled program)
    (none : (cutsIn program.upward laid.built).filterMap program.arena.decl? = []) (name : String) :
    Option.Rel (program.Lays slotSize fun _ => False)
      (program.top.find? fun d => d.isClass && d.name == name)
      ((laid.topLevel program.top).find? (·.name == name)) := by
  have lays := finished.lays anchored settled name
  simp only [none, List.not_mem_nil] at lays
  exact lays

end LaidOut

namespace Program

variable {program : Program}

/-- Analysis comes to an end. -/
theorem Anchored.analyze_run (anchored : program.Anchored) (shape : FrameShape) :
    ∃ linked faults laid, linked.Settled program ∧
      faults.Perm (program.subtrees.flatMap program.ownFaults) ∧
      LaidOut.Finished program linked.graph shape.slotSize laid ∧
      program.analyze shape = .ok {
        linked, faults
        layouts := {
          classes := laid.topLevel program.top
          functions := FunctionTable.ofDecls program.top }
        cycles := laid.reports } := by
  obtain ⟨linked, linked_ran, settled⟩ := anchored.link_run
  obtain ⟨faults, checked, perm⟩ := Check.program_reports settled anchored
  have tower := anchored.tower settled
  have inside : ∀ d ∈ program.top, d.isClass = true → program.ReachedId d.id :=
    fun d top isClass => ⟨d, ⟨d, top, isClass, .refl⟩, rfl⟩
  obtain ⟨laid, ran⟩ := tower.layOutAll_total shape.slotSize program.top {} inside
  obtain ⟨advanced, complete⟩ := LaidOut.layOutAll_advances _ _ _ .start ran
  refine ⟨linked, faults, laid, settled, perm, ⟨advanced.made, ?_, ?_⟩, ?_⟩
  · intro d top isClass
    exact complete d top isClass ⟨d, anchored.stored d top, isClass⟩
  · exact tower.layOutAll_cutting inside .start (LaidOut.Cutting.start ..) ran
  · simp only [analyze, analyzeIn, linked_ran, checked, layouts, ran, bind, Except.bind]
    rfl

/-- Linking reports the classes that extend themselves. -/
theorem linked_cyclic {linked : Linked} (settled : linked.Settled program) :
    (linked.reports.ofKind .cyclicInheritance).Perm
      (program.selfExtending.map Decl.cyclicReport) := by
  have reported := settled.reports.filter (·.kind == .cyclicInheritance)
  have each : program.classes.flatMap (fun cls =>
      (program.clauseFaults cls).ofKind .cyclicInheritance) =
      program.selfExtending.map Decl.cyclicReport := by
    simp only [clauseFaults_cyclic]
    exact flatMap_if _ _ _
  rw [List.filter_flatMap] at reported
  exact each ▸ reported

theorem faults_cyclic {faults : Diagnostics}
    (checked : faults.Perm (program.subtrees.flatMap program.ownFaults)) :
    faults.ofKind .cyclicInheritance = [] := by
  rw [Diagnostics.ofKind, List.filter_eq_nil_iff]
  intro error listed
  obtain ⟨t, -, own⟩ := List.mem_flatMap.mp (checked.mem_iff.mp listed)
  simpa using ownFaults_kind own

/-- Laying out reports the heads of cycles. -/
theorem cycles_cyclic {laid : LaidOut} {known : DeclId → Prop} {up : DeclId → Option DeclId}
    (cutting : LaidOut.Cutting program.arena known up [] laid) :
    (laid.reports.ofKind .cyclicInheritance).Perm
      ((laid.cyclic.filterMap program.arena.decl?).map Decl.cyclicReport) := by
  have all : laid.reports.ofKind .cyclicInheritance = laid.reports := by
    rw [Diagnostics.ofKind, List.filter_eq_self, cutting.reports_eq]
    intro error listed
    obtain ⟨cls, -, rfl⟩ := List.mem_map.mp listed
    rfl
  rw [all, cutting.reports_eq]
  exact (List.reverse_perm _).map _

/-- Cyclic inheritance. Analysis comes to an end. It reports each class that extends itself, and one
class on each cycle of several classes that is reached from the top level. The name of every top-level
class has a layout, that of the first class of the name, and the layouts are those along the `extends`
clauses when one class on each of these cycles is cut off from the class it extends. -/
theorem cycles_cut_once (built : program.Built) (shape : FrameShape) :
    ∃ analysis heads cut, program.analyze shape = .ok analysis ∧
      program.Breaks heads ∧ program.Breaks cut ∧
      (program.selfExtending.map Decl.id).Nodup ∧
      (analysis.reports.ofKind .cyclicInheritance).Perm
        ((program.selfExtending ++ heads).map Decl.cyclicReport) ∧
      (∀ d ∈ program.top, d.isClass = true → (analysis.layouts.class? d.name).isSome) ∧
      ∀ name, Option.Rel (program.Lays shape.slotSize (· ∈ cut))
        (program.top.find? fun d => d.isClass && d.name == name)
        (analysis.layouts.class? name) := by
  have anchored := built.anchored
  obtain ⟨linked, faults, laid, settled, checked, finished, ran⟩ := anchored.analyze_run shape
  have lays := finished.lays anchored settled
  refine ⟨_, _, _, ran, finished.heads_break anchored settled, finished.cuts_break anchored, ?_, ?_,
    ?_, lays⟩
  · exact anchored.classes_single.sublist (List.filter_sublist.map _)
  · rw [Analysis.reports, Diagnostics.ofKind_append, Diagnostics.ofKind_append, faults_cyclic checked,
      List.append_nil, List.map_append]
    exact (linked_cyclic settled).append (cycles_cyclic finished.cutting)
  · intro d top isClass
    have found : (program.top.find? fun other => other.isClass && other.name == d.name).isSome := by
      rw [List.find?_isSome]
      exact ⟨d, top, by simp [isClass]⟩
    obtain ⟨first, chosen⟩ := Option.isSome_iff_exists.mp found
    have rel := lays d.name
    rw [chosen] at rel
    change ((laid.topLevel program.top).find? (·.name == d.name)).isSome
    generalize (laid.topLevel program.top).find? (·.name == d.name) = layout at rel ⊢
    cases rel
    rfl

/-- A class `Self` that extends itself, classes `High` and `Middle` that extend one another, and a class
`Low` that extends `High`. -/
def selfAndPair : List Step :=
  let word (name : String) : Ident := ⟨name, default⟩
  let cls (name above : String) (members : List DeclId) : Step :=
    .cls (word name) (some (word above)) [] members
  [ cls "Self" "Self" [],
    .var (word "size") (.primitive .int), cls "High" "Middle" [⟨1⟩],
    cls "Middle" "High" [], cls "Low" "High" [] ]

theorem cycles_cut_self_and_pair :
    ∃ program analysis heads cut, Program.assemble selfAndPair [⟨4⟩, ⟨0⟩, ⟨2⟩, ⟨3⟩] = some program ∧
      program.analyze {} = .ok analysis ∧
      analysis.reports = [.cyclicInheritance "Self" default, .cyclicInheritance "High" default] ∧
      program.selfExtending.map Decl.cyclicReport = [.cyclicInheritance "Self" default] ∧
      heads.map Decl.cyclicReport = [.cyclicInheritance "High" default] ∧
      program.Breaks heads ∧ program.Breaks cut ∧
      ∀ d ∈ program.top, (analysis.layouts.class? d.name).isSome := by
  have run : ((Program.assemble selfAndPair [⟨4⟩, ⟨0⟩, ⟨2⟩, ⟨3⟩]).bind fun program =>
      (program.analyze {}).toOption.map fun analysis =>
        (analysis.reports, program.selfExtending.map Decl.cyclicReport,
          program.top.all Decl.isClass)) =
      some ([.cyclicInheritance "Self" default, .cyclicInheritance "High" default],
        [.cyclicInheritance "Self" default], true) := by
    decide +kernel
  simp only [Option.bind_eq_some_iff, Option.map_eq_some_iff, Prod.mk.injEq] at run
  obtain ⟨program, made, analysis, ran, reports, selves, classes⟩ := run
  have ran := Arena.ok_of_toOption ran
  obtain ⟨found, heads, cut, again, first, second, -, perm, named, -⟩ :=
    cycles_cut_once (Program.built_of_assemble made) {}
  rw [ran] at again
  cases again
  have cyclic : analysis.reports.ofKind .cyclicInheritance = analysis.reports := by
    rw [reports]
    rfl
  rw [cyclic, reports, List.map_append, selves, List.singleton_append, List.perm_cons,
    List.singleton_perm] at perm
  exact ⟨program, analysis, heads, cut, made, ran, reports, selves, perm.symm, first, second,
    fun d top => named d top (List.all_eq_true.mp classes d top)⟩

end Program

end DecafTac
