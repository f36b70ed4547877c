import Mathlib.Data.List.Perm.Subperm
import DecafTac.Proofs.Source.Forest
import DecafTac.Proofs.Storage.Members
import DecafTac.Scope.Hierarchy
import DecafTac.Storage.Layouts

/-!
Inherited layouts. The record of classes laid out, latest first, says which links were used: a class
starts from the layout of the superclass it is linked to when that was laid out before it, and from
nothing when it was not. Along the links used, fields and slots stay where they are, and the slot of a
method holds the label of the nearest class that declares it.
-/
namespace DecafTac

/-- Whether a number belongs to a class. -/
def Arena.hasClass (arena : Arena) (id : DeclId) : Prop :=
  ∃ decl, arena.decl? id = some decl ∧ decl.isClass = true

/-- The class of a number, which has the given name, declares a function of the given name. -/
def Arena.Declares (arena : Arena) (cls : DeclId) (name : Ident) (method : String) : Prop :=
  ∃ id superclass interfaces members,
    arena.decl? cls = some (.cls id name superclass interfaces members) ∧
      ∃ member ∈ members, member.isFunction = true ∧ member.name = method

/-- Different things that are numbered below a bound are no more than the bound. -/
theorem length_le_of_distinct {α : Type} (index : α → Nat) (apart : ∀ a b, index a = index b → a = b)
    {things : List α} {bound : Nat} (distinct : things.Nodup) (below : ∀ a ∈ things, index a < bound) :
    things.length ≤ bound := by
  have numbers : (things.map index).Nodup := distinct.map apart
  have within : things.map index ⊆ List.range bound := by
    intro n found
    obtain ⟨a, member, rfl⟩ := List.mem_map.mp found
    exact List.mem_range.mpr (below a member)
  have fits := (List.Nodup.subperm numbers within).length_le
  rwa [List.length_map, List.length_range] at fits

namespace LaidOut

/-- The layout that a class starts from, given the classes laid out before it. -/
def startAmong (graph : ScopeGraph) (earlier : List (DeclId × ClassLayout)) (cls : DeclId)
    (name : String) : ClassLayout :=
  match superclassOf graph cls with
  | .ok (some superclass) =>
    match earlier.lookup superclass with
    | some base => base.derive name
    | none => { name }
  | _ => { name }

/-- A record in which each class was laid out once, from what stood in the record before it. Its
superclass was laid out before it, unless the superclass closes a cycle. -/
inductive Made (arena : Arena) (graph : ScopeGraph) (slotSize : Int) (cyclic : List DeclId) :
    List (DeclId × ClassLayout) → Prop where
  | start : Made arena graph slotSize cyclic []
  | next {earlier : List (DeclId × ClassLayout)} {cls id : DeclId} {name : Ident}
      {above : Option Ident} {interfaces : List Ident} {members : List Decl}
      (made : Made arena graph slotSize cyclic earlier) (fresh : earlier.lookup cls = none)
      (declared : arena.decl? cls = some (.cls id name above interfaces members))
      (used : ∀ superclass, superclassOf graph cls = .ok (some superclass) →
        arena.hasClass superclass → earlier.lookup superclass = none → superclass ∈ cyclic) :
      Made arena graph slotSize cyclic
        ((cls, members.foldl (ClassLayout.addMember slotSize)
          (startAmong graph earlier cls name.name)) :: earlier)

/-- A class and the superclasses whose layouts it was made from, nearest first. -/
def chainIn (graph : ScopeGraph) : List (DeclId × ClassLayout) → DeclId → List DeclId
  | [], _ => []
  | (id, _) :: earlier, cls =>
    if id = cls then
      cls :: match superclassOf graph cls with
        | .ok (some superclass) => chainIn graph earlier superclass
        | _ => []
    else chainIn graph earlier cls

/-- The links that were used from a class upward. -/
def chain (laid : LaidOut) (graph : ScopeGraph) (cls : DeclId) : List DeclId :=
  chainIn graph laid.built cls

variable {arena : Arena} {graph : ScopeGraph} {slotSize : Int}

/-! ## Laying out makes such a record -/

theorem decl_of_ok {id : DeclId} {decl : Decl} (found : arena.decl id = .ok decl) :
    arena.decl? id = some decl := by
  unfold Arena.decl at found
  split at found
  · rename_i tree stored
    cases found
    exact stored
  · cases found

theorem Made.weaken {cyclic more : List DeclId} {built : List (DeclId × ClassLayout)}
    (within : cyclic ⊆ more) (made : Made arena graph slotSize cyclic built) :
    Made arena graph slotSize more built := by
  induction made with
  | start => exact .start
  | next made fresh declared used ih =>
    exact .next ih fresh declared fun superclass linked cls missing =>
      within (used superclass linked cls missing)

/-- Reporting a cycle marks the class that closes it and lays out nothing. -/
theorem reportCycle_spec {laid after : LaidOut} {cls : DeclId}
    (reported : reportCycle arena laid cls = .ok after) :
    after.built = laid.built ∧ cls ∈ after.cyclic ∧ laid.cyclic ⊆ after.cyclic := by
  unfold reportCycle at reported
  split at reported
  · rename_i known
    cases reported
    exact ⟨rfl, by simpa using known, List.Subset.refl _⟩
  · obtain ⟨decl, -, reported⟩ := Arena.bind_ok reported
    cases reported
    exact ⟨rfl, List.mem_cons_self, List.subset_cons_self _ _⟩

/-- What laying out a class does to the record while some classes wait for it. -/
structure Advances (arena : Arena) (graph : ScopeGraph) (slotSize : Int) (under : List DeclId)
    (before after : LaidOut) : Prop where
  made : Made arena graph slotSize after.cyclic after.built
  grown : before.built <:+ after.built
  cyclic : before.cyclic ⊆ after.cyclic
  waiting : ∀ id ∈ under, after.built.lookup id = none

/-- Classes that wait for one another: each is there, and none waits twice. -/
structure Waiting (arena : Arena) (under : List DeclId) : Prop where
  stored : ∀ id ∈ under, id.index < arena.decls.size
  distinct : under.Nodup

theorem Waiting.length_le {under : List DeclId} (waiting : Waiting arena under) :
    under.length ≤ arena.decls.size :=
  length_le_of_distinct DeclId.index (fun _ _ => DeclId.ext) waiting.distinct waiting.stored

theorem stored_of_decl? {id : DeclId} {decl : Decl} (found : arena.decl? id = some decl) :
    id.index < arena.decls.size := by
  unfold Arena.decl? at found
  by_contra beyond
  rw [Array.getElem?_eq_none (by omega)] at found
  cases found

/-- A class added to a record in which it does not stand yet. -/
theorem Advances.keep {under : List DeclId} {before after : LaidOut} {cls id : DeclId} {name : Ident}
    {above : Option Ident} {interfaces : List Ident} {members : List Decl} {start : ClassLayout}
    (advanced : Advances arena graph slotSize (cls :: under) before after) (free : cls ∉ under)
    (declared : arena.decl? cls = some (.cls id name above interfaces members))
    (used : ∀ superclass, superclassOf graph cls = .ok (some superclass) →
      arena.hasClass superclass → after.built.lookup superclass = none → superclass ∈ after.cyclic)
    (started : start = startAmong graph after.built cls name.name) :
    Advances arena graph slotSize under before (after.keep slotSize cls members start) where
  made := by
    subst started
    exact .next advanced.made (advanced.waiting cls List.mem_cons_self) declared used
  grown := advanced.grown.trans (List.suffix_cons _ _)
  cyclic := advanced.cyclic
  waiting := by
    intro other member
    have different : other ≠ cls := fun same => free (same ▸ member)
    simp only [LaidOut.keep]
    rw [Table.lookup_cons, if_neg different]
    exact advanced.waiting other (List.mem_cons_of_mem _ member)

/-- What is laid out above a class, and the layout that the class then starts from. -/
inductive Above (arena : Arena) (graph : ScopeGraph) (slotSize : Int) (limit : Nat)
    (under : List DeclId) (cls : DeclId) (name : String) (laid : LaidOut) :
    LaidOut → ClassLayout → Prop where
  | root (link : superclassOf graph cls = .ok none) :
      Above arena graph slotSize limit under cls name laid laid { name }
  | closing {superclass : DeclId} {after : LaidOut}
      (link : superclassOf graph cls = .ok (some superclass)) (waits : superclass ∈ cls :: under)
      (reported : reportCycle arena laid superclass = .ok after) :
      Above arena graph slotSize limit under cls name laid after { name }
  | below {superclass : DeclId} {after : LaidOut}
      (link : superclassOf graph cls = .ok (some superclass)) (free : superclass ∉ cls :: under)
      (ran : layOut arena graph slotSize limit (cls :: under) superclass laid = .ok after) :
      Above arena graph slotSize limit under cls name laid after (after.startBelow superclass name)

/-- Laying out a class does nothing when there is nothing to do, and otherwise keeps the class after
what is above it. -/
theorem layOut_cases {limit : Nat} {under : List DeclId} {cls : DeclId} {laid after : LaidOut}
    (ran : layOut arena graph slotSize (limit + 1) under cls laid = .ok after) :
    (after = laid ∧ (arena.hasClass cls → cls ∉ under → (laid.built.lookup cls).isSome)) ∨
    (laid.built.lookup cls = none ∧ cls ∉ under ∧
      ∃ id name superclass interfaces members middle start,
        arena.decl? cls = some (.cls id name superclass interfaces members) ∧
        Above arena graph slotSize limit under cls name.name laid middle start ∧
        after = middle.keep slotSize cls members start) := by
  unfold layOut at ran
  split at ran
  · rename_i done
    cases ran
    refine .inl ⟨rfl, fun _ free => ?_⟩
    simpa [free] using done
  · rename_i undone
    have idle : laid.built.lookup cls = none ∧ cls ∉ under := by
      rw [Bool.or_eq_true, not_or, Option.not_isSome_iff_eq_none] at undone
      exact ⟨undone.1, by simpa using undone.2⟩
    obtain ⟨decl, found, ran⟩ := Arena.bind_ok ran
    have declared := decl_of_ok found
    cases decl with
    | var | interface | prototype | function =>
      cases ran
      refine .inl ⟨rfl, ?_⟩
      rintro ⟨decl, same, isClass⟩
      rw [declared] at same
      cases same
      cases isClass
    | cls id name above interfaces members =>
      refine .inr ⟨idle.1, idle.2, ?_⟩
      obtain ⟨linked, link, ran⟩ := Arena.bind_ok ran
      cases linked with
      | none =>
        cases ran
        exact ⟨_, _, _, _, _, _, _, declared, .root link, rfl⟩
      | some superclass =>
        simp only at ran
        split at ran
        · rename_i waits
          obtain ⟨middle, reported, ran⟩ := Arena.bind_ok ran
          cases ran
          exact ⟨_, _, _, _, _, _, _, declared, .closing link (by simpa using waits) reported, rfl⟩
        · rename_i free
          obtain ⟨middle, inner, ran⟩ := Arena.bind_ok ran
          cases ran
          exact ⟨_, _, _, _, _, _, _, declared, .below link (by simpa using free) inner, rfl⟩

/-- Laying out a class keeps the record well made. No limit is met before it is done: those that wait
are different classes of the arena. -/
theorem layOut_advances (limit : Nat) (under : List DeclId) (cls : DeclId) (laid after : LaidOut)
    (room : arena.decls.size < limit + under.length) (waits : Waiting arena under)
    (made : Made arena graph slotSize laid.cyclic laid.built)
    (unbuilt : ∀ id ∈ under, laid.built.lookup id = none)
    (ran : layOut arena graph slotSize limit under cls laid = .ok after) :
    Advances arena graph slotSize under laid after ∧
      (arena.hasClass cls → cls ∉ under → (after.built.lookup cls).isSome) := by
  induction limit generalizing under cls laid after with
  | zero =>
    have bound := waits.length_le
    omega
  | succ limit ih =>
    obtain ⟨rfl, done⟩ | ⟨fresh, free, id, name, _, _, members, middle, start, declared, above, rfl⟩ :=
      layOut_cases ran
    · exact ⟨⟨made, List.suffix_rfl, List.Subset.refl _, unbuilt⟩, done⟩
    · have unbuilt' : ∀ id ∈ cls :: under, laid.built.lookup id = none :=
        List.forall_mem_cons.mpr ⟨fresh, unbuilt⟩
      have waits' : Waiting arena (cls :: under) :=
        ⟨List.forall_mem_cons.mpr ⟨stored_of_decl? declared, waits.stored⟩,
          List.nodup_cons.mpr ⟨free, waits.distinct⟩⟩
      refine ⟨?_, fun _ _ => by simp [LaidOut.keep]⟩
      cases above with
      | root link =>
        have still : Advances arena graph slotSize (cls :: under) laid laid :=
          ⟨made, List.suffix_rfl, List.Subset.refl _, unbuilt'⟩
        refine still.keep free declared ?_ ?_
        · intro superclass linked
          rw [link] at linked
          cases linked
        · simp only [startAmong, link]
      | @closing superclass _ link closes reported =>
        obtain ⟨sameBuilt, marked, more⟩ := reportCycle_spec reported
        have advanced : Advances arena graph slotSize (cls :: under) laid middle := by
          refine ⟨?_, ?_, more, ?_⟩
          · rw [sameBuilt]
            exact made.weaken more
          · exact sameBuilt ▸ List.suffix_rfl
          · rw [sameBuilt]
            exact unbuilt'
        refine advanced.keep free declared ?_ ?_
        · intro other linked _ _
          rw [link] at linked
          cases linked
          exact marked
        · simp only [startAmong, link, advanced.waiting superclass closes]
      | @below superclass _ link apart inner =>
        obtain ⟨advanced, complete⟩ := ih (cls :: under) superclass laid middle
          (by rw [List.length_cons]; omega) waits' made unbuilt' inner
        refine advanced.keep free declared ?_ ?_
        · intro other linked isClass missing
          rw [link] at linked
          cases linked
          have built := complete isClass apart
          rw [missing] at built
          cases built
        · simp only [startAmong, link]
          rfl

theorem Advances.trans {before middle after : LaidOut}
    (first : Advances arena graph slotSize [] before middle)
    (second : Advances arena graph slotSize [] middle after) :
    Advances arena graph slotSize [] before after :=
  ⟨second.made, first.grown.trans second.grown, List.Subset.trans first.cyclic second.cyclic, by simp⟩

/-- A class that stands in a record stands in every record made after it. -/
theorem lookup_isSome_of_suffix {early late : List (DeclId × ClassLayout)} {cls : DeclId}
    (grown : early <:+ late) (found : (early.lookup cls).isSome) : (late.lookup cls).isSome := by
  rw [List.lookup_isSome_iff] at found ⊢
  obtain ⟨entry, member, same⟩ := found
  exact ⟨entry, grown.subset member, same⟩

/-- Laying out some declarations in order lays out each class among them. -/
theorem layOutAll_advances (decls : List Decl) (laid after : LaidOut)
    (made : Made arena graph slotSize laid.cyclic laid.built)
    (ran : layOutAll arena graph slotSize decls laid = .ok after) :
    Advances arena graph slotSize [] laid after ∧
      ∀ decl ∈ decls, decl.isClass = true → arena.hasClass decl.id →
        (after.built.lookup decl.id).isSome := by
  induction decls generalizing laid with
  | nil =>
    cases ran
    exact ⟨⟨made, List.suffix_rfl, List.Subset.refl _, by simp⟩, by simp⟩
  | cons decl rest ih =>
    unfold layOutAll at ran
    split at ran
    · obtain ⟨middle, head, tail⟩ := Arena.bind_ok ran
      obtain ⟨first, here⟩ := layOut_advances _ [] decl.id laid middle (by simp)
        ⟨by simp, List.nodup_nil⟩ made (by simp) head
      obtain ⟨advanced, done⟩ := ih middle first.made tail
      refine ⟨first.trans advanced, List.forall_mem_cons.mpr ⟨fun _ known => ?_, done⟩⟩
      exact lookup_isSome_of_suffix advanced.grown (here known (by simp))
    · rename_i other
      obtain ⟨advanced, done⟩ := ih laid made ran
      exact ⟨advanced, List.forall_mem_cons.mpr ⟨fun isClass => absurd isClass other, done⟩⟩

/-- There is one report for each class that closes a cycle. -/
def Reported (laid : LaidOut) : Prop := laid.reports.length = laid.cyclic.length

theorem layOut_reported (limit : Nat) (under : List DeclId) (cls : DeclId) (laid after : LaidOut)
    (reported : laid.Reported) (ran : layOut arena graph slotSize limit under cls laid = .ok after) :
    after.Reported := by
  induction limit generalizing under cls laid after with
  | zero =>
    cases ran
    exact reported
  | succ limit ih =>
    obtain ⟨rfl, -⟩ | ⟨-, -, _, name, _, _, members, middle, start, -, above, rfl⟩ := layOut_cases ran
    · exact reported
    · have between : middle.Reported := by
        cases above with
        | root => exact reported
        | @closing superclass _ _ _ marked =>
          unfold reportCycle at marked
          split at marked
          · cases marked
            exact reported
          · obtain ⟨decl, -, marked⟩ := Arena.bind_ok marked
            cases marked
            simpa [Reported] using reported
        | below _ _ inner => exact ih _ _ _ _ reported inner
      exact between

theorem layOutAll_reported (decls : List Decl) (laid after : LaidOut) (reported : laid.Reported)
    (ran : layOutAll arena graph slotSize decls laid = .ok after) : after.Reported := by
  induction decls generalizing laid with
  | nil =>
    cases ran
    exact reported
  | cons decl rest ih =>
    unfold layOutAll at ran
    split at ran
    · obtain ⟨middle, head, tail⟩ := Arena.bind_ok ran
      exact ih middle (layOut_reported _ _ _ _ _ reported head) tail
    · exact ih laid reported ran

/-! ## Along the links used -/

/-- The label of a function that a class declares. -/
def declaredLabel? (arena : Arena) (method : String) (cls : DeclId) : Option String :=
  match arena.decl? cls with
  | some (.cls _ name _ _ members) =>
    if members.any (ClassLayout.isMethod method) then some (ClassLayout.methodLabel name.name method)
    else none
  | _ => none

theorem declaredLabel?_eq_some {method label : String} {cls : DeclId} :
    declaredLabel? arena method cls = some label ↔
      ∃ name, arena.Declares cls name method ∧ label = ClassLayout.methodLabel name.name method := by
  unfold declaredLabel? Arena.Declares
  constructor
  · intro found
    split at found
    · rename_i id name superclass interfaces members declared
      split at found
      · rename_i some_method
        cases found
        obtain ⟨member, isMember, isMethod⟩ := List.any_eq_true.mp some_method
        rw [ClassLayout.isMethod, Bool.and_eq_true, beq_iff_eq] at isMethod
        exact ⟨name, ⟨_, _, _, _, declared, member, isMember, isMethod⟩, rfl⟩
      · cases found
    · cases found
  · rintro ⟨name, ⟨id, superclass, interfaces, members, declared, member, isMember, isMethod⟩, rfl⟩
    have some_method : members.any (ClassLayout.isMethod method) = true := by
      refine List.any_eq_true.mpr ⟨member, isMember, ?_⟩
      rw [ClassLayout.isMethod, Bool.and_eq_true, beq_iff_eq]
      exact isMethod
    simp only [declared, some_method, if_true]

theorem declaredLabel?_eq_none {method : String} {cls : DeclId} :
    declaredLabel? arena method cls = none ↔ ∀ name, ¬ arena.Declares cls name method := by
  rw [Option.eq_none_iff_forall_ne_some]
  constructor
  · intro none_found name declares
    exact none_found _ (declaredLabel?_eq_some.mpr ⟨name, declares, rfl⟩)
  · intro none_declares label found
    obtain ⟨name, declares, -⟩ := declaredLabel?_eq_some.mp found
    exact none_declares name declares

theorem chainIn_eq_nil {built : List (DeclId × ClassLayout)} {cls : DeclId} :
    chainIn graph built cls = [] ↔ built.lookup cls = none := by
  induction built with
  | nil => simp [chainIn]
  | cons entry earlier ih =>
    obtain ⟨id, layout⟩ := entry
    rw [chainIn, Table.lookup_cons]
    by_cases same : id = cls
    · simp [same]
    · rw [if_neg same, if_neg (Ne.symm same)]
      exact ih

theorem chainIn_head {built : List (DeclId × ClassLayout)} {cls head : DeclId} {rest : List DeclId}
    (chained : chainIn graph built cls = head :: rest) : head = cls := by
  induction built with
  | nil => cases chained
  | cons entry earlier ih =>
    obtain ⟨id, layout⟩ := entry
    rw [chainIn] at chained
    split at chained
    · cases chained
      rfl
    · exact ih chained

theorem startAmong_name (earlier : List (DeclId × ClassLayout)) (cls : DeclId) (name : String) :
    (startAmong graph earlier cls name).name = name := by
  unfold startAmong
  split
  · split <;> rfl
  · rfl

/-- Later entries of a well-made record are about other classes. -/
theorem Made.lookup_suffix {cyclic : List DeclId} {early late : List (DeclId × ClassLayout)}
    {cls : DeclId} {layout : ClassLayout} (made : Made arena graph slotSize cyclic late)
    (grown : early <:+ late) (found : early.lookup cls = some layout) :
    late.lookup cls = some layout ∧ chainIn graph late cls = chainIn graph early cls := by
  induction made with
  | start =>
    rw [List.suffix_nil.mp grown] at found
    cases found
  | @next earlier other _ _ _ _ _ made fresh declared used ih =>
    rcases List.suffix_cons_iff.mp grown with rfl | grown
    · exact ⟨found, rfl⟩
    · obtain ⟨stays, same⟩ := ih grown
      have different : cls ≠ other := by
        rintro rfl
        rw [fresh] at stays
        cases stays
      rw [Table.lookup_cons, if_neg different, chainIn, if_neg (Ne.symm different)]
      exact ⟨stays, same⟩

/-- How a class in a well-made record was laid out. -/
theorem Made.entry {cyclic : List DeclId} {built : List (DeclId × ClassLayout)} {cls : DeclId}
    {layout : ClassLayout} (made : Made arena graph slotSize cyclic built)
    (found : built.lookup cls = some layout) :
    ∃ (earlier : List (DeclId × ClassLayout)) (id : DeclId) (name : Ident) (above : Option Ident)
      (interfaces : List Ident) (members : List Decl),
      earlier <:+ built ∧ Made arena graph slotSize cyclic earlier ∧
      arena.decl? cls = some (.cls id name above interfaces members) ∧
      layout = members.foldl (ClassLayout.addMember slotSize)
        (startAmong graph earlier cls name.name) ∧
      (chainIn graph built cls = cls :: match superclassOf graph cls with
        | .ok (some superclass) => chainIn graph earlier superclass
        | _ => []) ∧
      ∀ superclass, superclassOf graph cls = .ok (some superclass) →
        arena.hasClass superclass → earlier.lookup superclass = none → superclass ∈ cyclic := by
  induction made with
  | start => cases found
  | @next earlier other id name above interfaces members made fresh declared used ih =>
    rw [Table.lookup_cons] at found
    by_cases same : cls = other
    · subst same
      rw [if_pos rfl] at found
      cases found
      exact ⟨earlier, id, name, above, interfaces, members, List.suffix_cons _ _, made, declared, rfl,
        by rw [chainIn, if_pos rfl], used⟩
    · rw [if_neg same] at found
      obtain ⟨before, id, name, above, interfaces, members, grown, rest⟩ := ih found
      refine ⟨before, id, name, above, interfaces, members, grown.trans (List.suffix_cons _ _), ?_⟩
      rw [chainIn, if_neg (Ne.symm same)]
      exact rest

/-- What a class starts from is in step, when the layouts before it are. -/
theorem startAmong_inStep {earlier : List (DeclId × ClassLayout)}
    (each : ∀ {cls : DeclId} {layout : ClassLayout}, earlier.lookup cls = some layout →
      layout.InStep slotSize) (cls : DeclId) (name : String) :
    (startAmong graph earlier cls name).InStep slotSize := by
  unfold startAmong
  split
  · split
    · rename_i base stands
      exact (each stands).derive name
    · exact .start slotSize name
  · exact .start slotSize name

/-- The parts of every layout in a well-made record are in step. -/
theorem Made.inStep {cyclic : List DeclId} {built : List (DeclId × ClassLayout)} {cls : DeclId}
    {layout : ClassLayout} (made : Made arena graph slotSize cyclic built)
    (found : built.lookup cls = some layout) : layout.InStep slotSize := by
  induction made generalizing cls layout with
  | start => cases found
  | next made fresh declared used ih =>
    rw [Table.lookup_cons] at found
    split at found
    · cases found
      exact (startAmong_inStep ih _ _).addMembers _
    · exact ih found

/-- The label of a method is that of the first class on the chain which declares it. -/
theorem Made.label {cyclic : List DeclId} {built : List (DeclId × ClassLayout)} {cls : DeclId}
    {layout : ClassLayout} (made : Made arena graph slotSize cyclic built)
    (found : built.lookup cls = some layout) (method : String) :
    layout.label? method = (chainIn graph built cls).findSome? (declaredLabel? arena method) := by
  -- The chain goes on in the part of the record before the class, so the induction is on the record.
  induction made generalizing cls layout with
  | start => cases found
  | @next earlier other id name above interfaces members made fresh declared used ih =>
    rw [Table.lookup_cons] at found
    rw [chainIn]
    by_cases same : cls = other
    · subst same
      rw [if_pos rfl] at found
      cases found
      have inherited : (startAmong graph earlier cls name.name).label? method =
          List.findSome? (declaredLabel? arena method) (match superclassOf graph cls with
            | .ok (some superclass) => chainIn graph earlier superclass
            | _ => []) := by
        unfold startAmong
        split
        · rename_i superclass _
          cases above : earlier.lookup superclass with
          | none =>
            rw [chainIn_eq_nil.mpr above]
            rfl
          | some base =>
            have inner := ih above
            exact inner
        · rfl
      rw [if_pos rfl, (startAmong_inStep made.inStep _ _).addMembers_label, startAmong_name,
        List.findSome?_cons, inherited]
      by_cases own : members.any (ClassLayout.isMethod method) = true
      · simp only [declaredLabel?, declared, own, if_true]
      · simp only [declaredLabel?, declared, own]
        rfl
    · rw [if_neg same] at found
      rw [if_neg (Ne.symm same)]
      exact ih found

/-- A class that starts from a layout has all that is there. -/
private theorem extends_start {earlier : List (DeclId × ClassLayout)} {cls superclass : DeclId}
    {name : String} {members : List Decl} {base : ClassLayout}
    (link : superclassOf graph cls = .ok (some superclass))
    (stands : earlier.lookup superclass = some base) :
    (members.foldl (ClassLayout.addMember slotSize) (startAmong graph earlier cls name)).Extends base := by
  have started : startAmong graph earlier cls name = base.derive name := by
    simp only [startAmong, link, stands]
  rw [started]
  exact (ClassLayout.addMembers_extends ..).trans (ClassLayout.derive_extends ..)

/-- Where the chain goes on above a class, the class has all that its superclass has, in the same
places. -/
theorem Made.extends_above {cyclic : List DeclId} {built : List (DeclId × ClassLayout)}
    {cls superclass : DeclId} {rest : List DeclId} {layout : ClassLayout}
    (made : Made arena graph slotSize cyclic built) (found : built.lookup cls = some layout)
    (used : chainIn graph built cls = cls :: superclass :: rest) :
    superclassOf graph cls = .ok (some superclass) ∧
      ∃ base, built.lookup superclass = some base ∧ layout.Extends base := by
  obtain ⟨earlier, id, name, _, _, members, grown, _, _, rfl, chained, -⟩ := made.entry found
  rw [chained, List.cons.injEq] at used
  split at used
  · rename_i above link
    obtain rfl := chainIn_head used.2
    cases stands : earlier.lookup superclass with
    | none =>
      rw [chainIn_eq_nil.mpr stands] at used
      cases used.2
    | some base =>
      exact ⟨link, base, (made.lookup_suffix grown stands).1, extends_start link stands⟩
  · cases used.2

/-- A class is laid out below the superclass it is linked to, unless that class closes a cycle. -/
theorem Made.chain_step {cyclic : List DeclId} {built : List (DeclId × ClassLayout)}
    {cls superclass : DeclId} {layout : ClassLayout}
    (made : Made arena graph slotSize cyclic built) (found : built.lookup cls = some layout)
    (link : superclassOf graph cls = .ok (some superclass)) (isClass : arena.hasClass superclass) :
    (chainIn graph built cls = cls :: chainIn graph built superclass ∧
      ∃ base, built.lookup superclass = some base ∧ layout.Extends base) ∨ superclass ∈ cyclic := by
  obtain ⟨earlier, id, name, _, _, members, grown, _, _, rfl, chained, used⟩ := made.entry found
  cases stands : earlier.lookup superclass with
  | none => exact .inr (used superclass link isClass stands)
  | some base =>
    obtain ⟨stays, same⟩ := made.lookup_suffix grown stands
    refine .inl ⟨?_, base, stays, extends_start link stands⟩
    rw [chained, link, same]

end LaidOut

/-- Inherited layout and dispatch. Every top-level class is laid out, below the superclass it is linked
to unless that class closes a cycle. A class that is laid out below another has the fields and methods
of that one at the same offsets and slots; its methods are those that some class on its chain declares,
and the slot of each holds the label of the nearest class that does. -/
theorem LaidOut.dispatches_to_nearest (program : Program) (built : program.Built) (graph : ScopeGraph)
    (slotSize : Int) (laid : LaidOut)
    (ran : LaidOut.layOutAll program.arena graph slotSize program.top {} = .ok laid) :
    (∀ decl ∈ program.top, decl.isClass = true → (laid.built.lookup decl.id).isSome) ∧
    ∀ cls layout, laid.built.lookup cls = some layout →
      (∀ superclass, LaidOut.superclassOf graph cls = .ok (some superclass) →
        program.arena.hasClass superclass →
        laid.chain graph cls = cls :: laid.chain graph superclass ∨ superclass ∈ laid.cyclic) ∧
      (∀ superclass rest, laid.chain graph cls = cls :: superclass :: rest →
        LaidOut.superclassOf graph cls = .ok (some superclass) ∧
        ∃ base, laid.built.lookup superclass = some base ∧
          (∀ field offset, base.fieldOffset? field = some offset →
            layout.fieldOffset? field = some offset) ∧
          (∀ method slot, base.methodSlot? method = some slot →
            layout.methodSlot? method = some slot) ∧
          base.table.length ≤ layout.table.length) ∧
      ∀ method,
        (layout.hasMethod method = true ↔
          ∃ owner ∈ laid.chain graph cls, ∃ name, program.arena.Declares owner name method) ∧
        ∀ slot, layout.methodSlot? method = some slot →
          ∃ nearer owner name further, laid.chain graph cls = nearer ++ owner :: further ∧
            (∀ other ∈ nearer, ∀ name, ¬ program.arena.Declares other name method) ∧
            program.arena.Declares owner name method ∧
            layout.table[slot]? = some (ClassLayout.methodLabel name.name method) := by
  obtain ⟨advanced, complete⟩ := LaidOut.layOutAll_advances program.top {} laid .start ran
  have made := advanced.made
  refine ⟨?_, ?_⟩
  · intro decl member isClass
    exact complete decl member isClass ⟨decl, built.coherent.stored decl member, isClass⟩
  intro cls layout found
  refine ⟨?_, ?_, ?_⟩
  · intro superclass link isClass
    exact (made.chain_step found link isClass).imp_left And.left
  · intro superclass rest used
    obtain ⟨link, base, stands, wider⟩ := made.extends_above found used
    exact ⟨link, base, stands, wider.fields, wider.methods, wider.table⟩
  intro method
  have label := made.label found method
  refine ⟨?_, ?_⟩
  · rw [(made.inStep found).hasMethod, label, List.findSome?_isSome_iff]
    constructor
    · rintro ⟨owner, member, labelled⟩
      obtain ⟨text, labelled⟩ := Option.isSome_iff_exists.mp labelled
      obtain ⟨name, declares, -⟩ := LaidOut.declaredLabel?_eq_some.mp labelled
      exact ⟨owner, member, name, declares⟩
    · rintro ⟨owner, member, name, declares⟩
      exact ⟨owner, member, Option.isSome_iff_exists.mpr
        ⟨_, LaidOut.declaredLabel?_eq_some.mpr ⟨name, declares, rfl⟩⟩⟩
  · intro slot atSlot
    obtain ⟨text, stands, here⟩ := (made.inStep found).label_at_slot atSlot
    rw [here]
    rw [label] at stands
    obtain ⟨nearer, owner, further, chained, labelled, others⟩ := List.findSome?_eq_some_iff.mp stands
    obtain ⟨name, declares, rfl⟩ := LaidOut.declaredLabel?_eq_some.mp labelled
    exact ⟨nearer, owner, name, further, chained,
      fun other member => LaidOut.declaredLabel?_eq_none.mp (others other member), declares, rfl⟩

/-- A class `Low` that names `High` as its superclass, stands before it, inherits its method `keep`,
overrides its method `alter` and adds a method `extra`. -/
def LaidOut.lowAndHigh : List Step :=
  let word (name : String) : Ident := ⟨name, default⟩
  let method (name : String) : Step := .function (word name) (.primitive .void) [] none
  [ .var (word "size") (.primitive .int), method "keep", method "alter",
    .cls (word "High") none [] [⟨0⟩, ⟨1⟩, ⟨2⟩],
    method "extra", method "alter",
    .cls (word "Low") (some (word "High")) [] [⟨4⟩, ⟨5⟩] ]

theorem LaidOut.dispatches_low_and_high :
    ∃ program linked laid layout base,
      Program.assemble LaidOut.lowAndHigh [⟨6⟩, ⟨3⟩] = some program ∧
      program.entered.graph.link program.arena program.entered.classes = .ok linked ∧
      LaidOut.layOutAll program.arena linked.graph 4 program.top {} = .ok laid ∧
      laid.built.lookup ⟨6⟩ = some layout ∧ laid.chain linked.graph ⟨6⟩ = [⟨6⟩, ⟨3⟩] ∧
      layout.table = ["_High.keep", "_Low.alter", "_Low.extra"] ∧
      laid.built.lookup ⟨3⟩ = some base ∧ base.table.length ≤ layout.table.length := by
  have run : ((Program.assemble LaidOut.lowAndHigh [⟨6⟩, ⟨3⟩]).bind fun program =>
      (program.entered.graph.link program.arena program.entered.classes).toOption.bind fun linked =>
      (LaidOut.layOutAll program.arena linked.graph 4 program.top {}).toOption.bind fun laid =>
      (laid.built.lookup ⟨6⟩).map fun layout => (laid.chain linked.graph ⟨6⟩, layout.table)) =
        some ([⟨6⟩, ⟨3⟩], ["_High.keep", "_Low.alter", "_Low.extra"]) := by
    decide +kernel
  simp only [Option.bind_eq_some_iff, Option.map_eq_some_iff, Prod.mk.injEq] at run
  obtain ⟨program, made, linked, link, laid, ran, layout, found, chained, labels⟩ := run
  have ran := Arena.ok_of_toOption ran
  obtain ⟨-, base, stands, -, -, longer⟩ := ((LaidOut.dispatches_to_nearest program
    (Program.built_of_assemble made) linked.graph 4 laid ran).2 ⟨6⟩ layout found).2.1 ⟨3⟩ [] chained
  exact ⟨program, linked, laid, layout, base, made, Arena.ok_of_toOption link, ran, found, chained,
    labels, stands, longer⟩

end DecafTac
