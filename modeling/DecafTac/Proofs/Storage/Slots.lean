import DecafTac.Proofs.Storage.Collisions

/-!
What every layout keeps to, whether or not anything is reported. The fields fill the space behind the
header without gaps, one slot for each name, and the methods fill the table, one slot for each name under
the label of a class. A member that is declared again and a superclass that closes a cycle leave no gap:
each member that is added keeps a layout so, and a class starts from a layout that was made before it.

Offsets are numbers of the target. They are told apart, and lie within the object, as long as 32 bits hold
them.
-/
namespace DecafTac

/-- The members of the class of a number. -/
def Arena.membersOf (arena : Arena) (cls : DeclId) : List Decl :=
  ((arena.decl? cls).map Decl.members).getD []

namespace ClassLayout

variable {layout : ClassLayout} {members : List Decl} {slotSize : Int} {shape : FrameShape}

/-! ## Slots of fields -/

end ClassLayout

/-! ## Layouts in the record -/

namespace LaidOut

variable {arena : Arena} {graph : ScopeGraph} {slotSize : Int} {cyclic : List DeclId}
  {built : List (DeclId × ClassLayout)} {cls : DeclId} {layout : ClassLayout}

/-- A class has what the classes on its chain declare, the topmost first. -/
theorem Made.holds (made : Made arena graph slotSize cyclic built)
    (found : built.lookup cls = some layout) :
    layout.Holds ((chainIn graph built cls).reverse.flatMap arena.membersOf) := by
  -- The chain goes on in the part of the record before the class, so the induction is on the record.
  induction made generalizing cls layout with
  | start => cases found
  | @next earlier other id name above interfaces members made fresh declared used ih =>
    rw [Table.lookup_cons] at found
    rw [chainIn]
    by_cases same : cls = other
    · subst same
      rw [if_pos rfl] at found
      cases found
      have own : arena.membersOf cls = members := by
        rw [Arena.membersOf, declared]
        rfl
      rw [if_pos rfl, List.reverse_cons, List.flatMap_append, List.flatMap_singleton, own]
      refine ClassLayout.Holds.addMembers ?_
      cases link : superclassOf graph cls with
      | error =>
        simp only [startAmong, link]
        exact .start name.name
      | ok linked =>
        cases linked with
        | none =>
          simp only [startAmong, link]
          exact .start name.name
        | some superclass =>
          cases stands : earlier.lookup superclass with
          | none =>
            simp only [startAmong, link, stands, chainIn_eq_nil.mpr stands]
            exact .start name.name
          | some base =>
            simp only [startAmong, link, stands]
            exact (ih stands).derive name.name
    · rw [if_neg same] at found
      rw [if_neg (Ne.symm same)]
      exact ih found

/-- The label in the slot of a method is that of a class. -/
theorem Made.labelled (made : Made arena graph slotSize cyclic built)
    (found : built.lookup cls = some layout) {method : String} {slot : Nat}
    (place : layout.methodSlot? method = some slot) :
    ∃ owner ∈ chainIn graph built cls, ∃ name, arena.Declares owner name method ∧
      layout.table[slot]? = some (ClassLayout.methodLabel name.name method) := by
  obtain ⟨label, stands, here⟩ := (made.inStep found).label_at_slot place
  rw [here]
  rw [made.label found method] at stands
  obtain ⟨owner, listed, labelled⟩ := List.exists_of_findSome?_eq_some stands
  obtain ⟨name, declares, rfl⟩ := declaredLabel?_eq_some.mp labelled
  exact ⟨owner, listed, name, declares, rfl⟩

end LaidOut

namespace Program

variable {program : Program}

end Program

end DecafTac
