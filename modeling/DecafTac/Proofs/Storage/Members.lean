import Mathlib.Data.List.Nodup
import DecafTac.Proofs.Storage.Wrapping
import DecafTac.Proofs.Tables
import DecafTac.Storage.ClassLayout

/-!
What adding members does to a layout. Its parts change apart from one another: a new field comes into the
table of fields and is counted, a new method comes into the table of slots and its label behind the method
table, and an overriding one only changes the label in its slot. That they stay in step is the invariant
of this module. Then a field that is there stays at its offset and a method that is there stays in its
slot; the label found under a method's name is that of the class which added it last.
-/
namespace DecafTac

namespace ClassLayout

/-- The parts of a layout are in step. -/
structure InStep (slotSize : Int) (layout : ClassLayout) : Prop where
  /-- As many fields as there are are counted. -/
  counted : layout.fields.length = layout.fieldCount
  fieldNames : (layout.fields.map Prod.fst).Nodup
  /-- Fields lie one slot after the other. -/
  offsets : layout.fields.map Prod.snd = (List.range layout.fieldCount).map (slotBytes slotSize)
  methodNames : (layout.methods.map Prod.fst).Nodup
  /-- Methods have the slots of the method table, one after the other. -/
  slots : layout.methods.map Prod.snd = List.range layout.table.length

theorem hasField_iff (layout : ClassLayout) (name : String) :
    layout.hasField name = true ↔ name ∈ layout.fields.map Prod.fst := by
  simp [hasField, fieldOffset?, List.lookup_isSome_iff]

theorem hasMethod_iff (layout : ClassLayout) (name : String) :
    layout.hasMethod name = true ↔ name ∈ layout.methods.map Prod.fst := by
  simp [hasMethod, methodSlot?, List.lookup_isSome_iff]

theorem methodSlot?_eq_none {layout : ClassLayout} {name : String} :
    layout.methodSlot? name = none ↔ name ∉ layout.methods.map Prod.fst := by
  rw [← hasMethod_iff, hasMethod, Option.not_isSome_iff_eq_none]

/-! ## Names -/

/-- A name behind some others, unless it stands among them. -/
def withName (names : List String) (name : String) : List String :=
  if name ∈ names then names else names ++ [name]

theorem mem_withName {names : List String} {name other : String} :
    other ∈ withName names name ↔ other ∈ names ∨ other = name := by
  unfold withName
  split
  · rename_i there
    exact ⟨.inl, fun found => found.elim id fun same => same ▸ there⟩
  · simp

theorem nodup_withName {names : List String} (single : names.Nodup) (name : String) :
    (withName names name).Nodup := by
  unfold withName
  split
  · exact single
  · rename_i new
    rw [List.nodup_append]
    refine ⟨single, List.nodup_singleton name, ?_⟩
    rintro other member _ last rfl
    exact new (List.mem_singleton.mp last ▸ member)

theorem addField_fields (layout : ClassLayout) (slotSize : Int) (name : String) (type : TypeExpr) :
    (layout.addField slotSize name type).fields.map Prod.fst =
      withName (layout.fields.map Prod.fst) name := by
  simp only [addField, withName, hasField_iff]
  split <;> simp

theorem addField_methods (layout : ClassLayout) (slotSize : Int) (name : String) (type : TypeExpr) :
    (layout.addField slotSize name type).methods = layout.methods := by
  unfold addField
  split <;> rfl

theorem addMethod_fields (layout : ClassLayout) (name : String) (result : TypeExpr) :
    (layout.addMethod name result).fields = layout.fields := by
  unfold addMethod
  split <;> rfl

theorem addMethod_methods (layout : ClassLayout) (name : String) (result : TypeExpr) :
    (layout.addMethod name result).methods.map Prod.fst =
      withName (layout.methods.map Prod.fst) name := by
  unfold addMethod withName
  cases found : layout.methodSlot? name with
  | none => rw [if_neg (methodSlot?_eq_none.mp found), List.map_append, List.map_singleton]
  | some slot => rw [if_pos (List.mem_map_of_mem (Table.mem_of_lookup found))]

/-! ## Parts in step -/

namespace InStep

variable {slotSize : Int} {layout : ClassLayout}

theorem start (slotSize : Int) (name : String) : InStep slotSize { name } :=
  ⟨rfl, List.nodup_nil, rfl, List.nodup_nil, rfl⟩

theorem derive (inStep : layout.InStep slotSize) (name : String) : (layout.derive name).InStep slotSize :=
  ⟨inStep.counted, inStep.fieldNames, inStep.offsets, inStep.methodNames, inStep.slots⟩

/-- The slot of a method lies in the method table. -/
theorem slot_lt (inStep : layout.InStep slotSize) {method : String} {slot : Nat}
    (found : layout.methodSlot? method = some slot) : slot < layout.table.length := by
  rw [← List.mem_range, ← inStep.slots]
  exact List.mem_map_of_mem (Table.mem_of_lookup found)

/-- No two methods have one slot. -/
theorem slot_inj (inStep : layout.InStep slotSize) {method other : String} {slot : Nat}
    (found : layout.methodSlot? method = some slot) (again : layout.methodSlot? other = some slot) :
    method = other := by
  have single : (layout.methods.map Prod.snd).Nodup := inStep.slots ▸ List.nodup_range
  exact congrArg Prod.fst (List.inj_on_of_nodup_map single (Table.mem_of_lookup found)
    (Table.mem_of_lookup again) rfl)

theorem addField (inStep : layout.InStep slotSize) (name : String) (type : TypeExpr) :
    (layout.addField slotSize name type).InStep slotSize := by
  have names : ((layout.addField slotSize name type).fields.map Prod.fst).Nodup := by
    rw [addField_fields]
    exact nodup_withName inStep.fieldNames name
  unfold ClassLayout.addField at names ⊢
  split
  · exact inStep
  · rename_i new
    rw [if_neg new] at names
    refine ⟨?_, names, ?_, inStep.methodNames, inStep.slots⟩
    · rw [List.length_append, inStep.counted]
      rfl
    · rw [List.map_append, inStep.offsets, List.range_succ, List.map_append]
      rfl

theorem addMethod (inStep : layout.InStep slotSize) (name : String) (result : TypeExpr) :
    (layout.addMethod name result).InStep slotSize := by
  have names : ((layout.addMethod name result).methods.map Prod.fst).Nodup := by
    rw [addMethod_methods]
    exact nodup_withName inStep.methodNames name
  unfold ClassLayout.addMethod at names ⊢
  cases found : layout.methodSlot? name with
  | some slot =>
    refine ⟨inStep.counted, inStep.fieldNames, inStep.offsets, inStep.methodNames, ?_⟩
    rw [List.length_set]
    exact inStep.slots
  | none =>
    rw [found] at names
    refine ⟨inStep.counted, inStep.fieldNames, inStep.offsets, names, ?_⟩
    rw [List.map_append, inStep.slots, List.length_append, List.length_singleton, List.range_succ]
    rfl

theorem addMember (inStep : layout.InStep slotSize) (member : Decl) :
    (ClassLayout.addMember slotSize layout member).InStep slotSize := by
  cases member with
  | var id name type => exact inStep.addField name.name type
  | prototype id name result formals => exact inStep.addMethod name.name result
  | function id name result formals body => exact inStep.addMethod name.name result
  | cls | interface => exact inStep

theorem addMembers (inStep : layout.InStep slotSize) (members : List Decl) :
    (members.foldl (ClassLayout.addMember slotSize) layout).InStep slotSize := by
  induction members generalizing layout with
  | nil => exact inStep
  | cons member rest ih => exact ih (inStep.addMember member)

end InStep

/-! ## Labels -/

/-- The label in the slot of a method. -/
def label? (layout : ClassLayout) (method : String) : Option String :=
  (layout.methodSlot? method).bind fun slot => layout.table[slot]?

/-- A method has a label, when the parts of the layout are in step. -/
theorem InStep.hasMethod {slotSize : Int} {layout : ClassLayout} (inStep : layout.InStep slotSize)
    (method : String) : layout.hasMethod method = true ↔ (layout.label? method).isSome := by
  rw [ClassLayout.hasMethod, label?]
  cases found : layout.methodSlot? method with
  | none => simp
  | some slot => simp [inStep.slot_lt found]

theorem InStep.label_at_slot {slotSize : Int} {layout : ClassLayout} (inStep : layout.InStep slotSize)
    {method : String} {slot : Nat} (found : layout.methodSlot? method = some slot) :
    ∃ label, layout.label? method = some label ∧ layout.table[slot]? = some label := by
  have inTable := inStep.slot_lt found
  exact ⟨layout.table[slot], by simp [label?, found, inTable], by simp [inTable]⟩

/-- A layout that has all that another has, in the same places. -/
structure Extends (wide base : ClassLayout) : Prop where
  fields : ∀ field offset, base.fieldOffset? field = some offset → wide.fieldOffset? field = some offset
  methods : ∀ method slot, base.methodSlot? method = some slot → wide.methodSlot? method = some slot
  table : base.table.length ≤ wide.table.length

theorem Extends.refl (layout : ClassLayout) : layout.Extends layout :=
  ⟨fun _ _ found => found, fun _ _ found => found, Nat.le_refl _⟩

theorem Extends.trans {wide middle base : ClassLayout} (outer : wide.Extends middle)
    (inner : middle.Extends base) : wide.Extends base where
  fields field offset found := outer.fields field offset (inner.fields field offset found)
  methods method slot found := outer.methods method slot (inner.methods method slot found)
  table := Nat.le_trans inner.table outer.table

/-- A subclass starts with all that its superclass has. -/
theorem derive_extends (layout : ClassLayout) (name : String) : (layout.derive name).Extends layout :=
  ⟨fun _ _ found => found, fun _ _ found => found, Nat.le_refl _⟩

/-! ## One member -/

theorem addField_extends (layout : ClassLayout) (slotSize : Int) (name : String) (type : TypeExpr) :
    (layout.addField slotSize name type).Extends layout := by
  unfold addField
  split
  · exact .refl layout
  · refine ⟨?_, fun _ _ found => found, Nat.le_refl _⟩
    intro field offset found
    simp only [fieldOffset?] at found ⊢
    rw [List.lookup_append, found]
    rfl

theorem addField_label (layout : ClassLayout) (slotSize : Int) (name : String) (type : TypeExpr)
    (method : String) : (layout.addField slotSize name type).label? method = layout.label? method := by
  unfold addField
  split <;> rfl

theorem addMethod_extends (layout : ClassLayout) (name : String) (result : TypeExpr) :
    (layout.addMethod name result).Extends layout := by
  unfold addMethod
  cases known : layout.methodSlot? name with
  | some slot => exact ⟨fun _ _ found => found, fun _ _ found => found, by simp⟩
  | none =>
    refine ⟨fun _ _ found => found, fun method slot found => ?_, by simp⟩
    simp only [methodSlot?] at found ⊢
    rw [List.lookup_append, found]
    rfl

/-- The label of a method that is added is that of the class; the others keep theirs. -/
theorem InStep.addMethod_label {slotSize : Int} {layout : ClassLayout} (inStep : layout.InStep slotSize)
    (name : String) (result : TypeExpr) (method : String) :
    (layout.addMethod name result).label? method =
      if method = name then some (methodLabel layout.name name) else layout.label? method := by
  unfold ClassLayout.addMethod
  cases known : layout.methodSlot? name with
  | some slot =>
    have inTable := inStep.slot_lt known
    simp only [label?, methodSlot?] at known ⊢
    by_cases same : method = name
    · simp [same, known, inTable]
    · rw [if_neg same]
      cases found : layout.methods.lookup method with
      | none => rfl
      | some other =>
        have apart : slot ≠ other := by
          rintro rfl
          exact same (inStep.slot_inj found known)
        simp [List.getElem?_set_ne apart]
  | none =>
    simp only [label?, methodSlot?] at known ⊢
    rw [List.lookup_append, Table.lookup_cons]
    by_cases same : method = name
    · simp [same, known]
    · rw [if_neg same, if_neg same, List.lookup_nil, Option.or_none]
      cases found : layout.methods.lookup method with
      | none => rfl
      | some slot => simp [List.getElem?_append_left (inStep.slot_lt found)]

/-! ## All members of a class -/

/-- Whether a member is a function of the given name. -/
def isMethod (method : String) (member : Decl) : Bool := member.isFunction && member.name == method

theorem addMember_extends (slotSize : Int) (layout : ClassLayout) (member : Decl) :
    (addMember slotSize layout member).Extends layout := by
  cases member with
  | var id name type => exact addField_extends layout slotSize name.name type
  | prototype id name result formals => exact addMethod_extends layout name.name result
  | function id name result formals body => exact addMethod_extends layout name.name result
  | cls | interface => exact .refl layout

theorem addMember_name (slotSize : Int) (layout : ClassLayout) (member : Decl) :
    (addMember slotSize layout member).name = layout.name := by
  cases member with
  | var =>
    simp only [addMember, addField]
    split <;> rfl
  | prototype | function =>
    simp only [addMember, addMethod]
    split <;> rfl
  | cls | interface => rfl

theorem InStep.addMember_label {slotSize : Int} {layout : ClassLayout} (inStep : layout.InStep slotSize)
    (member : Decl) (method : String) :
    (ClassLayout.addMember slotSize layout member).label? method =
      if isMethod method member then some (methodLabel layout.name method)
      else layout.label? method := by
  cases member with
  | var id name type => exact addField_label layout slotSize name.name type method
  | prototype id name result formals =>
    refine (inStep.addMethod_label name.name result method).trans ?_
    by_cases same : method = name.name
    · subst same
      simp [isMethod, Decl.isFunction, Decl.kind, Decl.name, Decl.ident]
    · simp [isMethod, Decl.isFunction, Decl.kind, Decl.name, Decl.ident, same, Ne.symm same]
  | function id name result formals body =>
    refine (inStep.addMethod_label name.name result method).trans ?_
    by_cases same : method = name.name
    · subst same
      simp [isMethod, Decl.isFunction, Decl.kind, Decl.name, Decl.ident]
    · simp [isMethod, Decl.isFunction, Decl.kind, Decl.name, Decl.ident, same, Ne.symm same]
  | cls | interface => rfl

theorem addMembers_extends (slotSize : Int) (members : List Decl) (layout : ClassLayout) :
    (members.foldl (addMember slotSize) layout).Extends layout := by
  induction members generalizing layout with
  | nil => exact .refl layout
  | cons member rest ih => exact (ih _).trans (addMember_extends slotSize layout member)

/-- After all members are added, a method that one of them is has the label of the class, and every
other has the label it had before. -/
theorem InStep.addMembers_label {slotSize : Int} {layout : ClassLayout} (inStep : layout.InStep slotSize)
    (members : List Decl) (method : String) :
    (members.foldl (ClassLayout.addMember slotSize) layout).label? method =
      if members.any (isMethod method) then some (methodLabel layout.name method)
      else layout.label? method := by
  induction members generalizing layout with
  | nil => rfl
  | cons member rest ih =>
    rw [List.foldl_cons, ih (inStep.addMember member), addMember_name, inStep.addMember_label,
      List.any_cons]
    by_cases here : isMethod method member = true <;> by_cases later : rest.any (isMethod method) = true <;>
      simp [here, later]

end ClassLayout

end DecafTac
