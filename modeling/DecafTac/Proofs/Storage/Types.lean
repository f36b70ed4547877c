import DecafTac.Proofs.Storage.Cycles

/-!
Recorded types. A layout records the types of members by name, from the topmost class down, and the
function table the results of functions. The element type of an array goes into the same table, under
the name of the array with `_elem` behind it. So it can take the place of the type of another member, and
that member can take its place. In an accepted program the type and the element type of a name are found
exactly when nothing else was written over them.
-/
namespace DecafTac

open Relation (ReflTransGen TransGen)

/-! ## What is written last -/

/-- What recording a type under a name writes under a key. -/
def written? (key : String) (record : String × Tag) : Option Tag :=
  if record.1 = key then some record.2
  else if record.1 ++ "_elem" = key then record.2.element?
  else none

/-- The type that a declaration has recorded, under its name. -/
def Decl.recorded? (d : Decl) : Option (String × Tag) :=
  d.writtenType?.map fun type => (d.name, Tag.ofType type)

theorem Decl.writtenType?_isSome (d : Decl) :
    d.writtenType?.isSome = (d.varType?.isSome || d.isFunction) := by
  cases d <;> rfl

theorem Decl.recorded?_function {d : Decl} {signature : Signature}
    (function : d.signature? = some signature) :
    d.recorded? = some (d.name, Tag.ofType signature.result) := by
  cases d <;> cases function <;> rfl

theorem Decl.recorded?_name {d : Decl} {record : String × Tag} (recorded : d.recorded? = some record) :
    record.1 = d.name := by
  obtain ⟨type, -, rfl⟩ := Option.map_eq_some_iff.mp recorded
  rfl

/-- The types that some declarations have recorded, the last one first. -/
def recordsOf (decls : List Decl) : List (String × Tag) := (decls.filterMap Decl.recorded?).reverse

/-- What is recorded after the last type of a name. -/
def since (name : String) (records : List (String × Tag)) : List (String × Tag) :=
  records.takeWhile (·.1 != name)

/-- No element type was written over the type of a name, unless it is the same. -/
def TypeKept (records : List (String × Tag)) (name : String) (tag : Tag) : Prop :=
  ∀ other ∈ since name records, other.1 ++ "_elem" = name →
    other.2.element? = none ∨ other.2.element? = some tag

/-- No other type was written over the element type of a name, unless it is the same, nor stands where the
element type would be when the name has none. -/
def ElementKept (records : List (String × Tag)) (name : String) (tag : Tag) : Prop :=
  ∀ other ∈ (if tag.isArray then since name records else records), other.1 = name ++ "_elem" →
    tag.element? = some other.2

instance (records : List (String × Tag)) (name : String) (tag : Tag) :
    Decidable (TypeKept records name tag) :=
  inferInstanceAs (Decidable (∀ _ ∈ _, _))

instance (records : List (String × Tag)) (name : String) (tag : Tag) :
    Decidable (ElementKept records name tag) :=
  inferInstanceAs (Decidable (∀ _ ∈ _, _))

/-- Records of one name are of one type. -/
def Agree (records : List (String × Tag)) : Prop :=
  ∀ a ∈ records, ∀ b ∈ records, a.1 = b.1 → a.2 = b.2

theorem ne_elem (name : String) : name ≠ name ++ "_elem" := by
  intro same
  have lengths := congrArg String.length same
  rw [String.length_append] at lengths
  have longer : "_elem".length = 5 := rfl
  omega

theorem lookup_recordType (types : List (String × Tag)) (name : String) (type : TypeExpr)
    (key : String) : (recordType types name type).lookup key =
      (written? key (name, Tag.ofType type)).or (types.lookup key) := by
  simp only [recordType, written?]
  cases (Tag.ofType type).element? with
  | none =>
    rw [Table.lookup_cons]
    by_cases own : key = name
    · simp [own]
    · simp [own, Ne.symm own]
  | some element =>
    rw [Table.lookup_cons, Table.lookup_cons]
    by_cases own : key = name
    · simp [own]
    · by_cases part : key = name ++ "_elem"
      · simp [part, ne_elem]
      · simp [own, part, Ne.symm own, Ne.symm part]

theorem recordsOf_append (decls more : List Decl) :
    recordsOf (decls ++ more) = recordsOf more ++ recordsOf decls := by
  rw [recordsOf, List.filterMap_append, List.reverse_append]
  rfl

theorem mem_recordsOf {decls : List Decl} {record : String × Tag} :
    record ∈ recordsOf decls ↔ ∃ d ∈ decls, d.recorded? = some record := by
  rw [recordsOf, List.mem_reverse, List.mem_filterMap]

section Keeping

variable {records : List (String × Tag)} {name : String} {tag : Tag}

/-- The last record of a name, with what is recorded after it and before it. -/
theorem Agree.split (agree : Agree records) (listed : (name, tag) ∈ records) :
    ∃ earlier, records = since name records ++ (name, tag) :: earlier ∧
      ∀ other ∈ since name records, other.1 ≠ name := by
  obtain ⟨later, earlier, rfl, fresh⟩ := List.eq_append_cons_of_mem listed
  have others : ∀ other ∈ later, other.1 ≠ name := by
    intro other member named
    have same : other = (name, tag) :=
      Prod.ext named (agree other (List.mem_append_left _ member) _ listed named)
    exact fresh (same ▸ member)
  have cut : since name (later ++ (name, tag) :: earlier) = later := by
    rw [since, List.takeWhile_append_of_pos (by simpa using others), List.takeWhile_cons]
    simp
  refine ⟨earlier, ?_, ?_⟩
  · rw [cut]
  · rwa [cut]

/-- A value stands after other writes exactly when all of these are the same, if they agree. -/
theorem findSome_or_iff {key : String} {value : Tag} (later : List (String × Tag))
    (agree : ∀ a ∈ later, ∀ b ∈ later, ∀ v w, written? key a = some v → written? key b = some w → v = w) :
    (later.findSome? (written? key)).or (some value) = some value ↔
      ∀ other ∈ later, ∀ v, written? key other = some v → v = value := by
  cases last : later.findSome? (written? key) with
  | none =>
    rw [List.findSome?_eq_none_iff] at last
    refine iff_of_true rfl ?_
    intro other member v written
    rw [last other member] at written
    cases written
  | some v =>
    obtain ⟨writer, member, wrote⟩ := List.exists_of_findSome?_eq_some last
    rw [Option.some_or, Option.some.injEq]
    constructor
    · rintro rfl other among w written
      exact agree other among writer member w v written wrote
    · intro all
      exact all writer member v wrote

/-- A record of another name writes under a name if it is an array of which the name tells the elements. -/
theorem written?_type {other : String × Tag} (elsewhere : other.1 ≠ name) {value : Tag} :
    written? name other = some value ↔
      other.1 ++ "_elem" = name ∧ other.2.element? = some value := by
  rw [written?, if_neg elsewhere, Option.ite_none_right_eq_some]

/-- A record of another name writes where the elements of a name stand if it has that name. -/
theorem written?_element {other : String × Tag} (elsewhere : other.1 ≠ name) {value : Tag} :
    written? (name ++ "_elem") other = some value ↔
      other.1 = name ++ "_elem" ∧ other.2 = value := by
  have stem : other.1 ++ "_elem" ≠ name ++ "_elem" :=
    fun same => elsewhere ((String.append_left_inj _).mp same)
  rw [written?, if_neg stem, Option.ite_none_right_eq_some, Option.some.injEq]

/-- The type of a name is found when no element type was written over it. -/
theorem Agree.type_iff (agree : Agree records) (listed : (name, tag) ∈ records) :
    records.findSome? (written? name) = some tag ↔ TypeKept records name tag := by
  obtain ⟨earlier, whole, fresh⟩ := agree.split listed
  have inside : since name records ⊆ records := (List.takeWhile_sublist _).subset
  -- Only an array whose name is continued to this one writes here, and its name is determined.
  have one : ∀ a ∈ since name records, ∀ b ∈ since name records, ∀ v w,
      written? name a = some v → written? name b = some w → v = w := by
    intro a first b second v w left right
    obtain ⟨stem, part⟩ := (written?_type (fresh a first)).mp left
    obtain ⟨stem', part'⟩ := (written?_type (fresh b second)).mp right
    rw [agree a (inside first) b (inside second) ((String.append_left_inj _).mp (stem.trans stem'.symm)),
      part'] at part
    exact (Option.some.inj part).symm
  have found : records.findSome? (written? name) =
      ((since name records).findSome? (written? name)).or (some tag) := by
    conv_lhs => rw [whole]
    rw [List.findSome?_append, List.findSome?_cons]
    simp [written?]
  rw [found, findSome_or_iff _ one, TypeKept]
  refine forall₂_congr fun other member => ?_
  constructor
  · intro all stem
    cases part : other.2.element? with
    | none => exact .inl rfl
    | some v =>
      exact .inr (congrArg some (all v ((written?_type (fresh other member)).mpr ⟨stem, part⟩)))
  · intro kept v written
    obtain ⟨stem, part⟩ := (written?_type (fresh other member)).mp written
    rcases kept stem with none | same
    · rw [none] at part
      cases part
    · exact Option.some.inj (part.symm.trans same)

theorem Tag.isArray_eq (tag : Tag) : tag.isArray = tag.element?.isSome := by
  cases tag <;> rfl

/-- The element type of a name is found when no other type stands in its place. -/
theorem Agree.element_iff (agree : Agree records) (listed : (name, tag) ∈ records) :
    records.findSome? (written? (name ++ "_elem")) = tag.element? ↔ ElementKept records name tag := by
  obtain ⟨earlier, whole, fresh⟩ := agree.split listed
  have inside : since name records ⊆ records := (List.takeWhile_sublist _).subset
  have own : written? (name ++ "_elem") (name, tag) = tag.element? := by
    simp [written?, ne_elem]
  rw [ElementKept, Tag.isArray_eq]
  cases part : tag.element? with
  | none =>
    rw [List.findSome?_eq_none_iff]
    refine forall₂_congr fun other member => ?_
    by_cases same : other.1 = name
    · -- A record of the name itself is of its type, which has no elements.
      have record : other = (name, tag) := Prod.ext same (agree other member _ listed same)
      rw [record, own, part]
      exact iff_of_true rfl fun named => absurd named (ne_elem name)
    · rw [Option.eq_none_iff_forall_ne_some]
      constructor
      · intro none named
        exact absurd ((written?_element same).mpr ⟨named, rfl⟩) (none _)
      · intro kept v written
        cases kept ((written?_element same).mp written).1
  | some element =>
    have one : ∀ a ∈ since name records, ∀ b ∈ since name records, ∀ v w,
        written? (name ++ "_elem") a = some v → written? (name ++ "_elem") b = some w → v = w := by
      intro a first b second v w left right
      obtain ⟨named, rfl⟩ := (written?_element (fresh a first)).mp left
      obtain ⟨named', rfl⟩ := (written?_element (fresh b second)).mp right
      exact agree a (inside first) b (inside second) (named.trans named'.symm)
    have found : records.findSome? (written? (name ++ "_elem")) =
        ((since name records).findSome? (written? (name ++ "_elem"))).or (some element) := by
      conv_lhs => rw [whole]
      rw [List.findSome?_append, List.findSome?_cons, own, part]
    rw [found, findSome_or_iff _ one]
    refine forall₂_congr fun other member => ?_
    constructor
    · intro all named
      exact congrArg some (all _ ((written?_element (fresh other member)).mpr ⟨named, rfl⟩)).symm
    · intro kept v written
      obtain ⟨named, rfl⟩ := (written?_element (fresh other member)).mp written
      exact (Option.some.inj (kept named)).symm

end Keeping

/-! ## The types of a layout -/

namespace ClassLayout

variable {slotSize : Int} {layout : ClassLayout} {member : Decl} {members more : List Decl}

theorem hasField_addMember (slotSize : Int) (layout : ClassLayout) (member : Decl) (name : String) :
    (addMember slotSize layout member).hasField name = true ↔
      layout.hasField name = true ∨ member.varType?.isSome = true ∧ member.name = name := by
  rw [hasField_iff, hasField_iff]
  cases member with
  | var id own type =>
    rw [addMember, addField_fields, mem_withName]
    simp [Decl.varType?, Decl.name, Decl.ident, eq_comm]
  | prototype | function =>
    rw [addMember, addMethod_fields]
    simp [Decl.varType?]
  | cls | interface => simp [addMember, Decl.varType?]

theorem hasMethod_addMember (slotSize : Int) (layout : ClassLayout) (member : Decl) (name : String) :
    (addMember slotSize layout member).hasMethod name = true ↔
      layout.hasMethod name = true ∨ member.isFunction = true ∧ member.name = name := by
  rw [hasMethod_iff, hasMethod_iff]
  cases member with
  | var =>
    rw [addMember, addField_methods]
    simp [Decl.isFunction, Decl.kind]
  | prototype id own | function id own =>
    rw [addMember, addMethod_methods, mem_withName]
    simp [Decl.isFunction, Decl.kind, Decl.name, Decl.ident, eq_comm]
  | cls | interface => simp [addMember, Decl.isFunction, Decl.kind]

/-- A member that is no second field of its name has its type recorded. -/
theorem types_addMember (new : member.varType?.isSome = true → layout.hasField member.name = false)
    (key : String) : (addMember slotSize layout member).types.lookup key =
      (member.recorded?.bind (written? key)).or (layout.types.lookup key) := by
  cases member with
  | var id own type =>
    simp only [addMember, addField]
    have fresh : layout.hasField own.name = false := new rfl
    rw [fresh]
    exact lookup_recordType ..
  | prototype | function =>
    simp only [addMember, addMethod]
    split <;> exact lookup_recordType ..
  | cls | interface => rfl

/-- No two members have one name, unless both are methods. -/
def OnlyOverrides (members : List Decl) : Prop :=
  members.Pairwise fun a b => a.name = b.name → a.isFunction = true ∧ b.isFunction = true

instance (members : List Decl) : Decidable (OnlyOverrides members) :=
  inferInstanceAs (Decidable (List.Pairwise _ _))

/-- A layout has the fields, the methods and the types of some members, and no others. -/
structure Follows (layout : ClassLayout) (members : List Decl) : Prop where
  fields : ∀ name, layout.hasField name = true ↔
    ∃ d ∈ members, d.varType?.isSome = true ∧ d.name = name
  methods : ∀ name, layout.hasMethod name = true ↔ ∃ d ∈ members, d.isFunction = true ∧ d.name = name
  types : ∀ key, layout.types.lookup key = (recordsOf members).findSome? (written? key)

theorem Follows.start (name : String) : ({ name } : ClassLayout).Follows [] := by
  constructor <;> simp [hasField, fieldOffset?, hasMethod, methodSlot?, recordsOf]

theorem Follows.derive (follows : layout.Follows members) (name : String) :
    (layout.derive name).Follows members :=
  ⟨follows.fields, follows.methods, follows.types⟩

theorem Follows.addMember (follows : layout.Follows members)
    (apart : ∀ d ∈ members, d.name = member.name → d.isFunction = true ∧ member.isFunction = true) :
    (addMember slotSize layout member).Follows (members ++ [member]) where
  fields name := by
    rw [hasField_addMember, follows.fields]
    simp [or_and_right, exists_or]
  methods name := by
    rw [hasMethod_addMember, follows.methods]
    simp [or_and_right, exists_or]
  types key := by
    have new : member.varType?.isSome = true → layout.hasField member.name = false := by
      intro field
      by_contra there
      obtain ⟨d, among, -, named⟩ := (follows.fields _).mp (Bool.of_not_eq_false there)
      have method := (apart d among named).2
      cases member <;> cases method <;> cases field
    rw [types_addMember new, follows.types, recordsOf_append, List.findSome?_append]
    cases own : member.recorded? <;> simp [recordsOf, own]

theorem Follows.addMembers (follows : layout.Follows members)
    (overrides : OnlyOverrides (members ++ more)) :
    (more.foldl (ClassLayout.addMember slotSize) layout).Follows (members ++ more) := by
  induction more generalizing layout members with
  | nil => rwa [List.append_nil]
  | cons member rest ih =>
    have step : (ClassLayout.addMember slotSize layout member).Follows (members ++ [member]) :=
      follows.addMember fun d among =>
        (List.pairwise_append.mp overrides).2.2 d among member List.mem_cons_self
    rw [List.append_cons] at overrides ⊢
    exact ih step overrides

end ClassLayout

/-- The results of functions with different names are all recorded. -/
theorem FunctionTable.types_ofDecls {decls : List Decl} (names : (decls.map Decl.name).Nodup)
    (key : String) : (ofDecls decls).types.lookup key =
      (recordsOf (decls.filter Decl.isFunction)).findSome? (written? key) := by
  induction decls using List.reverseRecOn with
  | nil => rfl
  | append_singleton decls d ih =>
    rw [List.map_append, List.nodup_append] at names
    obtain ⟨names, -, apart⟩ := names
    have next : ofDecls (decls ++ [d]) =
        (d.signature?.map ((ofDecls decls).add d.name)).getD (ofDecls decls) := by
      rw [ofDecls_eq, List.foldl_append, ← ofDecls_eq]
      rfl
    rw [next, List.filter_append, recordsOf_append, List.findSome?_append, ← ih names]
    cases function : d.signature? with
    | none =>
      have other : d.isFunction = false := by
        rw [Decl.isFunction_eq, function]
        rfl
      simp [other, recordsOf]
    | some signature =>
      have own : d.isFunction = true := by
        rw [Decl.isFunction_eq, function]
        rfl
      have fresh : (ofDecls decls).function? d.name = none := by
        rw [function?_ofDecls, List.find?_eq_none.mpr, Option.bind_none]
        intro other among same
        rw [Bool.and_eq_true, beq_iff_eq] at same
        exact apart _ (List.mem_map_of_mem among) _ (List.mem_singleton_self _) same.2
      rw [Option.map_some, Option.getD_some, add, fresh]
      simp [own, recordsOf, Decl.recorded?_function function, lookup_recordType]

/-! ## The members of a class -/

namespace Program

variable {program : Program} {slotSize : Int} {cls : Decl} {members : List Decl}

/-- The members of a class and of the classes above it, those of the topmost class first. -/
inductive Lineage (program : Program) : Decl → List Decl → Prop where
  | root {cls : Decl} (alone : program.base? cls = none) : Lineage program cls cls.members
  | derived {cls above : Decl} {inherited : List Decl} (link : program.base? cls = some above)
      (upper : Lineage program above inherited) : Lineage program cls (inherited ++ cls.members)

/-- A class that is laid out along all links follows its lineage. -/
theorem Lays.follows {layout : ClassLayout} (lays : program.Lays slotSize (fun _ => False) cls layout) :
    ∃ members, program.Lineage cls members ∧
      (ClassLayout.OnlyOverrides members → layout.Follows members) := by
  induction lays with
  | @root cls alone =>
    refine ⟨cls.members, .root (alone.resolve_left id), fun overrides => ?_⟩
    exact (ClassLayout.Follows.start cls.name).addMembers overrides
  | @derived cls above layout kept link laid ih =>
    obtain ⟨inherited, upper, follows⟩ := ih
    refine ⟨inherited ++ cls.members, .derived link upper, fun overrides => ?_⟩
    exact ((follows (List.pairwise_append.mp overrides).1).derive cls.name).addMembers overrides

/-- A member of a lineage is declared by a class above. -/
theorem Lineage.declarer (lineage : program.Lineage cls members) {d : Decl} (member : d ∈ members)
    (anchored : program.Anchored) (listed : cls ∈ program.classes) :
    ∃ high ∈ program.classes, ReflTransGen program.Extends cls high ∧ d ∈ high.members := by
  induction lineage with
  | @root cls alone => exact ⟨cls, listed, .refl, member⟩
  | @derived cls above inherited link upper ih =>
    rcases List.mem_append.mp member with member | member
    · have step : program.Extends cls above := ⟨listed, link⟩
      obtain ⟨high, among, path, declared⟩ := ih member (anchored.extends_class step)
      exact ⟨high, among, .head step path, declared⟩
    · exact ⟨cls, listed, .refl, member⟩

end Program

/-! ## Accepted programs -/

namespace Program

variable {program : Program} {graph : ScopeGraph} {cls : Decl} {members : List Decl}

theorem hasClass_of_mem (listed : cls ∈ program.classes) : program.HasClass cls.id cls.members := by
  obtain ⟨inside, isClass⟩ := mem_classes.mp listed
  cases cls with
  | cls id name superclass interfaces members => exact ⟨name, superclass, interfaces, inside⟩
  | var | interface | prototype | function => cases isClass

/-- Two functions of one name in the classes above a class have results of one type. -/
theorem results_agree (accepts : graph.Accepts program)
    (linked : ∀ {low high}, program.Extends low high → graph.Extends low.id high.id) {one other f g : Decl}
    {low high : Signature} (first : ReflTransGen program.Extends cls one) (own : f ∈ one.members)
    (second : ReflTransGen program.Extends cls other) (others : g ∈ other.members)
    (among : one ∈ program.classes) (listed : other ∈ program.classes) (named : f.name = g.name)
    (lower : f.signature? = some low) (higher : g.signature? = some high) :
    Tag.ofType low.result = Tag.ofType high.result := by
  have unique : Relator.RightUnique program.Extends := by
    intro a b c left right
    exact Option.some.inj (left.2.symm.trans right.2)
  rcases ReflTransGen.total_of_right_unique unique first second with path | path
  · have chain := path.lift Decl.id fun _ _ => linked
    exact TypeExpr.equivalent_iff_ofType.mp (accepts.override_matches (hasClass_of_mem among)
      (hasClass_of_mem listed) chain own others named lower higher).result
  · have chain := path.lift Decl.id fun _ _ => linked
    exact (TypeExpr.equivalent_iff_ofType.mp (accepts.override_matches (hasClass_of_mem listed)
      (hasClass_of_mem among) chain others own named.symm higher lower).result).symm

/-- In an accepted program the records of a lineage agree, since overriding methods keep the result. -/
theorem Lineage.agree (lineage : program.Lineage cls members) (anchored : program.Anchored)
    (listed : cls ∈ program.classes) (accepts : graph.Accepts program)
    (linked : ∀ {low high}, program.Extends low high → graph.Extends low.id high.id)
    (overrides : ClassLayout.OnlyOverrides members) : Agree (recordsOf members) := by
  have : Std.Symm fun a b : Decl => a.name = b.name → a.isFunction = true ∧ b.isFunction = true :=
    ⟨fun _ _ apart named => (apart named.symm).symm⟩
  intro a first b second same
  obtain ⟨d, member, recorded⟩ := mem_recordsOf.mp first
  obtain ⟨d', member', recorded'⟩ := mem_recordsOf.mp second
  rw [Decl.recorded?_name recorded, Decl.recorded?_name recorded'] at same
  by_cases one : d = d'
  · rw [one, recorded'] at recorded
    rw [Option.some.inj recorded]
  · obtain ⟨function, function'⟩ := overrides.forall member member' one same
    obtain ⟨low, lower⟩ := Decl.signature_of_function function
    obtain ⟨high, higher⟩ := Decl.signature_of_function function'
    rw [Decl.recorded?_function lower, Option.some.injEq] at recorded
    rw [Decl.recorded?_function higher, Option.some.injEq] at recorded'
    obtain ⟨one, among, path, own⟩ := lineage.declarer member anchored listed
    obtain ⟨other, among', path', own'⟩ := lineage.declarer member' anchored listed
    rw [← recorded, ← recorded']
    exact results_agree accepts linked path own path' own' among among' same lower higher

/-- Functions of different names agree. -/
theorem agree_of_names {decls : List Decl} (names : (decls.map Decl.name).Nodup) :
    Agree (recordsOf (decls.filter Decl.isFunction)) := by
  intro a first b second same
  obtain ⟨d, member, recorded⟩ := mem_recordsOf.mp first
  obtain ⟨d', member', recorded'⟩ := mem_recordsOf.mp second
  rw [Decl.recorded?_name recorded, Decl.recorded?_name recorded'] at same
  rw [List.inj_on_of_nodup_map names (List.mem_of_mem_filter member) (List.mem_of_mem_filter member')
    same, recorded'] at recorded
  rw [Option.some.inj recorded]

/-- Where names are different, a declaration is the first that fits under its name. -/
theorem find_named {decls : List Decl} (names : (decls.map Decl.name).Nodup) {fits : Decl → Bool}
    {d : Decl} (member : d ∈ decls) (fit : fits d = true) :
    decls.find? (fun other => fits other && other.name == d.name) = some d := by
  have there : (decls.find? fun other => fits other && other.name == d.name).isSome := by
    rw [List.find?_isSome]
    exact ⟨d, member, by simp [fit]⟩
  obtain ⟨other, first⟩ := Option.isSome_iff_exists.mp there
  have same := List.find?_some first
  rw [Bool.and_eq_true, beq_iff_eq] at same
  rw [first, List.inj_on_of_nodup_map names (List.mem_of_find?_eq_some first) member same.2]

/-- Where no class is chosen to break a cycle, there is none to break. -/
theorem Breaks.none_needed (none : program.Breaks []) {chosen : List Decl}
    (breaks : program.Breaks chosen) : chosen = [] := by
  apply List.eq_nil_iff_forall_not_mem.mpr
  intro cls member
  obtain ⟨loop, reached⟩ := breaks.loops cls member
  obtain ⟨one, ⟨among, -⟩, -⟩ := none.each cls loop reached
  cases among

/-- Analysis that reports nothing: what it gives is told by the source alone. -/
theorem Anchored.analyze_clean (anchored : program.Anchored) {shape : FrameShape} {analysis : Analysis}
    (ran : program.analyze shape = .ok analysis) (clean : analysis.reports = []) :
    (∀ {low high}, program.Extends low high → analysis.graph.Extends low.id high.id) ∧
      analysis.layouts.functions = .ofDecls program.top ∧
      ∀ name, Option.Rel (program.Lays shape.slotSize fun _ => False)
        (program.top.find? fun d => d.isClass && d.name == name) (analysis.layouts.class? name) := by
  obtain ⟨linked, faults, laid, settled, checked, finished, again⟩ := anchored.analyze_run shape
  rw [ran] at again
  cases again
  simp only [Analysis.reports, List.append_eq_nil_iff] at clean
  have heads := finished.heads_break anchored settled
  have none : laid.cyclic.filterMap program.arena.decl? = [] := by
    have reports := finished.cutting.reports_eq
    rw [clean.2, eq_comm, List.map_eq_nil_iff, List.reverse_eq_nil_iff] at reports
    exact reports
  rw [none] at heads
  have cuts := heads.none_needed (finished.cuts_break anchored)
  refine ⟨?_, rfl, finished.lays_all anchored settled cuts⟩
  intro low high step
  have link := settled.superclassOf anchored step.1
  rw [step.2] at link
  exact link

/-- Recorded types. When an analysis reports nothing, the table of functions has the result type of a
function and its element type, and the layout of a class whose lineage has no member of another's name,
overriding methods apart, has the type and the element type of each field and method, its own and
inherited: the type unless an element type was written over it, and the element type unless another type
stands in its place. -/
theorem types_recorded (built : program.Built) {shape : FrameShape} {analysis : Analysis}
    (ran : program.analyze shape = .ok analysis) (clean : analysis.reports = []) :
    (∀ f ∈ program.top, ∀ signature, f.signature? = some signature →
      (analysis.layouts.functions.resultType? f.name = some (Tag.ofType signature.result) ↔
        TypeKept (recordsOf (program.top.filter Decl.isFunction)) f.name
          (Tag.ofType signature.result)) ∧
      (analysis.layouts.functions.elementType? f.name = (Tag.ofType signature.result).element? ↔
        ElementKept (recordsOf (program.top.filter Decl.isFunction)) f.name
          (Tag.ofType signature.result))) ∧
    ∀ cls ∈ program.top, cls.isClass = true →
      ∃ layout members, analysis.layouts.class? cls.name = some layout ∧
        program.Lineage cls members ∧
        (ClassLayout.OnlyOverrides members →
          (∀ name, layout.hasField name = true ∨ layout.hasMethod name = true ↔
            ∃ d ∈ members, d.writtenType?.isSome = true ∧ d.name = name) ∧
          ∀ d ∈ members, ∀ type, d.writtenType? = some type →
            (layout.memberType? d.name = some (Tag.ofType type) ↔
              TypeKept (recordsOf members) d.name (Tag.ofType type)) ∧
            (layout.elementType? d.name = (Tag.ofType type).element? ↔
              ElementKept (recordsOf members) d.name (Tag.ofType type))) := by
  have anchored := built.anchored
  obtain ⟨accepts, -⟩ := Program.accepts_of_analyze built ran clean
  obtain ⟨linked, functions, classes⟩ := anchored.analyze_clean ran clean
  constructor
  · intro f top signature function
    have agree := agree_of_names accepts.top_names
    have listed : (f.name, Tag.ofType signature.result) ∈
        recordsOf (program.top.filter Decl.isFunction) := by
      have isFunction : f.isFunction = true := by
        rw [Decl.isFunction_eq, function]
        rfl
      exact mem_recordsOf.mpr ⟨f, List.mem_filter.mpr ⟨top, isFunction⟩,
        Decl.recorded?_function function⟩
    rw [functions, FunctionTable.resultType?, FunctionTable.elementType?,
      FunctionTable.types_ofDecls accepts.top_names, FunctionTable.types_ofDecls accepts.top_names]
    exact ⟨agree.type_iff listed, agree.element_iff listed⟩
  · intro cls top isClass
    have lays := classes cls.name
    rw [find_named accepts.top_names top isClass] at lays
    generalize analysis.layouts.class? cls.name = found at lays
    cases lays with | @some _ layout lays
    obtain ⟨members, lineage, follows⟩ := lays.follows
    refine ⟨layout, members, rfl, lineage, fun overrides => ⟨?_, ?_⟩⟩
    · intro name
      rw [(follows overrides).fields, (follows overrides).methods]
      simp only [Decl.writtenType?_isSome, Bool.or_eq_true, or_and_right, and_or_left, exists_or]
    · intro d member type declared
      have listed : (d.name, Tag.ofType type) ∈ recordsOf members :=
        mem_recordsOf.mpr ⟨d, member, by rw [Decl.recorded?, declared]; rfl⟩
      have among : cls ∈ program.classes := anchored.reached_class ⟨cls, top, isClass, .refl⟩
      have agree := lineage.agree anchored among accepts linked overrides
      rw [ClassLayout.memberType?, ClassLayout.elementType?, (follows overrides).types,
        (follows overrides).types]
      exact ⟨agree.type_iff listed, agree.element_iff listed⟩

end Program

namespace Boxes

/-- A class `Crate` below `Box`, both with a method `get`; an array `x` comes after a field `x_elem`, and
the function `list_elem` after one that gives an array. -/
def steps : List Step :=
  let word (name : String) : Ident := ⟨name, default⟩
  [ .var (word "x_elem") (.primitive .bool), .var (word "x") (.array (.primitive .int)),
    .function (word "get") (.array (.primitive .int)) [] none,
    .cls (word "Box") none [] [⟨0⟩, ⟨1⟩, ⟨2⟩],
    .function (word "get") (.array (.primitive .int)) [] none,
    .cls (word "Crate") (some (word "Box")) [] [⟨4⟩],
    .function (word "list") (.array (.primitive .int)) [] none,
    .function (word "list_elem") (.primitive .bool) [] none ]

def box : Decl :=
  .cls ⟨3⟩ ⟨"Box", default⟩ none []
    [ .var ⟨0⟩ ⟨"x_elem", default⟩ (.primitive .bool),
      .var ⟨1⟩ ⟨"x", default⟩ (.array (.primitive .int)),
      .prototype ⟨2⟩ ⟨"get", default⟩ (.array (.primitive .int)) [] ]

def crate : Decl :=
  .cls ⟨5⟩ ⟨"Crate", default⟩ (some ⟨"Box", default⟩) []
    [.prototype ⟨4⟩ ⟨"get", default⟩ (.array (.primitive .int)) []]

def list : Decl := .prototype ⟨6⟩ ⟨"list", default⟩ (.array (.primitive .int)) []

def listElem : Decl := .prototype ⟨7⟩ ⟨"list_elem", default⟩ (.primitive .bool) []

private theorem steps_top : (Program.assemble steps [⟨5⟩, ⟨3⟩, ⟨6⟩, ⟨7⟩]).map (fun program =>
      (program.top, program.base? crate, program.base? box)) =
    some ([crate, box, list, listElem], some box, none) := by
  rfl

private theorem steps_run :
    ((Program.assemble steps [⟨5⟩, ⟨3⟩, ⟨6⟩, ⟨7⟩]).bind fun program =>
      (program.analyze {}).toOption.bind fun analysis =>
      (analysis.layouts.class? "Box").map fun layout =>
        (analysis.reports, layout.memberType? "x_elem",
          analysis.layouts.functions.elementType? "list")) =
      some ([], some .int, some .bool) := by
  decide +kernel

end Boxes

/-- In a subclass that overrides a method, and for a function. -/
theorem Program.types_recorded_boxes :
    ∃ program analysis layout, Program.assemble Boxes.steps [⟨5⟩, ⟨3⟩, ⟨6⟩, ⟨7⟩] = some program ∧
      program.analyze {} = .ok analysis ∧ analysis.reports = [] ∧
      analysis.layouts.class? "Crate" = some layout ∧
      layout.memberType? "x" = some (.array .int) ∧ layout.elementType? "x" = some .int ∧
      layout.memberType? "get" = some (.array .int) ∧ layout.memberType? "x_elem" ≠ some .bool ∧
      analysis.layouts.functions.resultType? "list" = some (.array .int) ∧
      analysis.layouts.functions.elementType? "list" ≠ some .int := by
  have run := Boxes.steps_run
  simp only [Option.bind_eq_some_iff, Option.map_eq_some_iff, Prod.mk.injEq] at run
  obtain ⟨program, made, analysis, ran, _, -, clean, -⟩ := run
  have ran := Arena.ok_of_toOption ran
  have top := Boxes.steps_top
  rw [made, Option.map_some, Option.some.injEq, Prod.mk.injEq, Prod.mk.injEq] at top
  obtain ⟨top, below, alone⟩ := top
  obtain ⟨functions, classes⟩ := Program.types_recorded (Program.built_of_assemble made) ran clean
  have listed := functions Boxes.list (by simp [top]) _ rfl
  obtain ⟨layout, members, found, lineage, recorded⟩ := classes Boxes.crate (by simp [top]) rfl
  have all : members = Boxes.box.members ++ Boxes.crate.members := by
    cases lineage with
    | root none => cases none.symm.trans below
    | derived link upper =>
      cases link.symm.trans below
      cases upper with
      | root => rfl
      | derived link => cases link.symm.trans alone
  subst all
  obtain ⟨-, kept⟩ := recorded (by decide)
  have array := kept (.var ⟨1⟩ ⟨"x", default⟩ (.array (.primitive .int)))
    (by simp [Boxes.box, Decl.members]) _ rfl
  have flag := kept (.var ⟨0⟩ ⟨"x_elem", default⟩ (.primitive .bool))
    (by simp [Boxes.box, Decl.members]) _ rfl
  have get := kept (.prototype ⟨4⟩ ⟨"get", default⟩ (.array (.primitive .int)) [])
    (by simp [Boxes.crate, Decl.members]) _ rfl
  rw [top] at listed
  exact ⟨program, analysis, layout, made, ran, clean, found, array.1.mpr (by decide),
    array.2.mpr (by decide), get.1.mpr (by decide), mt flag.1.mp (by decide),
    listed.1.mpr (by decide), mt listed.2.mp (by decide)⟩

/-- An element type can take the place of a declared type, and a declared type that of an element type:
the field `x_elem` of `Box` is a `bool` and the elements of `list` are of type `int`. -/
theorem Program.types_written_over :
    ∃ program analysis layout, Program.assemble Boxes.steps [⟨5⟩, ⟨3⟩, ⟨6⟩, ⟨7⟩] = some program ∧
      program.analyze {} = .ok analysis ∧ analysis.reports = [] ∧
      Boxes.box ∈ program.top ∧ program.Lineage Boxes.box Boxes.box.members ∧
      (Boxes.box.members.map Decl.name).Nodup ∧ Boxes.list ∈ program.top ∧
      analysis.layouts.class? "Box" = some layout ∧
      .var ⟨0⟩ ⟨"x_elem", default⟩ (.primitive .bool) ∈ Boxes.box.members ∧
      layout.memberType? "x_elem" = some .int ∧
      Boxes.list.signature?.map Signature.result = some (.array (.primitive .int)) ∧
      analysis.layouts.functions.elementType? "list" = some .bool := by
  have run := Boxes.steps_run
  simp only [Option.bind_eq_some_iff, Option.map_eq_some_iff, Prod.mk.injEq] at run
  obtain ⟨program, made, analysis, ran, layout, found, clean, flag, element⟩ := run
  have top := Boxes.steps_top
  rw [made, Option.map_some, Option.some.injEq, Prod.mk.injEq, Prod.mk.injEq] at top
  obtain ⟨top, -, alone⟩ := top
  refine ⟨program, analysis, layout, made, Arena.ok_of_toOption ran, clean, ?_, .root alone, ?_, ?_,
    found, List.mem_cons_self, flag, rfl, element⟩
  · simp [top]
  · decide
  · simp [top]

end DecafTac
