import DecafTac.Lower.Bindings
import DecafTac.Proofs.Tables

/-!
Bindings as a stack of blocks. One table holds what is visible, and a log what was hidden; together
they hold, for each name, its values from the innermost block outward. That history is all there is to
say about a name, and each operation changes it as it would change a plain stack with one table for
each open block.
-/
namespace DecafTac.Bindings

/-- The bindings of a name, innermost first: the visible one, then those that were hidden. -/
def history (b : Bindings) (name : String) : List Binding :=
  (b.visible.lookup name).toList ++ (b.hidden.filter (·.name == name)).map Hidden.binding

/-- The bindings of a name in a stack of tables, innermost first. -/
def levels : List (List (String × Value)) → String → List Binding
  | [], _ => []
  | top :: rest, name => ((top.lookup name).map (⟨·, rest.length⟩)).toList ++ levels rest name

/-- Bindings that a stack of tables stands for. A binding is hidden by the next one inside it, so what
was hidden carries the depths of all but the outermost. -/
structure Models (b : Bindings) (stack : List (List (String × Value))) : Prop where
  depth : stack.length = b.depth + 1
  unique : (b.visible.map Prod.fst).Nodup
  history : ∀ name, b.history name = levels stack name
  linked : ∀ name, (b.hidden.filter (·.name == name)).map Hidden.depth =
    (levels stack name).dropLast.map Binding.depth
  sorted : b.hidden.Pairwise fun newer older => older.depth ≤ newer.depth
  bounded : ∀ h ∈ b.hidden, h.depth ≤ b.depth

variable {b : Bindings} {stack rest : List (List (String × Value))} {top : List (String × Value)}

/-! ## Looking names up -/

theorem levels_depth_lt {name : String} {binding : Binding} (member : binding ∈ levels stack name) :
    binding.depth < stack.length := by
  induction stack with
  | nil => cases member
  | cons top rest ih =>
    rw [levels, List.mem_append] at member
    rw [List.length_cons]
    rcases member with here | above
    · obtain ⟨value, -, rfl⟩ := Option.map_eq_some_iff.mp (Option.mem_toList.mp here)
      exact Nat.lt_succ_self _
    · exact Nat.lt_succ_of_lt (ih above)

theorem levels_head (stack : List (List (String × Value))) (name : String) :
    (levels stack name).head?.map Binding.value = stack.flatten.lookup name := by
  induction stack with
  | nil => rfl
  | cons top rest ih =>
    rw [levels, List.flatten_cons, List.lookup_append]
    cases top.lookup name with
    | none => simpa using ih
    | some value => simp

theorem Models.visible (models : b.Models stack) (name : String) :
    b.visible.lookup name = (levels stack name).head? := by
  have whole := models.history name
  have linked := models.linked name
  rw [Bindings.history] at whole
  cases found : b.visible.lookup name with
  | some binding => simp [← whole, found]
  | none =>
    -- A name that is not visible hides nothing: there would be one binding too many.
    rw [found, Option.toList_none, List.nil_append] at whole
    have counted := congrArg List.length linked
    rw [← whole] at counted ⊢
    simp only [List.length_map, List.length_dropLast] at counted
    have empty : (b.hidden.filter (·.name == name)).length = 0 := by omega
    rw [List.length_eq_zero_iff.mp empty]
    rfl

theorem Models.hidden (models : b.Models stack) (name : String) :
    (b.hidden.filter (·.name == name)).map Hidden.binding = (levels stack name).tail := by
  have whole := models.history name
  have linked := congrArg List.length (models.linked name)
  rw [Bindings.history, models.visible] at whole
  cases found : levels stack name with
  | nil =>
    rw [found] at linked
    simpa using linked
  | cons head tail =>
    rw [found] at whole
    simpa using whole

/-- What a name means is what it means in the innermost table that has it. -/
theorem Models.lookup (models : b.Models stack) (name : String) :
    b.lookup name = stack.flatten.lookup name := by
  rw [Bindings.lookup, models.visible, levels_head]

/-! ## Opening blocks and declaring names -/

theorem models_empty : Models {} [[]] :=
  ⟨rfl, List.nodup_nil, fun _ => rfl, fun _ => rfl, .nil, by simp⟩

theorem Models.enter (models : b.Models stack) : b.enter.Models ([] :: stack) where
  depth := by
    rw [List.length_cons, models.depth]
    rfl
  unique := models.unique
  history := models.history
  linked := models.linked
  sorted := models.sorted
  bounded h member := Nat.le_succ_of_le (models.bounded h member)

theorem put_lookup (visible : List (String × Binding)) (name : String) (binding : Binding)
    (wanted : String) :
    (put visible name binding).lookup wanted =
      if wanted = name then some binding else visible.lookup wanted := by
  rw [put, Table.lookup_cons]
  by_cases same : wanted = name
  · simp [same]
  · rw [if_neg same, if_neg same]
    exact Table.lookup_filter_key (fun key => key != name) visible (by simpa using same)

/-- A declared name means what it was declared to be, and other names mean what they did. -/
theorem lookup_declare (b : Bindings) (name : String) (value : Value) (wanted : String) :
    (b.declare name value).lookup wanted = if wanted = name then some value else b.lookup wanted := by
  rw [lookup, declare, put_lookup]
  split <;> rfl

theorem put_unique {visible : List (String × Binding)} (unique : (visible.map Prod.fst).Nodup)
    (name : String) (binding : Binding) : ((put visible name binding).map Prod.fst).Nodup := by
  rw [put, List.map_cons, List.nodup_cons]
  refine ⟨?_, (List.filter_sublist.map _).nodup unique⟩
  intro member
  obtain ⟨entry, kept, same⟩ := List.mem_map.mp member
  simpa [same] using (List.mem_filter.mp kept).2

/-- Declaring a name puts it before what it meant outside the block, and in the place of what it meant
inside. -/
private theorem levels_declare (name : String) (value : Value) (wanted : String) :
    levels (((name, value) :: top) :: rest) wanted =
      if wanted = name then ⟨value, rest.length⟩ :: levels rest name
      else levels (top :: rest) wanted := by
  rw [levels, Table.lookup_cons]
  by_cases same : wanted = name
  · simp [same]
  · rw [if_neg same, if_neg same]
    rfl

/-- What declaring a name hides: what the name meant outside the block, if it means nothing inside. -/
private theorem Models.declare_hides (models : b.Models (top :: rest)) (name : String) (value : Value) :
    ∃ extra : List Hidden, (b.declare name value).hidden = extra ++ b.hidden ∧
      (∀ h ∈ extra, h.name = name ∧ h.depth = b.depth) ∧
      extra.map Hidden.binding ++ (levels (top :: rest) name).tail = levels rest name ∧
      extra.map Hidden.depth ++ (levels (top :: rest) name).dropLast.map Binding.depth =
        ((⟨value, rest.length⟩ : Binding) :: levels rest name).dropLast.map Binding.depth := by
  have depth : rest.length = b.depth := by simpa using models.depth
  have visible := models.visible name
  simp only [Bindings.declare]
  rw [levels] at visible ⊢
  cases inside : top.lookup name with
  | some old =>
    rw [inside] at visible
    have shown : b.visible.lookup name = some ⟨old, b.depth⟩ := by simpa [depth] using visible
    refine ⟨[], by simp [shown], by simp, by simp, ?_⟩
    cases levels rest name <;> simp
  | none =>
    rw [inside] at visible
    simp only [Option.map_none, Option.toList_none, List.nil_append] at visible ⊢
    cases outside : levels rest name with
    | nil =>
      rw [outside] at visible
      exact ⟨[], by simp [visible], by simp, by simp, by simp⟩
    | cons head tail =>
      rw [outside] at visible
      have outer : head.depth < b.depth := by
        have inRest : head ∈ levels rest name := by simp [outside]
        have := levels_depth_lt inRest
        omega
      refine ⟨[⟨b.depth, name, head⟩], by simp [visible, outer], by simp, by simp, by simp [depth]⟩

/-- Declaring a name adds to the innermost table. -/
theorem Models.declare (models : b.Models (top :: rest)) (name : String) (value : Value) :
    (b.declare name value).Models (((name, value) :: top) :: rest) := by
  have depth : rest.length = b.depth := by simpa using models.depth
  obtain ⟨extra, hidden, marked, bindings, depths⟩ := models.declare_hides name value
  have logged (wanted : String) : (b.declare name value).hidden.filter (·.name == wanted) =
      (if wanted = name then extra else []) ++ b.hidden.filter (·.name == wanted) := by
    rw [hidden, List.filter_append]
    by_cases same : wanted = name
    · rw [if_pos same, List.filter_eq_self.mpr fun h member => by simp [(marked h member).1, same]]
    · rw [if_neg same, List.filter_eq_nil_iff.mpr fun h member => by
        simp [(marked h member).1, Ne.symm same]]
  refine ⟨models.depth, put_unique models.unique name _, ?_, ?_, ?_, ?_⟩
  · intro wanted
    rw [Bindings.history, logged, levels_declare]
    simp only [Bindings.declare, put_lookup]
    by_cases same : wanted = name
    · subst same
      rw [if_pos rfl, if_pos rfl, if_pos rfl, List.map_append, models.hidden, bindings, depth]
      rfl
    · rw [if_neg same, if_neg same, if_neg same, List.nil_append]
      exact models.history wanted
  · intro wanted
    rw [logged, levels_declare]
    by_cases same : wanted = name
    · subst same
      rw [if_pos rfl, if_pos rfl, List.map_append, models.linked, depths]
    · rw [if_neg same, if_neg same, List.nil_append]
      exact models.linked wanted
  · rw [hidden, List.pairwise_append]
    refine ⟨List.pairwise_of_forall_mem_list fun a aMember c cMember => ?_, models.sorted, ?_⟩
    · exact Nat.le_of_eq ((marked c cMember).2.trans (marked a aMember).2.symm)
    · intro a aMember c cMember
      rw [(marked a aMember).2]
      exact models.bounded c cMember
  · rw [hidden]
    intro h member
    rcases List.mem_append.mp member with new | old
    · exact Nat.le_of_eq (marked h new).2
    · exact models.bounded h old

/-! ## Leaving blocks -/

/-- In a log whose depths do not grow, what stands at the greatest depth stands first. -/
private theorem takeWhile_depth {hidden : List Hidden} {depth : Nat}
    (sorted : hidden.Pairwise fun newer older => older.depth ≤ newer.depth)
    (bounded : ∀ h ∈ hidden, h.depth ≤ depth) :
    hidden.takeWhile (·.depth == depth) = hidden.filter (·.depth == depth) ∧
      hidden.dropWhile (·.depth == depth) = hidden.filter (·.depth != depth) := by
  induction hidden with
  | nil => exact ⟨rfl, rfl⟩
  | cons h rest ih =>
    rw [List.pairwise_cons] at sorted
    have bounded' := List.forall_mem_cons.mp bounded
    by_cases deepest : h.depth = depth
    · obtain ⟨taken, dropped⟩ := ih sorted.2 bounded'.2
      simp [deepest, taken, dropped]
    · have later : ∀ other ∈ rest, other.depth ≠ depth := by
        intro other member same
        have := sorted.1 other member
        have := bounded'.1
        omega
      have none : rest.filter (·.depth == depth) = [] :=
        List.filter_eq_nil_iff.mpr fun other member => by simpa using later other member
      have all : rest.filter (·.depth != depth) = rest :=
        List.filter_eq_self.mpr fun other member => by simpa using later other member
      simp [deepest, none, all]

/-- Bringing bindings back: of those of one name, the last one counts. -/
private theorem restore_lookup (hidden : List Hidden) (visible : List (String × Binding))
    (wanted : String) :
    (hidden.foldl (fun visible h => put visible h.name h.binding) visible).lookup wanted =
      (((hidden.filter (·.name == wanted)).getLast?.map Hidden.binding).or (visible.lookup wanted)) := by
  induction hidden generalizing visible with
  | nil => rfl
  | cons h rest ih =>
    rw [List.foldl_cons, ih, put_lookup, List.filter_cons]
    by_cases same : wanted = h.name
    · subst same
      cases last : (rest.filter (·.name == h.name)).getLast? with
      | none => simp [List.getLast?_eq_none_iff.mp last]
      | some newest => simp [List.getLast?_cons, last]
    · simp [same, Ne.symm same]

private theorem restore_unique (hidden : List Hidden) {visible : List (String × Binding)}
    (unique : (visible.map Prod.fst).Nodup) :
    ((hidden.foldl (fun visible h => put visible h.name h.binding) visible).map Prod.fst).Nodup := by
  induction hidden generalizing visible with
  | nil => exact unique
  | cons h rest ih => exact ih (put_unique unique h.name h.binding)

/-- What the log holds of a name, apart by whether the innermost block hid it. -/
private theorem Models.log_split (models : b.Models (top :: rest)) (name : String) :
    ((b.hidden.filter (·.depth == b.depth)).filter (·.name == name)).getLast?.map Hidden.binding =
        (if (top.lookup name).isSome then (levels rest name).head? else none) ∧
      ((b.hidden.filter (·.depth != b.depth)).filter (·.name == name)).map Hidden.binding =
        (levels rest name).tail ∧
      ((b.hidden.filter (·.depth != b.depth)).filter (·.name == name)).map Hidden.depth =
        (levels rest name).dropLast.map Binding.depth := by
  have depth : rest.length = b.depth := by simpa using models.depth
  have bindings := models.hidden name
  have depths := models.linked name
  have outer {binding : Binding} (member : binding ∈ levels rest name) : binding.depth ≠ b.depth := by
    have := levels_depth_lt member
    omega
  have swap (keep : Hidden → Bool) : (b.hidden.filter keep).filter (·.name == name) =
      (b.hidden.filter (·.name == name)).filter keep := by
    simp only [List.filter_filter, Bool.and_comm]
  -- Entries that carry depths of blocks further out were not hidden by the innermost one.
  have further {log : List Hidden} (carried : log.map Hidden.depth =
      (levels rest name).dropLast.map Binding.depth) :
      log.filter (·.depth == b.depth) = [] ∧ log.filter (·.depth != b.depth) = log := by
    have other : ∀ h ∈ log, h.depth ≠ b.depth := by
      intro h member
      have depth : h.depth ∈ log.map Hidden.depth := List.mem_map_of_mem member
      rw [carried] at depth
      obtain ⟨binding, among, same⟩ := List.mem_map.mp depth
      rw [← same]
      exact outer ((List.dropLast_sublist _).subset among)
    exact ⟨List.filter_eq_nil_iff.mpr fun h member => by simpa using other h member,
      List.filter_eq_self.mpr fun h member => by simpa using other h member⟩
  rw [swap, swap]
  rw [levels] at bindings depths
  cases inside : top.lookup name with
  | none =>
    rw [inside] at bindings depths
    simp only [Option.map_none, Option.toList_none, List.nil_append] at bindings depths
    obtain ⟨none, all⟩ := further depths
    rw [none, all]
    exact ⟨rfl, bindings, depths⟩
  | some value =>
    rw [inside] at bindings depths
    simp only [Option.map_some, Option.toList_some, List.singleton_append, List.tail_cons]
      at bindings depths
    cases outside : levels rest name with
    | nil =>
      rw [outside] at bindings
      rw [List.map_eq_nil_iff.mp bindings]
      exact ⟨rfl, rfl, rfl⟩
    | cons head tail =>
      rw [outside] at bindings depths
      cases log : b.hidden.filter (·.name == name) with
      | nil =>
        rw [log] at bindings
        cases bindings
      | cons h older =>
        rw [log] at bindings depths
        simp only [List.map_cons, List.cons.injEq, List.dropLast_cons_cons] at bindings depths
        have here : h.depth = b.depth := depths.1.trans depth
        obtain ⟨none, all⟩ := further (by rw [outside]; exact depths.2)
        simp only [List.filter_cons, here, beq_self_eq_true, bne_self_eq_false, if_true, none, all]
        exact ⟨congrArg some bindings.1, bindings.2, depths.2⟩

private theorem Models.leave_visible (models : b.Models (top :: rest)) (name : String) :
    b.leave.visible.lookup name = (levels rest name).head? := by
  have depth : rest.length = b.depth := by simpa using models.depth
  obtain ⟨brought, -, -⟩ := models.log_split name
  simp only [Bindings.leave, (takeWhile_depth models.sorted models.bounded).1]
  rw [restore_lookup, brought,
    Table.lookup_filter_value (fun binding => binding.depth < b.depth) models.unique, models.visible,
    levels]
  cases inside : top.lookup name with
  | some value => cases (levels rest name).head? <;> simp [depth]
  | none =>
    cases outside : levels rest name with
    | nil => rfl
    | cons head tail =>
      have outer : head.depth < b.depth := by
        have inRest : head ∈ levels rest name := by simp [outside]
        have := levels_depth_lt inRest
        omega
      simp [outer]

/-- Leaving a block drops the innermost table. Outside of all blocks there is only one, and it is
emptied. -/
theorem Models.leave (models : b.Models (top :: rest)) :
    b.leave.Models (if rest = [] then [[]] else rest) := by
  have depth : rest.length = b.depth := by simpa using models.depth
  have below (name : String) : levels (if rest = [] then [[]] else rest) name = levels rest name := by
    split
    · rename_i none
      rw [none]
      rfl
    · rfl
  have hidden : b.leave.hidden = b.hidden.filter (·.depth != b.depth) :=
    (takeWhile_depth models.sorted models.bounded).2
  refine ⟨?_, ?_, ?_, ?_, ?_, ?_⟩
  · simp only [Bindings.leave]
    split
    · rename_i none
      rw [none] at depth
      simp [← depth]
    · rename_i more
      have := List.length_pos_iff.mpr more
      omega
  · exact restore_unique _ ((List.filter_sublist.map _).nodup models.unique)
  · intro name
    rw [Bindings.history, models.leave_visible, hidden, (models.log_split name).2.1, below]
    cases levels rest name <;> rfl
  · intro name
    rw [hidden, (models.log_split name).2.2, below]
  · rw [hidden]
    exact models.sorted.filter _
  · rw [hidden]
    intro h member
    have bound := models.bounded h (List.mem_filter.mp member).1
    have other : h.depth ≠ b.depth := by simpa using (List.mem_filter.mp member).2
    simp only [Bindings.leave]
    omega

/-! ## Changing tags -/

/-- A value with another tag. -/
def retagValue (tag : Tag) (value : Value) : Value := { value with tag }

/-- A binding with another tag. -/
def retagBinding (tag : Tag) (binding : Binding) : Binding :=
  { binding with value := retagValue tag binding.value }

/-- A table with the tag of a name changed. -/
def retagIn (table : List (String × Value)) (name : String) (tag : Tag) : List (String × Value) :=
  table.map fun entry => (entry.1, if entry.1 = name then retagValue tag entry.2 else entry.2)

/-- A stack of tables with the tag of a name changed in the innermost table that has it. -/
def retagged (name : String) (tag : Tag) :
    List (List (String × Value)) → List (List (String × Value))
  | [] => []
  | top :: rest =>
    if (top.lookup name).isSome then retagIn top name tag :: rest
    else top :: retagged name tag rest

theorem retagIn_lookup (table : List (String × Value)) (name : String) (tag : Tag) (wanted : String) :
    (retagIn table name tag).lookup wanted =
      (table.lookup wanted).map fun value => if wanted = name then retagValue tag value else value :=
  Table.lookup_map_value (fun key value => if key = name then retagValue tag value else value) ..

theorem length_retagged (name : String) (tag : Tag) (stack : List (List (String × Value))) :
    (retagged name tag stack).length = stack.length := by
  induction stack with
  | nil => rfl
  | cons top rest ih =>
    rw [retagged]
    split
    · rfl
    · rw [List.length_cons, List.length_cons, ih]

/-- Only the innermost binding of the name gets the tag. -/
private theorem levels_retagged (name : String) (tag : Tag) (stack : List (List (String × Value)))
    (wanted : String) :
    levels (retagged name tag stack) wanted =
      if wanted = name then (levels stack name).modifyHead (retagBinding tag)
      else levels stack wanted := by
  induction stack with
  | nil => simp [retagged, levels]
  | cons top rest ih =>
    rw [retagged]
    by_cases same : wanted = name
    · subst same
      cases inside : top.lookup wanted with
      | none => simp [levels, inside, ih]
      | some value => simp [levels, inside, retagIn_lookup, retagBinding]
    · split
      · simp [levels, retagIn_lookup, same]
      · simp [levels, length_retagged, ih, same]

theorem retag_visible (b : Bindings) (name : String) (tag : Tag) :
    (b.retag name tag).visible = b.visible.map fun entry =>
      (entry.1, if entry.1 = name then retagBinding tag entry.2 else entry.2) := by
  refine List.map_congr_left fun entry _ => ?_
  by_cases same : entry.1 = name
  · simp [same, retagBinding, retagValue]
  · simp [same]

/-- Changing a tag changes it in the innermost table that has the name. -/
theorem Models.retag (models : b.Models stack) (name : String) (tag : Tag) :
    (b.retag name tag).Models (retagged name tag stack) where
  depth := (length_retagged name tag stack).trans models.depth
  unique := by
    rw [retag_visible, List.map_map]
    exact models.unique
  history wanted := by
    have changed : (b.retag name tag).visible.lookup wanted = (b.visible.lookup wanted).map fun binding =>
        if wanted = name then retagBinding tag binding else binding := by
      rw [retag_visible]
      exact Table.lookup_map_value
        (fun key binding => if key = name then retagBinding tag binding else binding) ..
    have kept : (b.retag name tag).hidden = b.hidden := rfl
    rw [Bindings.history, changed, kept, models.visible, models.hidden, levels_retagged]
    by_cases same : wanted = name
    · subst same
      cases levels stack wanted <;> simp
    · cases levels stack wanted <;> simp [same]
  linked wanted := by
    rw [levels_retagged]
    refine (models.linked wanted).trans ?_
    by_cases same : wanted = name
    · subst same
      rw [if_pos rfl]
      rcases levels stack wanted with - | ⟨head, - | ⟨next, tail⟩⟩ <;> rfl
    · rw [if_neg same]
  sorted := models.sorted
  bounded := models.bounded

end DecafTac.Bindings
