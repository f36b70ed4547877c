/-!
Tables kept as lists of pairs, searched from the front. These are the laws of looking a key up after
the table was extended, filtered or had its values changed.
-/
namespace DecafTac.Table

variable {α β : Type} [BEq α] [LawfulBEq α] [DecidableEq α]

theorem lookup_cons (key : α) (value : β) (table : List (α × β)) (wanted : α) :
    ((key, value) :: table).lookup wanted = if wanted = key then some value else table.lookup wanted := by
  by_cases same : wanted = key
  · simp [same]
  · have other : (wanted == key) = false := by simpa using same
    simp [List.lookup_cons, other, same]

/-- Leaving out entries by their keys leaves the others as they were. -/
theorem lookup_filter_key (keep : α → Bool) (table : List (α × β)) {wanted : α}
    (kept : keep wanted = true) :
    (table.filter fun entry => keep entry.1).lookup wanted = table.lookup wanted := by
  induction table with
  | nil => rfl
  | cons entry rest ih =>
    obtain ⟨key, value⟩ := entry
    rw [List.filter_cons, lookup_cons]
    by_cases same : wanted = key
    · subst same
      simp [kept]
    · rw [if_neg same, ← ih]
      split
      · rw [lookup_cons, if_neg same]
      · rfl

/-- Leaving out entries by their values, when no key stands twice. -/
theorem lookup_filter_value (keep : β → Bool) {table : List (α × β)}
    (unique : (table.map Prod.fst).Nodup) (wanted : α) :
    (table.filter fun entry => keep entry.2).lookup wanted = (table.lookup wanted).filter keep := by
  induction table with
  | nil => rfl
  | cons entry rest ih =>
    obtain ⟨key, value⟩ := entry
    rw [List.map_cons, List.nodup_cons] at unique
    rw [List.filter_cons, lookup_cons]
    by_cases same : wanted = key
    · subst same
      have later : (rest.filter fun entry => keep entry.2).lookup wanted = none := by
        rw [ih unique.2, List.lookup_eq_none_iff.mpr]
        · rfl
        · intro entry member
          have different : wanted ≠ entry.1 := by
            intro same
            exact unique.1 (List.mem_map.mpr ⟨entry, member, same.symm⟩)
          simpa using different
      by_cases kept : keep value = true
      · simp [kept, Option.filter]
      · simp [kept, later, Option.filter]
    · rw [if_neg same, ← ih unique.2]
      split
      · rw [lookup_cons, if_neg same]
      · rfl

/-- What stands in a table is found there, when no key stands twice. -/
theorem lookup_of_mem {table : List (α × β)} (unique : (table.map Prod.fst).Nodup) {key : α} {value : β}
    (member : (key, value) ∈ table) : table.lookup key = some value := by
  induction table with
  | nil => cases member
  | cons entry rest ih =>
    obtain ⟨first, found⟩ := entry
    rw [List.map_cons, List.nodup_cons] at unique
    rw [lookup_cons]
    rcases List.mem_cons.mp member with same | later
    · cases same
      rw [if_pos rfl]
    · have other : key ≠ first := by
        rintro rfl
        exact unique.1 (List.mem_map.mpr ⟨_, later, rfl⟩)
      rw [if_neg other, ih unique.2 later]

omit [DecidableEq α] in
/-- What is found in a table stands there. -/
theorem mem_of_lookup {table : List (α × β)} {key : α} {value : β}
    (found : table.lookup key = some value) : (key, value) ∈ table := by
  obtain ⟨front, back, split, -⟩ := List.lookup_eq_some_iff.mp found
  simp [split]

omit [DecidableEq α] in
/-- What stands in a table is found there, when the key has no other value. -/
theorem lookup_of_only {table : List (α × β)} {key : α} {value : β} (member : (key, value) ∈ table)
    (only : ∀ other, (key, other) ∈ table → other = value) : table.lookup key = some value := by
  cases found : table.lookup key with
  | none =>
    have missing := List.lookup_eq_none_iff.mp found _ member
    simp at missing
  | some other =>
    rw [only other (mem_of_lookup found)]

/-- Changing the values without touching the keys changes what is found. -/
theorem lookup_map_value {γ : Type} (change : α → β → γ) (table : List (α × β)) (wanted : α) :
    (table.map fun entry => (entry.1, change entry.1 entry.2)).lookup wanted =
      (table.lookup wanted).map (change wanted) := by
  induction table with
  | nil => rfl
  | cons entry rest ih =>
    obtain ⟨key, value⟩ := entry
    rw [List.map_cons, lookup_cons, lookup_cons, ih]
    by_cases same : wanted = key <;> simp [same]

end DecafTac.Table
