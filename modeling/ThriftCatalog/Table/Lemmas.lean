import ThriftCatalog.Table.Basic

/-! What each operation on tables does to the keys and to the value found under a name. -/
namespace ThriftCatalog.Table

variable {α β : Type u} {t : Table α} {key other : String} {value : α}

@[ext] theorem ext {s t : Table α} (h : s.entries = t.entries) : s = t := by
  cases s; cases t; cases h; rfl

@[simp] theorem keys_empty : (∅ : Table α).keys = [] := rfl

@[simp] theorem get?_empty : (∅ : Table α).get? key = none := rfl

theorem keys_insert : (t.insert key value).keys =
    if key ∈ t.keys then t.keys else t.keys ++ [key] :=
  keys_insertEntry key value t.entries

@[simp] theorem mem_keys_insert : other ∈ (t.insert key value).keys ↔ other = key ∨ other ∈ t.keys := by
  rw [keys_insert]
  split
  · next h => exact ⟨Or.inr, fun h' => h'.elim (fun e => e ▸ h) id⟩
  · simp [or_comm]

theorem contains_iff : t.contains key = true ↔ key ∈ t.keys := by
  simp [contains, keys]

theorem lookup_insertEntry (key other : String) (value : α) (entries : List (String × α)) :
    (insertEntry key value entries).lookup other =
      if other = key then some value else entries.lookup other := by
  induction entries with
  | nil =>
    by_cases h : other = key
    · simp [insertEntry, h]
    · have : (other == key) = false := by simpa using h
      simp [insertEntry, List.lookup_cons, h, this]
  | cons entry rest ih =>
    obtain ⟨name, held⟩ := entry
    by_cases h : name = key
    · subst h
      by_cases h' : other = name
      · simp [insertEntry, h']
      · have : (other == name) = false := by simpa using h'
        simp [insertEntry, List.lookup_cons, h', this]
    · by_cases h' : other = name
      · subst h'
        simp [insertEntry, h]
      · have : (other == name) = false := by simpa using h'
        simp only [insertEntry, h, if_false, List.lookup_cons, this, ih]

/-- A name finds the value inserted last under it, and every other name what it found before. -/
theorem get?_insert : (t.insert key value).get? other =
    if other = key then some value else t.get? other :=
  lookup_insertEntry key other value t.entries

theorem lookup_isSome_iff (entries : List (String × α)) :
    (entries.lookup key).isSome = true ↔ key ∈ entries.map Prod.fst := by
  induction entries with
  | nil => simp
  | cons entry rest ih =>
    obtain ⟨name, held⟩ := entry
    by_cases h : key = name
    · simp [h]
    · have : (key == name) = false := by simpa using h
      simp [List.lookup_cons, this, ih, h]

theorem get?_isSome_iff : (t.get? key).isSome = true ↔ key ∈ t.keys :=
  lookup_isSome_iff t.entries

@[simp] theorem keys_map (f : α → β) : (t.map f).keys = t.keys := by
  simp [keys, map, Function.comp_def]

theorem keys_sorted_perm : t.sorted.keys.Perm t.keys :=
  (List.mergeSort_perm _ _).map Prod.fst

@[simp] theorem mem_keys_sorted : key ∈ t.sorted.keys ↔ key ∈ t.keys :=
  keys_sorted_perm.mem_iff

end ThriftCatalog.Table
