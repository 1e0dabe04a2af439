import Mathlib.Data.List.Forall2
import ThriftCatalog.Table.Lemmas

/-! Tables as finite maps: an entry is what its name finds, and the sorted table holds the same entries with its keys
in strictly ascending order. -/
namespace ThriftCatalog.Table

variable {α β : Type u} {s t : Table α} {key : String} {value : α}

theorem mem_lookup_of_nodup {entries : List (String × α)} (distinct : (entries.map Prod.fst).Nodup) :
    (key, value) ∈ entries ↔ entries.lookup key = some value := by
  induction entries with
  | nil => simp
  | cons entry rest ih =>
    obtain ⟨name, held⟩ := entry
    simp only [List.map_cons, List.nodup_cons] at distinct
    rw [List.mem_cons, ih distinct.2]
    by_cases h : key = name
    · subst h
      have absent : rest.lookup key ≠ some value := by
        intro found
        exact distinct.1 ((lookup_isSome_iff rest).mp (by simp [found]))
      simp [absent, eq_comm]
    · have : (key == name) = false := by simpa using h
      simp [List.lookup_cons, this, h]

theorem mem_entries : (key, value) ∈ t.entries ↔ t.get? key = some value :=
  mem_lookup_of_nodup t.nodup_keys

theorem mem_keys : key ∈ t.keys ↔ ∃ value, t.get? key = some value := by
  rw [← get?_isSome_iff, Option.isSome_iff_exists]

theorem mem_keys_of_entry (h : (key, value) ∈ t.entries) : key ∈ t.keys :=
  List.mem_map_of_mem (f := Prod.fst) h

theorem get?_eq_none : t.get? key = none ↔ key ∉ t.keys := by
  rw [← get?_isSome_iff]
  cases t.get? key <;> simp

theorem contains_eq_isSome : t.contains key = (t.get? key).isSome := by
  rw [Bool.eq_iff_iff, contains_iff, get?_isSome_iff]

theorem contains_congr (same : s.get? key = t.get? key) : s.contains key = t.contains key := by
  rw [contains_eq_isSome, contains_eq_isSome, same]

/-- Tables of the same names have them in some order each. -/
theorem keys_perm {u : Table β} (same : ∀ key, key ∈ t.keys ↔ key ∈ u.keys) : t.keys.Perm u.keys :=
  (List.perm_ext_iff_of_nodup t.nodup_keys u.nodup_keys).mpr same

/-- Tables that find the same are of one size. -/
theorem size_congr (same : ∀ key, s.get? key = t.get? key) : s.size = t.size := by
  have keys : s.keys.Perm t.keys := keys_perm fun key => by rw [← get?_isSome_iff, ← get?_isSome_iff, same]
  simpa [Table.keys, size] using keys.length_eq

/-- A table is its names in order, with what each of them finds. -/
theorem entries_eq_map {f : String → α} (finds : ∀ key value, t.get? key = some value → f key = value) :
    t.entries = t.keys.map fun key => (key, f key) := by
  have each : ∀ entry ∈ t.entries, (entry.1, f entry.1) = entry := by
    intro entry mem
    rw [finds entry.1 entry.2 (mem_entries.mp mem)]
  rw [keys, List.map_map]
  exact (List.map_congr_left each).trans (List.map_id _) |>.symm

theorem insertEntry_of_not_mem {entries : List (String × α)} (h : key ∉ entries.map Prod.fst) :
    insertEntry key value entries = entries ++ [(key, value)] := by
  induction entries with
  | nil => rfl
  | cons entry rest ih =>
    simp only [List.map_cons, List.mem_cons, not_or] at h
    simp only [insertEntry, if_neg (Ne.symm h.1), ih h.2, List.cons_append]

/-- A new name is appended. -/
theorem entries_insert (h : key ∉ t.keys) : (t.insert key value).entries = t.entries ++ [(key, value)] :=
  insertEntry_of_not_mem h

theorem entries_sorted_perm : t.sorted.entries.Perm t.entries :=
  List.mergeSort_perm _ _

theorem get?_sorted : t.sorted.get? key = t.get? key := by
  apply Option.ext
  intro value
  rw [← mem_entries, ← mem_entries, entries_sorted_perm.mem_iff]

theorem mem_values : value ∈ t.values ↔ ∃ key, t.get? key = some value := by
  simp [values, ← mem_entries]

theorem get?_insertAll {entries : List (String × α)} (h : (t.insertAll entries).get? key = some value) :
    t.get? key = some value ∨ (key, value) ∈ entries := by
  induction entries generalizing t with
  | nil => exact .inl h
  | cons entry rest ih =>
    rcases ih h with found | mem
    · rw [get?_insert] at found
      split at found
      · next here =>
        cases found
        exact .inr (by simp [here])
      · exact .inl found
    · exact .inr (by simp [mem])

theorem get?_insertAll_of_not_mem {entries : List (String × α)} (absent : key ∉ entries.map Prod.fst) :
    (t.insertAll entries).get? key = t.get? key := by
  induction entries generalizing t with
  | nil => rfl
  | cons entry rest ih =>
    rw [List.map_cons, List.mem_cons, not_or] at absent
    exact (ih absent.2).trans (get?_insert.trans (if_neg absent.1))

theorem get?_insertAll_of_mem {entries : List (String × α)} (distinct : (entries.map Prod.fst).Nodup)
    (mem : (key, value) ∈ entries) : (t.insertAll entries).get? key = some value := by
  induction entries generalizing t with
  | nil => contradiction
  | cons entry rest ih =>
    rw [List.map_cons, List.nodup_cons] at distinct
    rcases List.mem_cons.mp mem with rfl | mem
    · exact (get?_insertAll_of_not_mem distinct.1).trans (get?_insert.trans (if_pos rfl))
    · exact ih distinct.2 mem

/-- New names are appended in their order. -/
theorem entries_insertAll {entries : List (String × α)} (distinct : (entries.map Prod.fst).Nodup)
    (fresh : ∀ key ∈ t.keys, key ∉ entries.map Prod.fst) : (t.insertAll entries).entries = t.entries ++ entries := by
  induction entries generalizing t with
  | nil => simp [insertAll]
  | cons entry rest ih =>
    rw [List.map_cons, List.nodup_cons] at distinct
    have new : entry.1 ∉ t.keys := fun mem => fresh _ mem (by simp)
    have still : ∀ key ∈ (t.insert entry.1 entry.2).keys, key ∉ rest.map Prod.fst := by
      intro key mem
      rcases mem_keys_insert.mp mem with rfl | mem
      · exact distinct.1
      · exact fun listed => fresh key mem (by simp [listed])
    refine (ih distinct.2 still).trans ?_
    rw [entries_insert new, List.append_assoc, List.singleton_append]

theorem entries_ofList {entries : List (String × α)} (distinct : (entries.map Prod.fst).Nodup) :
    (ofList entries).entries = entries :=
  entries_insertAll distinct nofun

theorem entries_insertAll_eq_foldl (t : Table α) (entries : List (String × α)) :
    (t.insertAll entries).entries = entries.foldl (fun es entry => insertEntry entry.1 entry.2 es) t.entries := by
  induction entries generalizing t with
  | nil => rfl
  | cons entry rest ih => exact ih (t.insert entry.1 entry.2)

theorem entries_ofList_subset (entries : List (String × α)) : (ofList entries).entries ⊆ entries := by
  rintro ⟨key, value⟩ mem
  rcases get?_insertAll (mem_entries.mp mem) with found | listed
  · cases found
  · exact listed

/-- Names stand in ascending order, and since none comes twice, in strictly ascending order. -/
theorem keys_sorted_ascending : t.sorted.keys.Pairwise (· < ·) := by
  have weak : t.sorted.entries.Pairwise fun a b => decide (a.1 ≤ b.1) = true :=
    List.pairwise_mergeSort (fun _ _ _ ab bc => by simpa using String.le_trans (by simpa using ab) (by simpa using bc))
      (fun a b => by simpa using String.le_total a.1 b.1) _
  have weakKeys : t.sorted.keys.Pairwise (· ≤ ·) := by
    rw [keys, List.pairwise_map]
    exact weak.imp fun h => by simpa using h
  refine weakKeys.imp₂ (fun a b le ne => ?_) t.sorted.nodup_keys
  exact Decidable.byContradiction fun notLess => ne (String.le_antisymm le notLess)

theorem keys_sorted_congr {u : Table β} (same : ∀ key, key ∈ t.keys ↔ key ∈ u.keys) :
    t.sorted.keys = u.sorted.keys := by
  have perm : t.sorted.keys.Perm u.sorted.keys :=
    keys_perm fun key => by rw [mem_keys_sorted, mem_keys_sorted, same]
  exact perm.eq_of_pairwise (fun a b _ _ less greater => absurd greater (String.lt_asymm less))
    keys_sorted_ascending keys_sorted_ascending

/-- Tables of the same names in the same order are related entry by entry if they are name by name. -/
theorem forall₂_entries {u : Table β} {R : String × α → String × β → Prop} (keys : t.keys = u.keys)
    (each : ∀ key a b, t.get? key = some a → u.get? key = some b → R (key, a) (key, b)) :
    List.Forall₂ R t.entries u.entries := by
  have related : ∀ x ∈ t.entries, ∀ y ∈ u.entries, x.1 = y.1 → R x y := by
    rintro ⟨key, a⟩ here ⟨_, b⟩ there rfl
    exact each key a b (mem_entries.mp here) (mem_entries.mp there)
  unfold Table.keys at keys
  generalize t.entries = xs at keys related
  generalize u.entries = ys at keys related
  induction xs generalizing ys with
  | nil =>
    cases ys with
    | nil => exact .nil
    | cons y ys => contradiction
  | cons x xs ih =>
    cases ys with
    | nil => contradiction
    | cons y ys =>
      rw [List.map_cons, List.map_cons, List.cons.injEq] at keys
      refine .cons (related x (by simp) y (by simp) keys.1) (ih ys keys.2 fun x mem y mem' => ?_)
      exact related x (List.mem_cons_of_mem _ mem) y (List.mem_cons_of_mem _ mem')

/-- Sorted tables that find the same are the same. -/
theorem sorted_congr (same : ∀ key, s.get? key = t.get? key) : s.sorted = t.sorted := by
  have names : ∀ key, key ∈ s.keys ↔ key ∈ t.keys := fun key => by rw [← get?_isSome_iff, ← get?_isSome_iff, same]
  apply ext
  rw [← List.forall₂_eq_eq_eq]
  refine forall₂_entries (keys_sorted_congr names) fun key a b here there => ?_
  rw [get?_sorted] at here there
  obtain rfl := Option.some.inj (here.symm.trans ((same key).trans there))
  rfl

section Map

variable {f : α → β}

theorem map_insertEntry {entries : List (String × α)} :
    (insertEntry key value entries).map (fun entry => (entry.1, f entry.2)) =
      insertEntry key (f value) (entries.map fun entry => (entry.1, f entry.2)) := by
  induction entries with
  | nil => rfl
  | cons entry rest ih =>
    by_cases here : entry.1 = key
    · simp only [insertEntry, List.map_cons, if_pos here]
    · simp only [insertEntry, List.map_cons, if_neg here, ih]

theorem entries_map : (t.map f).entries = t.entries.map fun entry => (entry.1, f entry.2) := rfl

theorem map_insert : (t.insert key value).map f = (t.map f).insert key (f value) :=
  ext map_insertEntry

theorem lookup_map {entries : List (String × α)} :
    (entries.map fun entry => (entry.1, f entry.2)).lookup key = (entries.lookup key).map f := by
  induction entries with
  | nil => rfl
  | cons entry rest ih =>
    rw [List.map_cons, List.lookup_cons, List.lookup_cons]
    split
    · rfl
    · exact ih

theorem get?_map : (t.map f).get? key = (t.get? key).map f := lookup_map

theorem values_map : (t.map f).values = t.values.map f := by
  simp [values, map, Function.comp_def]

theorem sorted_map : (t.map f).sorted = t.sorted.map f := by
  apply ext
  symm
  apply List.map_mergeSort
  intro a _ b _
  rfl

end Map

end ThriftCatalog.Table
