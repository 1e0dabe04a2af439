import ThriftCatalog.ClassSet
import ThriftCatalog.Proofs.Occurrence
import ThriftCatalog.Proofs.Table

/-! Collecting classes. A collection that meets no conflict records every class under its name and nothing else, and a
set that was closed under the fields of its classes stays closed. -/
namespace ThriftCatalog.ClassSet

variable {s s' : ClassSet} {name : String} {c : ClassInfo} {entries : List (String × ClassInfo)}

def get? (s : ClassSet) (name : String) : Option ClassInfo := s.table.get? name

@[simp] theorem get?_empty : (∅ : ClassSet).get? name = none := rfl

theorem get?_sorted : s.sorted.get? name = s.get? name := Table.get?_sorted

/-- A class is recorded unless its name has another definition, and no other name is touched. -/
theorem insert?_eq_some : s.insert? name c = some s' →
    (s.get? name = none ∨ s.get? name = some c) ∧
      ∀ other, s'.get? other = if other = name then some c else s.get? other := by
  intro recorded
  unfold insert? at recorded
  split at recorded
  · next absent =>
    cases recorded
    exact ⟨.inl absent, fun other => Table.get?_insert⟩
  · next held found =>
    split at recorded
    · next same =>
      subst same
      cases recorded
      refine ⟨.inr found, fun other => ?_⟩
      split
      · next here => exact here ▸ found
      · rfl
    · contradiction

theorem insert?_isSome (free : ∀ held, s.get? name = some held → held = c) : ∃ s', s.insert? name c = some s' := by
  unfold insert?
  split
  · exact ⟨_, rfl⟩
  · next held found => exact ⟨s, if_pos (free held found)⟩

/-- Without a conflict a name finds what it found before or what was recorded under it. -/
theorem insertAll_get? (h : s.insertAll entries = (s', none)) :
    s'.get? name = some c ↔ s.get? name = some c ∨ (name, c) ∈ entries := by
  induction entries generalizing s with
  | nil =>
    cases h
    simp
  | cons entry rest ih =>
    obtain ⟨key, own⟩ := entry
    simp only [insertAll] at h
    split at h
    · next middle recorded =>
      obtain ⟨free, found⟩ := insert?_eq_some recorded
      rw [ih h, found name]
      by_cases here : name = key
      · subst here
        rcases free with free | free <;> simp [free, eq_comm]
      · simp [here]
    · simp at h

/-- The classes are recorded without conflict where one predicate singles out one definition for each name. -/
theorem insertAll_of_unique {P : String → ClassInfo → Prop} (unique : ∀ n c d, P n c → P n d → c = d)
    (recorded : ∀ n c, s.get? n = some c → P n c) (arriving : ∀ n c, (n, c) ∈ entries → P n c) :
    ∃ s', s.insertAll entries = (s', none) := by
  induction entries generalizing s with
  | nil => exact ⟨s, rfl⟩
  | cons entry rest ih =>
    obtain ⟨key, own⟩ := entry
    have first : P key own := arriving key own (by simp)
    obtain ⟨middle, inserted⟩ := insert?_isSome fun held found => unique key held own (recorded key held found) first
    have kept : ∀ n c, middle.get? n = some c → P n c := by
      intro n d found
      rw [(insert?_eq_some inserted).2 n] at found
      split at found
      · next here =>
        cases found
        exact here ▸ first
      · exact recorded n d found
    obtain ⟨s', rest⟩ := ih kept fun n d mem => arriving n d (by simp [mem])
    exact ⟨s', by simp only [insertAll, inserted, rest]⟩

theorem collectAll_of_unique {cs : List ClassInfo} {P : String → ClassInfo → Prop}
    (unique : ∀ n c d, P n c → P n d → c = d) (recorded : ∀ n c, s.get? n = some c → P n c)
    (arriving : ∀ c ∈ cs, P c.name c) : ∃ s', s.collectAll cs = (s', none) := by
  refine insertAll_of_unique unique recorded fun n c listed => ?_
  obtain ⟨_, mem, same⟩ := List.mem_map.mp listed
  cases same
  exact arriving c mem

theorem insertAll_append {more : List (String × ClassInfo)} :
    s.insertAll (entries ++ more) = (s', none) ↔
      ∃ middle, s.insertAll entries = (middle, none) ∧ middle.insertAll more = (s', none) := by
  induction entries generalizing s with
  | nil => simp [insertAll]
  | cons entry rest ih =>
    simp only [List.cons_append, insertAll]
    split
    · exact ih
    · simp

theorem collectAll_append {xs ys : List ClassInfo} :
    s.collectAll (xs ++ ys) = (s', none) ↔
      ∃ middle, s.collectAll xs = (middle, none) ∧ middle.collectAll ys = (s', none) := by
  simp only [collectAll, List.map_append, insertAll_append]

theorem collectAll_get? {cs : List ClassInfo} (h : s.collectAll cs = (s', none)) :
    s'.get? name = some c ↔ s.get? name = some c ∨ (c ∈ cs ∧ c.name = name) := by
  rw [insertAll_get? h]
  apply or_congr_right
  simp only [List.mem_map, Prod.mk.injEq]
  constructor
  · rintro ⟨d, mem, here, rfl⟩
    exact ⟨mem, here⟩
  · rintro ⟨mem, here⟩
    exact ⟨c, mem, here, rfl⟩

end ThriftCatalog.ClassSet
