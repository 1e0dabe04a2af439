/-! Tables from names to values that keep the order in which the names first came. -/
namespace ThriftCatalog

/-- A finite map from names. Its entries stand in the order of first insertion, each name once. -/
structure Table (α : Type u) where
  entries : List (String × α)
  nodup_keys : (entries.map Prod.fst).Nodup := by decide
deriving DecidableEq, Repr

namespace Table

variable {α β : Type u}

def empty : Table α := ⟨[], List.nodup_nil⟩

instance : EmptyCollection (Table α) := ⟨empty⟩
instance : Inhabited (Table α) := ⟨empty⟩

def keys (t : Table α) : List String := t.entries.map Prod.fst

def values (t : Table α) : List α := t.entries.map Prod.snd

def size (t : Table α) : Nat := t.entries.length

def isEmpty (t : Table α) : Bool := t.entries.isEmpty

def get? (t : Table α) (key : String) : Option α := t.entries.lookup key

def contains (t : Table α) (key : String) : Bool := t.entries.any fun entry => entry.1 = key

/-- Overwrites the entry of a name in its place, or appends a new one. -/
def insertEntry (key : String) (value : α) : List (String × α) → List (String × α)
  | [] => [(key, value)]
  | entry :: rest =>
    if entry.1 = key then (key, value) :: rest else entry :: insertEntry key value rest

theorem keys_insertEntry (key : String) (value : α) (entries : List (String × α)) :
    (insertEntry key value entries).map Prod.fst =
      if key ∈ entries.map Prod.fst then entries.map Prod.fst
      else entries.map Prod.fst ++ [key] := by
  induction entries with
  | nil => simp [insertEntry]
  | cons entry rest ih =>
    by_cases h : entry.1 = key
    · simp [insertEntry, h]
    · have h' : ¬ key = entry.1 := fun e => h e.symm
      by_cases m : key ∈ rest.map Prod.fst <;> simp_all [insertEntry]

/-- The last value given for a name stands in the place of the first. -/
def insert (t : Table α) (key : String) (value : α) : Table α where
  entries := insertEntry key value t.entries
  nodup_keys := by
    rw [keys_insertEntry]
    split
    · exact t.nodup_keys
    · next h =>
      rw [List.nodup_append]
      refine ⟨t.nodup_keys, by simp, ?_⟩
      intro a ha b hb
      simp only [List.mem_singleton] at hb
      subst hb
      intro e
      exact h (e ▸ ha)

def insertAll (t : Table α) (entries : List (String × α)) : Table α :=
  entries.foldl (fun t entry => t.insert entry.1 entry.2) t

def ofList (entries : List (String × α)) : Table α := empty.insertAll entries

def map (f : α → β) (t : Table α) : Table β where
  entries := t.entries.map fun entry => (entry.1, f entry.2)
  nodup_keys := by
    rw [List.map_map]
    exact t.nodup_keys

def sorted (t : Table α) : Table α where
  entries := t.entries.mergeSort fun a b => decide (a.1 ≤ b.1)
  nodup_keys := ((List.mergeSort_perm _ _).map Prod.fst).nodup_iff.2 t.nodup_keys

end Table

end ThriftCatalog
