import ThriftCatalog.Document.Text
import ThriftCatalog.Proofs.JsonReading

/-! A JSON value of any shape is read back from its compact text, up to the digits of its floats. -/
namespace ThriftCatalog.Json

mutual

/-- How many collections are nested at most. -/
def depth : Json → Nat
  | null | bool _ | number _ | string _ => 0
  | array items => depthItems items + 1
  | object members => depthMembers members + 1

def depthItems : List Json → Nat
  | [] => 0
  | v :: vs => max (depth v) (depthItems vs)

def depthMembers : List (String × Json) → Nat
  | [] => 0
  | (_, v) :: ms => max (depth v) (depthMembers ms)

end

theorem depthItems_le_iff {items : List Json} {n : Nat} : depthItems items ≤ n ↔ ∀ v ∈ items, v.depth ≤ n := by
  induction items with
  | nil => simp [depthItems]
  | cons v vs ih => rw [depthItems, Nat.max_le, ih, List.forall_mem_cons]

theorem depthMembers_le_iff {members : List (String × Json)} {n : Nat} :
    depthMembers members ≤ n ↔ ∀ m ∈ members, m.2.depth ≤ n := by
  induction members with
  | nil => simp [depthMembers]
  | cons m ms ih => rw [depthMembers, Nat.max_le, ih, List.forall_mem_cons]

/-- All numbers in the value are numbers that JSON values can hold. -/
inductive Genuine : Json → Prop where
  | null : Genuine null
  | bool (b : Bool) : Genuine (bool b)
  | number {n : Number} : n.Genuine → Genuine (number n)
  | string (s : String) : Genuine (string s)
  | array {items : List Json} : (∀ v ∈ items, Genuine v) → Genuine (array items)
  | object {members : List (String × Json)} : (∀ m ∈ members, Genuine m.2) → Genuine (object members)

inductive Named (R : Json → Json → Prop) : String × Json → String × Json → Prop where
  | intro (name : String) {v w : Json} : R v w → Named R (name, v) (name, w)

/-- The same value up to the digits of floats. Of members with one name the last is left, in the place of the first. -/
inductive Alike : Json → Json → Prop where
  | null : Alike null null
  | bool (b : Bool) : Alike (bool b) (bool b)
  | number {m n : Number} : m.Alike n → Alike (number m) (number n)
  | string (s : String) : Alike (string s) (string s)
  | array {items items' : List Json} : List.Forall₂ Alike items items' → Alike (array items) (array items')
  | object {members members' : List (String × Json)} : List.Forall₂ (Named Alike) members members' →
      Alike (object members) (object (Table.ofList members').entries)

end ThriftCatalog.Json

namespace ThriftCatalog.Document

open Json

namespace Reader

variable {α β : Type} {v : Json} {room : Nat}

theorem mapM_related {f : α → ReadM β} {R : α → β → Prop} {xs : List α}
    (each : ∀ x ∈ xs, ∃ y, f x = pure y ∧ R x y) : ∃ ys, xs.mapM f = pure ys ∧ List.Forall₂ R xs ys := by
  induction xs with
  | nil => exact ⟨[], rfl, .nil⟩
  | cons x xs ih =>
    obtain ⟨y, first, related⟩ := each x List.mem_cons_self
    obtain ⟨ys, rest, all⟩ := ih fun z mem => each z (List.mem_cons_of_mem _ mem)
    refine ⟨y :: ys, ?_, .cons related all⟩
    rw [List.mapM_cons, first, rest]
    simp only [pure_bind]

theorem free_list (room : Nat) (items : List Json) :
    free (room + 1) (Json.array items).toNode = Json.array <$> items.mapM fun v => free room v.toNode := by
  have read : free (room + 1) (.list none (itemNodes items)) = Json.array <$> (itemNodes items).mapM (free room) := by
    rw [free]
    rfl
  rw [toNode, read, itemNodes_eq, List.mapM_map]
  rfl

theorem free_map (room : Nat) (members : List (String × Json)) :
    free (room + 1) (Json.object members).toNode = do
      let read ← members.mapM fun m => do return (m.1, ← free room m.2.toNode)
      return .object (Table.ofList read).entries := by
  simp only [Table.ofList, Table.entries_insertAll_eq_foldl]
  have read : free (room + 1) (.map none (memberNodes members)) = do
      let read ← (memberNodes members).mapM fun entry => do return (← string room entry.1, ← free room entry.2)
      return .object (read.foldl (fun ms m => Table.insertEntry m.1 m.2 ms) []) := by
    rw [free]
    rfl
  rw [toNode, read, memberNodes_eq, List.mapM_map]
  rfl

/-- Every value is read back where its collections may be nested. -/
theorem free_reads (genuine : v.Genuine) (shallow : v.depth ≤ room) :
    ∃ w, free room v.toNode = pure w ∧ v.Alike w := by
  induction v using inside_induction generalizing room with
  | null => exact ⟨.null, by rw [free]; rfl, .null⟩
  | bool b => exact ⟨.bool b, by rw [free]; rfl, .bool b⟩
  | string s => exact ⟨.string s, by rw [free]; rfl, .string s⟩
  | number n =>
    cases genuine with
    | number genuine =>
      obtain ⟨m, read, alike⟩ := Number.reads genuine
      refine ⟨.number m, ?_, .number alike⟩
      rw [← Number.numeral_eq] at read
      rw [free]
      simp only [toNode, resolve, Node.unanchored, pure_bind, read]
      rfl
  | array items ih =>
    cases genuine with
    | array genuine =>
      obtain ⟨room, rfl⟩ : ∃ k, room = k + 1 := ⟨room - 1, by rw [depth] at shallow; omega⟩
      have inside := depthItems_le_iff.mp (Nat.le_of_succ_le_succ shallow)
      obtain ⟨read, found, alike⟩ := mapM_related fun v mem => ih v mem (genuine v mem) (inside v mem)
      exact ⟨.array read, by rw [free_list, found, map_pure], .array alike⟩
  | object members ih =>
    cases genuine with
    | object genuine =>
      obtain ⟨room, rfl⟩ : ∃ k, room = k + 1 := ⟨room - 1, by rw [depth] at shallow; omega⟩
      have inside := depthMembers_le_iff.mp (Nat.le_of_succ_le_succ shallow)
      have each : ∀ m ∈ members, ∃ entry,
          (do return (m.1, ← free room m.2.toNode) : ReadM _) = pure entry ∧ Named Alike m entry := by
        intro m mem
        obtain ⟨w, found, alike⟩ := ih m mem (genuine m mem) (inside m mem)
        exact ⟨(m.1, w), by rw [found, pure_bind], .intro m.1 alike⟩
      obtain ⟨read, found, alike⟩ := mapM_related each
      exact ⟨.object (Table.ofList read).entries, by rw [free_map, found, pure_bind], .object alike⟩

end Reader

/-- The compact text of a value is read back as the same value up to the digits of floats. -/
theorem parse?_compact {v : Json} (genuine : v.Genuine) (shallow : v.depth ≤ 127) :
    ∃ w, parse? .json Reader.free v.compact = some w ∧ v.Alike w := by
  obtain ⟨w, read, alike⟩ := Reader.free_reads genuine shallow
  have whole : readJson? Reader.free v.toNode = some w := by
    rw [readJson?, read]
    rfl
  refine ⟨w, ?_, alike⟩
  rw [parse?, ofJson?_compact]
  exact whole

end ThriftCatalog.Document
