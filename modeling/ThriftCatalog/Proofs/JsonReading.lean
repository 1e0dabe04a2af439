import ThriftCatalog.Document.Reader
import ThriftCatalog.Json.Member
import ThriftCatalog.Proofs.JsonText
import ThriftCatalog.Proofs.NumberReading
import ThriftCatalog.Proofs.Table

/-! Reading back what was written as JSON. Each reader is paired with a writer; a record is read back if each of its
members is written, or is left out where it has the value that stands for its absence. -/
namespace ThriftCatalog.Json

theorem itemNodes_eq (items : List Json) : itemNodes items = items.map toNode := by
  induction items with
  | nil => rfl
  | cons v vs ih => rw [itemNodes, ih, List.map_cons]

theorem memberNodes_eq (members : List (String × Json)) :
    memberNodes members = members.map fun m => (.string (some m.1), m.2.toNode) := by
  induction members with
  | nil => rfl
  | cons m ms ih => rw [memberNodes, ih, List.map_cons]

def members : Json → List (String × Json)
  | object members => members
  | _ => []

/-- Members whose names are among these, in their order. -/
def Within (names : List String) (members : List (String × Json)) : Prop := (members.map Prod.fst).Sublist names

namespace Within

variable {α : Type} {names names' : List String} {members members' : List (String × Json)}

theorem append (first : Within names members) (second : Within names' members') :
    Within (names ++ names') (members ++ members') := by
  rw [Within, List.map_append]
  exact List.Sublist.append first second

theorem single (name : String) (v : Json) : Within [name] [(name, v)] := List.Sublist.refl _

theorem leftOut (name : String) : Within [name] [] := List.nil_sublist _

theorem optional (name : String) (value : Option Json) : Within [name] (optionalMember name value) := by
  cases value with
  | none => exact leftOut name
  | some v => exact single name v

theorem text (name : String) (text : Option String) : Within [name] (textMember name text) := optional name _

theorem list (name : String) (f : α → Json) (items : List α) : Within [name] (listMember name f items) := by
  unfold listMember
  split
  · exact leftOut name
  · exact single name _

theorem table (name : String) (f : α → Json) (t : Table α) : Within [name] (tableMember name f t) := by
  unfold tableMember
  split
  · exact leftOut name
  · exact single name _

end Within

section Lookup

variable {α : Type} {f : α → Json}

theorem lookup_optionalMember (name key : String) (value : Option Json) :
    (optionalMember name value).lookup key = if key = name then value else none := by
  cases value with
  | none => simp [optionalMember]
  | some v =>
    by_cases same : key = name
    · simp [optionalMember, same]
    · have other : (key == name) = false := beq_false_of_ne same
      simp only [optionalMember, List.lookup_cons, other, if_neg same]
      rfl

@[simp] theorem lookup_textMember (name key : String) (text : Option String) :
    (textMember name text).lookup key = if key = name then text.map string else none :=
  lookup_optionalMember ..

@[simp] theorem lookup_listMember (name key : String) (items : List α) :
    (listMember name f items).lookup key =
      if key = name then if items = [] then none else some (array (items.map f)) else none := by
  cases items with
  | nil => simp [listMember]
  | cons a items => exact lookup_optionalMember name key (some _)

@[simp] theorem lookup_tableMember (name key : String) (t : Table α) :
    (tableMember name f t).lookup key =
      if key = name then if t.entries = [] then none else some (ofTable f t) else none := by
  rw [tableMember, Table.isEmpty]
  cases entries : t.entries with
  | nil => simp
  | cons entry rest => exact lookup_optionalMember name key (some _)

end Lookup

end ThriftCatalog.Json

namespace ThriftCatalog.Document

open Json

namespace Reader

variable {α β : Type} {r : Reader α} {write : α → Json} {depth : Nat}

/-- Every value is read back from what is written for it, wherever so many collections may be nested. -/
def Reads (r : Reader α) (write : α → Json) (depth : Nat) : Prop :=
  ∀ a room, depth ≤ room → r room (write a).toNode = pure a

theorem string_reads : Reads string Json.string 0 := fun _ _ _ => rfl

theorem bool_reads : Reads bool Json.bool 0 := fun _ _ _ => rfl

theorem word_reads {word : α → String} {ofWord? : String → Option α} (known : ∀ a, ofWord? (word a) = some a) :
    Reads (Reader.word ofWord?) (fun a => Json.string (word a)) 0 := by
  intro a room _
  have read : Reader.word ofWord? room (Json.string (word a)).toNode = ofOption (ofWord? (word a)) := rfl
  rw [read, known]
  rfl

theorem nat_reads {max n : Nat} (room : Nat) (bounded : n ≤ max) (fits : (n : Int) ≤ maxInteger) :
    Reader.nat max room (Json.ofNat n).toNode = pure n := by
  have read : (Number.integer n).numeral.toNumber? = some (.integer n) := by
    rw [Number.numeral_eq]
    exact Numeral.Written.ofInt_reads (by unfold minInteger; omega) fits
  rw [Json.ofNat, toNode]
  simp only [Reader.nat, resolve, Node.unanchored, pure_bind, read]
  rw [if_pos ⟨Int.natCast_nonneg n, Int.ofNat_le.mpr bounded⟩, Int.toNat_natCast]

theorem mapM_reads {f : β → ReadM α} {g : α → β} {xs : List α} (each : ∀ x ∈ xs, f (g x) = pure x) :
    (xs.map g).mapM f = pure xs := by
  induction xs with
  | nil => rfl
  | cons x xs ih =>
    rw [List.map_cons, List.mapM_cons, each x List.mem_cons_self, ih fun y mem => each y (List.mem_cons_of_mem _ mem)]
    simp only [pure_bind]

theorem Reads.list (reads : Reads r write depth) :
    Reads (Reader.list r) (fun xs => Json.array (xs.map write)) (depth + 1) := by
  intro xs room enough
  obtain ⟨room, rfl⟩ : ∃ k, room = k + 1 := ⟨room - 1, by omega⟩
  have read : Reader.list r (room + 1) (Json.array (xs.map write)).toNode =
      (itemNodes (xs.map write)).mapM (r room) := rfl
  rw [read, itemNodes_eq, List.map_map]
  exact mapM_reads fun x _ => reads x room (by omega)

theorem Reads.table (reads : Reads r write depth) : Reads (Reader.table r) (ofTable write) (depth + 1) := by
  intro t room enough
  obtain ⟨room, rfl⟩ : ∃ k, room = k + 1 := ⟨room - 1, by omega⟩
  have read : Reader.entries r (room + 1) (ofTable write t).toNode =
      (memberNodes (t.map write).entries).mapM fun entry => do
        let key ← string room entry.1
        return (key, ← r room entry.2) := rfl
  have entries : Reader.entries r (room + 1) (ofTable write t).toNode = pure t.entries := by
    rw [read, memberNodes_eq, Table.map, List.map_map]
    refine mapM_reads fun entry _ => ?_
    have key : string room (.string (some entry.1)) = pure entry.1 := rfl
    simp only [Function.comp_apply, key, reads entry.2 room (by omega), pure_bind]
  rw [Reader.table, entries, map_pure, Table.ext (Table.entries_ofList t.nodup_keys)]

theorem Reads.option (reads : Reads r write depth) (present : ∀ a, write a ≠ .null) {a : α} {room : Nat}
    (enough : depth ≤ room) : r.option room (write a).toNode = pure (some a) := by
  have read : r.option room (write a).toNode = some <$> r room (write a).toNode := by
    have other := present a
    cases written : write a with
    | null => contradiction
    | bool | number | string | array | object => rfl
  rw [read, reads a room enough, map_pure]

end Reader

namespace Members

open Reader

variable {α : Type} {r : Reader α} {write : α → Json} {depth room : Nat} {members : List (String × Json)}
  {name : String}

/-- The members of an object, before their values are read. -/
def ofObject (members : List (String × Json)) (room : Nat) : Members :=
  ⟨members.map fun m => (m.1, m.2.toNode), false, room⟩

theorem add_known {names : List String} {m : Members} (known : name ∈ names) (new : name ∉ m.found.map Prod.fst)
    (node : Node) : m.add names name node = pure { m with found := m.found ++ [(name, node)] } := by
  have absent : ¬ (m.found.lookup name).isSome = true := mt (Table.lookup_isSome_iff _).mp new
  rw [add, if_pos (List.contains_iff_mem.mpr known), if_neg absent]

theorem foldlM_add {names : List String} (known : ∀ m ∈ members, m.1 ∈ names) {start : Members}
    (distinct : (start.found.map Prod.fst ++ members.map Prod.fst).Nodup) :
    (memberNodes members).foldlM
      (fun m entry => do m.add names (← Reader.string room entry.1) entry.2) start =
        pure { start with found := start.found ++ members.map fun m => (m.1, m.2.toNode) } := by
  induction members generalizing start with
  | nil => simp [memberNodes]
  | cons m ms ih =>
    obtain ⟨k, v⟩ := m
    have key : Reader.string room (.string (some k)) = pure k := rfl
    have new : k ∉ start.found.map Prod.fst := by
      intro mem
      exact (List.nodup_append.mp distinct).2.2 k mem k (by simp) rfl
    have later : ((start.found ++ [(k, v.toNode)]).map Prod.fst ++ ms.map Prod.fst).Nodup := by
      simpa only [List.map_append, List.map_cons, List.map_nil, List.append_assoc, List.singleton_append] using distinct
    -- A name is not there yet, since all names, those found and those to come, are different.
    rw [memberNodes, List.foldlM_cons]
    simp only [key, pure_bind, add_known (known _ List.mem_cons_self) new]
    rw [ih (fun m mem => known m (List.mem_cons_of_mem _ mem)) later]
    simp only [List.append_assoc, List.map_cons, List.singleton_append]

/-- The members of an object are found if their names are among those known, in their order. -/
theorem ofNode_object {names : List String} (distinct : names.Nodup)
    (known : (members.map Prod.fst).Sublist names) :
    ofNode names (room + 1) (Json.object members).toNode = pure (ofObject members room) := by
  have read : ofNode names (room + 1) (Json.object members).toNode = (memberNodes members).foldlM
      (fun m entry => do m.add names (← Reader.string room entry.1) entry.2) ⟨[], false, room⟩ := rfl
  rw [read, foldlM_add (fun m mem => known.subset (List.mem_map_of_mem mem)) (by simpa using distinct.sublist known)]
  rfl

theorem record_reads {names : List String} (distinct : names.Nodup) (known : (members.map Prod.fst).Sublist names)
    (build : Members → ReadM α) :
    record names build (room + 1) (Json.object members).toNode = build (ofObject members room) := by
  rw [record, ofNode_object distinct known, pure_bind]

theorem lookup_ofObject : (ofObject members room).found.lookup name = (members.lookup name).map toNode :=
  Table.lookup_map

theorem required_reads (reads : Reads r write depth) (enough : depth ≤ room) {a : α}
    (written : members.lookup name = some (write a)) : (ofObject members room).required name r = pure a := by
  rw [required, lookup_ofObject, written]
  exact reads a room enough

/-- A member may be left out where it has its own value. -/
theorem defaulted_reads (reads : Reads r write depth) (enough : depth ≤ room) {a value : α} {p : Prop} [Decidable p]
    (void : p → a = value) (written : members.lookup name = if p then none else some (write a)) :
    (ofObject members room).defaulted name value r = pure a := by
  rw [defaulted, lookup_ofObject, written]
  by_cases left : p
  · rw [if_pos left, void left]
    rfl
  · rw [if_neg left]
    exact reads a room enough

theorem optional_reads (reads : Reads r write depth) (present : ∀ a, write a ≠ .null) (enough : depth ≤ room)
    {a : Option α} (written : members.lookup name = a.map write) :
    (ofObject members room).optional name r = pure a := by
  rw [optional, lookup_ofObject, written]
  cases a with
  | none => rfl
  | some a => exact reads.option present enough

end Members

/-- A record is read back if it is built again from the members that are written. -/
theorem Reader.Reads.record {α : Type} {write : α → Json} {depth : Nat} {names : List String}
    {build : Members → ReadM α} (distinct : names.Nodup) (within : ∀ a, Within names (write a).members)
    (object : ∀ a, .object (write a).members = write a)
    (built : ∀ a room, depth ≤ room → build (Members.ofObject (write a).members room) = pure a) :
    Reads (Reader.record names build) write (depth + 1) := by
  intro a room enough
  obtain ⟨room, rfl⟩ : ∃ k, room = k + 1 := ⟨room - 1, by omega⟩
  rw [← object a, Members.record_reads distinct (within a)]
  exact built a room (by omega)

end ThriftCatalog.Document
