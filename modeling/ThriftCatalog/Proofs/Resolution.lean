import ThriftCatalog.Generation.Resolver
import ThriftCatalog.Proofs.Fallible
import ThriftCatalog.Proofs.Occurrence

/-! Resolving as unfolding. A resolved tree has the shape of what its descriptor unfolds to: each part of the tree is
resolved from a descriptor directly inside, and each descriptor directly inside is resolved to a part. -/
namespace ThriftCatalog

open Relation Fallible TypeInfo

/-- The second descriptor stands directly inside the first: as an element, a map key or a map value, or as the type of
a field that the provider answers. -/
inductive Provider.Unfolds (p : Provider) : ValueDescriptor → ValueDescriptor → Prop where
  | listElement {element : ValueDescriptor} : Unfolds p (.list element) element
  | setElement {element : ValueDescriptor} : Unfolds p (.set element) element
  | mapKey {key value : ValueDescriptor} : Unfolds p (.map key value) key
  | mapValue {key value : ValueDescriptor} : Unfolds p (.map key value) value
  | structField {name : String} {fields : List FieldDescriptor} {f : FieldDescriptor} :
      p.structFields name = .ok fields → f ∈ fields → Unfolds p (.struct name) f.value
  | exceptionField {name : String} {fields : List FieldDescriptor} {f : FieldDescriptor} :
      p.exceptionFields name = .ok fields → f ∈ fields → Unfolds p (.exception name) f.value

def ClassInfo.descriptor : ClassInfo → ValueDescriptor
  | struct r => .struct r.name
  | enum e => .enum e.name
  | exception r => .exception r.name

namespace Resolver

variable {r : Resolver} {room more : Nat} {v v' : ValueDescriptor} {t u : TypeInfo} {c : ClassInfo}

section

variable {resolve : ValueDescriptor → Except GenerationError TypeInfo} {scope name : String}
  {answered : Except LookupError (List FieldDescriptor)}

theorem fieldBy_eq_ok {f : FieldDescriptor} {info : FieldInfo} :
    r.fieldBy resolve scope f = .ok info ↔
      ∃ t, resolve f.value = .ok t ∧ info = ⟨f.name, f.requirement, t, r.doc (docKey scope f.name)⟩ := by
  simp only [fieldBy, bind_eq_ok, pure_eq_ok]
  exact exists_congr fun t => and_congr_right' eq_comm

theorem recordBy_eq_ok {record : RecordInfo} :
    r.recordBy resolve name answered = .ok record ↔ ∃ fields infos, answered = .ok fields ∧
      fields.mapM (r.fieldBy resolve name) = .ok infos ∧ record = ⟨name, infos, r.doc name⟩ := by
  simp only [recordBy, bind_eq_ok, pure_eq_ok, answer_eq_ok]
  constructor
  · rintro ⟨fields, answered, infos, resolved, rfl⟩
    exact ⟨fields, infos, answered, resolved, rfl⟩
  · rintro ⟨fields, infos, answered, resolved, rfl⟩
    exact ⟨fields, answered, infos, resolved, rfl⟩

theorem recordBy_isOk (name : String) {fields : List FieldDescriptor} (found : answered = .ok fields)
    (each : ∀ f ∈ fields, ∃ t, resolve f.value = .ok t) : ∃ record, r.recordBy resolve name answered = .ok record := by
  have built : ∃ infos, fields.mapM (r.fieldBy resolve name) = .ok infos := by
    refine mapM_isOk fun f mem => ?_
    obtain ⟨t, resolved⟩ := each f mem
    exact ⟨_, fieldBy_eq_ok.mpr ⟨t, resolved, rfl⟩⟩
  obtain ⟨infos, built⟩ := built
  exact ⟨_, recordBy_eq_ok.mpr ⟨fields, infos, found, built, rfl⟩⟩

/-- A record is resolved alike by whatever resolves the types of its fields alike. -/
theorem recordBy_transfer {other : ValueDescriptor → Except GenerationError TypeInfo} {record : RecordInfo}
    (h : r.recordBy resolve name answered = .ok record)
    (each : ∀ v, ∀ info ∈ record.fields, resolve v = .ok info.type → other v = .ok info.type) :
    r.recordBy other name answered = .ok record := by
  obtain ⟨fields, infos, answered, resolved, rfl⟩ := recordBy_eq_ok.mp h
  refine recordBy_eq_ok.mpr ⟨fields, infos, answered, mapM_transfer resolved ?_, rfl⟩
  intro f info mem built
  obtain ⟨t, found, rfl⟩ := fieldBy_eq_ok.mp built
  exact fieldBy_eq_ok.mpr ⟨t, each _ _ mem found, rfl⟩

theorem type_of_recordBy {record : RecordInfo} (h : r.recordBy resolve name answered = .ok record) {info : FieldInfo}
    (mem : info ∈ record.fields) : ∃ v, resolve v = .ok info.type := by
  obtain ⟨fields, infos, -, resolved, rfl⟩ := recordBy_eq_ok.mp h
  obtain ⟨f, -, built⟩ := mem_of_mapM resolved mem
  obtain ⟨t, found, rfl⟩ := fieldBy_eq_ok.mp built
  exact ⟨f.value, found⟩

end

/-- A level is taken before what stands inside is resolved. -/
theorem map_level {α : Type} (f : α → TypeInfo) (x : Nat → Except GenerationError α) :
    f <$> x room = .ok t ↔ ∃ n a, room + 1 = n + 1 ∧ x n = .ok a ∧ t = f a := by
  rw [map_eq_ok]
  constructor
  · rintro ⟨a, found, rfl⟩
    exact ⟨room, a, rfl, found, rfl⟩
  · rintro ⟨_, a, ⟨⟩, found, rfl⟩
    exact ⟨a, found, rfl⟩

theorem resolveAt_struct {name : String} : r.resolveAt room (.struct name) = .ok t ↔ ∃ n record, room = n + 1 ∧
    r.recordBy (r.resolveAt n) name (r.provider.structFields name) = .ok record ∧ t = .struct record := by
  cases room with
  | zero => exact ⟨nofun, fun ⟨_, _, level, _⟩ => nomatch level⟩
  | succ room => exact map_level .struct fun n => r.recordBy (r.resolveAt n) name (r.provider.structFields name)

theorem resolveAt_exception {name : String} : r.resolveAt room (.exception name) = .ok t ↔ ∃ n record, room = n + 1 ∧
    r.recordBy (r.resolveAt n) name (r.provider.exceptionFields name) = .ok record ∧ t = .exception record := by
  cases room with
  | zero => exact ⟨nofun, fun ⟨_, _, level, _⟩ => nomatch level⟩
  | succ room => exact map_level .exception fun n => r.recordBy (r.resolveAt n) name (r.provider.exceptionFields name)

theorem resolveAt_list {e : ValueDescriptor} :
    r.resolveAt room (.list e) = .ok t ↔ ∃ n u, room = n + 1 ∧ r.resolveAt n e = .ok u ∧ t = .list u := by
  cases room with
  | zero => exact ⟨nofun, fun ⟨_, _, level, _⟩ => nomatch level⟩
  | succ room => exact map_level .list fun n => r.resolveAt n e

theorem resolveAt_set {e : ValueDescriptor} :
    r.resolveAt room (.set e) = .ok t ↔ ∃ n u, room = n + 1 ∧ r.resolveAt n e = .ok u ∧ t = .set u := by
  cases room with
  | zero => exact ⟨nofun, fun ⟨_, _, level, _⟩ => nomatch level⟩
  | succ room => exact map_level .set fun n => r.resolveAt n e

theorem resolveAt_map {k v : ValueDescriptor} : r.resolveAt room (.map k v) = .ok t ↔
    ∃ n key value, room = n + 1 ∧ r.resolveAt n k = .ok key ∧ r.resolveAt n v = .ok value ∧ t = .map key value := by
  cases room with
  | zero => exact ⟨nofun, fun ⟨_, _, _, level, _⟩ => nomatch level⟩
  | succ room =>
    change (do return TypeInfo.map (← r.resolveAt room k) (← r.resolveAt room v)) = .ok t ↔ _
    simp only [bind_eq_ok, pure_eq_ok]
    constructor
    · rintro ⟨key, first, value, second, rfl⟩
      exact ⟨room, key, value, rfl, first, second, rfl⟩
    · rintro ⟨_, key, value, ⟨⟩, first, second, rfl⟩
      exact ⟨key, first, value, second, rfl⟩

theorem resolveAt_enum {name : String} : r.resolveAt room (.enum name) = .ok t ↔
    ∃ constants, r.provider.enumConstants name = .ok constants ∧ t = .enum ⟨name, constants, r.doc name⟩ := by
  have flat : r.resolveAt room (.enum name) = .enum <$> r.enumInfo name := by cases room <;> rfl
  simp only [flat, enumInfo, map_eq_ok, bind_eq_ok, pure_eq_ok, answer_eq_ok]
  constructor
  · rintro ⟨_, ⟨constants, answered, rfl⟩, rfl⟩
    exact ⟨constants, answered, rfl⟩
  · rintro ⟨constants, answered, rfl⟩
    exact ⟨_, ⟨constants, answered, rfl⟩, rfl⟩

theorem resolveAt_typedef {tag : WireType} {name : String} : r.resolveAt room (.typedef tag name) = .ok t ↔
    ∃ kind, referenceKind? tag = some kind ∧ t = .unresolved ⟨kind, name, r.doc name⟩ := by
  have flat : r.resolveAt room (.typedef tag name) = r.reference tag name := by cases room <;> rfl
  rw [flat, reference]
  cases referenceKind? tag with
  | none => simp
  | some kind => simp [eq_comm]

/-- A resolved tree is no higher than the room that it was resolved in. -/
theorem height_le_room (h : r.resolveAt room v = .ok t) : t.height ≤ room := by
  induction room using Nat.strongRecOn generalizing v t with
  | ind room ih =>
    cases v with
    | void | bool | byte | i16 | i32 | i64 | double | string | binary =>
      cases room <;> cases h <;> exact Nat.zero_le _
    | enum name =>
      obtain ⟨constants, -, rfl⟩ := resolveAt_enum.mp h
      exact Nat.zero_le _
    | typedef tag name =>
      obtain ⟨kind, -, rfl⟩ := resolveAt_typedef.mp h
      exact Nat.zero_le _
    | struct name =>
      obtain ⟨n, record, rfl, built, rfl⟩ := resolveAt_struct.mp h
      rw [height_struct]
      refine Nat.succ_le_succ (heightFields_le_iff.mpr fun info mem => ?_)
      obtain ⟨v, found⟩ := type_of_recordBy built mem
      exact ih n (Nat.lt_succ_self n) found
    | exception name =>
      obtain ⟨n, record, rfl, built, rfl⟩ := resolveAt_exception.mp h
      rw [height_exception]
      refine Nat.succ_le_succ (heightFields_le_iff.mpr fun info mem => ?_)
      obtain ⟨v, found⟩ := type_of_recordBy built mem
      exact ih n (Nat.lt_succ_self n) found
    | list e =>
      obtain ⟨n, u, rfl, found, rfl⟩ := resolveAt_list.mp h
      exact Nat.succ_le_succ (ih n (Nat.lt_succ_self n) found)
    | set e =>
      obtain ⟨n, u, rfl, found, rfl⟩ := resolveAt_set.mp h
      exact Nat.succ_le_succ (ih n (Nat.lt_succ_self n) found)
    | map k v =>
      obtain ⟨n, key, value, rfl, first, second, rfl⟩ := resolveAt_map.mp h
      have parts := Nat.max_le.mpr ⟨ih n (Nat.lt_succ_self n) first, ih n (Nat.lt_succ_self n) second⟩
      exact Nat.succ_le_succ parts

/-- What resolves at all resolves to the same in every room that it fits in, and the depth that is allowed does not
matter, which only errors show. -/
theorem resolveAt_fits {limit : Nat} (h : r.resolveAt room v = .ok t) (fits : t.height ≤ more) :
    { r with maxDepth := limit }.resolveAt more v = .ok t := by
  -- By induction on the room of the first run. What takes a level is higher than each of its parts.
  induction room using Nat.strongRecOn generalizing more v t with
  | ind room ih =>
    cases v with
    | void | bool | byte | i16 | i32 | i64 | double | string | binary | enum | typedef =>
      cases room <;> cases more <;> exact h
    | struct name =>
      obtain ⟨n, record, rfl, built, rfl⟩ := resolveAt_struct.mp h
      rw [height_struct] at fits
      obtain ⟨m, rfl⟩ := Nat.exists_eq_add_of_le' (Nat.le_of_add_left_le fits)
      refine resolveAt_struct.mpr ⟨m, record, rfl, recordBy_transfer built fun v info mem found => ?_, rfl⟩
      exact ih n (Nat.lt_succ_self n) found (heightFields_le_iff.mp (Nat.le_of_succ_le_succ fits) info mem)
    | exception name =>
      obtain ⟨n, record, rfl, built, rfl⟩ := resolveAt_exception.mp h
      rw [height_exception] at fits
      obtain ⟨m, rfl⟩ := Nat.exists_eq_add_of_le' (Nat.le_of_add_left_le fits)
      refine resolveAt_exception.mpr ⟨m, record, rfl, recordBy_transfer built fun v info mem found => ?_, rfl⟩
      exact ih n (Nat.lt_succ_self n) found (heightFields_le_iff.mp (Nat.le_of_succ_le_succ fits) info mem)
    | list e =>
      obtain ⟨n, u, rfl, found, rfl⟩ := resolveAt_list.mp h
      obtain ⟨m, rfl⟩ := Nat.exists_eq_add_of_le' (Nat.le_of_add_left_le fits)
      exact resolveAt_list.mpr ⟨m, u, rfl, ih n (Nat.lt_succ_self n) found (Nat.le_of_succ_le_succ fits), rfl⟩
    | set e =>
      obtain ⟨n, u, rfl, found, rfl⟩ := resolveAt_set.mp h
      obtain ⟨m, rfl⟩ := Nat.exists_eq_add_of_le' (Nat.le_of_add_left_le fits)
      exact resolveAt_set.mpr ⟨m, u, rfl, ih n (Nat.lt_succ_self n) found (Nat.le_of_succ_le_succ fits), rfl⟩
    | map k v =>
      obtain ⟨n, key, value, rfl, first, second, rfl⟩ := resolveAt_map.mp h
      obtain ⟨m, rfl⟩ := Nat.exists_eq_add_of_le' (Nat.le_of_add_left_le fits)
      obtain ⟨fits, fits'⟩ := Nat.max_le.mp (Nat.le_of_succ_le_succ fits)
      have first := ih n (Nat.lt_succ_self n) first fits
      have second := ih n (Nat.lt_succ_self n) second fits'
      exact resolveAt_map.mpr ⟨m, key, value, rfl, first, second, rfl⟩

/-- More room changes no result, and neither does the depth that is allowed. -/
theorem resolveAt_wider {limit : Nat} (h : r.resolveAt room v = .ok t) (wider : room ≤ more) :
    { r with maxDepth := limit }.resolveAt more v = .ok t :=
  resolveAt_fits h (Nat.le_trans (height_le_room h) wider)

theorem resolveAt_mono (h : r.resolveAt room v = .ok t) (wider : room ≤ more) : r.resolveAt more v = .ok t :=
  resolveAt_wider h wider

/-- The tree is what the descriptor resolves to where there is room enough. -/
def Resolves (r : Resolver) (v : ValueDescriptor) (t : TypeInfo) : Prop := ∃ room, r.resolveAt room v = .ok t

theorem Resolves.functional (first : r.Resolves v t) (second : r.Resolves v u) : t = u := by
  obtain ⟨room, first⟩ := first
  obtain ⟨more, second⟩ := second
  have first := resolveAt_mono first (Nat.le_max_left room more)
  have second := resolveAt_mono second (Nat.le_max_right room more)
  exact Except.ok.inj (first.symm.trans second)

theorem Resolves.limit (h : r.Resolves v t) (limit : Nat) : Resolves { r with maxDepth := limit } v t := by
  obtain ⟨room, found⟩ := h
  exact ⟨room, resolveAt_wider found (Nat.le_refl room)⟩

theorem resolves_struct {name : String} : r.Resolves (.struct name) t ↔
    ∃ room record, r.recordBy (r.resolveAt room) name (r.provider.structFields name) = .ok record ∧
      t = .struct record := by
  constructor
  · rintro ⟨_, h⟩
    obtain ⟨room, record, -, found⟩ := resolveAt_struct.mp h
    exact ⟨room, record, found⟩
  · rintro ⟨room, record, found⟩
    exact ⟨room + 1, resolveAt_struct.mpr ⟨room, record, rfl, found⟩⟩

theorem resolves_exception {name : String} : r.Resolves (.exception name) t ↔
    ∃ room record, r.recordBy (r.resolveAt room) name (r.provider.exceptionFields name) = .ok record ∧
      t = .exception record := by
  constructor
  · rintro ⟨_, h⟩
    obtain ⟨room, record, -, found⟩ := resolveAt_exception.mp h
    exact ⟨room, record, found⟩
  · rintro ⟨room, record, found⟩
    exact ⟨room + 1, resolveAt_exception.mpr ⟨room, record, rfl, found⟩⟩

theorem resolves_enum {name : String} : r.Resolves (.enum name) t ↔
    ∃ constants, r.provider.enumConstants name = .ok constants ∧ t = .enum ⟨name, constants, r.doc name⟩ :=
  ⟨fun ⟨_, h⟩ => resolveAt_enum.mp h, fun h => ⟨0, resolveAt_enum.mpr h⟩⟩

theorem resolves_typedef {tag : WireType} {name : String} : r.Resolves (.typedef tag name) t ↔
    ∃ kind, referenceKind? tag = some kind ∧ t = .unresolved ⟨kind, name, r.doc name⟩ :=
  ⟨fun ⟨_, h⟩ => resolveAt_typedef.mp h, fun h => ⟨0, resolveAt_typedef.mpr h⟩⟩

theorem resolves_list {e : ValueDescriptor} : r.Resolves (.list e) t ↔ ∃ u, r.Resolves e u ∧ t = .list u := by
  constructor
  · rintro ⟨_, h⟩
    obtain ⟨room, u, -, found, same⟩ := resolveAt_list.mp h
    exact ⟨u, ⟨room, found⟩, same⟩
  · rintro ⟨u, ⟨room, found⟩, same⟩
    exact ⟨room + 1, resolveAt_list.mpr ⟨room, u, rfl, found, same⟩⟩

theorem resolves_set {e : ValueDescriptor} : r.Resolves (.set e) t ↔ ∃ u, r.Resolves e u ∧ t = .set u := by
  constructor
  · rintro ⟨_, h⟩
    obtain ⟨room, u, -, found, same⟩ := resolveAt_set.mp h
    exact ⟨u, ⟨room, found⟩, same⟩
  · rintro ⟨u, ⟨room, found⟩, same⟩
    exact ⟨room + 1, resolveAt_set.mpr ⟨room, u, rfl, found, same⟩⟩

theorem resolves_map {k v : ValueDescriptor} :
    r.Resolves (.map k v) t ↔ ∃ key value, r.Resolves k key ∧ r.Resolves v value ∧ t = .map key value := by
  constructor
  · rintro ⟨_, h⟩
    obtain ⟨room, key, value, -, first, second, same⟩ := resolveAt_map.mp h
    exact ⟨key, value, ⟨room, first⟩, ⟨room, second⟩, same⟩
  · rintro ⟨key, value, ⟨room, first⟩, ⟨more, second⟩, same⟩
    have first := resolveAt_mono first (Nat.le_max_left room more)
    have second := resolveAt_mono second (Nat.le_max_right room more)
    exact ⟨max room more + 1, resolveAt_map.mpr ⟨_, key, value, rfl, first, second, same⟩⟩

/-- The fields of a record are resolved from the fields that the provider answers, one from one. -/
theorem recordBy_fields {name : String} {answered : Except LookupError (List FieldDescriptor)} {record : RecordInfo}
    (built : r.recordBy (r.resolveAt room) name answered = .ok record) :
    ∃ fields, answered = .ok fields ∧ (∀ info ∈ record.fields, ∃ f ∈ fields, r.Resolves f.value info.type) ∧
      ∀ f ∈ fields, ∃ info ∈ record.fields, r.Resolves f.value info.type := by
  obtain ⟨fields, infos, answered, resolved, rfl⟩ := recordBy_eq_ok.mp built
  refine ⟨fields, answered, fun info mem => ?_, fun f mem => ?_⟩
  · obtain ⟨f, source, made⟩ := mem_of_mapM resolved mem
    obtain ⟨t, found, rfl⟩ := fieldBy_eq_ok.mp made
    exact ⟨f, source, room, found⟩
  · obtain ⟨info, built, made⟩ := mem_mapM resolved mem
    obtain ⟨t, found, rfl⟩ := fieldBy_eq_ok.mp made
    exact ⟨_, built, room, found⟩

/-- Each part of a resolved tree is resolved from a descriptor directly inside. -/
theorem Resolves.part (h : r.Resolves v t) (part : Part u t) : ∃ v', r.provider.Unfolds v v' ∧ r.Resolves v' u := by
  cases v with
  | struct name =>
    obtain ⟨room, record, built, rfl⟩ := resolves_struct.mp h
    obtain ⟨fields, answered, from_, -⟩ := recordBy_fields built
    cases part with
    | structField mem =>
      obtain ⟨f, mem, found⟩ := from_ _ mem
      exact ⟨f.value, .structField answered mem, found⟩
  | exception name =>
    obtain ⟨room, record, built, rfl⟩ := resolves_exception.mp h
    obtain ⟨fields, answered, from_, -⟩ := recordBy_fields built
    cases part with
    | exceptionField mem =>
      obtain ⟨f, mem, found⟩ := from_ _ mem
      exact ⟨f.value, .exceptionField answered mem, found⟩
  | list e =>
    obtain ⟨u, found, rfl⟩ := resolves_list.mp h
    cases part
    exact ⟨e, .listElement, found⟩
  | set e =>
    obtain ⟨u, found, rfl⟩ := resolves_set.mp h
    cases part
    exact ⟨e, .setElement, found⟩
  | map k v =>
    obtain ⟨key, value, first, second, rfl⟩ := resolves_map.mp h
    cases part with
    | mapKey => exact ⟨k, .mapKey, first⟩
    | mapValue => exact ⟨v, .mapValue, second⟩
  | enum name =>
    obtain ⟨constants, -, rfl⟩ := resolves_enum.mp h
    cases part
  | typedef tag name =>
    obtain ⟨kind, -, rfl⟩ := resolves_typedef.mp h
    cases part
  | void | bool | byte | i16 | i32 | i64 | double | string | binary =>
    obtain ⟨_ | room, h⟩ := h <;> cases h <;> cases part

/-- Each descriptor directly inside is resolved to a part of the tree. -/
theorem Resolves.unfolds (h : r.Resolves v t) (inside : r.provider.Unfolds v v') :
    ∃ u, Part u t ∧ r.Resolves v' u := by
  cases inside with
  | structField answered mem =>
    obtain ⟨room, record, built, rfl⟩ := resolves_struct.mp h
    obtain ⟨fields, answered', -, into⟩ := recordBy_fields built
    cases answered.symm.trans answered'
    obtain ⟨info, mem, found⟩ := into _ mem
    exact ⟨info.type, .structField mem, found⟩
  | exceptionField answered mem =>
    obtain ⟨room, record, built, rfl⟩ := resolves_exception.mp h
    obtain ⟨fields, answered', -, into⟩ := recordBy_fields built
    cases answered.symm.trans answered'
    obtain ⟨info, mem, found⟩ := into _ mem
    exact ⟨info.type, .exceptionField mem, found⟩
  | listElement =>
    obtain ⟨u, found, rfl⟩ := resolves_list.mp h
    exact ⟨u, .listElement, found⟩
  | setElement =>
    obtain ⟨u, found, rfl⟩ := resolves_set.mp h
    exact ⟨u, .setElement, found⟩
  | mapKey =>
    obtain ⟨key, value, first, second, rfl⟩ := resolves_map.mp h
    exact ⟨key, .mapKey, first⟩
  | mapValue =>
    obtain ⟨key, value, first, second, rfl⟩ := resolves_map.mp h
    exact ⟨value, .mapValue, second⟩

theorem recordBy_name {name : String} {answered : Except LookupError (List FieldDescriptor)} {record : RecordInfo}
    (built : r.recordBy (r.resolveAt room) name answered = .ok record) : record.name = name := by
  obtain ⟨fields, infos, -, -, rfl⟩ := recordBy_eq_ok.mp built
  rfl

/-- A class is resolved from its own descriptor only, and a name left unexpanded from a descriptor that says so. -/
theorem Resolves.origin (h : r.Resolves v t) :
    (∀ c, t.asClass? = some c → v = c.descriptor) ∧
    ∀ reference, t = .unresolved reference → ∃ tag, v = .typedef tag reference.name := by
  cases v with
  | struct name =>
    obtain ⟨room, record, built, rfl⟩ := resolves_struct.mp h
    refine ⟨fun c same => ?_, fun _ => nofun⟩
    cases same
    rw [ClassInfo.descriptor, recordBy_name built]
  | exception name =>
    obtain ⟨room, record, built, rfl⟩ := resolves_exception.mp h
    refine ⟨fun c same => ?_, fun _ => nofun⟩
    cases same
    rw [ClassInfo.descriptor, recordBy_name built]
  | enum name =>
    obtain ⟨constants, -, rfl⟩ := resolves_enum.mp h
    refine ⟨fun c same => ?_, fun _ => nofun⟩
    cases same
    rfl
  | typedef tag name =>
    obtain ⟨kind, -, rfl⟩ := resolves_typedef.mp h
    refine ⟨fun _ => nofun, fun reference same => ?_⟩
    cases same
    exact ⟨tag, rfl⟩
  | list e =>
    obtain ⟨u, -, rfl⟩ := resolves_list.mp h
    exact ⟨fun _ => nofun, fun _ => nofun⟩
  | set e =>
    obtain ⟨u, -, rfl⟩ := resolves_set.mp h
    exact ⟨fun _ => nofun, fun _ => nofun⟩
  | map k v =>
    obtain ⟨key, value, -, -, rfl⟩ := resolves_map.mp h
    exact ⟨fun _ => nofun, fun _ => nofun⟩
  | void | bool | byte | i16 | i32 | i64 | double | string | binary =>
    obtain ⟨_ | room, h⟩ := h <;> cases h <;> exact ⟨fun _ => nofun, fun _ => nofun⟩

/-- Asked for by its name, a struct or exception is resolved to a class of that name. -/
theorem Resolves.exists_class {name : String} (h : r.Resolves v t) (asked : v = .struct name ∨ v = .exception name) :
    ∃ c : ClassInfo, c.toType = t ∧ c.descriptor = v ∧ c.name = name := by
  rcases asked with rfl | rfl
  · obtain ⟨room, record, built, rfl⟩ := resolves_struct.mp h
    obtain rfl := recordBy_name built
    exact ⟨.struct record, rfl, rfl, rfl⟩
  · obtain ⟨room, record, built, rfl⟩ := resolves_exception.mp h
    obtain rfl := recordBy_name built
    exact ⟨.exception record, rfl, rfl, rfl⟩

theorem Resolves.occurs (h : r.Resolves v t) (occurs : Occurs u t) :
    ∃ v', ReflTransGen r.provider.Unfolds v v' ∧ r.Resolves v' u := by
  induction occurs using ReflTransGen.head_induction_on with
  | refl => exact ⟨v, .refl, h⟩
  | head part _ ih =>
    obtain ⟨v', chain, found⟩ := ih
    obtain ⟨last, inside, found⟩ := found.part part
    exact ⟨last, chain.tail inside, found⟩

theorem Resolves.unfolds_all (h : r.Resolves v t) (chain : ReflTransGen r.provider.Unfolds v v') :
    ∃ u, Occurs u t ∧ r.Resolves v' u := by
  induction chain with
  | refl => exact ⟨t, .refl, h⟩
  | tail _ inside ih =>
    obtain ⟨u, occurs, found⟩ := ih
    obtain ⟨last, part, found⟩ := found.unfolds inside
    exact ⟨last, .head part occurs, found⟩

/-- A struct is resolved by its name as it is in place. -/
theorem resolve_struct (name : String) : r.resolve (.struct name) = .struct <$> r.resolveStruct name := by
  unfold resolve resolveStruct
  split
  · next depth =>
    rw [depth, resolveAt, depth]
    rfl
  · next room depth =>
    rw [depth]
    rfl

theorem resolve_exception (name : String) : r.resolve (.exception name) = .exception <$> r.resolveException name := by
  unfold resolve resolveException
  split
  · next depth =>
    rw [depth, resolveAt, depth]
    rfl
  · next room depth =>
    rw [depth]
    rfl

theorem recordBy_of_resolveStruct {name : String} {record : RecordInfo} (made : r.resolveStruct name = .ok record) :
    ∃ room, r.recordBy (r.resolveAt room) name (r.provider.structFields name) = .ok record := by
  unfold resolveStruct at made
  split at made
  · contradiction
  · next room _ => exact ⟨room, made⟩

theorem recordBy_of_resolveException {name : String} {record : RecordInfo}
    (made : r.resolveException name = .ok record) :
    ∃ room, r.recordBy (r.resolveAt room) name (r.provider.exceptionFields name) = .ok record := by
  unfold resolveException at made
  split at made
  · contradiction
  · next room _ => exact ⟨room, made⟩

theorem resolveException_eq_ok {name : String} {record : RecordInfo} :
    r.resolveException name = .ok record ↔ r.resolve (.exception name) = .ok (.exception record) := by
  rw [resolve_exception, map_eq_ok]
  simp

section

variable {P : GenerationError → Prop} {resolve : ValueDescriptor → Except GenerationError TypeInfo}
  {scope name : String}

theorem fieldBy_onlyFails {f : FieldDescriptor} (each : OnlyFails P (resolve f.value)) :
    OnlyFails P (r.fieldBy resolve scope f) :=
  each.bind fun _ _ => .ok _

theorem recordBy_onlyFails (lookup : ∀ e, P (.lookup e)) {answered : Except LookupError (List FieldDescriptor)}
    (each : ∀ fields, answered = .ok fields → ∀ f ∈ fields, OnlyFails P (resolve f.value)) :
    OnlyFails P (r.recordBy resolve name answered) := by
  refine OnlyFails.bind (.mapError lookup) fun fields found => ?_
  have infos : OnlyFails P (fields.mapM (r.fieldBy resolve name)) := by
    apply OnlyFails.mapM
    intro f mem
    exact fieldBy_onlyFails (each fields (answer_eq_ok.mp found) f mem)
  exact infos.bind fun _ _ => .ok _

end

/-- Why a descriptor may fail to resolve: something is not known, or nested too deep, or a name below it has the tag of
a type without one. -/
inductive Fails (r : Resolver) (v : ValueDescriptor) : GenerationError → Prop where
  | lookup (e : LookupError) : Fails r v (.lookup e)
  | tooDeep (context : String) : Fails r v (.tooDeep context r.maxDepth)
  | unexpectedTag {tag : WireType} {name : String} : ReflTransGen r.provider.Unfolds v (.typedef tag name) →
      referenceKind? tag = none → Fails r v (.unexpectedTag name tag)

theorem Fails.outside {e : GenerationError} (inside : r.provider.Unfolds v v') (fails : r.Fails v' e) :
    r.Fails v e := by
  cases fails with
  | lookup e => exact .lookup e
  | tooDeep context => exact .tooDeep context
  | unexpectedTag chain rejected => exact .unexpectedTag (.head inside chain) rejected

/-- Resolving never fails for another reason. -/
theorem resolveAt_fails (room : Nat) (v : ValueDescriptor) : OnlyFails (r.Fails v) (r.resolveAt room v) := by
  have enum (name : String) : OnlyFails (r.Fails (.enum name)) (r.enumInfo name) :=
    OnlyFails.bind (.mapError .lookup) fun _ _ => .ok _
  have typedef (tag : WireType) (name : String) : OnlyFails (r.Fails (.typedef tag name)) (r.reference tag name) := by
    unfold reference
    cases rejected : referenceKind? tag with
    | some kind => exact .ok _
    | none => exact .error (.unexpectedTag .refl rejected)
  induction room generalizing v with
  | zero =>
    cases v with
    | void | bool | byte | i16 | i32 | i64 | double | string | binary => exact .ok _
    | enum name => exact (enum name).map
    | typedef tag name => exact typedef tag name
    | struct | exception | list | set | map => exact .error (.tooDeep _)
  | succ room ih =>
    -- What fails inside is what fails.
    have part {v v' : ValueDescriptor} (inside : r.provider.Unfolds v v') :
        OnlyFails (r.Fails v) (r.resolveAt room v') := by
      intro e failed
      exact (ih v' e failed).outside inside
    cases v with
    | void | bool | byte | i16 | i32 | i64 | double | string | binary => exact .ok _
    | enum name => exact (enum name).map
    | typedef tag name => exact typedef tag name
    | struct name => exact (recordBy_onlyFails .lookup fun _ found _ mem => part (.structField found mem)).map
    | exception name => exact (recordBy_onlyFails .lookup fun _ found _ mem => part (.exceptionField found mem)).map
    | list element => exact (part .listElement).map
    | set element => exact (part .setElement).map
    | map key value => exact (part .mapKey).bind fun _ _ => (part .mapValue).bind fun _ _ => .ok _

end Resolver

end ThriftCatalog
