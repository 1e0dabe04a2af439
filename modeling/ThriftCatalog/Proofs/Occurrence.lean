import Mathlib.Logic.Relation
import ThriftCatalog.Model.Service

/-! What occurs in a type tree, at any depth and in any position. The lists of classes that are collected from a tree
hold exactly the structs, enums and exceptions that occur in it. -/
namespace ThriftCatalog

namespace TypeInfo

/-- The first tree stands directly inside the second: as the type of a field, an element, a map key or a map value. -/
inductive Part : TypeInfo → TypeInfo → Prop where
  | structField {record : RecordInfo} {field : FieldInfo} :
      field ∈ record.fields → Part field.type (.struct record)
  | exceptionField {record : RecordInfo} {field : FieldInfo} :
      field ∈ record.fields → Part field.type (.exception record)
  | listElement {element : TypeInfo} : Part element (.list element)
  | setElement {element : TypeInfo} : Part element (.set element)
  | mapKey {key value : TypeInfo} : Part key (.map key value)
  | mapValue {key value : TypeInfo} : Part value (.map key value)

/-- The first tree is the second or stands somewhere inside it. -/
def Occurs : TypeInfo → TypeInfo → Prop := Relation.ReflTransGen Part

theorem Part.sizeOf_lt {t u : TypeInfo} (part : Part t u) : sizeOf t < sizeOf u := by
  cases part with
  | structField mem | exceptionField mem =>
    rename_i record field
    obtain ⟨name, fields, doc⟩ := record
    have := List.sizeOf_lt_of_mem mem
    obtain ⟨fieldName, requirement, type, fieldDoc⟩ := field
    simp only [FieldOf.mk.sizeOf_spec] at this
    simp only [struct.sizeOf_spec, exception.sizeOf_spec, RecordOf.mk.sizeOf_spec]
    omega
  | listElement | setElement | mapKey | mapValue =>
    simp only [list.sizeOf_spec, set.sizeOf_spec, map.sizeOf_spec]
    omega

/-- What holds of a tree as soon as it holds of the trees directly inside holds of every tree. -/
theorem part_induction {motive : TypeInfo → Prop}
    (step : ∀ u, (∀ t, Part t u → motive t) → motive u) (u : TypeInfo) : motive u :=
  step u fun t _ => part_induction step t
termination_by sizeOf u
decreasing_by exact Part.sizeOf_lt ‹_›

theorem heightFields_le_iff {fields : List FieldInfo} {n : Nat} :
    heightFields fields ≤ n ↔ ∀ f ∈ fields, f.type.height ≤ n := by
  induction fields with
  | nil => simp only [heightFields, Nat.zero_le, List.not_mem_nil, false_implies, implies_true]
  | cons field fields ih =>
    obtain ⟨name, requirement, type, doc⟩ := field
    simp only [heightFields, Nat.max_le, ih, List.forall_mem_cons]

theorem height_struct (record : RecordInfo) : (struct record).height = heightFields record.fields + 1 := by
  cases record
  rfl

theorem height_exception (record : RecordInfo) : (exception record).height = heightFields record.fields + 1 := by
  cases record
  rfl

/-- What stands inside is less high. -/
theorem Part.height_lt {t u : TypeInfo} (part : Part t u) : t.height < u.height := by
  cases part with
  | structField mem =>
    rw [height_struct]
    exact Nat.lt_succ_of_le (heightFields_le_iff.mp (Nat.le_refl _) _ mem)
  | exceptionField mem =>
    rw [height_exception]
    exact Nat.lt_succ_of_le (heightFields_le_iff.mp (Nat.le_refl _) _ mem)
  | listElement | setElement => exact Nat.lt_succ_self _
  | mapKey => exact Nat.lt_succ_of_le (Nat.le_max_left _ _)
  | mapValue => exact Nat.lt_succ_of_le (Nat.le_max_right _ _)

/-- Nothing stands inside itself. -/
theorem Part.not_occurs {t u : TypeInfo} (part : Part t u) : ¬ Occurs u t := by
  have height_le {t u : TypeInfo} (occurs : Occurs t u) : t.height ≤ u.height := by
    induction occurs with
    | refl => exact Nat.le_refl _
    | tail _ part ih => exact Nat.le_trans ih (Nat.le_of_lt part.height_lt)
  intro occurs
  exact Nat.not_lt_of_le (height_le occurs) part.height_lt

theorem classesOfFields_eq (fields : List FieldInfo) :
    classesOfFields fields = fields.flatMap fun f => f.type.classes := by
  induction fields with
  | nil => simp only [classesOfFields, List.flatMap_nil]
  | cons field fields ih =>
    obtain ⟨name, requirement, type, doc⟩ := field
    simp only [classesOfFields, List.flatMap_cons, ih]

end TypeInfo

open TypeInfo

theorem ClassInfo.toType_injective {c d : ClassInfo} (same : c.toType = d.toType) : c = d := by
  have := congrArg asClass? same
  simpa only [asClass?_toType, Option.some.injEq] using this

/-- Directly inside a class stand the types of its fields. -/
theorem ClassInfo.part_iff {c : ClassInfo} {t : TypeInfo} : Part t c.toType ↔ ∃ f ∈ c.fields, f.type = t := by
  constructor
  · intro part
    cases c with
    | struct | exception => cases part; exact ⟨_, ‹_›, rfl⟩
    | enum => cases part
  · rintro ⟨f, mem, rfl⟩
    cases c with
    | struct => exact .structField mem
    | exception => exact .exceptionField mem
    | enum => simp [fields] at mem

theorem ClassInfo.classes_toType (c : ClassInfo) :
    c.toType.classes = (c.fields.flatMap fun f => f.type.classes) ++ [c] := by
  cases c <;> simp [toType, classes, classesOfFields_eq, fields]

namespace TypeInfo

/-- A collected class is the tree itself or collected from a tree directly inside. -/
theorem mem_classes_iff {c : ClassInfo} {u : TypeInfo} :
    c ∈ u.classes ↔ c.toType = u ∨ ∃ t, Part t u ∧ c ∈ t.classes := by
  have own (d : ClassInfo) :
      c ∈ d.toType.classes ↔ c.toType = d.toType ∨ ∃ t, Part t d.toType ∧ c ∈ t.classes := by
    rw [d.classes_toType, List.mem_append, List.mem_singleton, List.mem_flatMap, or_comm]
    refine or_congr ⟨congrArg _, ClassInfo.toType_injective⟩ ?_
    constructor
    · rintro ⟨f, mem, found⟩
      exact ⟨_, ClassInfo.part_iff.mpr ⟨f, mem, rfl⟩, found⟩
    · rintro ⟨_, part, found⟩
      obtain ⟨f, mem, rfl⟩ := ClassInfo.part_iff.mp part
      exact ⟨f, mem, found⟩
  cases u with
  | struct r => exact own (.struct r)
  | exception r => exact own (.exception r)
  | enum e => exact own (.enum e)
  | list e | set e =>
    have different : ∀ t : TypeInfo, c.toType ≠ .list t ∧ c.toType ≠ .set t := fun _ => by
      cases c <;> simp [ClassInfo.toType]
    simp only [classes, different, false_or]
    exact ⟨fun found => ⟨e, by constructor, found⟩, fun ⟨_, part, found⟩ => by cases part; exact found⟩
  | map k v =>
    have different : c.toType ≠ .map k v := by cases c <;> simp [ClassInfo.toType]
    simp only [classes, different, List.mem_append, false_or]
    constructor
    · rintro (found | found)
      · exact ⟨k, .mapKey, found⟩
      · exact ⟨v, .mapValue, found⟩
    · rintro ⟨_, part, found⟩
      cases part with
      | mapKey => exact .inl found
      | mapValue => exact .inr found
  | void | bool | i8 | i16 | i32 | i64 | double | string | binary | unresolved =>
    constructor
    · intro found
      simp only [classes, List.not_mem_nil] at found
    · rintro (same | ⟨_, part, _⟩)
      · cases c <;> simp [ClassInfo.toType] at same
      · cases part

/-- The classes collected from a tree are the classes that occur in it. -/
theorem mem_classes {c : ClassInfo} {u : TypeInfo} : c ∈ u.classes ↔ Occurs c.toType u := by
  constructor
  · induction u using part_induction with
    | step u ih =>
      intro found
      rcases mem_classes_iff.mp found with same | ⟨t, part, inside⟩
      · exact same ▸ .refl
      · exact (ih t part inside).tail part
  · intro occurs
    induction occurs with
    | refl => exact mem_classes_iff.mpr (.inl rfl)
    | tail _ part ih => exact mem_classes_iff.mpr (.inr ⟨_, part, ih⟩)

end TypeInfo

/-- A tree occurs in the fields of a class. -/
def ClassInfo.Mentions (c : ClassInfo) (t : TypeInfo) : Prop := ∃ f ∈ c.fields, Occurs t f.type

/-- A tree occurs in the return type, a parameter or a declared exception. -/
def FunctionInfo.Mentions (f : FunctionInfo) (t : TypeInfo) : Prop :=
  Occurs t f.returnType ∨ (∃ p ∈ f.parameters, Occurs t p.type) ∨ ∃ e ∈ f.exceptions, Occurs t (.exception e)

def ServiceInfo.Mentions (s : ServiceInfo) (t : TypeInfo) : Prop :=
  (∃ f ∈ s.functions.values, f.Mentions t) ∨ ∃ c ∈ s.classes.values, c.Mentions t

def Specification.Mentions (spec : Specification) (t : TypeInfo) : Prop :=
  (∃ s ∈ spec.services.values, s.Mentions t) ∨ ∃ c ∈ spec.classes.values, c.Mentions t

/-- What the fields of a class mention occurs in the class. -/
theorem ClassInfo.Mentions.occurs {c : ClassInfo} {t : TypeInfo} (mentions : c.Mentions t) :
    Occurs t c.toType := by
  obtain ⟨f, mem, occurs⟩ := mentions
  exact occurs.tail (part_iff.mpr ⟨f, mem, rfl⟩)

theorem FunctionInfo.mem_classes {f : FunctionInfo} {c : ClassInfo} :
    c ∈ f.classes ↔ f.Mentions c.toType := by
  simp only [classes, Mentions, List.mem_append, classesOfFields_eq, List.mem_flatMap,
    TypeInfo.mem_classes, or_assoc]

/-- Whatever occurs in a tree that a function mentions is mentioned by the function. -/
theorem FunctionInfo.Mentions.trans {f : FunctionInfo} {t u : TypeInfo} (mentions : f.Mentions u)
    (occurs : Occurs t u) : f.Mentions t := by
  rcases mentions with here | ⟨p, mem, here⟩ | ⟨e, mem, here⟩
  · exact .inl (occurs.trans here)
  · exact .inr (.inl ⟨p, mem, occurs.trans here⟩)
  · exact .inr (.inr ⟨e, mem, occurs.trans here⟩)

end ThriftCatalog
