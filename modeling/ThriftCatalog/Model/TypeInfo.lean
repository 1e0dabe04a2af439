import ThriftCatalog.Requirement

/-! Resolved types: trees in which structs, enums and exceptions are written out in place. -/
namespace ThriftCatalog

/-- A field or parameter whose type is a `τ`. -/
structure FieldOf (τ : Type) where
  name : String
  requirement : Requirement
  type : τ
  doc : Option String := none
deriving DecidableEq, Repr

/-- A struct, union or exception with fields in declaration order. -/
structure RecordOf (τ : Type) where
  name : String
  fields : List (FieldOf τ)
  doc : Option String := none
deriving DecidableEq, Repr

structure EnumInfo where
  name : String
  constants : List String
  doc : Option String := none
deriving DecidableEq, Repr

inductive ReferenceKind where
  | struct | enum | list | map | set
deriving DecidableEq, Repr

def ReferenceKind.word : ReferenceKind → String
  | struct => "struct"
  | enum => "enum"
  | list => "list"
  | map => "map"
  | set => "set"

/-- A name left unexpanded, with the kind of what it stands for. -/
structure Reference where
  kind : ReferenceKind
  name : String
  doc : Option String := none
deriving DecidableEq, Repr

inductive TypeInfo where
  | void | bool | i8 | i16 | i32 | i64 | double | string | binary
  | struct (record : RecordOf TypeInfo)
  | enum (info : EnumInfo)
  | exception (record : RecordOf TypeInfo)
  | list (element : TypeInfo)
  | set (element : TypeInfo)
  | map (key value : TypeInfo)
  | unresolved (reference : Reference)

abbrev FieldInfo := FieldOf TypeInfo

abbrev RecordInfo := RecordOf TypeInfo

namespace TypeInfo

/-- The short form in which a class or an unexpanded name appears by name only. -/
def signature : TypeInfo → String
  | void => "void"
  | bool => "bool"
  | i8 => "i8"
  | i16 => "i16"
  | i32 => "i32"
  | i64 => "i64"
  | double => "double"
  | string => "string"
  | binary => "binary"
  | struct r | exception r => r.name
  | enum e => e.name
  | list e => "list<" ++ e.signature ++ ">"
  | set e => "set<" ++ e.signature ++ ">"
  | map k v => "map<" ++ k.signature ++ ", " ++ v.signature ++ ">"
  | unresolved u => u.name

mutual

/-- Structural equality, by recursion on the first tree. -/
def same : TypeInfo → TypeInfo → Bool
  | void, void | bool, bool | i8, i8 | i16, i16 | i32, i32 | i64, i64 => true
  | double, double | string, string | binary, binary => true
  | struct ⟨n, fs, d⟩, struct ⟨m, gs, e⟩ => n == m && sameFields fs gs && d == e
  | exception ⟨n, fs, d⟩, exception ⟨m, gs, e⟩ => n == m && sameFields fs gs && d == e
  | enum e, enum f => e == f
  | list e, list f => same e f
  | set e, set f => same e f
  | map k v, map l w => same k l && same v w
  | unresolved u, unresolved w => u == w
  | _, _ => false

def sameFields : List (FieldOf TypeInfo) → List (FieldOf TypeInfo) → Bool
  | [], [] => true
  | ⟨n, r, t, d⟩ :: fs, ⟨m, s, u, e⟩ :: gs =>
    n == m && r == s && same t u && d == e && sameFields fs gs
  | _, _ => false

end

mutual

theorem eq_of_same : ∀ {t u : TypeInfo}, same t u = true → t = u
  | struct ⟨n, fs, d⟩, u, h => by
    cases u <;> simp only [same, Bool.and_eq_true, beq_iff_eq, Bool.false_eq_true] at h
    obtain ⟨⟨hn, hf⟩, hd⟩ := h
    rw [hn, hd, eq_of_sameFields hf]
  | exception ⟨n, fs, d⟩, u, h => by
    cases u <;> simp only [same, Bool.and_eq_true, beq_iff_eq, Bool.false_eq_true] at h
    obtain ⟨⟨hn, hf⟩, hd⟩ := h
    rw [hn, hd, eq_of_sameFields hf]
  | list e, u, h => by
    cases u <;> simp only [same, Bool.false_eq_true] at h
    rw [eq_of_same h]
  | set e, u, h => by
    cases u <;> simp only [same, Bool.false_eq_true] at h
    rw [eq_of_same h]
  | map k v, u, h => by
    cases u <;> simp only [same, Bool.and_eq_true, Bool.false_eq_true] at h
    rw [eq_of_same h.1, eq_of_same h.2]
  | enum e, u, h => by
    cases u <;> simp only [same, beq_iff_eq, Bool.false_eq_true] at h
    rw [h]
  | unresolved e, u, h => by
    cases u <;> simp only [same, beq_iff_eq, Bool.false_eq_true] at h
    rw [h]
  | void, u, h | bool, u, h | i8, u, h | i16, u, h | i32, u, h | i64, u, h | double, u, h
  | string, u, h | binary, u, h => by
    cases u <;> simp_all [same]

theorem eq_of_sameFields : ∀ {fs gs : List (FieldOf TypeInfo)}, sameFields fs gs = true → fs = gs
  | [], [], _ => rfl
  | ⟨n, r, t, d⟩ :: fs, ⟨m, s, u, e⟩ :: gs, h => by
    simp only [sameFields, Bool.and_eq_true, beq_iff_eq] at h
    obtain ⟨⟨⟨⟨hn, hr⟩, ht⟩, hd⟩, hf⟩ := h
    rw [hn, hr, hd, eq_of_same ht, eq_of_sameFields hf]
  | [], _ :: _, h => by simp [sameFields] at h
  | _ :: _, [], h => by simp [sameFields] at h

end

mutual

theorem same_refl : ∀ t : TypeInfo, same t t = true
  | struct ⟨n, fs, d⟩ | exception ⟨n, fs, d⟩ => by simp [same, sameFields_refl fs]
  | list e | set e => by simp [same, same_refl e]
  | map k v => by simp [same, same_refl k, same_refl v]
  | enum e | unresolved e => by simp [same]
  | void | bool | i8 | i16 | i32 | i64 | double | string | binary => rfl

theorem sameFields_refl : ∀ fs : List (FieldOf TypeInfo), sameFields fs fs = true
  | [] => rfl
  | ⟨n, r, t, d⟩ :: fs => by simp [sameFields, same_refl t, sameFields_refl fs]

end

instance : DecidableEq TypeInfo := fun t u =>
  if h : same t u = true then isTrue (eq_of_same h)
  else isFalse fun e => h (e ▸ same_refl t)

mutual

/-- How many containers, structs and exceptions enclose the innermost part. -/
def height : TypeInfo → Nat
  | struct ⟨_, fs, _⟩ | exception ⟨_, fs, _⟩ => heightFields fs + 1
  | list e | set e => height e + 1
  | map k v => max (height k) (height v) + 1
  | _ => 0

def heightFields : List (FieldOf TypeInfo) → Nat
  | [] => 0
  | ⟨_, _, t, _⟩ :: fs => max (height t) (heightFields fs)

end

end TypeInfo

instance : DecidableEq FieldInfo := inferInstance
instance : DecidableEq RecordInfo := inferInstance

end ThriftCatalog
