import ThriftCatalog.Model.JsonForm
import ThriftCatalog.Proofs.JsonReading
import ThriftCatalog.Proofs.Occurrence

/-! The JSON form of a specification loses nothing. A compact text in which all numbers are natural numbers determines
its value, and each part of a specification is determined by its JSON form. -/
namespace ThriftCatalog

open Function Json

namespace Json

variable {α β : Type}

theorem eq_of_map_eq {f : α → β} {xs ys : List α} (each : ∀ x ∈ xs, ∀ y ∈ ys, f x = f y → x = y)
    (same : xs.map f = ys.map f) : xs = ys := by
  induction xs generalizing ys with
  | nil => exact (List.map_eq_nil_iff.mp same.symm).symm
  | cons x xs ih =>
    cases ys with
    | nil => contradiction
    | cons y ys =>
      obtain ⟨first, rest⟩ := List.cons.inj same
      have head := each x List.mem_cons_self y List.mem_cons_self first
      have tail := ih (fun a mem b mem' => each a (List.mem_cons_of_mem _ mem) b (List.mem_cons_of_mem _ mem')) rest
      rw [head, tail]

theorem Number.natural_of_numeral {n m : Nat} (same : (integer n).numeral = (integer m).numeral) : n = m := by
  rw [numeral_eq, numeral_eq] at same
  have value := congrArg (fun numeral => Numeral.valueOf numeral.whole) same
  simpa only [Numeral.Written.ofNumber, Numeral.Written.ofInt, Numeral.Written.numeral, Numeral.valueOf_toDigits,
    Int.natAbs_natCast] using value

inductive Natural : Json → Prop where
  | null : Natural .null
  | bool (b : Bool) : Natural (.bool b)
  | number (n : Nat) : Natural (.ofNat n)
  | string (s : String) : Natural (.string s)
  | array {items : List Json} : (∀ v ∈ items, Natural v) → Natural (.array items)
  | object {members : List (String × Json)} : (∀ m ∈ members, Natural m.2) → Natural (.object members)

/-- The document tree determines the value. -/
theorem Natural.eq_of_toNode {v w : Json} (natural : v.Natural) (other : w.Natural) (same : v.toNode = w.toNode) :
    v = w := by
  induction natural generalizing w with
  | null => cases other <;> first | rfl | contradiction
  | bool b =>
    cases other with
    | bool c => cases same; rfl
    | _ => contradiction
  | number n =>
    cases other with
    | number m =>
      rw [Number.natural_of_numeral (Document.Node.number.inj same)]
    | _ => contradiction
  | string s =>
    cases other with
    | string t => cases same; rfl
    | _ => contradiction
  | array items ih =>
    cases other with
    | array others =>
      have nodes := (Document.Node.list.inj same).2
      rw [itemNodes_eq, itemNodes_eq] at nodes
      exact congrArg Json.array (eq_of_map_eq (fun v mem w mem' => ih v mem (others w mem')) nodes)
    | _ => contradiction
  | object members ih =>
    cases other with
    | object others =>
      have nodes := (Document.Node.map.inj same).2
      rw [memberNodes_eq, memberNodes_eq] at nodes
      refine congrArg Json.object (eq_of_map_eq (fun m mem n mem' equal => ?_) nodes)
      obtain ⟨key, value⟩ := Prod.mk.inj equal
      refine Prod.ext ?_ (ih m mem (others n mem') value)
      exact Option.some.inj (Document.Node.string.inj key)
    | _ => contradiction

/-- The compact text determines the value. -/
theorem Natural.eq_of_compact {v w : Json} (natural : v.Natural) (other : w.Natural)
    (same : v.compact = w.compact) : v = w := by
  apply natural.eq_of_toNode other
  have read := v.ofJson?_compact
  rw [same, w.ofJson?_compact] at read
  exact (Option.some.inj read).symm

theorem array_natural {f : α → Json} (natural : ∀ a, (f a).Natural) (items : List α) :
    (array (items.map f)).Natural := by
  apply Natural.array
  intro v mem
  obtain ⟨a, -, rfl⟩ := List.mem_map.mp mem
  exact natural a

theorem table_natural {f : α → Json} (natural : ∀ a, (f a).Natural) (t : Table α) : (ofTable f t).Natural := by
  apply Natural.object
  intro m mem
  obtain ⟨entry, -, rfl⟩ := List.mem_map.mp mem
  exact natural entry.2

theorem array_map_injective {f : α → Json} (injective : Injective f) :
    Injective fun items : List α => array (items.map f) := fun _ _ same =>
  List.map_injective_iff.mpr injective (array.inj same)

theorem ofTable_injective {f : α → Json} (injective : Injective f) : Injective (ofTable f) := by
  intro s t same
  have pairs : Injective fun entry : String × α => (entry.1, f entry.2) := by
    intro a b equal
    obtain ⟨key, value⟩ := Prod.mk.inj equal
    exact Prod.ext key (injective value)
  exact Table.ext (List.map_injective_iff.mpr pairs (object.inj same))

end Json

theorem member_inj {name : String} {v w : Json} {members others : List (String × Json)} :
    (name, v) :: members = (name, w) :: others ↔ v = w ∧ members = others := by
  simp only [List.cons.injEq, Prod.mk.injEq, true_and]

theorem docMember_injective : Injective docMember := by
  intro a b same
  cases a <;> cases b <;> simp_all [docMember, textMember, optionalMember]

theorem docMember_natural (doc : Option String) : ∀ m ∈ docMember doc, m.2.Natural := by
  cases doc with
  | none => exact nofun
  | some text => exact List.forall_mem_singleton.mpr (.string text)

theorem Requirement.word_injective : Injective Requirement.word := fun r s same =>
  Option.some.inj (by rw [← ofWord?_word r, ← ofWord?_word s, same])

theorem ReferenceKind.word_injective : Injective ReferenceKind.word := by
  intro k l same
  cases k <;> cases l <;> first | rfl | simp [word] at same

theorem Format.word_injective : Injective Format.word := by
  intro f g same
  cases f <;> cases g <;> first | rfl | simp [word] at same

theorem EnumInfo.jsonMembers_injective : Injective EnumInfo.jsonMembers := by
  rintro ⟨n, cs, d⟩ ⟨m, cs', d'⟩ same
  obtain ⟨name, constants, doc⟩ := by
    simpa only [jsonMembers, List.cons_append, List.nil_append, member_inj, Json.string.injEq] using same
  rw [name, array_map_injective (fun _ _ => string.inj) constants, docMember_injective doc]

theorem Reference.jsonMembers_injective : Injective Reference.jsonMembers := by
  rintro ⟨k, n, d⟩ ⟨l, m, d'⟩ same
  obtain ⟨kind, name, doc⟩ := by
    simpa only [jsonMembers, List.cons_append, List.nil_append, member_inj, Json.string.injEq] using same
  rw [ReferenceKind.word_injective kind, name, docMember_injective doc]

namespace TypeInfo

mutual

theorem toJson_natural : ∀ t : TypeInfo, t.toJson.Natural
  | void | bool | i8 | i16 | i32 | i64 | double | string | binary => .object (by simp [kindMember, Natural.string])
  | struct ⟨name, fields, doc⟩ | exception ⟨name, fields, doc⟩ => by
    have declared := Natural.array (fieldsToJson_natural fields)
    simp only [toJson]
    apply Natural.object
    simpa [kindMember, Natural.string, declared] using docMember_natural doc
  | enum ⟨name, constants, doc⟩ => by
    have words := array_natural Natural.string constants
    apply Natural.object
    simpa [EnumInfo.jsonMembers, kindMember, strings, Natural.string, words] using docMember_natural doc
  | list element | set element => .object (by simp [kindMember, Natural.string, toJson_natural element])
  | map key value => .object (by simp [kindMember, Natural.string, toJson_natural key, toJson_natural value])
  | unresolved ⟨kind, name, doc⟩ => by
    apply Natural.object
    simpa [Reference.jsonMembers, kindMember, Natural.string] using docMember_natural doc

theorem fieldsToJson_natural : ∀ fields : List (FieldOf TypeInfo), ∀ v ∈ fieldsToJson fields, v.Natural
  | [] => nofun
  | ⟨name, requirement, type, doc⟩ :: fields => by
    simp only [fieldsToJson]
    refine List.forall_mem_cons.mpr ⟨.object ?_, fieldsToJson_natural fields⟩
    simpa [Natural.string, toJson_natural type] using docMember_natural doc

end

/-- What has a kind is told apart by the kind first, then by the other members. -/
theorem kind_inj {kind other : String} {members others : List (String × Json)} :
    object (kindMember kind :: members) = object (kindMember other :: others) ↔ kind = other ∧ members = others := by
  simp only [kindMember, object.injEq, List.cons.injEq, Prod.mk.injEq, true_and, Json.string.injEq]

mutual

theorem eq_of_toJson : ∀ {t u : TypeInfo}, t.toJson = u.toJson → t = u
  | struct ⟨n, fs, d⟩, u, same => by
    cases u <;> simp only [toJson, kind_inj, String.reduceEq, false_and] at same
    obtain ⟨name, fields, doc⟩ := by simpa only [member_inj, Json.string.injEq, array.injEq] using same.2
    rw [name, eq_of_fieldsToJson fields, docMember_injective doc]
  | exception ⟨n, fs, d⟩, u, same => by
    cases u <;> simp only [toJson, kind_inj, String.reduceEq, false_and] at same
    obtain ⟨name, fields, doc⟩ := by simpa only [member_inj, Json.string.injEq, array.injEq] using same.2
    rw [name, eq_of_fieldsToJson fields, docMember_injective doc]
  | enum e, u, same => by
    cases u <;> simp only [toJson, kind_inj, String.reduceEq, false_and] at same
    rw [EnumInfo.jsonMembers_injective same.2]
  | list e, u, same => by
    cases u <;> simp only [toJson, kind_inj, String.reduceEq, false_and] at same
    rw [eq_of_toJson (member_inj.mp same.2).1]
  | set e, u, same => by
    cases u <;> simp only [toJson, kind_inj, String.reduceEq, false_and] at same
    rw [eq_of_toJson (member_inj.mp same.2).1]
  | map k v, u, same => by
    cases u <;> simp only [toJson, kind_inj, String.reduceEq, false_and] at same
    obtain ⟨key, value, -⟩ := by simpa only [member_inj] using same.2
    rw [eq_of_toJson key, eq_of_toJson value]
  | unresolved r, u, same => by
    cases u <;> simp only [toJson, kind_inj, String.reduceEq, false_and] at same
    rw [Reference.jsonMembers_injective same.2]
  | void, u, same | bool, u, same | i8, u, same | i16, u, same | i32, u, same | i64, u, same | double, u, same
  | string, u, same | binary, u, same => by
    cases u <;> first | rfl | simp only [toJson, kind_inj, String.reduceEq, false_and] at same

theorem eq_of_fieldsToJson : ∀ {fs gs : List (FieldOf TypeInfo)}, fieldsToJson fs = fieldsToJson gs → fs = gs
  | [], [], _ => rfl
  | ⟨n, r, t, d⟩ :: fs, ⟨m, s, u, e⟩ :: gs, same => by
    obtain ⟨first, rest⟩ := List.cons.inj same
    obtain ⟨name, requirement, type, doc⟩ := by simpa only [object.injEq, member_inj, Json.string.injEq] using first
    rw [name, Requirement.word_injective requirement, eq_of_toJson type, docMember_injective doc,
      eq_of_fieldsToJson rest]
  | [], _ :: _, same | _ :: _, [], same => nomatch same

end

end TypeInfo

namespace RecordOf

theorem toJson_natural (r : RecordInfo) : r.toJson.Natural := by
  have fields := Natural.array (TypeInfo.fieldsToJson_natural r.fields)
  apply Natural.object
  simpa [Natural.string, fields] using docMember_natural r.doc

theorem toJson_injective : Injective (toJson : RecordInfo → Json) := by
  rintro ⟨n, fs, d⟩ ⟨m, gs, e⟩ same
  obtain ⟨name, fields, doc⟩ := by
    simpa only [toJson, object.injEq, member_inj, Json.string.injEq, array.injEq] using same
  rw [name, TypeInfo.eq_of_fieldsToJson fields, docMember_injective doc]

end RecordOf

theorem ClassInfo.toJson_natural (c : ClassInfo) : c.toJson.Natural := c.toType.toJson_natural

theorem ClassInfo.toJson_injective : Injective ClassInfo.toJson := fun _ _ same =>
  toType_injective (TypeInfo.eq_of_toJson same)

namespace Endpoint

theorem toJson_natural (e : Endpoint) : e.toJson.Natural := by
  have formats := array_natural (fun f : Format => Natural.string f.word) e.allowedFormats
  apply Natural.object
  simp [Natural.string, formats]

theorem toJson_injective : Injective toJson := by
  rintro ⟨h, p, n, f, fs⟩ ⟨i, q, m, g, gs⟩ same
  obtain ⟨host, path, service, format, allowed, -⟩ := by
    simpa only [toJson, object.injEq, member_inj, Json.string.injEq] using same
  have words : Injective fun f : Format => string f.word := fun _ _ same =>
    Format.word_injective (string.inj same)
  rw [host, path, service, Format.word_injective format, array_map_injective words allowed]

end Endpoint

namespace FunctionInfo

theorem toJson_natural (f : FunctionInfo) : f.toJson.Natural := by
  have parameters := Natural.array (TypeInfo.fieldsToJson_natural f.parameters)
  have exceptions := array_natural RecordOf.toJson_natural f.exceptions
  apply Natural.object
  simpa [Natural.string, f.returnType.toJson_natural, parameters, exceptions] using docMember_natural f.doc

theorem toJson_injective : Injective toJson := by
  rintro ⟨n, t, ps, es, r, d⟩ ⟨m, u, ps', es', r', d'⟩ same
  obtain ⟨name, returns, parameters, exceptions, request, doc⟩ := by
    simpa only [toJson, object.injEq, List.cons_append, List.nil_append, member_inj, Json.string.injEq,
      array.injEq] using same
  have thrown := List.map_injective_iff.mpr RecordOf.toJson_injective exceptions
  rw [name, TypeInfo.eq_of_toJson returns, TypeInfo.eq_of_fieldsToJson parameters, thrown, request,
    docMember_injective doc]

end FunctionInfo

namespace ServiceInfo

theorem toJson_natural (s : ServiceInfo) : s.toJson.Natural := by
  have functions := table_natural FunctionInfo.toJson_natural s.functions
  have classes := table_natural ClassInfo.toJson_natural s.classes
  have endpoints := array_natural Endpoint.toJson_natural s.endpoints
  have headers := array_natural (table_natural Natural.string) s.exampleHeaders
  apply Natural.object
  simpa [Natural.string, functions, classes, endpoints, headers, or_imp, forall_and] using docMember_natural s.doc

/-- A doc that is left out is told apart from one that is empty, although the headers come after it. -/
theorem toJson_injective : Injective toJson := by
  rintro ⟨n, fs, cs, es, d, hs⟩ ⟨m, gs, cs', es', d', hs'⟩ same
  obtain ⟨before, after⟩ := List.append_inj' (object.inj same) rfl
  obtain ⟨name, functions, classes, endpoints, doc⟩ := by
    simpa only [List.cons_append, List.nil_append, member_inj, Json.string.injEq] using before
  have headers : hs = hs' := array_map_injective (ofTable_injective fun _ _ => string.inj) (member_inj.mp after).1
  rw [name, ofTable_injective FunctionInfo.toJson_injective functions,
    ofTable_injective ClassInfo.toJson_injective classes, array_map_injective Endpoint.toJson_injective endpoints,
    docMember_injective doc, headers]

end ServiceInfo

namespace Specification

theorem toJson_natural (s : Specification) : s.toJson.Natural := by
  have services := table_natural ServiceInfo.toJson_natural s.services
  have classes := table_natural ClassInfo.toJson_natural s.classes
  apply Natural.object
  simp [services, classes]

theorem toJson_injective : Injective toJson := by
  rintro ⟨ss, cs⟩ ⟨ts, ds⟩ same
  obtain ⟨services, classes, -⟩ := by simpa only [toJson, object.injEq, member_inj] using same
  rw [ofTable_injective ServiceInfo.toJson_injective services, ofTable_injective ClassInfo.toJson_injective classes]

/-- Two specifications with the same compact text are equal. -/
theorem compact_injective : Injective fun s : Specification => s.toJson.compact := fun s t same =>
  toJson_injective (s.toJson_natural.eq_of_compact t.toJson_natural same)

end Specification

end ThriftCatalog
