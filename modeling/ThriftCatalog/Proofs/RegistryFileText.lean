import ThriftCatalog.Proofs.JsonReading
import ThriftCatalog.RegistryFile.Text
import ThriftCatalog.RegistryFile.Writer

/-! A registry file is read back from its compact JSON text, with all of its tables in order. -/
namespace ThriftCatalog

open Document Document.Reader Document.Members Json

attribute [local simp] Json.members List.lookup_append List.lookup_cons lookup_optionalMember

namespace FieldDef

theorem within (f : FieldDef) : Within ["name", "type", "requirement", "doc"] f.toJson.members := by
  have name := Within.single "name" (.string f.name)
  have type := Within.single "type" (.string f.type)
  have requirement := Within.single "requirement" (.string f.requirement.word)
  exact name.append (type.append (requirement.append (.text "doc" f.doc)))

theorem reads : Reads reader toJson 1 := by
  apply Reads.record (by decide) within fun _ => rfl
  intro f room enough
  have name : (ofObject f.toJson.members room).required "name" string = pure f.name :=
    required_reads string_reads enough (by simp [toJson])
  have type : (ofObject f.toJson.members room).required "type" string = pure f.type :=
    required_reads string_reads enough (by simp [toJson])
  have requirement : (ofObject f.toJson.members room).defaulted "requirement" .default
      (Reader.word Requirement.ofWord?) = pure f.requirement :=
    defaulted_reads (word_reads Requirement.ofWord?_word) enough False.elim (by simp [toJson])
  have doc : (ofObject f.toJson.members room).optional "doc" string = pure f.doc :=
    optional_reads string_reads nofun enough (by simp [toJson])
  simp only [name, type, requirement, doc, pure_bind]

end FieldDef

namespace MethodDef

theorem within (m : MethodDef) :
    Within ["name", "doc", "params", "returns", "throws", "oneway"] m.toJson.members := by
  have name := Within.single "name" (.string m.name)
  have doc := name.append (.text "doc" m.doc)
  have params := doc.append (.list "params" FieldDef.toJson m.params)
  have returns := params.append (.text "returns" m.returns)
  have throws := returns.append (.list "throws" FieldDef.toJson m.throws)
  exact throws.append (.single "oneway" (.bool m.oneway))

theorem reads : Reads reader toJson 3 := by
  apply Reads.record (by decide) within fun _ => rfl
  intro m room enough
  have name : (ofObject m.toJson.members room).required "name" string = pure m.name :=
    required_reads string_reads (Nat.zero_le room) (by simp [toJson])
  have doc : (ofObject m.toJson.members room).optional "doc" string = pure m.doc :=
    optional_reads string_reads nofun (Nat.zero_le room) (by simp [toJson])
  have params : (ofObject m.toJson.members room).defaulted "params" [] (list FieldDef.reader) = pure m.params :=
    defaulted_reads FieldDef.reads.list enough id (by simp [toJson])
  have returns : (ofObject m.toJson.members room).optional "returns" string = pure m.returns :=
    optional_reads string_reads nofun (Nat.zero_le room) (by simp [toJson])
  have throws : (ofObject m.toJson.members room).defaulted "throws" [] (list FieldDef.reader) = pure m.throws :=
    defaulted_reads FieldDef.reads.list enough id (by simp [toJson])
  have oneway : (ofObject m.toJson.members room).defaulted "oneway" false bool = pure m.oneway :=
    defaulted_reads bool_reads (Nat.zero_le room) False.elim (by simp [toJson])
  simp only [name, doc, params, returns, throws, oneway, pure_bind]

end MethodDef

namespace ServiceDef

theorem within (s : ServiceDef) : Within ["doc", "methods"] s.toJson.members :=
  (Within.text "doc" s.doc).append (.list "methods" MethodDef.toJson s.methods)

theorem reads : Reads reader toJson 5 := by
  apply Reads.record (by decide) within fun _ => rfl
  intro s room enough
  have doc : (ofObject s.toJson.members room).optional "doc" string = pure s.doc :=
    optional_reads string_reads nofun (Nat.zero_le room) (by simp [toJson])
  have methods : (ofObject s.toJson.members room).defaulted "methods" [] (list MethodDef.reader) = pure s.methods :=
    defaulted_reads MethodDef.reads.list enough id (by simp [toJson])
  simp only [doc, methods, pure_bind]

end ServiceDef

namespace StructDef

theorem within (s : StructDef) : Within ["doc", "fields"] s.toJson.members :=
  (Within.text "doc" s.doc).append (.list "fields" FieldDef.toJson s.fields)

theorem reads : Reads reader toJson 3 := by
  apply Reads.record (by decide) within fun _ => rfl
  intro s room enough
  have doc : (ofObject s.toJson.members room).optional "doc" string = pure s.doc :=
    optional_reads string_reads nofun (Nat.zero_le room) (by simp [toJson])
  have fields : (ofObject s.toJson.members room).defaulted "fields" [] (list FieldDef.reader) = pure s.fields :=
    defaulted_reads FieldDef.reads.list enough id (by simp [toJson])
  simp only [doc, fields, pure_bind]

end StructDef

namespace EnumDef

theorem within (e : EnumDef) : Within ["doc", "constants"] e.toJson.members :=
  (Within.text "doc" e.doc).append (.single "constants" (strings e.constants))

theorem reads : Reads reader toJson 2 := by
  apply Reads.record (by decide) within fun _ => rfl
  intro e room enough
  have doc : (ofObject e.toJson.members room).optional "doc" string = pure e.doc :=
    optional_reads string_reads nofun (Nat.zero_le room) (by simp [toJson])
  have constants : (ofObject e.toJson.members room).defaulted "constants" [] (list string) = pure e.constants :=
    defaulted_reads string_reads.list enough False.elim (by simp [toJson, strings])
  simp only [doc, constants, pure_bind]

end EnumDef

namespace ExceptionDef

theorem within (e : ExceptionDef) : Within ["doc", "fields"] e.toJson.members :=
  (Within.text "doc" e.doc).append (.optional "fields" _)

/-- Fields that are known but empty are written, so they stay apart from fields that are not known. -/
theorem reads : Reads reader toJson 3 := by
  apply Reads.record (by decide) within fun _ => rfl
  intro e room enough
  have doc : (ofObject e.toJson.members room).optional "doc" string = pure e.doc :=
    optional_reads string_reads nofun (Nat.zero_le room) (by simp [toJson])
  have fields : (ofObject e.toJson.members room).optional "fields" (list FieldDef.reader) = pure e.fields :=
    optional_reads FieldDef.reads.list nofun enough (by simp [toJson])
  simp only [doc, fields, pure_bind]

end ExceptionDef

namespace RegistryFile

theorem within (f : RegistryFile) : Within ["version", "namespace", "services", "structs", "unions", "enums",
    "exceptions", "typedefs", "docstrings"] f.toJson.members := by
  have version := Within.single "version" (.ofNat f.version)
  have named := version.append (.single "namespace" (.string f.namespaceName))
  have services := named.append (.table "services" ServiceDef.toJson f.services)
  have structs := services.append (.table "structs" StructDef.toJson f.structs)
  have unions := structs.append (.table "unions" StructDef.toJson f.unions)
  have enums := unions.append (.table "enums" EnumDef.toJson f.enums)
  have exceptions := enums.append (.table "exceptions" ExceptionDef.toJson f.exceptions)
  have typedefs := exceptions.append (.table "typedefs" Json.string f.typedefs)
  exact typedefs.append (.table "docstrings" Json.string f.docstrings)

/-- A table that is left out is empty. -/
theorem table_reads {α : Type} {r : Reader α} {write : α → Json} {depth room : Nat} {name : String} {t : Table α}
    {members : List (String × Json)} (reads : Reads r write depth) (enough : depth + 1 ≤ room)
    (written : members.lookup name = if t.entries = [] then none else some (ofTable write t)) :
    (ofObject members room).defaulted name ∅ (table r) = pure t :=
  defaulted_reads reads.table enough (fun empty : t.entries = [] => Table.ext empty) written

/-- A file with a version of at most 32 bits is read back wherever seven collections may be nested. -/
theorem reader_toJson (f : RegistryFile) (bounded : f.version ≤ 0xFFFFFFFF) {room : Nat} (enough : 7 ≤ room) :
    reader room f.toJson.toNode = pure f := by
  obtain ⟨room, rfl⟩ : ∃ k, room = k + 1 := ⟨room - 1, by omega⟩
  have read : reader (room + 1) f.toJson.toNode = _ := record_reads (by decide) f.within _
  have version : (ofObject f.toJson.members room).defaulted "version" supportedVersion (nat 0xFFFFFFFF) =
      pure f.version := by
    have fits : (f.version : Int) ≤ maxInteger := by
      have : (0xFFFFFFFF : Int) ≤ maxInteger := by decide
      omega
    have written : f.toJson.members.lookup "version" = some (.ofNat f.version) := by simp [toJson]
    rw [defaulted, lookup_ofObject, written]
    exact nat_reads room bounded fits
  have namespaceName : (ofObject f.toJson.members room).defaulted "namespace" "" string = pure f.namespaceName :=
    defaulted_reads string_reads (Nat.zero_le room) False.elim (by simp [toJson])
  have services : (ofObject f.toJson.members room).defaulted "services" ∅ (table ServiceDef.reader) =
      pure f.services := table_reads ServiceDef.reads (by omega) (by simp [toJson])
  have structs : (ofObject f.toJson.members room).defaulted "structs" ∅ (table StructDef.reader) =
      pure f.structs := table_reads StructDef.reads (by omega) (by simp [toJson])
  have unions : (ofObject f.toJson.members room).defaulted "unions" ∅ (table StructDef.reader) =
      pure f.unions := table_reads StructDef.reads (by omega) (by simp [toJson])
  have enums : (ofObject f.toJson.members room).defaulted "enums" ∅ (table EnumDef.reader) =
      pure f.enums := table_reads EnumDef.reads (by omega) (by simp [toJson])
  have exceptions : (ofObject f.toJson.members room).defaulted "exceptions" ∅ (table ExceptionDef.reader) =
      pure f.exceptions := table_reads ExceptionDef.reads (by omega) (by simp [toJson])
  have typedefs : (ofObject f.toJson.members room).defaulted "typedefs" ∅ (table string) =
      pure f.typedefs := table_reads string_reads (by omega) (by simp [toJson])
  have docstrings : (ofObject f.toJson.members room).defaulted "docstrings" ∅ (table string) =
      pure f.docstrings := table_reads string_reads (by omega) (by simp [toJson])
  rw [read]
  simp only [version, namespaceName, services, structs, unions, enums, exceptions, typedefs, docstrings, pure_bind]

theorem parse?_compact {f : RegistryFile} (bounded : f.version ≤ 0xFFFFFFFF) :
    Document.parse? .json reader f.toJson.compact = some f := by
  have read : readJson? reader f.toJson.toNode = some f := by
    rw [readJson?, f.reader_toJson bounded (by decide)]
    rfl
  rw [Document.parse?, Json.ofJson?_compact f.toJson]
  exact read

theorem version_of_parse {language : Language} {text : String} {f : RegistryFile}
    (parsed : parse language text = .ok f) : f.version = supportedVersion := by
  unfold parse at parsed
  split at parsed
  · contradiction
  · split at parsed
    · cases parsed
      assumption
    · contradiction

/-- Exactly the files with the supported version are read back from what is written for them. -/
theorem parse_compact_iff (f : RegistryFile) :
    parse .json f.toJson.compact = .ok f ↔ f.version = supportedVersion := by
  refine ⟨version_of_parse, fun supported => ?_⟩
  have bounded : f.version ≤ 0xFFFFFFFF := by
    rw [supported]
    decide
  rw [parse, parse?_compact bounded]
  exact if_pos supported

end RegistryFile

end ThriftCatalog
