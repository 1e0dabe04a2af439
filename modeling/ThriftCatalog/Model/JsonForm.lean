import ThriftCatalog.Json.Member
import ThriftCatalog.Model.Service

/-! The JSON form of specifications. Every type and class carries its kind in a member named `type`; docs are left out
where there are none. -/
namespace ThriftCatalog

open Json

def docMember (doc : Option String) : List (String × Json) :=
  textMember "doc_string" doc

def kindMember (kind : String) : String × Json := ("type", string kind)

namespace EnumInfo

def jsonMembers (e : EnumInfo) : List (String × Json) :=
  [("name", string e.name), ("constants", strings e.constants)] ++ docMember e.doc

def toJson (e : EnumInfo) : Json := object e.jsonMembers

end EnumInfo

def Reference.jsonMembers (u : Reference) : List (String × Json) :=
  [("kind", string u.kind.word), ("name", string u.name)] ++ docMember u.doc

namespace TypeInfo

mutual

def toJson : TypeInfo → Json
  | void => object [kindMember "void"]
  | bool => object [kindMember "bool"]
  | i8 => object [kindMember "i8"]
  | i16 => object [kindMember "i16"]
  | i32 => object [kindMember "i32"]
  | i64 => object [kindMember "i64"]
  | double => object [kindMember "double"]
  | string => object [kindMember "string"]
  | binary => object [kindMember "binary"]
  | struct ⟨name, fields, doc⟩ =>
    object <| kindMember "struct" :: ("name", .string name) ::
      ("fields", array (fieldsToJson fields)) :: docMember doc
  | exception ⟨name, fields, doc⟩ =>
    object <| kindMember "exception" :: ("name", .string name) ::
      ("fields", array (fieldsToJson fields)) :: docMember doc
  | enum e => object (kindMember "enum" :: e.jsonMembers)
  | list element => object [kindMember "list", ("element", toJson element)]
  | set element => object [kindMember "set", ("element", toJson element)]
  | map key value => object [kindMember "map", ("key", toJson key), ("value", toJson value)]
  | unresolved u => object (kindMember "unresolved" :: u.jsonMembers)

def fieldsToJson : List (FieldOf TypeInfo) → List Json
  | [] => []
  | ⟨name, requirement, type, doc⟩ :: fields =>
    object (("name", .string name) :: ("requirement", .string requirement.word) ::
      ("type_info", toJson type) :: docMember doc) :: fieldsToJson fields

end

end TypeInfo

def FieldOf.toJson (f : FieldInfo) : Json :=
  object (("name", string f.name) :: ("requirement", string f.requirement.word) ::
    ("type_info", f.type.toJson) :: docMember f.doc)

def RecordOf.toJson (r : RecordInfo) : Json :=
  object (("name", string r.name) :: ("fields", array (TypeInfo.fieldsToJson r.fields)) ::
    docMember r.doc)

def ClassInfo.toJson (c : ClassInfo) : Json := c.toType.toJson

def Endpoint.toJson (e : Endpoint) : Json :=
  object [("host_pattern", string e.hostPattern), ("path", string e.path),
    ("service_name", string e.serviceName), ("default_format", string e.defaultFormat.word),
    ("allowed_formats", array (e.allowedFormats.map fun f => string f.word))]

def FunctionInfo.toJson (f : FunctionInfo) : Json :=
  object <|
    [("name", string f.name), ("return_type_info", f.returnType.toJson),
      ("parameters", array (TypeInfo.fieldsToJson f.parameters)),
      ("exceptions", array (f.exceptions.map RecordOf.toJson)),
      ("sample_request", string f.sampleRequest)] ++ docMember f.doc

def ServiceInfo.toJson (s : ServiceInfo) : Json :=
  object <|
    [("name", string s.name), ("functions", ofTable FunctionInfo.toJson s.functions),
      ("classes", ofTable ClassInfo.toJson s.classes),
      ("endpoints", array (s.endpoints.map Endpoint.toJson))] ++ docMember s.doc ++
      [("example_headers", array (s.exampleHeaders.map (ofTable string)))]

def Specification.toJson (s : Specification) : Json :=
  object [("services", ofTable ServiceInfo.toJson s.services),
    ("classes", ofTable ClassInfo.toJson s.classes)]

end ThriftCatalog
