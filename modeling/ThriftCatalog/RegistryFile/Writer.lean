import ThriftCatalog.RegistryFile.Basic
import ThriftCatalog.Json.Member

/-! The JSON form of registry files. What is absent or empty is left out, except for requirements, the oneway mark,
the constants of enums, and the known but empty fields of an exception. -/
namespace ThriftCatalog

open Json

def FieldDef.toJson (f : FieldDef) : Json :=
  object <|
    [("name", string f.name), ("type", string f.type), ("requirement", string f.requirement.word)] ++
      textMember "doc" f.doc

def MethodDef.toJson (m : MethodDef) : Json :=
  object <|
    [("name", string m.name)] ++ textMember "doc" m.doc ++ listMember "params" FieldDef.toJson m.params ++
      textMember "returns" m.returns ++ listMember "throws" FieldDef.toJson m.throws ++
      [("oneway", bool m.oneway)]

def ServiceDef.toJson (s : ServiceDef) : Json :=
  object <| textMember "doc" s.doc ++ listMember "methods" MethodDef.toJson s.methods

def StructDef.toJson (s : StructDef) : Json :=
  object <| textMember "doc" s.doc ++ listMember "fields" FieldDef.toJson s.fields

def EnumDef.toJson (e : EnumDef) : Json :=
  object <| textMember "doc" e.doc ++ [("constants", strings e.constants)]

def ExceptionDef.toJson (e : ExceptionDef) : Json :=
  object <| textMember "doc" e.doc ++
    optionalMember "fields" (e.fields.map fun fs => array (fs.map FieldDef.toJson))

def RegistryFile.toJson (f : RegistryFile) : Json :=
  object <|
    [("version", ofNat f.version), ("namespace", string f.namespaceName)] ++
      tableMember "services" ServiceDef.toJson f.services ++
      tableMember "structs" StructDef.toJson f.structs ++
      tableMember "unions" StructDef.toJson f.unions ++
      tableMember "enums" EnumDef.toJson f.enums ++
      tableMember "exceptions" ExceptionDef.toJson f.exceptions ++
      tableMember "typedefs" string f.typedefs ++
      tableMember "docstrings" string f.docstrings

end ThriftCatalog
