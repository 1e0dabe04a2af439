import ThriftCatalog.Model.TypeInfo

/-! Classes: the named types of a tree. `TypeInfo.classes` lists those that occur in a tree, parts before wholes. -/
namespace ThriftCatalog

/-- A struct, enum or exception as a thing of its own. -/
inductive ClassInfo where
  | struct (record : RecordInfo)
  | enum (info : EnumInfo)
  | exception (record : RecordInfo)
deriving DecidableEq

namespace ClassInfo

def name : ClassInfo → String
  | struct r | exception r => r.name
  | enum e => e.name

def doc : ClassInfo → Option String
  | struct r | exception r => r.doc
  | enum e => e.doc

/-- The declared fields; an enum has none. -/
def fields : ClassInfo → List FieldInfo
  | struct r | exception r => r.fields
  | enum _ => []

def kind : ClassInfo → String
  | struct _ => "struct"
  | enum _ => "enum"
  | exception _ => "exception"

def toType : ClassInfo → TypeInfo
  | struct r => .struct r
  | enum e => .enum e
  | exception r => .exception r

end ClassInfo

namespace TypeInfo

/-- The class that a type is, if it is one. -/
def asClass? : TypeInfo → Option ClassInfo
  | struct r => some (.struct r)
  | enum e => some (.enum e)
  | exception r => some (.exception r)
  | _ => none

theorem asClass?_toType (c : ClassInfo) : c.toType.asClass? = some c := by
  cases c <;> rfl

mutual

/-- The classes in a tree. A class stands after everything in its fields. -/
def classes : TypeInfo → List ClassInfo
  | struct ⟨n, fs, d⟩ => classesOfFields fs ++ [.struct ⟨n, fs, d⟩]
  | exception ⟨n, fs, d⟩ => classesOfFields fs ++ [.exception ⟨n, fs, d⟩]
  | enum e => [.enum e]
  | list e | set e => classes e
  | map k v => classes k ++ classes v
  | _ => []

def classesOfFields : List (FieldOf TypeInfo) → List ClassInfo
  | [] => []
  | ⟨_, _, t, _⟩ :: fs => classes t ++ classesOfFields fs

end

end TypeInfo

end ThriftCatalog
