import ThriftCatalog.Requirement
import ThriftCatalog.Table.Basic

/-! Registry files: what one file says about a namespace, before any type expression in it is read. -/
namespace ThriftCatalog

structure FieldDef where
  name : String
  /-- The text of a type expression. -/
  type : String
  requirement : Requirement := .default
  doc : Option String := none
deriving DecidableEq, Repr

structure MethodDef where
  name : String
  doc : Option String := none
  params : List FieldDef := []
  /-- The text of a type expression; without it nothing is returned. -/
  returns : Option String := none
  throws : List FieldDef := []
  oneway : Bool := false
deriving DecidableEq, Repr

structure ServiceDef where
  doc : Option String := none
  methods : List MethodDef := []
deriving DecidableEq, Repr

/-- A struct or a union. -/
structure StructDef where
  doc : Option String := none
  fields : List FieldDef := []
deriving DecidableEq, Repr

structure EnumDef where
  doc : Option String := none
  constants : List String := []
deriving DecidableEq, Repr

structure ExceptionDef where
  doc : Option String := none
  /-- Absent where nothing is known of the fields. -/
  fields : Option (List FieldDef) := none
deriving DecidableEq, Repr

/-- The definitions of one file. Names without a dot belong to its namespace. -/
structure RegistryFile where
  version : Nat := 1
  namespaceName : String := ""
  services : Table ServiceDef := ∅
  structs : Table StructDef := ∅
  unions : Table StructDef := ∅
  enums : Table EnumDef := ∅
  exceptions : Table ExceptionDef := ∅
  /-- Type expressions by the name that stands for them. -/
  typedefs : Table String := ∅
  /-- Further docs, under the keys by which they are looked up. -/
  docstrings : Table String := ∅
deriving DecidableEq, Repr

def RegistryFile.supportedVersion : Nat := 1

end ThriftCatalog
