import ThriftCatalog.Table.Basic
import ThriftCatalog.Model.ClassInfo

/-! Services: functions, the endpoints that serve them, and the specification that holds every service. -/
namespace ThriftCatalog

/-- The encodings in which an endpoint can speak, in their order of listing. -/
inductive Format where
  | binary | compact | json | text
deriving DecidableEq, Repr

namespace Format

def word : Format → String
  | binary => "tbinary"
  | compact => "tcompact"
  | json => "tjson"
  | text => "ttext"

def all : List Format := [binary, compact, json, text]

def ofWord? (w : String) : Option Format := all.find? (·.word = w)

/-- The formats of a list in their order of listing, each once. -/
def ordered (formats : List Format) : List Format := all.filter (formats.contains ·)

end Format

/-- A set of header names with example values. -/
abbrev Headers := Table String

structure Endpoint where
  hostPattern : String
  path : String
  /-- The name within a multiplexed endpoint; empty for the default entry. -/
  serviceName : String
  defaultFormat : Format
  allowedFormats : List Format
deriving DecidableEq, Repr

/-- Endpoints are listed by path, then by service name. -/
def Endpoint.precedes (a b : Endpoint) : Bool :=
  a.path < b.path || (a.path == b.path && decide (a.serviceName ≤ b.serviceName))

structure FunctionInfo where
  name : String
  returnType : TypeInfo
  parameters : List FieldInfo
  exceptions : List RecordInfo
  /-- The encoded example request; empty when there is none. -/
  sampleRequest : String
  doc : Option String
deriving DecidableEq

/-- The classes of the return type, then of the parameters, then of the exceptions. -/
def FunctionInfo.classes (f : FunctionInfo) : List ClassInfo :=
  f.returnType.classes ++ TypeInfo.classesOfFields f.parameters ++
    f.exceptions.flatMap fun e => (TypeInfo.exception e).classes

structure ServiceInfo where
  name : String
  functions : Table FunctionInfo
  classes : Table ClassInfo
  endpoints : List Endpoint
  doc : Option String
  exampleHeaders : List Headers
deriving DecidableEq

structure Specification where
  services : Table ServiceInfo
  classes : Table ClassInfo
deriving DecidableEq

end ThriftCatalog
