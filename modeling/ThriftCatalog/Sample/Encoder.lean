import ThriftCatalog.Json.Printer
import ThriftCatalog.Sample.Conformance

/-! Encoding sample requests. A request is an object of arguments by parameter name; parameters may be left out. -/
namespace ThriftCatalog

namespace Sample

inductive Cause where
  | notObject
  | unknownParameter (name : String)
  | mismatch (name : String) (type : TypeInfo)
deriving DecidableEq

def Cause.message : Cause → String
  | notObject => "sample request must be an object"
  | unknownParameter name => "unknown parameter '" ++ name ++ "'"
  | mismatch name type => "parameter '" ++ name ++ "' does not match " ++ type.signature

/-- A request that cannot be encoded. Encoders give what reasons they like, so the reason is a text. -/
structure Failure where
  function : String
  reason : String
deriving DecidableEq

def Failure.message (e : Failure) : String :=
  "cannot encode sample for " ++ e.function ++ ": " ++ e.reason

abbrev Encoder := String → List FieldInfo → Json → Except Failure String

def parameter? (parameters : List FieldInfo) (name : String) : Option FieldInfo :=
  parameters.find? (·.name = name)

def checkArgument (parameters : List FieldInfo) (name : String) (v : Json) : Except Cause Unit :=
  match parameter? parameters name with
  | none => .error (.unknownParameter name)
  | some p => if conforms p.type v then .ok () else .error (.mismatch name p.type)

def check (parameters : List FieldInfo) : Json → Except Cause Unit
  | .object members => members.forM fun m => checkArgument parameters m.1 m.2
  | _ => .error .notObject

/-- The compact JSON text of a request that fits the parameters. -/
def jsonEncoder : Encoder := fun function parameters v =>
  match check parameters v with
  | .ok () => .ok v.compact
  | .error cause => .error ⟨function, cause.message⟩

end Sample

/-- Sample requests by argument struct, and how to encode them. Without an encoder none are shown. -/
structure Samples where
  requests : Table Json := ∅
  encoder : Option Sample.Encoder := none

/-- The encoded sample of a function; empty if there is none. -/
def Samples.encode (s : Samples) (argsType function : String) (parameters : List FieldInfo) :
    Except Sample.Failure String :=
  match s.requests.get? argsType, s.encoder with
  | some request, some encoder => encoder function parameters request
  | _, _ => .ok ""

end ThriftCatalog
