import ThriftCatalog.CommandLine.Report
import ThriftCatalog.Generation.Basic
import ThriftCatalog.Json.Member
import ThriftCatalog.Registry.Lowering

/-! What the commands tell of a registry: a summary of its services, and whether all of them can be built. -/
namespace ThriftCatalog

open Json

def FunctionInfo.summary (f : FunctionInfo) (oneway : Bool) : Json :=
  object [("name", string f.name),
    ("params", strings (f.parameters.map fun p => p.name ++ ": " ++ p.type.signature)),
    ("returns", string f.returnType.signature), ("oneway", Json.bool oneway),
    ("throws", strings (f.exceptions.map (·.name)))]

namespace Registry

def resolver (r : Registry) : Resolver :=
  ⟨r.provider, r.definitions.docs, Resolver.defaultMaxDepth⟩

def methodSummary (r : Registry) (service : String) (m : MethodDescriptor) : Except Report Json :=
  match r.resolver.function service {} m with
  | .ok f => .ok (f.summary m.isOneway)
  | .error e => .error (.ofGenerationError e)

def serviceSummary (r : Registry) (service : String) : Except Report Json := do
  let methods ← (r.methods service).mapError Report.ofLookupError
  let functions ← methods.mapM (r.methodSummary service)
  return object [("name", string service), ("functions", array functions)]

def summary (r : Registry) : Except Report Json := do
  let services ← r.serviceNames.mapM r.serviceSummary
  return object [("services", array services), ("types", ofNat r.definitions.typeCount)]

def wholeInput (r : Registry) : GenerationInput where
  bindings := [{
    hostPattern := "*", route := .under "/", defaultFormat := .binary, allowedFormats := Format.all
    entries := (∅ : Table (List String)).insert "" r.serviceNames }]

def buildAll (r : Registry) : Except GenerationError Outcome :=
  r.provider.generate r.wholeInput none { failFast := true }

end Registry

end ThriftCatalog
