import ThriftCatalog.Generation.Binding
import ThriftCatalog.Generation.Service

/-! Generating the specification of all services that are bound somewhere. A service that fails is left out, or ends
the run where it must not. -/
namespace ThriftCatalog

structure GenerationInput where
  bindings : List Binding := []
  exampleHeaders : Table (List Headers) := ∅
  sampleRequests : Table Json := ∅

structure GenerationOptions where
  /-- End with the first failure. -/
  failFast : Bool := false
  maxDepth : Nat := Resolver.defaultMaxDepth
deriving DecidableEq, Repr

structure Outcome where
  specification : Specification
  failures : List Failure

namespace Generation

structure Progress where
  services : Table ServiceInfo := ∅
  failures : List Failure := []

def Progress.add (p : Provider) (samples : Samples) (options : GenerationOptions) (progress : Progress)
    (entry : String × ServiceEntry) : Except GenerationError Progress :=
  match p.service entry.1 entry.2.endpoints entry.2.exampleHeaders samples options.maxDepth with
  | .ok service => .ok { progress with services := progress.services.insert entry.1 service }
  | .error e =>
    if options.failFast then .error e
    else .ok { progress with failures := progress.failures ++ [⟨entry.1, e⟩] }

def unionClasses (services : List ServiceInfo) : Except GenerationError ClassSet :=
  services.foldlM (fun classes service =>
    match classes.merge service.classes with
    | (_, some name) => .error (.conflict name)
    | (classes, none) => .ok classes) ∅

end Generation

open Generation in
/-- Builds every service of the input. Failures are listed with those of grouping first; services and classes are
in ascending order of names. -/
def Provider.generate (p : Provider) (input : GenerationInput) (encoder : Option Sample.Encoder)
    (options : GenerationOptions) : Except GenerationError Outcome := do
  let grouping := p.group input.bindings input.exampleHeaders
  match options.failFast, grouping.failures with
  | true, failure :: _ => throw failure.error
  | _, _ =>
    let samples : Samples := ⟨input.sampleRequests, encoder⟩
    let progress ← grouping.entries.entries.foldlM (Progress.add p samples options) {}
    let services := progress.services.sorted
    let classes ← unionClasses services.values
    return ⟨⟨services, classes.sorted⟩, grouping.failures ++ progress.failures⟩

end ThriftCatalog
