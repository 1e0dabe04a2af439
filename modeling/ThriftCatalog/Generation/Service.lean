import ThriftCatalog.ClassSet
import ThriftCatalog.Generation.Resolver

/-! Building the functions of a service, and the service around them. -/
namespace ThriftCatalog

def Resolver.function (r : Resolver) (service : String) (samples : Samples) (m : MethodDescriptor) :
    Except GenerationError FunctionInfo := do
  let key := docKey service m.name
  let parameters ← m.parameters.mapM (r.resolveField key)
  let returnType ← match m.success? with
    | some success => r.resolve success.value
    | none => pure .void
  let exceptions ← (m.exceptions.filter (· ≠ MethodDescriptor.baseException)).mapM r.resolveException
  let sampleRequest ← (samples.encode m.argsType key parameters).mapError .sample
  return { name := m.name, returnType, parameters, exceptions, sampleRequest, doc := r.doc key }

structure ServiceDraft where
  functions : Table FunctionInfo := ∅
  classes : ClassSet := ∅

def ServiceDraft.add (r : Resolver) (service : String) (samples : Samples) (d : ServiceDraft)
    (m : MethodDescriptor) : Except GenerationError ServiceDraft := do
  let f ← r.function service samples m
  match d.classes.collectFunction f with
  | (_, some name) => throw (.conflict name)
  | (classes, none) => return ⟨d.functions.insert f.name f, classes⟩

/-- Builds a service; its endpoints are listed in order. -/
def Provider.service (p : Provider) (name : String) (endpoints : List Endpoint)
    (exampleHeaders : List Headers) (samples : Samples) (maxDepth : Nat) :
    Except GenerationError ServiceInfo := do
  let r : Resolver := ⟨p, p.docs, maxDepth⟩
  let methods ← answer (p.methods name)
  let draft ← methods.foldlM (ServiceDraft.add r name samples) {}
  return {
    name
    functions := draft.functions
    classes := draft.classes.sorted
    endpoints := endpoints.mergeSort Endpoint.precedes
    doc := r.doc name
    exampleHeaders }

end ThriftCatalog
