import ThriftCatalog.Generation.Service
import ThriftCatalog.Proofs.Collection
import ThriftCatalog.Proofs.Fallible

/-! Building a service. It succeeds exactly if every method becomes a function and the classes of all these functions
are collected without conflict; the service then holds the functions by name and the collected classes. -/
namespace ThriftCatalog

open Fallible

variable {r : Resolver} {service : String} {samples : Samples}

def Resolver.Builds (r : Resolver) (service : String) (samples : Samples) :
    List MethodDescriptor → List FunctionInfo → Prop :=
  List.Forall₂ fun m f => r.function service samples m = .ok f

/-- The resolved return type; without a success field nothing is returned. -/
def Resolver.returnType (r : Resolver) (m : MethodDescriptor) : Except GenerationError TypeInfo :=
  match m.success? with
  | some success => r.resolve success.value
  | none => .ok .void

/-- A function is built in four steps: parameters, return type, exceptions, and the sample. -/
theorem Resolver.function_eq (m : MethodDescriptor) : r.function service samples m = do
    let parameters ← m.parameters.mapM (r.resolveField (docKey service m.name))
    let returnType ← r.returnType m
    let exceptions ← (m.exceptions.filter (· ≠ MethodDescriptor.baseException)).mapM r.resolveException
    let sampleRequest ← (samples.encode m.argsType (docKey service m.name) parameters).mapError .sample
    return { name := m.name, returnType, parameters, exceptions, sampleRequest,
             doc := r.doc (docKey service m.name) } := by
  unfold function returnType
  cases m.success? <;> rfl

/-- What a function consists of once it has been built. -/
theorem Resolver.function_eq_ok {m : MethodDescriptor} {f : FunctionInfo} :
    r.function service samples m = .ok f ↔ ∃ parameters returnType exceptions sample,
      m.parameters.mapM (r.resolveField (docKey service m.name)) = .ok parameters ∧
      r.returnType m = .ok returnType ∧
      (m.exceptions.filter (· ≠ MethodDescriptor.baseException)).mapM r.resolveException = .ok exceptions ∧
      samples.encode m.argsType (docKey service m.name) parameters = .ok sample ∧
      f = { name := m.name, returnType, parameters, exceptions, sampleRequest := sample,
            doc := r.doc (docKey service m.name) } := by
  simp only [Resolver.function_eq, bind_eq_ok, pure_eq_ok, mapError_eq_ok]
  constructor
  · rintro ⟨parameters, hp, returnType, hr, exceptions, he, sample, hs, rfl⟩
    exact ⟨parameters, returnType, exceptions, sample, hp, hr, he, hs, rfl⟩
  · rintro ⟨parameters, returnType, exceptions, sample, hp, hr, he, hs, rfl⟩
    exact ⟨parameters, hp, returnType, hr, exceptions, he, sample, hs, rfl⟩

theorem Resolver.function_name {m : MethodDescriptor} {f : FunctionInfo}
    (h : r.function service samples m = .ok f) : f.name = m.name := by
  obtain ⟨-, -, -, -, -, -, -, -, rfl⟩ := function_eq_ok.mp h
  rfl

theorem Resolver.Builds.names {methods : List MethodDescriptor} {built : List FunctionInfo}
    (builds : r.Builds service samples methods built) : built.map (·.name) = methods.map (·.name) := by
  induction builds with
  | nil => rfl
  | cons first _ ih => rw [List.map_cons, List.map_cons, function_name first, ih]

namespace ServiceDraft

variable {d d' : ServiceDraft}

theorem add_eq_ok {m : MethodDescriptor} :
    d.add r service samples m = .ok d' ↔ ∃ f, r.function service samples m = .ok f ∧
      d'.functions = d.functions.insert f.name f ∧ d.classes.collectFunction f = (d'.classes, none) := by
  simp only [add, bind_eq_ok]
  apply exists_congr
  intro f
  apply and_congr_right'
  obtain ⟨functions, classes⟩ := d'
  cases collected : d.classes.collectFunction f with
  | mk reached conflict =>
    cases conflict <;> simp [pure, Except.pure, throw, throwThe, MonadExceptOf.throw, and_comm, eq_comm]

/-- The functions are inserted one after the other, and all their classes go into one set. -/
theorem foldlM_add_eq_ok {methods : List MethodDescriptor} :
    methods.foldlM (add r service samples) d = .ok d' ↔ ∃ built, r.Builds service samples methods built ∧
      d'.functions = d.functions.insertAll (built.map fun f => (f.name, f)) ∧
      d.classes.collectAll (built.flatMap FunctionInfo.classes) = (d'.classes, none) := by
  induction methods generalizing d with
  | nil =>
    obtain ⟨functions, classes⟩ := d
    obtain ⟨functions', classes'⟩ := d'
    simp [Resolver.Builds, Table.insertAll, ClassSet.collectAll, ClassSet.insertAll, pure, Except.pure, eq_comm]
  | cons m methods ih =>
    simp only [List.foldlM_cons, bind_eq_ok, add_eq_ok, ih]
    constructor
    · rintro ⟨middle, ⟨f, first, inserted, collected⟩, built, rest, functions, classes⟩
      refine ⟨f :: built, .cons first rest, ?_, ?_⟩
      · rw [functions, inserted]
        rfl
      · exact ClassSet.collectAll_append.mpr ⟨_, collected, classes⟩
    · rintro ⟨built, _ | ⟨first, rest⟩, functions, classes⟩
      obtain ⟨middle, collected, classes⟩ := ClassSet.collectAll_append.mp classes
      exact ⟨⟨_, middle⟩, ⟨_, first, rfl, collected⟩, _, rest, functions, classes⟩

end ServiceDraft

/-- What a service consists of once it has been built. -/
theorem Provider.service_eq_ok {p : Provider} {name : String} {endpoints : List Endpoint} {headers : List Headers}
    {maxDepth : Nat} {s : ServiceInfo} :
    p.service name endpoints headers samples maxDepth = .ok s ↔
      ∃ methods built classes, p.methods name = .ok methods ∧
        Resolver.Builds ⟨p, p.docs, maxDepth⟩ name samples methods built ∧
        (∅ : ClassSet).collectAll (built.flatMap FunctionInfo.classes) = (classes, none) ∧
        s = { name, functions := .ofList (built.map fun f => (f.name, f)), classes := classes.sorted,
              endpoints := endpoints.mergeSort Endpoint.precedes, doc := p.docs.get? name,
              exampleHeaders := headers } := by
  simp only [Provider.service, bind_eq_ok, pure_eq_ok, answer_eq_ok, ServiceDraft.foldlM_add_eq_ok]
  constructor
  · rintro ⟨methods, found, draft, ⟨built, builds, functions, classes⟩, rfl⟩
    exact ⟨methods, built, draft.classes, found, builds, classes, by rw [functions]; rfl⟩
  · rintro ⟨methods, built, classes, found, builds, collected, rfl⟩
    exact ⟨methods, found, ⟨_, classes⟩, ⟨built, builds, rfl, collected⟩, rfl⟩

end ThriftCatalog
