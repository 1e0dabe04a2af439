import ThriftCatalog.Proofs.Conflict
import ThriftCatalog.Proofs.Exposure
import ThriftCatalog.Proofs.Signature

/-! Every registry can be documented. Given room for each of its structs, unions and exceptions in turn, all types
resolve, no two classes of one name differ, and only interfaces of unknown services fail. -/
namespace ThriftCatalog

open Relation Fallible Generation TypeInfo

namespace Registry

open Definitions

variable {r : Registry} {service name : String} {m : MethodDecl} {md : MethodDescriptor} {f : FunctionInfo}
  {c : ClassInfo} {samples : Samples}

theorem shown_nesting (bounded : m.Bounded) {type : TypeExpr} (mem : type ∈ r.definitions.shown m) :
    type.nesting ≤ TypeExpr.maxNesting := by
  obtain ⟨returns, fields⟩ := bounded
  rcases mem_shown.mp mem with shown | ⟨field, listed, rfl⟩ | ⟨name, -, rfl⟩
  · unfold MethodDecl.returned? at shown
    split at shown
    · contradiction
    · split at shown
      · obtain ⟨field, found, rfl⟩ := Option.map_eq_some_iff.mp shown
        exact fields field (List.mem_append_right _ (List.mem_of_find?_eq_some found))
      · cases shown
        exact returns
  · exact fields field (List.mem_append_left _ listed)
  · exact Nat.zero_le _

/-- The one class of a name that the documentation of a registry can show. -/
structure Represents (r : Registry) (resolver : Resolver) (name : String) (c : ClassInfo) : Prop where
  named : c.name = name
  resolves : resolver.Resolves c.descriptor c.toType
  kind : (c.descriptor = r.expansion name ∧ r.definitions.isComposite name = true) ∨
    (c.descriptor = .enum name ∧ r.definitions.kind? name = some .enum)

theorem Represents.unique {resolver : Resolver} {c c' : ClassInfo} (first : r.Represents resolver name c)
    (second : r.Represents resolver name c') : c = c' := by
  have same : c.descriptor = c'.descriptor := by
    rcases first.kind with ⟨shape, composite⟩ | ⟨shape, enum⟩ <;>
      rcases second.kind with ⟨shape', composite'⟩ | ⟨shape', enum'⟩
    · rw [shape, shape']
    · exact absurd enum' (kind?_ne_enum composite)
    · exact absurd enum (kind?_ne_enum composite')
    · rw [shape, shape']
  exact ClassInfo.toType_injective (first.resolves.functional (same ▸ second.resolves))

theorem Represents.eq_expansion {resolver : Resolver} (represents : r.Represents resolver name c)
    (composite : r.definitions.isComposite name = true) : c.descriptor = r.expansion name := by
  rcases represents.kind with ⟨shape, -⟩ | ⟨-, enum⟩
  · exact shape
  · exact absurd enum (kind?_ne_enum composite)

theorem descriptor_name (c : ClassInfo) : c.descriptor.name? = some c.name := by
  cases c <;> rfl

/-- Whatever a function shows, and whatever stands below, is lowered from what the method mentions. -/
theorem mentions_stands {resolver : Resolver} (source : resolver.provider = r.provider)
    (wf : r.definitions.WellFormed) (lowered : r.lowerMethod service m = .ok md)
    (built : resolver.function service samples md = .ok f) {u : TypeInfo} (mentions : f.Mentions u) :
    u = .void ∨ ∃ v, r.Stands ((r.definitions.shown m).flatMap TypeExpr.names) v ∧ resolver.Resolves v u := by
  obtain ⟨t, shows, occurs⟩ := FunctionInfo.mentions_iff.mp mentions
  rcases (function_shows wf lowered built).1 t shows with rfl | ⟨type, mem, v, lowers, resolves⟩
  · rcases occurs.cases_tail with rfl | ⟨_, -, part⟩
    · exact .inl rfl
    · cases part
  · obtain ⟨v', chain, resolves⟩ := resolves.occurs occurs
    rw [source] at chain
    have stands : r.Stands ((r.definitions.shown m).flatMap TypeExpr.names) v :=
      .here (fun name named => List.mem_flatMap.mpr ⟨type, mem, named⟩) lowers
    exact .inr ⟨v', stands.chain chain, resolves⟩

theorem mentions_represents {resolver : Resolver} (source : resolver.provider = r.provider)
    (wf : r.definitions.WellFormed) (lowered : r.lowerMethod service m = .ok md)
    (built : resolver.function service samples md = .ok f) (mentions : f.Mentions c.toType) :
    r.Represents resolver c.name c := by
  rcases mentions_stands source wf lowered built mentions with void | ⟨v, stands, resolves⟩
  · cases c <;> contradiction
  · obtain rfl := resolves.origin.1 c (asClass?_toType c)
    refine ⟨rfl, resolves, ?_⟩
    rcases stands.named (descriptor_name c) with ⟨shape, reached⟩ | ⟨shape, -⟩ | ⟨shape, enum⟩ | ⟨tag, shape, -⟩
    · exact .inl ⟨shape, reached.composite⟩
    · cases c <;> contradiction
    · exact .inr ⟨shape, enum⟩
    · cases c <;> contradiction

/-- The methods that a registry answers for a service are those that were declared. -/
theorem methods_eq_ok {mds : List MethodDescriptor} (h : r.provider.methods service = .ok mds) :
    ∃ ms, r.definitions.services.get? service = some ms ∧ ms.mapM (r.lowerMethod service) = .ok mds := by
  simp only [provider, Registry.methods] at h
  split at h
  · next ms found => exact ⟨ms, found, h⟩
  · contradiction

/-- Whatever is asked for, the functions of a registry show the one class that represents its name. -/
theorem consistent (wf : r.definitions.WellFormed) (samples : Samples) (maxDepth : Nat) :
    r.provider.Consistent samples maxDepth (r.Represents ⟨r.provider, r.provider.docs, maxDepth⟩) where
  unique := fun _ _ _ => Represents.unique
  shown := by
    intro service methods answered md mem f made c shown
    obtain ⟨ms, -, lowers⟩ := methods_eq_ok answered
    obtain ⟨m, -, lowered⟩ := mem_of_mapM lowers mem
    exact mentions_represents rfl wf lowered made (FunctionInfo.mem_classes.mp shown)

/-- Each type in the documentation of a method resolves. -/
theorem shown_resolves {resolver : Resolver} (source : resolver.provider = r.provider)
    (wf : r.definitions.WellFormed) (deep : 65 * (r.definitions.composites.length + 1) ≤ resolver.maxDepth)
    (bounded : m.Bounded) {type : TypeExpr} (mem : type ∈ r.definitions.shown m) {v : ValueDescriptor}
    (lowers : r.lower none type = .ok v) : ∃ t, resolver.resolve v = .ok t := by
  have inline : ∀ a ∈ type.names, r.definitions.isComposite a = true → ¬ r.Cut none a →
      ∃ t, resolver.resolveAt (65 * r.definitions.composites.length) (r.expansion a) = .ok t := by
    intro a _ composite _
    have rank := rank_lt_length wf.composites (isComposite_iff.mp composite)
    exact expansion_resolves source wf composite (by omega)
  obtain ⟨t, found⟩ := lower_resolves source lowers inline
  have nesting := shown_nesting bounded mem
  exact ⟨t, Resolver.resolveAt_mono found (by simp only [TypeExpr.maxNesting] at nesting; omega)⟩

/-- Every service of a registry is built, given room enough. -/
theorem service_isOk (wf : r.definitions.WellFormed) {maxDepth : Nat}
    (deep : 65 * (r.definitions.composites.length + 1) ≤ maxDepth) (known : service ∈ r.serviceNames)
    {endpoints : List Endpoint} {headers : List Headers} {requests : Table Json} :
    ∃ s, r.provider.service service endpoints headers ⟨requests, none⟩ maxDepth = .ok s := by
  obtain ⟨ms, found⟩ := Table.mem_keys.mp known
  have checked := r.definitions_checked.methods service ms found
  obtain ⟨mds, methods⟩ : ∃ mds, ms.mapM (r.lowerMethod service) = .ok mds :=
    mapM_isOk fun m mem => lowerMethod_isOk (checked m mem)
  obtain ⟨built, builds⟩ : ∃ built, mds.mapM (Resolver.function ⟨r.provider, r.provider.docs, maxDepth⟩ service
      ⟨requests, none⟩) = .ok built := by
    refine mapM_isOk fun md mem => ?_
    obtain ⟨m, mem, lowered⟩ := mem_of_mapM methods mem
    refine function_isOk wf lowered fun type shown v lowers => ?_
    exact shown_resolves rfl wf deep (wf.methods service ms found m mem) shown lowers
  have answered : r.provider.methods service = .ok mds := by
    simp only [provider, Registry.methods, found]
    exact methods
  exact (consistent wf _ _).service_isOk answered (mapM_eq_ok.mp builds)

def Documents (r : Registry) (resolver : Resolver) (samples : Samples) (service : String) (m : MethodDecl)
    (f : FunctionInfo) : Prop :=
  ∃ md, r.lowerMethod service m = .ok md ∧ resolver.function service samples md = .ok f

/-- The functions of a service document its methods, and its classes are what these functions mention. -/
theorem service_documents {endpoints : List Endpoint} {headers : List Headers} {maxDepth : Nat} {s : ServiceInfo}
    (h : r.provider.service service endpoints headers samples maxDepth = .ok s) :
    ∃ (ms : List MethodDecl) (built : List FunctionInfo), r.definitions.services.get? service = some ms ∧
      (∀ f ∈ built, ∃ m ∈ ms, r.Documents ⟨r.provider, r.provider.docs, maxDepth⟩ samples service m f) ∧
      (∀ m ∈ ms, ∃ f ∈ built, r.Documents ⟨r.provider, r.provider.docs, maxDepth⟩ samples service m f) ∧
      (∀ t, s.Mentions t → ∃ f ∈ built, f.Mentions t) ∧
      ∀ key c, s.classes.get? key = some c ↔ c.name = key ∧ ∃ f ∈ built, f.Mentions c.toType := by
  obtain ⟨mds, built, answered, builds, functions, -, listed⟩ := Provider.service_get? h
  obtain ⟨ms, found, methods⟩ := methods_eq_ok answered
  refine ⟨ms, built, found, fun f mem => ?_, fun m mem => ?_, fun t mentions => mentions.built functions listed, listed⟩
  · obtain ⟨md, lowered, made⟩ := mem_of_mapM (mapM_eq_ok.mpr builds) mem
    obtain ⟨m, declared, lowers⟩ := mem_of_mapM methods lowered
    exact ⟨m, declared, md, lowers, made⟩
  · obtain ⟨md, lowered, lowers⟩ := mem_mapM methods mem
    obtain ⟨f, kept, made⟩ := mem_mapM (mapM_eq_ok.mpr builds) lowered
    exact ⟨f, kept, md, lowers, made⟩

/-- The classes of all services represent their names, so no two of them differ. -/
theorem service_represents (wf : r.definitions.WellFormed) {endpoints : List Endpoint} {headers : List Headers}
    {maxDepth : Nat} {s : ServiceInfo} (h : r.provider.service service endpoints headers samples maxDepth = .ok s)
    (found : s.classes.get? name = some c) : r.Represents ⟨r.provider, r.provider.docs, maxDepth⟩ name c :=
  (consistent wf _ _).service_classes h found

end Registry

namespace Registry

open Definitions

variable {r : Registry}

theorem enclosingService_known {interface : String} (known : interfaceService interface ∈ r.serviceNames) :
    r.provider.enclosingService interface = .ok (interfaceService interface) :=
  if_pos (Table.contains_iff.mpr known)

theorem enclosingService_unknown {interface : String} (unknown : interfaceService interface ∉ r.serviceNames) :
    r.provider.enclosingService interface = .error (.unavailable interface) :=
  if_neg (mt Table.contains_iff.mp unknown)

theorem mem_serviceNames {interface service : String} (h : r.provider.enclosingService interface = .ok service) :
    service ∈ r.serviceNames := by
  by_cases known : interfaceService interface ∈ r.serviceNames
  · cases (enclosingService_known known).symm.trans h
    exact known
  · cases (enclosingService_unknown known).symm.trans h

/-- The interfaces of unknown services fail when interfaces are grouped, in order. -/
theorem group_failures (input : GenerationInput) :
    (r.provider.group input.bindings input.exampleHeaders).failures =
      (input.interfaces.filter fun interface => interfaceService interface ∉ r.serviceNames).map
        fun interface => ⟨interface, .lookup (.unavailable interface)⟩ := by
  rw [Provider.group_failures, GenerationInput.interfaces]
  induction input.bindings.flatMap Binding.registrations with
  | nil => rfl
  | cons x xs ih =>
    rw [List.filterMap_cons, List.map_cons, Provider.rejection?]
    by_cases known : interfaceService x.interface ∈ r.serviceNames
    · rw [enclosingService_known known, List.filter_cons_of_neg (by simpa using known)]
      exact ih
    · rw [enclosingService_unknown known, List.filter_cons_of_pos (by simpa using known), List.map_cons, ← ih]

/-- Every registry that can be built can be documented, however its types refer to one another: each known service
that is bound is documented, and the interfaces of unknown services are the only failures, in the order in which they
are registered. -/
theorem build_documented {files : List RegistryFile} (built : build files = .ok r) (input : GenerationInput)
    (options : GenerationOptions) (lenient : options.failFast = false)
    (deep : 65 * (r.definitions.structs.size + r.definitions.exceptions.size + 1) ≤ options.maxDepth) :
    ∃ o, r.provider.generate input none options = .ok o ∧
      (∀ interface ∈ input.interfaces, interfaceService interface ∈ r.serviceNames →
        interfaceService interface ∈ o.specification.services.keys) ∧
      o.failures = (input.interfaces.filter fun interface => interfaceService interface ∉ r.serviceNames).map
        fun interface => ⟨interface, .lookup (.unavailable interface)⟩ := by
  have wf := build_wellFormed built
  have sizes : r.definitions.composites.length = r.definitions.structs.size + r.definitions.exceptions.size := by
    simp [composites, Table.keys, Table.size]
  rw [← sizes] at deep
  have each : ∀ entry ∈ (r.provider.group input.bindings input.exampleHeaders).entries.entries, ∃ s,
      r.provider.groupService ⟨input.sampleRequests, none⟩ options entry = .ok s ∧
      ∀ name c, s.classes.get? name = some c → r.Represents ⟨r.provider, r.provider.docs, options.maxDepth⟩ name c := by
    intro entry mem
    obtain ⟨x, -, placed⟩ := (Provider.mem_group_keys _ _ _).mp (Table.mem_keys_of_entry mem)
    obtain ⟨s, made⟩ := service_isOk wf deep (mem_serviceNames placed)
    exact ⟨s, made, fun _ _ => service_represents wf made⟩
  obtain ⟨o, generated, services, failures⟩ :=
    Provider.generate_isOk lenient (P := r.Represents _) (fun _ _ _ => Represents.unique) each
  refine ⟨o, generated, fun interface mem known => ?_, failures.trans (group_failures input)⟩
  obtain ⟨x, registered, rfl⟩ := List.mem_map.mp mem
  refine (services _).mpr ((Provider.mem_group_keys _ _ _).mpr ⟨x, registered, ?_⟩)
  exact enclosingService_known known

theorem pair_documented :
    ∃ r o, build [pairFile] = .ok r ∧
      r.provider.generate (singleBinding ["S$Iface", "T$Iface"]) none { maxDepth := 195 } = .ok o ∧
      "S" ∈ o.specification.services.keys ∧
      o.failures = [⟨"T$Iface", .lookup (.unavailable "T$Iface")⟩] := by
  have facts : (fun r => (r.definitions.structs.size, r.definitions.exceptions.size, r.serviceNames)) <$>
      build [pairFile] = .ok (2, 0, ["S"]) := by decide +kernel
  obtain ⟨r, built, facts⟩ := map_eq_ok.mp facts
  simp only [Prod.mk.injEq] at facts
  obtain ⟨structs, exceptions, services⟩ := facts
  obtain ⟨o, generated, documented, failures⟩ :=
    build_documented built (singleBinding ["S$Iface", "T$Iface"]) { maxDepth := 195 } rfl (by rw [structs, exceptions])
  refine ⟨r, o, built, generated, documented "S$Iface" (by decide) (by rw [services]; decide), ?_⟩
  rw [failures, services]
  decide

end Registry

end ThriftCatalog
