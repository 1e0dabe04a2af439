import ThriftCatalog.Proofs.Isolation

/-! What becomes of the interfaces that are bound. Each of them fails by itself, or fails with its service, or brings an
endpoint and example headers to the documentation of its service; nothing is lost and nothing counts twice. -/
namespace ThriftCatalog

open Fallible Generation

/-- The endpoints in ascending order of paths and, for one path, of service names. Those that have both in common keep
the order in which they were listed. -/
structure Endpoint.StablySorted (listed sorted : List Endpoint) : Prop where
  perm : sorted.Perm listed
  ascending : sorted.Pairwise fun a b => a.path < b.path ∨ a.path = b.path ∧ a.serviceName ≤ b.serviceName
  stable : ∀ path name, (sorted.filter fun e => e.path = path ∧ e.serviceName = name) =
    listed.filter fun e => e.path = path ∧ e.serviceName = name

namespace Endpoint

theorem precedes_iff {a b : Endpoint} :
    a.precedes b = true ↔ a.path < b.path ∨ a.path = b.path ∧ a.serviceName ≤ b.serviceName := by
  simp [precedes]

theorem precedes_trans (a b c : Endpoint) (first : a.precedes b = true) (second : b.precedes c = true) :
    a.precedes c = true := by
  rw [precedes_iff] at first second ⊢
  rcases first with less | ⟨same, before⟩
  · rcases second with less' | ⟨same', -⟩
    · exact .inl (String.lt_trans less less')
    · exact .inl (same' ▸ less)
  · rcases second with less' | ⟨same', before'⟩
    · exact .inl (same ▸ less')
    · exact .inr ⟨same.trans same', String.le_trans before before'⟩

theorem precedes_total (a b : Endpoint) : (a.precedes b || b.precedes a) = true := by
  rw [Bool.or_eq_true, precedes_iff, precedes_iff]
  grind

theorem mergeSort_stablySorted (listed : List Endpoint) : StablySorted listed (listed.mergeSort precedes) where
  perm := List.mergeSort_perm _ _
  ascending := (List.pairwise_mergeSort precedes_trans precedes_total listed).imp precedes_iff.mp
  stable := by
    intro path name
    have equals : (listed.filter fun e => e.path = path ∧ e.serviceName = name).Pairwise
        fun a b => a.precedes b = true := by
      rw [List.pairwise_filter]
      refine List.pairwise_of_forall fun a b => ?_
      intro here there
      rw [decide_eq_true_eq] at here there
      have paths : a.path = b.path := here.1.trans there.1.symm
      have names : a.serviceName = b.serviceName := here.2.trans there.2.symm
      exact precedes_iff.mpr (.inr ⟨paths, names ▸ String.le_refl _⟩)
    -- Endpoints of one key are sorted as they stand, so they stay in their order, and there are no others of that key.
    have kept := List.sublist_mergeSort precedes_trans precedes_total equals List.filter_sublist
    have inside := kept.filter fun e => e.path = path ∧ e.serviceName = name
    rw [List.filter_filter] at inside
    simp only [Bool.and_self] at inside
    have same := ((List.mergeSort_perm listed precedes).filter fun e => e.path = path ∧ e.serviceName = name).length_eq
    exact (inside.eq_of_length same.symm).symm

end Endpoint

structure Occurrence where
  binding : Binding
  entry : String
  interface : String

/-- Only a binding with an exact path has an endpoint to document. -/
def Occurrence.endpoint? (x : Occurrence) : Option Endpoint :=
  match x.binding.route with
  | .exact path => some {
      hostPattern := x.binding.hostPattern
      path
      serviceName := x.entry
      defaultFormat := x.binding.defaultFormat
      allowedFormats := x.binding.allowedFormats }
  | .under _ => none

def Occurrence.registration (x : Occurrence) : Registration := ⟨x.interface, x.endpoint?⟩

namespace GenerationInput

/-- All interfaces that are bound, in the order of bindings, of their entries and of the interfaces there. -/
def occurrences (input : GenerationInput) : List Occurrence :=
  input.bindings.flatMap fun binding =>
    binding.entries.entries.flatMap fun (entry, interfaces) =>
      interfaces.map fun interface => ⟨binding, entry, interface⟩

theorem registrations_eq (input : GenerationInput) :
    input.bindings.flatMap Binding.registrations = input.occurrences.map Occurrence.registration := by
  have endpoint : ∀ (b : Binding) (entry interface : String),
      b.endpoint? entry = Occurrence.endpoint? ⟨b, entry, interface⟩ := by
    intro b entry interface
    unfold Binding.endpoint? Occurrence.endpoint?
    cases b.route <;> rfl
  unfold occurrences
  rw [List.map_flatMap]
  refine List.flatMap_congr fun b _ => ?_
  rw [Binding.registrations, List.map_flatMap]
  refine List.flatMap_congr fun entry _ => ?_
  rw [List.map_map]
  refine List.map_congr_left fun interface _ => ?_
  rw [Function.comp_apply, Occurrence.registration, endpoint b entry.1 interface]

end GenerationInput

namespace Provider

/-- The services that interfaces belong to, in the order in which they are first registered. -/
def registered (p : Provider) (input : GenerationInput) : List String :=
  (input.occurrences.filterMap fun x => p.placement? x.interface).eraseDups

def occurrencesOf (p : Provider) (input : GenerationInput) (service : String) : List Occurrence :=
  input.occurrences.filter fun x => p.enclosingService x.interface = .ok service

def endpointsOf (p : Provider) (input : GenerationInput) (service : String) : List Endpoint :=
  (p.occurrencesOf input service).filterMap Occurrence.endpoint?

/-- The headers that are configured for a service, once for each of its interfaces. -/
def headersOf (p : Provider) (input : GenerationInput) (service : String) : List Headers :=
  (p.occurrencesOf input service).flatMap fun _ => (input.exampleHeaders.get? service).getD []

/-- The account of a generation that ends in no error: what fails, and what the services show of their interfaces. -/
structure Accounts (p : Provider) (input : GenerationInput) (samples : Samples) (maxDepth : Nat) (o : Outcome)
    (failed : List Failure) : Prop where
  /-- First come the interfaces that belong to no service, then the services that cannot be built. -/
  failures : o.failures = (input.occurrences.filterMap fun x => p.rejection? x.interface) ++ failed
  order : failed.map (·.name) = (p.registered input).filter fun service => service ∉ o.specification.services.keys
  reasons : ∀ f ∈ failed,
    p.service f.name (p.endpointsOf input f.name) (p.headersOf input f.name) samples maxDepth = .error f.error
  placed : ∀ service, (service ∈ o.specification.services.keys ∨ service ∈ failed.map (·.name)) ↔
    ∃ x ∈ input.occurrences, p.enclosingService x.interface = .ok service
  apart : ∀ service ∈ o.specification.services.keys, service ∉ failed.map (·.name)
  once : (failed.map (·.name)).Nodup
  endpoints : ∀ service s, o.specification.services.get? service = some s →
    Endpoint.StablySorted (p.endpointsOf input service) s.endpoints
  headers : ∀ service s, o.specification.services.get? service = some s → s.exampleHeaders = p.headersOf input service

variable {p : Provider} {input : GenerationInput} {encoder : Option Sample.Encoder} {options : GenerationOptions}
  {o : Outcome}

theorem mem_registered {service : String} :
    service ∈ p.registered input ↔ ∃ x ∈ input.occurrences, p.enclosingService x.interface = .ok service := by
  simp only [registered, List.mem_eraseDups, List.mem_filterMap, placement?_eq_some]

theorem group_failures_occurrences : (p.group input.bindings input.exampleHeaders).failures =
    input.occurrences.filterMap fun x => p.rejection? x.interface := by
  rw [group_failures, input.registrations_eq, List.filterMap_map]
  rfl

/-- The groups are the services that are registered, with the endpoints and headers of their interfaces. -/
theorem group_entries_occurrences : (p.group input.bindings input.exampleHeaders).entries.entries =
    (p.registered input).map fun service => (service, ⟨p.endpointsOf input service, p.headersOf input service⟩) := by
  have own : ∀ service, (input.occurrences.map Occurrence.registration).filter
      (fun x => p.placement? x.interface = some service) =
        (p.occurrencesOf input service).map Occurrence.registration := by
    intro service
    rw [List.filter_map]
    simp only [placement?_eq_some]
    rfl
  rw [group_entries, input.registrations_eq, placements, List.filterMap_map]
  refine List.map_congr_left fun service _ => ?_
  rw [entryOf, own service, List.filterMap_map, List.flatMap_map]
  rfl

/-- What fails among the services, in their order. -/
theorem failed_names : ((p.group input.bindings input.exampleHeaders).entries.entries.filterMap
    (failure? p ⟨input.sampleRequests, encoder⟩ options)).map (·.name) =
      (p.registered input).filter fun service => service ∉ (p.built input encoder options).keys := by
  have each : ∀ entry ∈ (p.group input.bindings input.exampleHeaders).entries.entries,
      (failure? p ⟨input.sampleRequests, encoder⟩ options entry).map (·.name) =
        Option.guard (fun service => service ∉ (p.built input encoder options).keys) entry.1 := by
    intro entry mem
    have known : entry.1 ∈ (p.built input encoder options).keys ↔ _ := mem_keys_built mem
    unfold failure?
    cases made : p.groupService ⟨input.sampleRequests, encoder⟩ options entry with
    | ok s =>
      rw [made] at known
      simp [Option.guard, known.mpr ⟨s, rfl⟩]
    | error e =>
      rw [made] at known
      simp [Option.guard, known]
  rw [List.map_filterMap, List.filterMap_congr each, group_entries_occurrences, List.filterMap_map,
    ← List.filterMap_eq_filter]
  rfl

theorem groupService_occurrences {entry : String × ServiceEntry}
    (mem : entry ∈ (p.group input.bindings input.exampleHeaders).entries.entries) (samples : Samples) :
    p.groupService samples options entry =
      p.service entry.1 (p.endpointsOf input entry.1) (p.headersOf input entry.1) samples options.maxDepth := by
  rw [group_entries_occurrences] at mem
  obtain ⟨service, -, rfl⟩ := List.mem_map.mp mem
  rfl

theorem built_registered {service : String} (built : service ∈ (p.built input encoder options).keys) :
    service ∈ p.registered input := by
  obtain ⟨s, found⟩ := Table.mem_keys.mp built
  obtain ⟨entry, mem, rfl, -⟩ := get?_built.mp found
  rw [group_entries_occurrences] at mem
  obtain ⟨service, listed, rfl⟩ := List.mem_map.mp mem
  exact listed

theorem built_contents {service : String} {s : ServiceInfo}
    (found : (p.built input encoder options).get? service = some s) :
    s.endpoints = (p.endpointsOf input service).mergeSort Endpoint.precedes ∧
      s.exampleHeaders = p.headersOf input service := by
  obtain ⟨entry, mem, rfl, made⟩ := get?_built.mp found
  rw [groupService_occurrences mem] at made
  obtain ⟨-, -, -, -, -, -, rfl⟩ := service_eq_ok.mp made
  exact ⟨rfl, rfl⟩

theorem generate_accounts (h : p.generate input encoder options = .ok o) :
    ∃ failed, p.Accounts input ⟨input.sampleRequests, encoder⟩ options.maxDepth o failed := by
  obtain ⟨-, classes, -, rfl⟩ := generate_eq_ok.mp h
  refine ⟨(p.group input.bindings input.exampleHeaders).entries.entries.filterMap
    (failure? p ⟨input.sampleRequests, encoder⟩ options), ?_⟩
  constructor
  case failures => rw [← group_failures_occurrences]; rfl
  case order =>
    rw [failed_names]
    simp only [Table.mem_keys_sorted]
  case reasons =>
    intro f mem
    obtain ⟨entry, listed, made⟩ := List.mem_filterMap.mp mem
    obtain ⟨same, failed⟩ := failure?_eq_some.mp made
    rw [groupService_occurrences listed, same] at failed
    exact failed
  case placed =>
    intro service
    rw [failed_names, List.mem_filter, mem_registered, Table.mem_keys_sorted]
    constructor
    · rintro (built | ⟨placed, -⟩)
      · exact mem_registered.mp (built_registered built)
      · exact placed
    · intro placed
      by_cases built : service ∈ (p.built input encoder options).keys
      · exact .inl built
      · exact .inr ⟨placed, decide_eq_true built⟩
  case apart =>
    intro service built
    rw [Table.mem_keys_sorted] at built
    rw [failed_names, List.mem_filter]
    rintro ⟨-, absent⟩
    exact of_decide_eq_true absent built
  case once =>
    rw [failed_names]
    exact (eraseDups_nodup _).filter _
  case endpoints =>
    intro service s found
    rw [(built_contents (Table.get?_sorted.symm.trans found)).1]
    exact Endpoint.mergeSort_stablySorted _
  case headers =>
    intro service s found
    exact (built_contents (Table.get?_sorted.symm.trans found)).2

end Provider

/-- Orders are bound at two exact paths, one of them later in the order of paths, and below a third. -/
def shopInput : GenerationInput where
  bindings := [
    { hostPattern := "*", route := .exact "/shop", defaultFormat := .binary, allowedFormats := [.binary]
      entries := .ofList [("", ["Orders$Iface", "Till"]), ("orders", ["Orders"])] },
    { hostPattern := "eu", route := .under "/any", defaultFormat := .json, allowedFormats := [.json]
      entries := .ofList [("", ["Returns", "Orders"])] },
    { hostPattern := "eu", route := .exact "/eu", defaultFormat := .json, allowedFormats := [.json]
      entries := .ofList [("", ["Orders"])] }]
  exampleHeaders := .ofList [("Orders", [.ofList [("x-id", "1")]])]

theorem shopInput_accounted :
    ∃ o failed s, shopProvider.generate shopInput none {} = .ok o ∧
      shopProvider.Accounts shopInput ⟨∅, none⟩ 64 o failed ∧
      o.failures.map (·.name) = ["Till", "Returns"] ∧ failed.map (·.name) = ["Returns"] ∧
      o.specification.services.get? "Orders" = some s ∧
      s.endpoints.map (fun e => (e.path, e.serviceName)) = [("/eu", ""), ("/shop", ""), ("/shop", "orders")] ∧
      s.exampleHeaders.length = 4 := by
  have run : (fun o => (o.failures.map (·.name), o.specification.services.keys,
      (o.specification.services.get? "Orders").map fun s =>
        (s.endpoints.map fun e => (e.path, e.serviceName), s.exampleHeaders.length))) <$>
        shopProvider.generate shopInput none {} =
      .ok (["Till", "Returns"], ["Orders"],
        some ([("/eu", ""), ("/shop", ""), ("/shop", "orders")], 4)) := by
    cbv
  obtain ⟨o, generated, shown⟩ := map_eq_ok.mp run
  simp only [Prod.mk.injEq, Option.map_eq_some_iff] at shown
  obtain ⟨names, services, s, found, endpoints, headers⟩ := shown
  obtain ⟨failed, account⟩ := Provider.generate_accounts generated
  refine ⟨o, failed, s, generated, account, names, ?_, found, endpoints, headers⟩
  rw [account.order, services]
  decide

end ThriftCatalog
