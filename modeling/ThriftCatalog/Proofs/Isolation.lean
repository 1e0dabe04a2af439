import ThriftCatalog.Proofs.Closure

/-! What fails leaves no trace. A specification is generated again, and without failures, from the interfaces alone that
belong to its services, wherever the others stood among them. -/
namespace ThriftCatalog

open Fallible Generation

/-- The binding without the interfaces that are not kept. Its entries stay, also where nothing is left of them. -/
def Binding.restrict (keep : String → Bool) (b : Binding) : Binding :=
  { b with entries := b.entries.map fun interfaces => interfaces.filter keep }

def GenerationInput.restrict (keep : String → Bool) (input : GenerationInput) : GenerationInput :=
  { input with bindings := input.bindings.map (Binding.restrict keep) }

def Provider.serves (p : Provider) (spec : Specification) (interface : String) : Bool :=
  (p.placement? interface).any spec.services.contains

theorem Binding.registrations_restrict (keep : String → Bool) (b : Binding) :
    (b.restrict keep).registrations = b.registrations.filter fun x => keep x.interface := by
  have endpoint : (b.restrict keep).endpoint? = b.endpoint? := rfl
  unfold registrations
  rw [endpoint, List.filter_flatMap]
  simp only [restrict, Table.map, List.flatMap_map, List.filter_map]
  rfl

theorem GenerationInput.registrations_restrict (keep : String → Bool) (input : GenerationInput) :
    (input.restrict keep).bindings.flatMap Binding.registrations =
      (input.bindings.flatMap Binding.registrations).filter fun x => keep x.interface := by
  rw [restrict, List.flatMap_map, List.filter_flatMap]
  simp only [Binding.registrations_restrict]

namespace Provider

section

variable {p : Provider} {kept : String → Bool} {xs : List Registration} {headers : Table (List Headers)}

theorem placements_filter : p.placements (xs.filter fun x => (p.placement? x.interface).any kept) =
    (p.placements xs).filter kept := by
  unfold placements
  rw [← eraseDups_filter, List.filterMap_filter, List.filter_filterMap]
  congr 1
  refine List.filterMap_congr fun x _ => ?_
  cases p.placement? x.interface with
  | none => rfl
  | some service => cases chosen : kept service <;> simp [Option.filter, chosen]

theorem entryOf_filter {service : String} (chosen : kept service = true) :
    p.entryOf headers (xs.filter fun x => (p.placement? x.interface).any kept) service =
      p.entryOf headers xs service := by
  have own : (xs.filter fun x => (p.placement? x.interface).any kept).filter
      (fun x => p.placement? x.interface = some service) =
        xs.filter fun x => p.placement? x.interface = some service := by
    rw [List.filter_filter]
    refine List.filter_congr fun x _ => ?_
    by_cases here : p.placement? x.interface = some service
    · simp [here, chosen]
    · simp [here]
  unfold entryOf
  rw [own]

end

variable {p : Provider} {input : GenerationInput} {encoder : Option Sample.Encoder} {options : GenerationOptions}
  {o : Outcome} {kept : String → Bool}

/-- Grouping the interfaces of chosen services gives the groups of these services, unchanged and in their order. -/
theorem group_restrict :
    (p.group (input.restrict fun interface => (p.placement? interface).any kept).bindings
      input.exampleHeaders).entries.entries =
        (p.group input.bindings input.exampleHeaders).entries.entries.filter fun entry => kept entry.1 := by
  rw [group_entries, group_entries, GenerationInput.registrations_restrict, placements_filter, List.filter_map]
  refine List.map_congr_left fun service mem => ?_
  rw [entryOf_filter (List.of_mem_filter mem)]

/-- Nothing of what is left fails. -/
theorem failures_restrict
    (documented : ∀ service, kept service = true ↔ service ∈ (p.built input encoder options).keys) :
    p.failures (input.restrict fun interface => (p.placement? interface).any kept) encoder options = [] := by
  refine failures_eq_nil.mpr ⟨fun interface mem => ?_, fun entry mem => ?_⟩
  · rw [GenerationInput.interfaces, GenerationInput.registrations_restrict] at mem
    obtain ⟨x, listed, rfl⟩ := List.mem_map.mp mem
    obtain ⟨service, placed, -⟩ := (Option.any_eq_true _ _).mp (List.mem_filter.mp listed).2
    exact ⟨service, placement?_eq_some.mp placed⟩
  · change entry ∈ (p.group _ input.exampleHeaders).entries.entries at mem
    rw [group_restrict, List.mem_filter] at mem
    exact (mem_keys_built mem.1).mp ((documented entry.1).mp mem.2)

theorem built_restrict
    (documented : ∀ service, kept service = true ↔ service ∈ (p.built input encoder options).keys) :
    p.built (input.restrict fun interface => (p.placement? interface).any kept) encoder options =
      p.built input encoder options := by
  apply Table.ext
  rw [built_entries, built_entries]
  change (p.group _ input.exampleHeaders).entries.entries.filterMap _ = _
  rw [group_restrict, List.filterMap_filter]
  refine List.filterMap_congr fun entry mem => ?_
  split
  · rfl
  · next dropped =>
    rw [documented, mem_keys_built mem, not_exists] at dropped
    cases made : success? p ⟨input.sampleRequests, encoder⟩ options entry with
    | none => rfl
    | some built => exact absurd (success?_eq_some.mp made).2 (dropped _)

/-- A service that fails, like an interface that belongs to none, leaves no trace in the specification. -/
theorem generate_restrict (lenient : options.failFast = false) (h : p.generate input encoder options = .ok o) :
    p.generate (input.restrict (p.serves o.specification)) encoder options = .ok ⟨o.specification, []⟩ := by
  obtain ⟨-, classes, united, rfl⟩ := generate_eq_ok.mp h
  have documented : ∀ service, (p.built input encoder options).sorted.contains service = true ↔
      service ∈ (p.built input encoder options).keys := by
    intro service
    rw [Table.contains_iff, Table.mem_keys_sorted]
  -- What is served is read off the specification, and this lists the services that can be built.
  have again : p.generate (input.restrict fun interface =>
      (p.placement? interface).any (p.built input encoder options).sorted.contains) encoder options =
        .ok ⟨⟨(p.built input encoder options).sorted, classes.sorted⟩, []⟩ := by
    refine generate_eq_ok.mpr ⟨by simp [lenient], classes, ?_, ?_⟩
    · rw [built_restrict documented]
      exact united
    · rw [built_restrict documented, failures_restrict documented]
  exact again

end Provider

/-- Orders can be taken, returns cannot, and all else belongs to no service. -/
def shopProvider : Provider :=
  { orderProvider with
    enclosingService := fun interface =>
      if interfaceService interface ∈ ["Orders", "Returns"] then .ok (interfaceService interface)
      else .error (.unavailable interface) }

theorem shopProvider_isolates :
    ∃ o, shopProvider.generate (singleBinding ["Returns$Iface", "Orders$Iface", "Till", "Orders"]) none {} = .ok o ∧
      o.specification.services.keys = ["Orders"] ∧
      o.failures = [⟨"Till", .lookup (.unavailable "Till")⟩, ⟨"Returns", .lookup (.unavailable "Returns")⟩] ∧
      shopProvider.generate (singleBinding ["Orders$Iface", "Orders"]) none {} = .ok ⟨o.specification, []⟩ := by
  have run : (fun o => (o.specification.services.keys, o.failures)) <$>
      shopProvider.generate (singleBinding ["Returns$Iface", "Orders$Iface", "Till", "Orders"]) none {} =
        .ok (["Orders"], [⟨"Till", .lookup (.unavailable "Till")⟩, ⟨"Returns", .lookup (.unavailable "Returns")⟩]) := by
    cbv
  obtain ⟨o, generated, shown⟩ := map_eq_ok.mp run
  obtain ⟨services, failures⟩ := Prod.mk.inj shown
  have serves : shopProvider.serves o.specification = fun interface =>
      (shopProvider.placement? interface).any fun service => service = "Orders" := by
    have documented : o.specification.services.contains = fun service => decide (service = "Orders") := by
      funext service
      rw [Bool.eq_iff_iff, Table.contains_iff, services]
      simp
    unfold Provider.serves
    rw [documented]
  have left : (singleBinding ["Returns$Iface", "Orders$Iface", "Till", "Orders"]).restrict
      (shopProvider.serves o.specification) = singleBinding ["Orders$Iface", "Orders"] := by
    rw [serves]
    rfl
  refine ⟨o, generated, services, failures, ?_⟩
  rw [← left]
  exact Provider.generate_restrict rfl generated

end ThriftCatalog
