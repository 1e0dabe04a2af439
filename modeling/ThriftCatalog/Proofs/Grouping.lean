import Mathlib.Data.List.Induction
import ThriftCatalog.Generation.Basic
import ThriftCatalog.Proofs.Table

/-! Grouping interfaces by service. A service has one group, in the place of its first interface, which holds what all
its interfaces bring along, in their order. An interface that belongs to no service leaves a failure and no more. -/
namespace ThriftCatalog

theorem eraseDups_concat {α : Type} [DecidableEq α] (xs : List α) (x : α) :
    (xs ++ [x]).eraseDups = if x ∈ xs then xs.eraseDups else xs.eraseDups ++ [x] := by
  rw [List.eraseDups_append]
  by_cases mem : x ∈ xs
  · simp [List.removeAll, mem]
  · simp [List.removeAll, mem, List.eraseDups_cons]

theorem eraseDups_nodup {α : Type} [DecidableEq α] (xs : List α) : xs.eraseDups.Nodup := by
  induction xs using List.reverseRecOn with
  | nil => simp
  | append_singleton xs x ih =>
    rw [eraseDups_concat]
    split
    · exact ih
    · next new =>
      rw [List.nodup_append]
      refine ⟨ih, by simp, ?_⟩
      intro y listed z last same
      rw [List.mem_singleton] at last
      exact new (List.mem_eraseDups.mp (last ▸ same ▸ listed))

theorem eraseDups_filter {α : Type} [DecidableEq α] (keep : α → Bool) (xs : List α) :
    (xs.filter keep).eraseDups = xs.eraseDups.filter keep := by
  induction xs using List.reverseRecOn with
  | nil => rfl
  | append_singleton xs x ih =>
    rw [List.filter_append, eraseDups_concat]
    by_cases kept : keep x = true
    · rw [List.filter_cons_of_pos kept, List.filter_nil, eraseDups_concat, ih]
      by_cases mem : x ∈ xs <;> simp [mem, kept]
    · rw [List.filter_cons_of_neg kept, List.filter_nil, List.append_nil, ih]
      by_cases mem : x ∈ xs <;> simp [mem, kept]

def GenerationInput.interfaces (input : GenerationInput) : List String :=
  (input.bindings.flatMap Binding.registrations).map (·.interface)

namespace Provider

def rejection? (p : Provider) (interface : String) : Option Failure :=
  match p.enclosingService interface with
  | .error e => some ⟨interface, .lookup e⟩
  | .ok _ => none

def placement? (p : Provider) (interface : String) : Option String :=
  match p.enclosingService interface with
  | .ok service => some service
  | .error _ => none

/-- The services of the registrations, each where it comes first. -/
def placements (p : Provider) (xs : List Registration) : List String :=
  (xs.filterMap fun x => p.placement? x.interface).eraseDups

/-- What the registrations of a service bring along: the endpoint of each, and for each the headers of the service. -/
def entryOf (p : Provider) (headers : Table (List Headers)) (xs : List Registration) (service : String) :
    ServiceEntry :=
  let own := xs.filter fun x => p.placement? x.interface = some service
  { endpoints := own.filterMap (·.endpoint)
    exampleHeaders := own.flatMap fun _ => (headers.get? service).getD [] }

variable {p : Provider} {interface service : String} {xs : List Registration}

theorem placement?_eq_some : p.placement? interface = some service ↔ p.enclosingService interface = .ok service := by
  unfold placement?
  cases p.enclosingService interface <;> simp

theorem mem_placements : service ∈ p.placements xs ↔ ∃ x ∈ xs, p.enclosingService x.interface = .ok service := by
  simp only [placements, List.mem_eraseDups, List.mem_filterMap, placement?_eq_some]

end Provider

namespace Grouping

variable {p : Provider} {headers : Table (List Headers)} {g : Grouping} {x : Registration} {service : String}

theorem add_placed (placed : p.enclosingService x.interface = .ok service) :
    g.add p headers x = { g with entries := g.entries.insert service {
      endpoints := ((g.entries.get? service).getD {}).endpoints ++ x.endpoint.toList
      exampleHeaders := ((g.entries.get? service).getD {}).exampleHeaders ++ (headers.get? service).getD [] } } := by
  rw [add, placed]

theorem add_rejected {e : LookupError} (rejected : p.enclosingService x.interface = .error e) :
    g.add p headers x = { g with failures := g.failures ++ [⟨x.interface, .lookup e⟩] } := by
  rw [add, rejected]

/-- The state of the grouping after some registrations, said of these alone. -/
structure After (p : Provider) (headers : Table (List Headers)) (xs : List Registration) (g : Grouping) : Prop where
  keys : g.entries.keys = p.placements xs
  entries : ∀ service, (g.entries.get? service).getD {} = p.entryOf headers xs service
  failures : g.failures = xs.filterMap fun x => p.rejection? x.interface

theorem After.add {xs : List Registration} (after : After p headers xs g) (x : Registration) :
    After p headers (xs ++ [x]) (g.add p headers x) := by
  cases placed : p.enclosingService x.interface with
  | error e =>
    have nowhere : p.placement? x.interface = none := by rw [Provider.placement?, placed]
    rw [add_rejected placed]
    refine ⟨?_, ?_, ?_⟩
    · rw [after.keys]
      simp [Provider.placements, nowhere]
    · intro service
      rw [after.entries service]
      simp [Provider.entryOf, nowhere]
    · rw [after.failures]
      simp [Provider.rejection?, placed]
  | ok service =>
    have somewhere : p.placement? x.interface = some service := Provider.placement?_eq_some.mpr placed
    rw [add_placed placed]
    refine ⟨?_, ?_, ?_⟩
    · rw [Table.keys_insert, after.keys, Provider.placements, Provider.placements, List.filterMap_append]
      simp only [List.filterMap_cons, somewhere, List.filterMap_nil, eraseDups_concat, List.mem_eraseDups]
    · intro other
      rw [Table.get?_insert]
      by_cases same : other = service
      · subst same
        rw [if_pos rfl, Option.getD_some, after.entries other]
        cases brought : x.endpoint <;> simp [Provider.entryOf, somewhere, brought]
      · have apart : ¬ service = other := Ne.symm same
        rw [if_neg same, after.entries other]
        simp [Provider.entryOf, somewhere, apart]
    · rw [after.failures]
      simp [Provider.rejection?, placed]

theorem after_foldl (xs : List Registration) : After p headers xs (xs.foldl (Grouping.add p headers) {}) := by
  induction xs using List.reverseRecOn with
  | nil => exact ⟨rfl, fun _ => rfl, rfl⟩
  | append_singleton xs x ih =>
    rw [List.foldl_append]
    exact ih.add x

end Grouping

namespace Provider

variable {p : Provider} {bindings : List Binding} {headers : Table (List Headers)} {service : String}

theorem group_after : Grouping.After p headers (bindings.flatMap Binding.registrations) (p.group bindings headers) :=
  Grouping.after_foldl _

theorem group_failures (bindings : List Binding) (headers : Table (List Headers)) :
    (p.group bindings headers).failures =
      (bindings.flatMap Binding.registrations).filterMap fun x => p.rejection? x.interface :=
  group_after.failures

theorem mem_group_keys (bindings : List Binding) (headers : Table (List Headers)) (service : String) :
    service ∈ (p.group bindings headers).entries.keys ↔
      ∃ x ∈ bindings.flatMap Binding.registrations, p.enclosingService x.interface = .ok service := by
  rw [group_after.keys, mem_placements]

/-- The groups, each with its service. -/
theorem group_entries : (p.group bindings headers).entries.entries =
    (p.placements (bindings.flatMap Binding.registrations)).map fun service =>
      (service, p.entryOf headers (bindings.flatMap Binding.registrations) service) := by
  have after : Grouping.After p headers (bindings.flatMap Binding.registrations) (p.group bindings headers) :=
    group_after
  rw [← after.keys]
  refine Table.entries_eq_map fun service entry found => ?_
  rw [← after.entries service, found, Option.getD_some]

end Provider

end ThriftCatalog
