import Mathlib.Data.List.Nodup
import ThriftCatalog.Proofs.Accounting

/-! Bindings in another order. What is documented, and whether anything is, depends on which bindings there are. Their
order shows only where endpoints of one service have path and service name in common: such endpoints stand as they were
registered. -/
namespace ThriftCatalog

open Fallible Generation

def Endpoint.key (e : Endpoint) : String × String := (e.path, e.serviceName)

/-- The same service, but that endpoints of one path and one service name may have changed places. -/
structure ServiceInfo.Reordered (s s' : ServiceInfo) : Prop where
  name : s'.name = s.name
  functions : s'.functions = s.functions
  classes : s'.classes = s.classes
  doc : s'.doc = s.doc
  exampleHeaders : s'.exampleHeaders = s.exampleHeaders
  endpoints : s'.endpoints.Perm s.endpoints
  keys : s'.endpoints.map Endpoint.key = s.endpoints.map Endpoint.key

/-- The same services in the same order, but for the order of such endpoints, and the same classes. -/
structure Specification.Reordered (spec spec' : Specification) : Prop where
  services : List.Forall₂ (fun entry entry' => entry'.1 = entry.1 ∧ ServiceInfo.Reordered entry.2 entry'.2)
    spec.services.entries spec'.services.entries
  classes : spec'.classes = spec.classes

namespace Endpoint

variable {xs ys listed listed' : List Endpoint}

theorem key_eq {a b : Endpoint} (first : a.precedes b = true) (second : b.precedes a = true) : a.key = b.key := by
  rw [precedes_iff] at first second
  have paths : a.path = b.path := by
    rcases first with less | ⟨same, -⟩
    · rcases second with greater | ⟨same, -⟩
      · exact absurd greater (String.lt_asymm less)
      · exact same.symm
    · exact same
  have names : a.serviceName = b.serviceName := by
    rcases first with less | ⟨-, le⟩
    · exact absurd (paths ▸ less) (String.lt_irrefl _)
    · rcases second with less | ⟨-, ge⟩
      · exact absurd (paths ▸ less) (String.lt_irrefl _)
      · exact String.le_antisymm le ge
  exact Prod.ext paths names

theorem mem_iff_of_filter_key (same : ∀ key, xs.filter (fun e => e.key = key) = ys.filter fun e => e.key = key)
    (e : Endpoint) : e ∈ xs ↔ e ∈ ys := by
  have here : e ∈ xs.filter (fun x => x.key = e.key) ↔ e ∈ ys.filter (fun x => x.key = e.key) := by rw [same]
  simpa using here

/-- Sorted lists with the same endpoints of each key, in the same order, are the same list. -/
theorem eq_of_filter_key (first : xs.Pairwise fun a b => a.precedes b = true)
    (second : ys.Pairwise fun a b => a.precedes b = true)
    (same : ∀ key, xs.filter (fun e => e.key = key) = ys.filter fun e => e.key = key) : xs = ys := by
  have mem : ∀ e, e ∈ xs ↔ e ∈ ys := mem_iff_of_filter_key same
  induction xs generalizing ys with
  | nil => exact (List.eq_nil_iff_forall_not_mem.mpr fun e there => by simpa using (mem e).mpr there).symm
  | cons a xs ih =>
    cases ys with
    | nil => simpa using (mem a).mp List.mem_cons_self
    | cons b ys =>
      rw [List.pairwise_cons] at first second
      -- Each head precedes the other, so both have one key and begin the same list of endpoints of this key.
      have keys : a.key = b.key := by
        rcases List.mem_cons.mp ((mem a).mp List.mem_cons_self) with rfl | later
        · rfl
        · rcases List.mem_cons.mp ((mem b).mpr List.mem_cons_self) with rfl | later'
          · rfl
          · exact key_eq (first.1 b later') (second.1 a later)
      obtain rfl : a = b := by
        have heads := same a.key
        rw [List.filter_cons_of_pos (by simp), List.filter_cons_of_pos (by simp [keys])] at heads
        exact (List.cons.inj heads).1
      have rest : ∀ key, xs.filter (fun e => e.key = key) = ys.filter fun e => e.key = key := by
        intro key
        have both := same key
        rw [List.filter_cons, List.filter_cons] at both
        split at both
        · exact (List.cons.inj both).2
        · exact both
      rw [ih first.2 second.2 rest (mem_iff_of_filter_key rest)]

theorem filter_key_mergeSort (listed : List Endpoint) (key : String × String) :
    (listed.mergeSort precedes).filter (fun e => e.key = key) = listed.filter fun e => e.key = key := by
  have stable := (mergeSort_stablySorted listed).stable key.1 key.2
  simpa only [Endpoint.key, Prod.ext_iff] using stable

/-- Sorting forgets the order of endpoints except within a key. -/
theorem mergeSort_eq_iff : listed.mergeSort precedes = listed'.mergeSort precedes ↔
    ∀ key, listed.filter (fun e => e.key = key) = listed'.filter fun e => e.key = key := by
  constructor
  · intro same key
    rw [← filter_key_mergeSort, same, filter_key_mergeSort]
  · intro same
    refine eq_of_filter_key (List.pairwise_mergeSort precedes_trans precedes_total _)
      (List.pairwise_mergeSort precedes_trans precedes_total _) fun key => ?_
    rw [filter_key_mergeSort, filter_key_mergeSort, same]

theorem keys_mergeSort (perm : listed.Perm listed') :
    (listed.mergeSort precedes).map key = (listed'.mergeSort precedes).map key := by
  have sorted : (listed.mergeSort precedes).Perm (listed'.mergeSort precedes) :=
    (List.mergeSort_perm _ _).trans (perm.trans (List.mergeSort_perm _ _).symm)
  have ascending (xs : List Endpoint) : ((xs.mergeSort precedes).map key).Pairwise
      fun k l => k.1 < l.1 ∨ k.1 = l.1 ∧ k.2 ≤ l.2 := by
    rw [List.pairwise_map]
    exact (mergeSort_stablySorted xs).ascending
  refine (sorted.map key).eq_of_pairwise ?_ (ascending listed) (ascending listed')
  intro k l here there first second
  obtain ⟨a, -, rfl⟩ := List.mem_map.mp here
  obtain ⟨b, -, rfl⟩ := List.mem_map.mp there
  exact key_eq (precedes_iff.mpr first) (precedes_iff.mpr second)

end Endpoint

/-- Only the endpoints and the example headers of a service depend on its bindings, and on nothing else. -/
theorem Provider.service_eq {p : Provider} {name : String} {endpoints : List Endpoint} {headers : List Headers}
    {samples : Samples} {maxDepth : Nat} :
    p.service name endpoints headers samples maxDepth =
      (fun s => { s with endpoints := endpoints.mergeSort Endpoint.precedes, exampleHeaders := headers }) <$>
        p.service name [] [] samples maxDepth := by
  simp only [Provider.service, map_bind, map_pure]

theorem Generation.unionClasses_congr {services services' : List ServiceInfo}
    (same : services.map (·.classes) = services'.map (·.classes)) : unionClasses services = unionClasses services' := by
  unfold unionClasses
  generalize (∅ : ClassSet) = classes
  induction services generalizing services' classes with
  | nil =>
    obtain rfl := List.map_eq_nil_iff.mp same.symm
    rfl
  | cons s rest ih =>
    obtain ⟨s', rest', rfl, own, same⟩ := List.map_eq_cons_iff.mp same.symm
    rw [List.foldlM_cons, List.foldlM_cons, own]
    exact bind_congr fun classes => ih same.symm classes

namespace Provider

variable {p : Provider} {input : GenerationInput} {bindings : List Binding} {encoder : Option Sample.Encoder}
  {options : GenerationOptions} {service : String} {s : ServiceInfo}

/-- What is documented of a service depends on the interfaces that belong to it. -/
theorem get?_built_registered : (p.built input encoder options).get? service = some s ↔
    service ∈ p.registered input ∧ p.service service (p.endpointsOf input service) (p.headersOf input service)
      ⟨input.sampleRequests, encoder⟩ options.maxDepth = .ok s := by
  rw [get?_built, group_entries_occurrences]
  simp only [List.mem_map, exists_exists_and_eq_and, groupService]
  constructor
  · rintro ⟨service, registered, rfl, made⟩
    exact ⟨registered, made⟩
  · rintro ⟨registered, made⟩
    exact ⟨service, registered, rfl, made⟩

section

variable (perm : bindings.Perm input.bindings)
include perm

theorem occurrences_perm : GenerationInput.occurrences { input with bindings } |>.Perm input.occurrences :=
  perm.flatMap_right _

theorem registered_perm : service ∈ p.registered { input with bindings } ↔ service ∈ p.registered input := by
  rw [mem_registered, mem_registered]
  simp only [(occurrences_perm perm).mem_iff]

theorem endpointsOf_perm : (p.endpointsOf { input with bindings } service).Perm (p.endpointsOf input service) :=
  ((occurrences_perm perm).filter _).filterMap _

/-- Every interface of a service brings the same headers, so it only matters how many there are. -/
theorem headersOf_perm : p.headersOf { input with bindings } service = p.headersOf input service := by
  have same : (p.occurrencesOf { input with bindings } service).length = (p.occurrencesOf input service).length :=
    ((occurrences_perm perm).filter _).length_eq
  unfold headersOf
  rw [List.flatMap_def, List.flatMap_def, List.map_const', List.map_const', same]

/-- A service that is documented is documented from the bindings in any order, and but for endpoints alike. -/
theorem built_perm (found : (p.built input encoder options).get? service = some s) :
    (p.built { input with bindings } encoder options).get? service =
      some { s with endpoints := (p.endpointsOf { input with bindings } service).mergeSort Endpoint.precedes } := by
  obtain ⟨registered, made⟩ := get?_built_registered.mp found
  refine get?_built_registered.mpr ⟨(registered_perm perm).mpr registered, ?_⟩
  rw [service_eq, map_eq_ok] at made ⊢
  obtain ⟨core, made, rfl⟩ := made
  exact ⟨core, made, by rw [headersOf_perm perm]⟩

theorem mem_keys_built_perm : service ∈ (p.built { input with bindings } encoder options).keys ↔
    service ∈ (p.built input encoder options).keys := by
  rw [Table.mem_keys, Table.mem_keys]
  constructor
  · rintro ⟨s, found⟩
    exact ⟨_, @built_perm p { input with bindings } input.bindings encoder options service s perm.symm found⟩
  · rintro ⟨s, found⟩
    exact ⟨_, built_perm perm found⟩

/-- What is documented, with whatever classes. -/
theorem built_reordered (classes : Table ClassInfo) :
    Specification.Reordered ⟨(p.built input encoder options).sorted, classes⟩
      ⟨(p.built { input with bindings } encoder options).sorted, classes⟩ := by
  refine ⟨Table.forall₂_entries (Table.keys_sorted_congr fun _ => (mem_keys_built_perm perm).symm) ?_, rfl⟩
  intro service s s' here there
  rw [Table.get?_sorted] at here there
  obtain rfl := Option.some.inj ((built_perm perm here).symm.trans there)
  have sorted := (built_contents here).1
  refine ⟨rfl, rfl, rfl, rfl, rfl, rfl, ?_, ?_⟩
  · rw [sorted]
    exact (List.mergeSort_perm _ _).trans ((endpointsOf_perm perm).trans (List.mergeSort_perm _ _).symm)
  · rw [sorted]
    exact Endpoint.keys_mergeSort (endpointsOf_perm perm)

theorem unionClasses_perm : unionClasses (p.built { input with bindings } encoder options).sorted.values =
    unionClasses (p.built input encoder options).sorted.values := by
  refine unionClasses_congr ?_
  unfold Table.values
  rw [List.map_map, List.map_map, ← List.forall₂_eq_eq_eq, List.forall₂_map_left_iff, List.forall₂_map_right_iff]
  exact (built_reordered perm ∅).services.flip.imp fun _ _ related => related.2.classes

/-- A specification is the same exactly if endpoints of one key were registered in the same order. -/
theorem built_eq_iff : (p.built { input with bindings } encoder options).sorted =
    (p.built input encoder options).sorted ↔
      ∀ service ∈ (p.built input encoder options).keys, ∀ key,
        (p.endpointsOf { input with bindings } service).filter (fun e => e.key = key) =
          (p.endpointsOf input service).filter fun e => e.key = key := by
  constructor
  · intro same service documented
    obtain ⟨s, found⟩ := Table.mem_keys.mp documented
    have there := built_perm perm found
    rw [← Table.get?_sorted, same, Table.get?_sorted, found, Option.some.injEq] at there
    have endpoints := congrArg ServiceInfo.endpoints there
    rw [(built_contents found).1] at endpoints
    exact fun key => (Endpoint.mergeSort_eq_iff.mp endpoints key).symm
  · intro same
    apply Table.ext
    rw [← List.forall₂_eq_eq_eq]
    refine Table.forall₂_entries (Table.keys_sorted_congr fun _ => mem_keys_built_perm perm) ?_
    intro service s' s there here
    rw [Table.get?_sorted] at here there
    obtain rfl := Option.some.inj ((built_perm perm here).symm.trans there)
    have endpoints := Endpoint.mergeSort_eq_iff.mpr (same service (Table.mem_keys.mpr ⟨s, here⟩))
    rw [endpoints, ← (built_contents here).1]

/-- Where no two endpoints of a service have their key in common, no order can show. -/
theorem built_eq_of_untied (untied : ∀ s ∈ (p.built input encoder options).sorted.values,
      ∀ a ∈ s.endpoints, ∀ b ∈ s.endpoints, a.key = b.key → a = b) :
    (p.built { input with bindings } encoder options).sorted = (p.built input encoder options).sorted := by
  refine (built_eq_iff perm).mpr fun service documented key => ?_
  obtain ⟨s, found⟩ := Table.mem_keys.mp documented
  have listed : ∀ e, e ∈ s.endpoints ↔ e ∈ p.endpointsOf input service := by
    intro e
    rw [(built_contents found).1, List.mem_mergeSort]
  have one : ∀ a ∈ p.endpointsOf input service, ∀ b ∈ p.endpointsOf input service, a.key = b.key → a = b := by
    intro a here b there
    exact untied s (Table.mem_values.mpr ⟨service, Table.get?_sorted.trans found⟩) a ((listed a).mpr here) b
      ((listed b).mpr there)
  have same : ((p.endpointsOf { input with bindings } service).filter fun e => e.key = key).Perm
      ((p.endpointsOf input service).filter fun e => e.key = key) := (endpointsOf_perm perm).filter _
  have all : ∀ e, e ∈ (p.endpointsOf input service).filter (fun e => e.key = key) ↔
      e ∈ p.endpointsOf input service ∧ e.key = key := by simp
  have equal : ∀ a b, a ∈ (p.endpointsOf { input with bindings } service).filter (fun e => e.key = key) →
      b ∈ (p.endpointsOf input service).filter (fun e => e.key = key) → True → True → a = b := by
    intro a b here there _ _
    obtain ⟨here, keyed⟩ := (all a).mp (same.mem_iff.mp here)
    obtain ⟨there, keyed'⟩ := (all b).mp there
    exact one a here b there (keyed.trans keyed'.symm)
  have any (endpoints : List Endpoint) : endpoints.Pairwise fun _ _ => True :=
    List.pairwise_of_forall fun _ _ => trivial
  exact same.eq_of_pairwise equal (any _) (any _)

end

/-- A lenient generation ends with an error only where the classes of its services conflict. -/
theorem generate_lenient (lenient : options.failFast = false) : p.generate input encoder options =
    (fun classes => ⟨⟨(p.built input encoder options).sorted, classes.sorted⟩, p.failures input encoder options⟩) <$>
      unionClasses (p.built input encoder options).sorted.values := by
  rw [generate_eq, lenient]

/-- Bindings in another order make the same specification or fail in the same way. Only endpoints that have path and
service name in common may change places, and they do only if they were registered in another order. -/
theorem generate_reordered (lenient : options.failFast = false) (perm : bindings.Perm input.bindings) :
    (∀ e, p.generate input encoder options = .error e →
      p.generate { input with bindings } encoder options = .error e) ∧
    ∀ o, p.generate input encoder options = .ok o →
      ∃ o', p.generate { input with bindings } encoder options = .ok o' ∧
        o.specification.Reordered o'.specification ∧
        (o'.specification = o.specification ↔ ∀ service ∈ o.specification.services.keys, ∀ key,
          (p.endpointsOf { input with bindings } service).filter (fun e => e.key = key) =
            (p.endpointsOf input service).filter fun e => e.key = key) ∧
        ((∀ s ∈ o.specification.services.values, ∀ a ∈ s.endpoints, ∀ b ∈ s.endpoints, a.key = b.key → a = b) →
          o'.specification = o.specification) := by
  have here : p.generate input encoder options = _ := generate_lenient lenient
  have there : p.generate { input with bindings } encoder options = _ := generate_lenient lenient
  rw [unionClasses_perm perm] at there
  cases united : unionClasses (p.built input encoder options).sorted.values with
  | error e =>
    rw [united] at here there
    refine ⟨fun e' failed => ?_, fun o generated => ?_⟩
    · cases here.symm.trans failed
      exact there
    · cases here.symm.trans generated
  | ok classes =>
    rw [united] at here there
    refine ⟨fun e failed => ?_, fun o generated => ?_⟩
    · cases here.symm.trans failed
    · cases here.symm.trans generated
      refine ⟨_, there, built_reordered perm classes.sorted, ?_, fun untied => ?_⟩
      · dsimp only
        rw [Specification.mk.injEq, and_iff_left rfl, built_eq_iff perm]
        simp only [Table.mem_keys_sorted]
      · exact congrArg (Specification.mk · classes.sorted) (built_eq_of_untied perm untied)

end Provider

theorem shopInput_reversed :
    ∃ o o', shopProvider.generate shopInput none {} = .ok o ∧
      shopProvider.generate { shopInput with bindings := shopInput.bindings.reverse } none {} = .ok o' ∧
      o.specification.services.keys = ["Orders"] ∧ o'.specification = o.specification := by
  have run : (fun o => (o.specification.services.keys, o.specification.services.values.map fun s =>
        s.endpoints.map Endpoint.key)) <$> shopProvider.generate shopInput none {} =
      .ok (["Orders"], [[("/eu", ""), ("/shop", ""), ("/shop", "orders")]]) := by
    cbv
  obtain ⟨o, generated, shown⟩ := map_eq_ok.mp run
  obtain ⟨services, keys⟩ := Prod.mk.inj shown
  obtain ⟨o', again, -, -, untied⟩ :=
    (Provider.generate_reordered (p := shopProvider) rfl (List.reverse_perm _)).2 o generated
  refine ⟨o, o', generated, again, services, untied fun s mem a here b there same => ?_⟩
  have own : s.endpoints.map Endpoint.key = [("/eu", ""), ("/shop", ""), ("/shop", "orders")] := by
    have mem := List.mem_map_of_mem (f := fun s => s.endpoints.map Endpoint.key) mem
    rw [keys] at mem
    exact List.mem_singleton.mp mem
  exact List.inj_on_of_nodup_map (by rw [own]; decide) here there same

/-- A host that takes orders at the same path as any other. -/
def hostBinding (hostPattern : String) : Binding where
  hostPattern
  route := .exact "/"
  defaultFormat := .binary
  allowedFormats := [.binary]
  entries := .ofList [("", ["Orders"])]

/-- The order of two hosts shows in what is documented. -/
theorem hosts_show_registration :
    [hostBinding "us", hostBinding "eu"].Perm [hostBinding "eu", hostBinding "us"] ∧
    ∃ o o', orderProvider.generate { bindings := [hostBinding "eu", hostBinding "us"] } none {} = .ok o ∧
      orderProvider.generate { bindings := [hostBinding "us", hostBinding "eu"] } none {} = .ok o' ∧
      o'.specification ≠ o.specification := by
  have first : (fun o => o.specification.services.values.map fun s => s.endpoints.map (·.hostPattern)) <$>
      orderProvider.generate { bindings := [hostBinding "eu", hostBinding "us"] } none {} = .ok [["eu", "us"]] := by
    cbv
  have second : (fun o => o.specification.services.values.map fun s => s.endpoints.map (·.hostPattern)) <$>
      orderProvider.generate { bindings := [hostBinding "us", hostBinding "eu"] } none {} = .ok [["us", "eu"]] := by
    cbv
  obtain ⟨o, generated, shown⟩ := map_eq_ok.mp first
  obtain ⟨o', again, shown'⟩ := map_eq_ok.mp second
  refine ⟨.swap _ _ _, o, o', generated, again, fun same => ?_⟩
  rw [same, shown] at shown'
  simp at shown'

end ThriftCatalog
