import ThriftCatalog.Proofs.Grouping
import ThriftCatalog.Proofs.Service

/-! What a successful generation consists of: the grouped interfaces, the services built from the groups, and the
union of their classes. -/
namespace ThriftCatalog

open Fallible Generation

variable {p : Provider}

def Provider.groupService (p : Provider) (samples : Samples) (options : GenerationOptions)
    (entry : String × ServiceEntry) : Except GenerationError ServiceInfo :=
  p.service entry.1 entry.2.endpoints entry.2.exampleHeaders samples options.maxDepth

namespace Generation

/-- The service of a group under its name, if it can be built. -/
def success? (p : Provider) (samples : Samples) (options : GenerationOptions) (entry : String × ServiceEntry) :
    Option (String × ServiceInfo) :=
  match p.groupService samples options entry with
  | .ok s => some (entry.1, s)
  | .error _ => none

/-- The failure of a group whose service cannot be built. -/
def failure? (p : Provider) (samples : Samples) (options : GenerationOptions) (entry : String × ServiceEntry) :
    Option Failure :=
  match p.groupService samples options entry with
  | .error e => some ⟨entry.1, e⟩
  | .ok _ => none

variable {samples : Samples} {options : GenerationOptions} {entry : String × ServiceEntry}

theorem success?_eq_some {built : String × ServiceInfo} :
    success? p samples options entry = some built ↔
      entry.1 = built.1 ∧ p.groupService samples options entry = .ok built.2 := by
  unfold success?
  cases p.groupService samples options entry <;> simp [Prod.ext_iff]

theorem failure?_eq_some {failure : Failure} :
    failure? p samples options entry = some failure ↔
      entry.1 = failure.name ∧ p.groupService samples options entry = .error failure.error := by
  obtain ⟨name, e⟩ := failure
  unfold failure?
  cases p.groupService samples options entry <;> simp

theorem Progress.add_ok {s : ServiceInfo} (made : p.groupService samples options entry = .ok s) (start : Progress) :
    start.add p samples options entry = .ok { start with services := start.services.insert entry.1 s } := by
  rw [Progress.add, ← Provider.groupService, made]

theorem Progress.add_error {e : GenerationError} (failed : p.groupService samples options entry = .error e)
    (start : Progress) : start.add p samples options entry =
      if options.failFast then .error e else .ok { start with failures := start.failures ++ [⟨entry.1, e⟩] } := by
  rw [Progress.add, ← Provider.groupService, failed]

/-- All services that can be built are recorded, and all failures, in the order of the groups. A strict run ends with
the first failure. -/
theorem Progress.foldlM_add (start : Progress) (entries : List (String × ServiceEntry)) :
    entries.foldlM (Progress.add p samples options) start =
      match options.failFast, entries.filterMap (failure? p samples options) with
      | true, failure :: _ => .error failure.error
      | _, failures => .ok ⟨start.services.insertAll (entries.filterMap (success? p samples options)),
          start.failures ++ failures⟩ := by
  induction entries generalizing start with
  | nil => cases options.failFast <;> simp [Table.insertAll, pure, Except.pure]
  | cons entry entries ih =>
    rw [List.foldlM_cons, List.filterMap_cons, List.filterMap_cons, success?, failure?]
    cases made : p.groupService samples options entry with
    | ok s =>
      rw [add_ok made]
      exact ih _
    | error e =>
      rw [add_error made]
      cases strict : options.failFast with
      | true => rfl
      | false =>
        rw [strict] at ih
        refine (ih _).trans ?_
        simp only [List.append_assoc, List.cons_append, List.nil_append]

end Generation

theorem Generation.unionClasses_eq_ok {services : List ServiceInfo} {classes : ClassSet} :
    unionClasses services = .ok classes ↔
      (∅ : ClassSet).insertAll (services.flatMap fun s => s.classes.entries) = (classes, none) := by
  unfold unionClasses
  generalize (∅ : ClassSet) = start
  induction services generalizing start with
  | nil => simp [ClassSet.insertAll, pure, Except.pure]
  | cons s services ih =>
    rw [List.foldlM_cons, bind_eq_ok, List.flatMap_cons, ClassSet.insertAll_append]
    apply exists_congr
    intro middle
    rw [ih]
    apply and_congr_left'
    unfold ClassSet.merge
    cases start.insertAll s.classes.entries with
    | mk reached conflict => cases conflict <;> simp

/-- The union holds exactly the classes of the services. -/
theorem Generation.unionClasses_get? {services : List ServiceInfo} {classes : ClassSet} {name : String} {c : ClassInfo}
    (united : unionClasses services = .ok classes) :
    classes.get? name = some c ↔ ∃ s ∈ services, s.classes.get? name = some c := by
  rw [ClassSet.insertAll_get? (unionClasses_eq_ok.mp united)]
  simp [Table.mem_entries]

def Provider.built (p : Provider) (input : GenerationInput) (encoder : Option Sample.Encoder)
    (options : GenerationOptions) : Table ServiceInfo :=
  .ofList ((p.group input.bindings input.exampleHeaders).entries.entries.filterMap
    (success? p ⟨input.sampleRequests, encoder⟩ options))

/-- What fails in an input: first the interfaces that belong to no service, then the services that cannot be built. -/
def Provider.failures (p : Provider) (input : GenerationInput) (encoder : Option Sample.Encoder)
    (options : GenerationOptions) : List Failure :=
  (p.group input.bindings input.exampleHeaders).failures ++
    (p.group input.bindings input.exampleHeaders).entries.entries.filterMap
      (failure? p ⟨input.sampleRequests, encoder⟩ options)

section

variable {input : GenerationInput} {encoder : Option Sample.Encoder} {options : GenerationOptions} {o : Outcome}
  {name : String} {s : ServiceInfo}

theorem Provider.built_entries : (p.built input encoder options).entries =
    (p.group input.bindings input.exampleHeaders).entries.entries.filterMap
      (success? p ⟨input.sampleRequests, encoder⟩ options) := by
  refine Table.entries_ofList (List.Nodup.sublist ?_ (p.group input.bindings input.exampleHeaders).entries.nodup_keys)
  generalize (p.group input.bindings input.exampleHeaders).entries.entries = entries
  induction entries with
  | nil => exact .slnil
  | cons entry entries ih =>
    rw [List.filterMap_cons]
    cases made : success? p ⟨input.sampleRequests, encoder⟩ options entry with
    | none => exact ih.cons _
    | some built =>
      obtain ⟨same, -⟩ := success?_eq_some.mp made
      rw [List.map_cons, List.map_cons, same]
      exact ih.cons_cons _

/-- Nothing fails if every interface belongs to a service and every group is built. -/
theorem Provider.failures_eq_nil : p.failures input encoder options = [] ↔
    (∀ interface ∈ input.interfaces, ∃ service, p.enclosingService interface = .ok service) ∧
    ∀ entry ∈ (p.group input.bindings input.exampleHeaders).entries.entries, ∃ s,
      p.groupService ⟨input.sampleRequests, encoder⟩ options entry = .ok s := by
  rw [failures, List.append_eq_nil_iff, group_failures, List.filterMap_eq_nil_iff, List.filterMap_eq_nil_iff]
  apply and_congr
  · rw [GenerationInput.interfaces, List.forall_mem_map]
    refine forall₂_congr fun x _ => ?_
    unfold rejection?
    cases p.enclosingService x.interface <;> simp
  · refine forall₂_congr fun entry _ => ?_
    unfold failure?
    cases p.groupService ⟨input.sampleRequests, encoder⟩ options entry <;> simp

/-- A service stands under the name of the group that it was built for. -/
theorem Provider.get?_built : (p.built input encoder options).get? name = some s ↔
    ∃ entry ∈ (p.group input.bindings input.exampleHeaders).entries.entries, entry.1 = name ∧
      p.groupService ⟨input.sampleRequests, encoder⟩ options entry = .ok s := by
  rw [← Table.mem_entries, built_entries, List.mem_filterMap]
  simp only [success?_eq_some]

/-- A group has a service exactly if this can be built. -/
theorem Provider.mem_keys_built {entry : String × ServiceEntry}
    (mem : entry ∈ (p.group input.bindings input.exampleHeaders).entries.entries) :
    entry.1 ∈ (p.built input encoder options).keys ↔
      ∃ s, p.groupService ⟨input.sampleRequests, encoder⟩ options entry = .ok s := by
  rw [Table.mem_keys]
  constructor
  · rintro ⟨s, found⟩
    obtain ⟨other, listed, same, made⟩ := get?_built.mp found
    have here := Table.mem_entries.mp mem
    have there := Table.mem_entries.mp listed
    have one : other = entry := Prod.ext same (Option.some.inj (there.symm.trans (same ▸ here)))
    exact ⟨s, one ▸ made⟩
  · rintro ⟨s, made⟩
    exact ⟨s, get?_built.mpr ⟨entry, mem, rfl, made⟩⟩

/-- A generation in closed form. Unless it must end with a failure, it lists the services that can be built in
ascending order of names, with the union of their classes. -/
theorem Provider.generate_eq : p.generate input encoder options =
    match options.failFast, p.failures input encoder options with
    | true, failure :: _ => .error failure.error
    | _, failures => (fun classes => ⟨⟨(p.built input encoder options).sorted, classes.sorted⟩, failures⟩) <$>
        unionClasses (p.built input encoder options).sorted.values := by
  unfold Provider.generate Provider.failures Provider.built
  simp only [Progress.foldlM_add]
  generalize (p.group input.bindings input.exampleHeaders).failures = unplaced
  generalize (p.group input.bindings input.exampleHeaders).entries.entries = entries
  cases options.failFast with
  | false => rfl
  | true =>
    cases unplaced with
    | cons failure rest => rfl
    | nil => cases entries.filterMap (failure? p ⟨input.sampleRequests, encoder⟩ options) <;> rfl

theorem Provider.generate_eq_ok : p.generate input encoder options = .ok o ↔
    (options.failFast = true → p.failures input encoder options = []) ∧ ∃ classes,
      unionClasses (p.built input encoder options).sorted.values = .ok classes ∧
      o = ⟨⟨(p.built input encoder options).sorted, classes.sorted⟩, p.failures input encoder options⟩ := by
  rw [generate_eq]
  split
  · next strict failed => simp [strict, failed]
  · next other =>
    have free : options.failFast = true → p.failures input encoder options = [] := by
      intro strict
      cases failed : p.failures input encoder options with
      | nil => rfl
      | cons failure rest => exact absurd failed (other failure rest strict)
    rw [map_eq_ok, and_iff_right free]
    exact exists_congr fun classes => and_congr_right' eq_comm

theorem Provider.generate_failures (h : p.generate input encoder options = .ok o) :
    o.failures = p.failures input encoder options := by
  obtain ⟨-, classes, -, rfl⟩ := generate_eq_ok.mp h
  rfl

/-- The union of the classes meets no conflict where one predicate singles out one definition for each name. -/
theorem Provider.union_isOk {P : String → ClassInfo → Prop} (unique : ∀ name c d, P name c → P name d → c = d)
    (each : ∀ name s, (p.built input encoder options).get? name = some s →
      ∀ key c, s.classes.get? key = some c → P key c) :
    ∃ classes, unionClasses (p.built input encoder options).sorted.values = .ok classes := by
  have arriving : ∀ key c,
      (key, c) ∈ (p.built input encoder options).sorted.values.flatMap (fun s => s.classes.entries) → P key c := by
    intro key c mem
    obtain ⟨s, listed, found⟩ := List.mem_flatMap.mp mem
    obtain ⟨name, stored⟩ := Table.mem_values.mp listed
    exact each name s (Table.get?_sorted.symm.trans stored) key c (Table.mem_entries.mp found)
  obtain ⟨classes, united⟩ := ClassSet.insertAll_of_unique (s := ∅) unique (fun _ _ none => by simp at none) arriving
  exact ⟨classes, unionClasses_eq_ok.mpr united⟩

/-- A lenient generation in which every group is built and no two classes of one name differ documents every group, and
fails for nothing but what could not be grouped. -/
theorem Provider.generate_isOk (lenient : options.failFast = false) {P : String → ClassInfo → Prop}
    (unique : ∀ name c d, P name c → P name d → c = d)
    (each : ∀ entry ∈ (p.group input.bindings input.exampleHeaders).entries.entries, ∃ s,
      p.groupService ⟨input.sampleRequests, encoder⟩ options entry = .ok s ∧
      ∀ name c, s.classes.get? name = some c → P name c) :
    ∃ o, p.generate input encoder options = .ok o ∧
      (∀ service, service ∈ o.specification.services.keys ↔
        service ∈ (p.group input.bindings input.exampleHeaders).entries.keys) ∧
      o.failures = (p.group input.bindings input.exampleHeaders).failures := by
  obtain ⟨classes, united⟩ : ∃ classes, unionClasses (p.built input encoder options).sorted.values = .ok classes := by
    refine union_isOk unique fun name s found => ?_
    obtain ⟨entry, mem, -, made⟩ := get?_built.mp found
    obtain ⟨s', made', kept⟩ := each entry mem
    cases made.symm.trans made'
    exact kept
  refine ⟨_, generate_eq_ok.mpr ⟨by simp [lenient], classes, united, rfl⟩, fun service => ?_, ?_⟩
  · rw [Table.mem_keys_sorted]
    constructor
    · intro documented
      obtain ⟨s, found⟩ := Table.mem_keys.mp documented
      obtain ⟨entry, mem, rfl, -⟩ := get?_built.mp found
      exact Table.mem_keys_of_entry mem
    · intro grouped
      obtain ⟨entry, mem, rfl⟩ := List.mem_map.mp grouped
      obtain ⟨s, made, -⟩ := each entry mem
      exact (mem_keys_built mem).mpr ⟨s, made⟩
  · refine List.append_right_eq_self.mpr (List.filterMap_eq_nil_iff.mpr fun entry mem => ?_)
    obtain ⟨s, made, -⟩ := each entry mem
    rw [failure?, made]

end

end ThriftCatalog
