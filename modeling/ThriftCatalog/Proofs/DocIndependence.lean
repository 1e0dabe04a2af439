import ThriftCatalog.Proofs.Generation
import ThriftCatalog.Proofs.Undocumented

/-! Docs decide nothing. A generation goes the same way whatever the docs are: all classes that are ever compared come
from one resolver, so two of them that are alike without docs have one descriptor and are the same. -/
namespace ThriftCatalog

open Fallible Generation TypeInfo

namespace Resolver

variable {r : Resolver} {c d : ClassInfo}

def Gives (r : Resolver) (c : ClassInfo) : Prop := r.Resolves c.descriptor c.toType

/-- Classes of one resolver that are alike without docs are the same. -/
theorem Gives.eq_of_bare (first : r.Gives c) (second : r.Gives d) (alike : c.bare = d.bare) : c = d := by
  have descriptors : c.descriptor = d.descriptor := by
    rw [← c.bare_descriptor, ← d.bare_descriptor, alike]
  have trees : c.toType = d.toType := Resolves.functional first (descriptors ▸ second)
  exact ClassInfo.toType_injective trees

theorem Resolves.gives {v : ValueDescriptor} {t : TypeInfo} (resolves : r.Resolves v t) (occurs : Occurs c.toType t) :
    r.Gives c := by
  obtain ⟨v', -, found⟩ := resolves.occurs occurs
  obtain rfl := found.origin.1 c (asClass?_toType c)
  exact found

theorem function_gives {service : String} {samples : Samples} {m : MethodDescriptor} {f : FunctionInfo}
    (made : r.function service samples m = .ok f) (mem : c ∈ f.classes) : r.Gives c := by
  obtain ⟨parameters, returnType, exceptions, sample, taken, returned, thrown, -, rfl⟩ := function_eq_ok.mp made
  rcases FunctionInfo.mem_classes.mp mem with occurs | ⟨p, mem, occurs⟩ | ⟨e, mem, occurs⟩
  · unfold Resolver.returnType at returned
    split at returned
    · exact Resolves.gives ⟨_, returned⟩ occurs
    · cases returned
      rcases occurs.cases_tail with same | ⟨_, -, part⟩
      · cases c <;> contradiction
      · cases part
  · obtain ⟨field, -, resolved⟩ := mem_of_mapM taken mem
    obtain ⟨t, found, rfl⟩ := fieldBy_eq_ok.mp resolved
    exact Resolves.gives ⟨_, found⟩ occurs
  · obtain ⟨name, -, resolved⟩ := mem_of_mapM thrown mem
    exact Resolves.gives ⟨_, resolveException_eq_ok.mp resolved⟩ occurs

end Resolver

namespace ClassSet

variable {r : Resolver} {s s' : ClassSet} {entries : List (String × ClassInfo)}

def GivenBy (r : Resolver) (s : ClassSet) : Prop := ∀ name c, s.get? name = some c → r.Gives c

theorem givenBy_empty : GivenBy r ∅ := nofun

def bare (s : ClassSet) : ClassSet := ⟨s.table.map ClassInfo.bare⟩

theorem GivenBy.insertAll (held : GivenBy r s) (arriving : ∀ entry ∈ entries, r.Gives entry.2)
    (recorded : s.insertAll entries = (s', none)) : GivenBy r s' := by
  intro name c found
  rcases (insertAll_get? recorded).mp found with before | listed
  · exact held name c before
  · exact arriving (name, c) listed

theorem GivenBy.insert? {name : String} {c : ClassInfo} (held : GivenBy r s) (arriving : r.Gives c)
    (recorded : s.insert? name c = some s') : GivenBy r s' := by
  intro other d found
  rw [(insert?_eq_some recorded).2 other] at found
  split at found
  · cases found
    exact arriving
  · exact held other d found

theorem bare_insert? {name : String} {c : ClassInfo} (held : GivenBy r s) (arriving : r.Gives c) :
    s.bare.insert? name c.bare = (s.insert? name c).map bare := by
  have found : s.bare.table.get? name = (s.table.get? name).map ClassInfo.bare := Table.get?_map
  unfold ClassSet.insert?
  rw [found]
  cases present : s.table.get? name with
  | none => exact congrArg (fun table => some (ClassSet.mk table)) Table.map_insert.symm
  | some d =>
    -- The comparison looks at docs, but the held class and the new one come from the same resolver.
    have alike : d.bare = c.bare ↔ d = c :=
      ⟨(held name d present).eq_of_bare arriving, fun same => congrArg ClassInfo.bare same⟩
    simp only [Option.map_some, alike]
    split <;> rfl

/-- Classes that one resolver gives are recorded alike with docs and without, up to the same conflict. -/
theorem bare_insertAll (held : GivenBy r s) (arriving : ∀ entry ∈ entries, r.Gives entry.2) :
    s.bare.insertAll (entries.map fun entry => (entry.1, entry.2.bare)) =
      ((s.insertAll entries).1.bare, (s.insertAll entries).2) := by
  induction entries generalizing s with
  | nil => rfl
  | cons entry rest ih =>
    obtain ⟨name, c⟩ := entry
    have first : r.Gives c := arriving (name, c) List.mem_cons_self
    simp only [List.map_cons, ClassSet.insertAll, bare_insert? held first]
    cases recorded : s.insert? name c with
    | none => rfl
    | some s' => exact ih (held.insert? first recorded) fun entry mem => arriving entry (List.mem_cons_of_mem _ mem)

theorem bare_collectFunction {f : FunctionInfo} (held : GivenBy r s) (arriving : ∀ c ∈ f.classes, r.Gives c) :
    s.bare.collectFunction f.bare = ((s.collectFunction f).1.bare, (s.collectFunction f).2) := by
  have named : f.bare.classes.map (fun c => (c.name, c)) =
      (f.classes.map fun c => (c.name, c)).map fun entry => (entry.1, entry.2.bare) := by
    simp only [FunctionInfo.bare_classes, List.map_map, Function.comp_def, ClassInfo.bare_name]
  rw [collectFunction, collectAll, named]
  exact bare_insertAll held (List.forall_mem_map.mpr arriving)

end ClassSet

namespace ServiceDraft

variable {r : Resolver} {d : ServiceDraft} {service : String} {samples : Samples}

def bare (d : ServiceDraft) : ServiceDraft := ⟨d.functions.map FunctionInfo.bare, d.classes.bare⟩

theorem bare_add (blind : samples.Blind) (held : d.classes.GivenBy r) (m : MethodDescriptor) :
    bare <$> d.add r service samples m = d.bare.add r.bare service samples m := by
  rw [add, add, ← Resolver.bare_function blind m]
  refine bind_mapped fun f made => ?_
  have classes : d.bare.classes.collectFunction f.bare =
      ((d.classes.collectFunction f).1.bare, (d.classes.collectFunction f).2) :=
    ClassSet.bare_collectFunction held fun c mem => Resolver.function_gives made mem
  rw [classes]
  cases d.classes.collectFunction f with
  | mk reached conflict =>
    cases conflict with
    | some name => rfl
    | none => exact congrArg (fun functions => Except.ok (ServiceDraft.mk functions reached.bare)) Table.map_insert

theorem add_givenBy {d' : ServiceDraft} {m : MethodDescriptor} (held : d.classes.GivenBy r)
    (added : d.add r service samples m = .ok d') : d'.classes.GivenBy r := by
  obtain ⟨f, made, -, collected⟩ := add_eq_ok.mp added
  refine held.insertAll (List.forall_mem_map.mpr fun c mem => ?_) collected
  exact Resolver.function_gives made mem

end ServiceDraft

def ServiceInfo.bare (s : ServiceInfo) : ServiceInfo :=
  { s with functions := s.functions.map FunctionInfo.bare, classes := s.classes.map ClassInfo.bare, doc := none }

theorem Provider.bare_service {p : Provider} {samples : Samples} (blind : samples.Blind) (name : String)
    (endpoints : List Endpoint) (headers : List Headers) (maxDepth : Nat) :
    ServiceInfo.bare <$> p.service name endpoints headers samples maxDepth =
      p.bare.service name endpoints headers samples maxDepth := by
  have answered : p.bare.methods name = p.methods name := rfl
  rw [service, service, answered]
  cases p.methods name with
  | error e => rfl
  | ok methods =>
    have drafts : ServiceDraft.bare <$> methods.foldlM (ServiceDraft.add ⟨p, p.docs, maxDepth⟩ name samples) {} =
        methods.foldlM (ServiceDraft.add ⟨p.bare, ∅, maxDepth⟩ name samples) {} :=
      foldlM_mapped (fun d m _ held => ServiceDraft.bare_add blind held m)
        (fun d m _ held _ => ServiceDraft.add_givenBy held) ClassSet.givenBy_empty
    change ServiceInfo.bare <$> (methods.foldlM (ServiceDraft.add ⟨p, p.docs, maxDepth⟩ name samples) {} >>= _) =
      methods.foldlM (ServiceDraft.add ⟨p.bare, ∅, maxDepth⟩ name samples) {} >>= _
    rw [← drafts]
    refine bind_mapped fun draft _ => ?_
    have classes : draft.bare.classes.sorted = draft.classes.sorted.map ClassInfo.bare := Table.sorted_map
    rw [classes]
    rfl

theorem Provider.service_gives {p : Provider} {samples : Samples} {name : String} {endpoints : List Endpoint}
    {headers : List Headers} {maxDepth : Nat} {s : ServiceInfo}
    (made : p.service name endpoints headers samples maxDepth = .ok s) :
    ∀ entry ∈ s.classes.entries, Resolver.Gives ⟨p, p.docs, maxDepth⟩ entry.2 := by
  obtain ⟨methods, built, classes, -, builds, collected, rfl⟩ := service_eq_ok.mp made
  intro entry mem
  have found : classes.get? entry.1 = some entry.2 := ClassSet.get?_sorted.symm.trans (Table.mem_entries.mp mem)
  rcases (ClassSet.collectAll_get? collected).mp found with none | ⟨collected, -⟩
  · contradiction
  · obtain ⟨f, listed, shown⟩ := List.mem_flatMap.mp collected
    obtain ⟨m, -, made⟩ := mem_of_mapM (mapM_eq_ok.mpr builds) listed
    exact Resolver.function_gives made shown

namespace Generation

theorem bare_unionClasses {r : Resolver} {services : List ServiceInfo}
    (given : ∀ s ∈ services, ∀ entry ∈ s.classes.entries, r.Gives entry.2) :
    ClassSet.bare <$> unionClasses services = unionClasses (services.map ServiceInfo.bare) := by
  unfold unionClasses
  rw [List.foldlM_map]
  refine foldlM_mapped (I := ClassSet.GivenBy r) ?_ ?_ ClassSet.givenBy_empty
  · intro classes s mem held
    have merged : classes.bare.merge s.bare.classes =
        ((classes.merge s.classes).1.bare, (classes.merge s.classes).2) := ClassSet.bare_insertAll held (given s mem)
    rw [merged]
    cases classes.merge s.classes with
    | mk reached conflict => cases conflict <;> rfl
  · intro classes s mem held reached united
    cases merged : classes.merge s.classes with
    | mk reached' conflict =>
      rw [merged] at united
      cases conflict with
      | some name => contradiction
      | none =>
        cases united
        exact held.insertAll (given s mem) merged

variable {p : Provider} {samples : Samples} {options : GenerationOptions}

theorem bare_groupService (blind : samples.Blind) (entry : String × ServiceEntry) :
    ServiceInfo.bare <$> p.groupService samples options entry = p.bare.groupService samples options entry :=
  Provider.bare_service blind ..

theorem bare_failure? (blind : samples.Blind) (entry : String × ServiceEntry) :
    failure? p.bare samples options entry = failure? p samples options entry := by
  rw [failure?, failure?, ← bare_groupService blind]
  cases p.groupService samples options entry <;> rfl

theorem bare_success? (blind : samples.Blind) (entry : String × ServiceEntry) :
    success? p.bare samples options entry =
      (success? p samples options entry).map fun built => (built.1, built.2.bare) := by
  rw [success?, success?, ← bare_groupService blind]
  cases p.groupService samples options entry <;> rfl

end Generation

def Outcome.bare (o : Outcome) : Outcome where
  specification := {
    services := o.specification.services.map ServiceInfo.bare
    classes := o.specification.classes.map ClassInfo.bare }
  failures := o.failures

namespace Provider

variable {p : Provider} {input : GenerationInput} {encoder : Option Sample.Encoder} {options : GenerationOptions}

theorem bare_group (bindings : List Binding) (headers : Table (List Headers)) :
    p.bare.group bindings headers = p.group bindings headers := rfl

theorem bare_failures (blind : Samples.Blind ⟨input.sampleRequests, encoder⟩) :
    p.bare.failures input encoder options = p.failures input encoder options := by
  rw [failures, failures, bare_group]
  simp only [bare_failure? blind]

theorem bare_built (blind : Samples.Blind ⟨input.sampleRequests, encoder⟩) :
    p.bare.built input encoder options = (p.built input encoder options).map ServiceInfo.bare := by
  apply Table.ext
  rw [Table.entries_map, built_entries, built_entries, bare_group, List.map_filterMap]
  congr 1
  exact funext (bare_success? blind)

/-- A generation without docs gives what the generation with docs gives once they are taken out. -/
theorem bare_generate (blind : Samples.Blind ⟨input.sampleRequests, encoder⟩) :
    Outcome.bare <$> p.generate input encoder options = p.bare.generate input encoder options := by
  have given : ∀ s ∈ (p.built input encoder options).sorted.values, ∀ entry ∈ s.classes.entries,
      Resolver.Gives ⟨p, p.docs, options.maxDepth⟩ entry.2 := by
    intro s mem
    obtain ⟨name, found⟩ := Table.mem_values.mp mem
    obtain ⟨entry, -, -, made⟩ := get?_built.mp (Table.get?_sorted.symm.trans found)
    exact service_gives made
  rw [generate_eq, generate_eq, bare_failures blind, bare_built blind, Table.sorted_map, Table.values_map]
  split
  · rfl
  · refine map_mapped (fun classes => ?_) (bare_unionClasses given)
    have sorted : classes.bare.sorted = classes.sorted.map ClassInfo.bare := Table.sorted_map
    rw [sorted]
    rfl

/-- Generating is blind to docs. Two providers that differ in their docs alone end with the same error, or with the same
failures and with specifications that differ in docs alone. -/
theorem generate_docs (p : Provider) (docs : Table String) (input : GenerationInput) (encode : Bool)
    (options : GenerationOptions) :
    Outcome.bare <$> p.generate input (if encode then some Sample.jsonEncoder else none) options =
      Outcome.bare <$> { p with docs }.generate input (if encode then some Sample.jsonEncoder else none) options := by
  have blind := Samples.blind input.sampleRequests encode
  rw [bare_generate blind, bare_generate blind]
  rfl

end Provider

end ThriftCatalog
