import ThriftCatalog.Proofs.Closure
import ThriftCatalog.Proofs.Resolution

/-! Where conflicts come from. Resolving types never ends with one, so where every name has only one definition among
the classes of all functions, neither does building a service, nor a generation. -/
namespace ThriftCatalog

open Fallible Generation

def GenerationError.NoConflict (e : GenerationError) : Prop := ∀ name, e ≠ .conflict name

open GenerationError

theorem answer_noConflict {α : Type} (x : Except LookupError α) : OnlyFails NoConflict (answer x) :=
  .mapError fun _ _ => nofun

namespace Resolver

variable {r : Resolver}

theorem resolveAt_noConflict (room : Nat) (v : ValueDescriptor) : OnlyFails NoConflict (r.resolveAt room v) := by
  intro e failed name conflict
  cases resolveAt_fails room v e failed <;> contradiction

theorem resolveException_noConflict (name : String) : OnlyFails NoConflict (r.resolveException name) := by
  unfold resolveException
  split
  · exact .error fun _ => nofun
  · exact recordBy_onlyFails (fun _ _ => nofun) fun _ _ f _ => resolveAt_noConflict _ f.value

theorem returnType_noConflict (m : MethodDescriptor) : OnlyFails NoConflict (r.returnType m) := by
  unfold returnType
  cases m.success? with
  | none => exact .ok _
  | some success => exact resolveAt_noConflict _ _

theorem function_noConflict (service : String) (samples : Samples) (m : MethodDescriptor) :
    OnlyFails NoConflict (r.function service samples m) := by
  have parameters : OnlyFails NoConflict (m.parameters.mapM (r.resolveField (docKey service m.name))) :=
    .mapM fun f _ => fieldBy_onlyFails (resolveAt_noConflict _ f.value)
  have thrown : OnlyFails NoConflict
      ((m.exceptions.filter (· ≠ MethodDescriptor.baseException)).mapM r.resolveException) :=
    .mapM fun name _ => resolveException_noConflict name
  have sample (infos : List FieldInfo) : OnlyFails NoConflict
      ((samples.encode m.argsType (docKey service m.name) infos).mapError .sample) :=
    .mapError fun _ _ => nofun
  rw [function_eq]
  exact parameters.bind fun infos _ => (returnType_noConflict m).bind fun _ _ => thrown.bind fun _ _ =>
    (sample infos).bind fun _ _ => .ok _

end Resolver

variable {P : String → ClassInfo → Prop}

/-- Collecting never fails while the classes that are held, and those that arrive, are what the predicate singles out
for their names. -/
theorem ServiceDraft.foldlM_add_noConflict (unique : ∀ name c d, P name c → P name d → c = d) {r : Resolver}
    {service : String} {samples : Samples} {d : ServiceDraft} (held : ∀ name c, d.classes.get? name = some c → P name c)
    {methods : List MethodDescriptor}
    (each : ∀ m ∈ methods, ∀ f, r.function service samples m = .ok f → ∀ c ∈ f.classes, P c.name c) :
    OnlyFails NoConflict (methods.foldlM (add r service samples) d) := by
  induction methods generalizing d with
  | nil => exact .ok d
  | cons m methods ih =>
    rw [List.foldlM_cons]
    refine OnlyFails.bind ?_ fun next added => ih ?_ fun m' mem => each m' (List.mem_cons_of_mem _ mem)
    · refine (Resolver.function_noConflict service samples m).bind fun f made => ?_
      have arriving : ∀ c ∈ f.classes, P c.name c := each m List.mem_cons_self f made
      obtain ⟨classes, collected⟩ := ClassSet.collectAll_of_unique unique held arriving
      have collected : d.classes.collectFunction f = (classes, none) := collected
      rw [collected]
      exact .ok _
    · intro name c found
      obtain ⟨f, made, -, collected⟩ := add_eq_ok.mp added
      rcases (ClassSet.collectAll_get? collected).mp found with before | ⟨collected, rfl⟩
      · exact held name c before
      · exact each m List.mem_cons_self f made c collected

/-- All functions that are built from a provider show the same class under a name, the one that the predicate singles
out. -/
structure Provider.Consistent (p : Provider) (samples : Samples) (maxDepth : Nat) (P : String → ClassInfo → Prop) :
    Prop where
  unique : ∀ name c d, P name c → P name d → c = d
  shown : ∀ service methods, p.methods service = .ok methods → ∀ m ∈ methods, ∀ f,
    Resolver.function ⟨p, p.docs, maxDepth⟩ service samples m = .ok f → ∀ c ∈ f.classes, P c.name c

namespace Provider.Consistent

section

variable {p : Provider} {samples : Samples} {maxDepth : Nat} {service : String} {endpoints : List Endpoint}
  {headers : List Headers}

theorem service_noConflict (consistent : p.Consistent samples maxDepth P) :
    OnlyFails NoConflict (p.service service endpoints headers samples maxDepth) := by
  refine (answer_noConflict (p.methods service)).bind fun methods answered => ?_
  have each := consistent.shown service methods (answer_eq_ok.mp answered)
  have draft : OnlyFails NoConflict
      (methods.foldlM (ServiceDraft.add ⟨p, p.docs, maxDepth⟩ service samples) {}) :=
    ServiceDraft.foldlM_add_noConflict consistent.unique (fun _ _ none => by simp at none) each
  exact draft.bind fun _ _ => .ok _

/-- Where all functions can be built, so can the service. -/
theorem service_isOk (consistent : p.Consistent samples maxDepth P) {methods : List MethodDescriptor}
    (answered : p.methods service = .ok methods) {built : List FunctionInfo}
    (builds : Resolver.Builds ⟨p, p.docs, maxDepth⟩ service samples methods built) :
    ∃ s, p.service service endpoints headers samples maxDepth = .ok s := by
  have arriving : ∀ c ∈ built.flatMap FunctionInfo.classes, P c.name c := by
    intro c collected
    obtain ⟨f, listed, shown⟩ := List.mem_flatMap.mp collected
    obtain ⟨m, declared, made⟩ := mem_of_mapM (mapM_eq_ok.mpr builds) listed
    exact consistent.shown service methods answered m declared f made c shown
  obtain ⟨classes, collected⟩ := ClassSet.collectAll_of_unique (s := ∅) consistent.unique
    (fun _ _ none => by simp at none) arriving
  exact ⟨_, service_eq_ok.mpr ⟨methods, built, classes, answered, builds, collected, rfl⟩⟩

theorem service_classes (consistent : p.Consistent samples maxDepth P) {s : ServiceInfo}
    (made : p.service service endpoints headers samples maxDepth = .ok s) {name : String} {c : ClassInfo}
    (found : s.classes.get? name = some c) : P name c := by
  obtain ⟨methods, built, answered, builds, -, -, listed⟩ := service_get? made
  obtain ⟨rfl, f, mem, mentions⟩ := (listed name c).mp found
  obtain ⟨m, declared, made⟩ := mem_of_mapM (mapM_eq_ok.mpr builds) mem
  exact consistent.shown service methods answered m declared f made c (FunctionInfo.mem_classes.mpr mentions)

end

section

variable {p : Provider} {input : GenerationInput} {encoder : Option Sample.Encoder} {options : GenerationOptions}

theorem failures_noConflict (consistent : p.Consistent ⟨input.sampleRequests, encoder⟩ options.maxDepth P) :
    ∀ failure ∈ p.failures input encoder options, failure.error.NoConflict := by
  intro failure mem
  rcases List.mem_append.mp mem with unplaced | unbuilt
  · rw [group_failures] at unplaced
    obtain ⟨x, -, rejected⟩ := List.mem_filterMap.mp unplaced
    unfold rejection? at rejected
    split at rejected
    · cases rejected
      exact fun _ => nofun
    · contradiction
  · obtain ⟨entry, -, failed⟩ := List.mem_filterMap.mp unbuilt
    exact consistent.service_noConflict _ (failure?_eq_some.mp failed).2

theorem classes_unite (consistent : p.Consistent ⟨input.sampleRequests, encoder⟩ options.maxDepth P) :
    ∃ classes, unionClasses (p.built input encoder options).sorted.values = .ok classes := by
  refine union_isOk consistent.unique fun name s found key c listed => ?_
  obtain ⟨entry, -, -, made⟩ := get?_built.mp found
  exact consistent.service_classes made listed

/-- A strict generation ends with the first failure, if there is one. Nothing else can go wrong. -/
theorem generate_noConflict (consistent : p.Consistent ⟨input.sampleRequests, encoder⟩ options.maxDepth P) :
    OnlyFails NoConflict (p.generate input encoder options) := by
  obtain ⟨classes, united⟩ := consistent.classes_unite
  rw [generate_eq, united]
  split
  · next failure rest _ failed =>
    have first : failure ∈ p.failures input encoder options := failed ▸ List.mem_cons_self
    exact .error (consistent.failures_noConflict failure first)
  · exact .ok _

theorem lenient_isOk (consistent : p.Consistent ⟨input.sampleRequests, encoder⟩ options.maxDepth P)
    (lenient : options.failFast = false) : ∃ o, p.generate input encoder options = .ok o := by
  obtain ⟨classes, united⟩ := consistent.classes_unite
  exact ⟨_, generate_eq_ok.mpr ⟨by simp [lenient], classes, united, rfl⟩⟩

end

end Provider.Consistent

end ThriftCatalog
