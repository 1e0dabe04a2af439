import ThriftCatalog.Proofs.Closure

/-! What samples change. A run with an encoder goes along with the run without one: each step either ends with a sample
that cannot be encoded, or gives the same up to the texts of samples. So samples can take away services, and classes
with them; nothing else in a specification depends on them. -/
namespace ThriftCatalog

open Fallible Generation

def FunctionInfo.withoutSample (f : FunctionInfo) : FunctionInfo := { f with sampleRequest := "" }

def ServiceInfo.withoutSamples (s : ServiceInfo) : ServiceInfo :=
  { s with functions := s.functions.map FunctionInfo.withoutSample }

def ServiceDraft.withoutSamples (d : ServiceDraft) : ServiceDraft :=
  { d with functions := d.functions.map FunctionInfo.withoutSample }

/-- A step with samples ends with one of them, or gives what the plain step gives once the samples are taken out. -/
def Follows {α β : Type} (strip : α → β) (plain : Except GenerationError β)
    (sampled : Except GenerationError α) : Prop :=
  (∃ failure, sampled = .error (.sample failure)) ∨ strip <$> sampled = plain

namespace Follows

variable {α β γ δ : Type} {strip : α → β} {strip' : γ → δ} {plain : Except GenerationError β}
  {sampled : Except GenerationError α}

theorem same (x : Except GenerationError α) : Follows id x x := .inr (id_map x)

theorem bind {f : β → Except GenerationError δ} {g : α → Except GenerationError γ}
    (first : Follows strip plain sampled) (next : ∀ a, Follows strip' (f (strip a)) (g a)) :
    Follows strip' (plain >>= f) (sampled >>= g) := by
  rcases first with ⟨failure, rfl⟩ | rfl
  · exact .inl ⟨failure, rfl⟩
  · cases sampled with
    | error e => exact .inr rfl
    | ok a => exact next a

theorem foldlM {ι : Type} {xs : List ι} {f : β → ι → Except GenerationError β}
    {g : α → ι → Except GenerationError α} (each : ∀ a x, Follows strip (f (strip a) x) (g a x)) (a : α) :
    Follows strip (xs.foldlM f (strip a)) (xs.foldlM g a) := by
  induction xs generalizing a with
  | nil => exact .inr rfl
  | cons x xs ih =>
    rw [List.foldlM_cons, List.foldlM_cons]
    exact (each a x).bind ih

theorem plain_ok {a : α} (follows : Follows strip plain (.ok a)) : plain = .ok (strip a) := by
  rcases follows with ⟨failure, failed⟩ | same
  · contradiction
  · exact same.symm

/-- Where the plain step succeeds, only a sample can fail. -/
theorem sample_failure {b : β} {e : GenerationError} (follows : Follows strip (.ok b) (.error e : Except _ α)) :
    ∃ failure, e = .sample failure := by
  rcases follows with ⟨failure, failed⟩ | same
  · exact ⟨failure, Except.error.inj failed⟩
  · contradiction

theorem error {e : GenerationError} (follows : Follows strip (.error e) sampled) : ∃ e', sampled = .error e' := by
  cases sampled with
  | error e' => exact ⟨e', rfl⟩
  | ok a => exact absurd follows.plain_ok nofun

end Follows

section Steps

variable {p : Provider} {r : Resolver} {service : String} {requests : Table Json} {encoder : Sample.Encoder}

theorem Samples.encode_none (argsType function : String) (parameters : List FieldInfo) :
    Samples.encode ⟨requests, none⟩ argsType function parameters = .ok "" := by
  unfold Samples.encode
  split
  · contradiction
  · rfl

theorem Resolver.function_follows (m : MethodDescriptor) : Follows FunctionInfo.withoutSample
    (r.function service ⟨requests, none⟩ m) (r.function service ⟨requests, some encoder⟩ m) := by
  rw [Resolver.function_eq, Resolver.function_eq]
  refine (Follows.same _).bind fun parameters => (Follows.same _).bind fun returned =>
    (Follows.same _).bind fun exceptions => ?_
  rw [Samples.encode_none]
  cases Samples.encode ⟨requests, some encoder⟩ m.argsType (docKey service m.name) parameters with
  | error failure => exact .inl ⟨failure, rfl⟩
  | ok text => exact .inr rfl

theorem ServiceDraft.add_follows (d : ServiceDraft) (m : MethodDescriptor) : Follows withoutSamples
    (d.withoutSamples.add r service ⟨requests, none⟩ m) (d.add r service ⟨requests, some encoder⟩ m) := by
  refine (r.function_follows m).bind fun f => .inr ?_
  -- Classes are collected from the types of a function, which have no samples in them.
  have classes : d.withoutSamples.classes.collectFunction f.withoutSample = d.classes.collectFunction f := rfl
  rw [classes]
  cases d.classes.collectFunction f with
  | mk reached conflict =>
    cases conflict with
    | some name => rfl
    | none => exact congrArg (fun functions => Except.ok (ServiceDraft.mk functions reached)) Table.map_insert

theorem Provider.service_follows (name : String) (endpoints : List Endpoint) (headers : List Headers)
    (maxDepth : Nat) : Follows ServiceInfo.withoutSamples
      (p.service name endpoints headers ⟨requests, none⟩ maxDepth)
      (p.service name endpoints headers ⟨requests, some encoder⟩ maxDepth) := by
  refine (Follows.same _).bind fun methods => ?_
  exact (Follows.foldlM ServiceDraft.add_follows {}).bind fun draft => .inr rfl

end Steps

/-- How an outcome with samples goes along with the outcome without them. -/
structure Outcome.Sampled (plain sampled : Outcome) : Prop where
  silent : ∀ name s, plain.specification.services.get? name = some s →
    ∀ key f, s.functions.get? key = some f → f.sampleRequest = ""
  services : ∀ name s, sampled.specification.services.get? name = some s →
    plain.specification.services.get? name = some s.withoutSamples
  classes : ∀ name c, sampled.specification.classes.get? name = some c →
    plain.specification.classes.get? name = some c
  /-- What fails without samples fails with them, in the same order. -/
  failed : (plain.failures.map (·.name)).Sublist (sampled.failures.map (·.name))
  /-- A service can only be missing because of a sample. -/
  missing : ∀ name ∈ plain.specification.services.keys, name ∉ sampled.specification.services.keys →
    ∃ failure, ⟨name, .sample failure⟩ ∈ sampled.failures

section

variable {p : Provider} {input : GenerationInput} {encoder : Sample.Encoder} {options : GenerationOptions}
  {name : String} {s : ServiceInfo}

theorem Provider.groupService_follows (p : Provider) (requests : Table Json) (encoder : Sample.Encoder)
    (options : GenerationOptions) (entry : String × ServiceEntry) : Follows ServiceInfo.withoutSamples
      (p.groupService ⟨requests, none⟩ options entry) (p.groupService ⟨requests, some encoder⟩ options entry) :=
  service_follows ..

theorem Provider.built_withoutSamples (found : (p.built input (some encoder) options).get? name = some s) :
    (p.built input none options).get? name = some s.withoutSamples := by
  obtain ⟨entry, mem, named, made⟩ := get?_built.mp found
  have follows := p.groupService_follows input.sampleRequests encoder options entry
  rw [made] at follows
  exact get?_built.mpr ⟨entry, mem, named, follows.plain_ok⟩

/-- A service that only a plain run builds fails with one of its samples. -/
theorem Provider.missing_sample (plain : name ∈ (p.built input none options).keys)
    (missing : name ∉ (p.built input (some encoder) options).keys) :
    ∃ failure, ⟨name, .sample failure⟩ ∈ p.failures input (some encoder) options := by
  obtain ⟨s, found⟩ := Table.mem_keys.mp plain
  obtain ⟨entry, mem, rfl, made⟩ := get?_built.mp found
  have follows := p.groupService_follows input.sampleRequests encoder options entry
  cases sampled : p.groupService ⟨input.sampleRequests, some encoder⟩ options entry with
  | ok s' => exact absurd ((mem_keys_built mem).mpr ⟨s', sampled⟩) missing
  | error e =>
    rw [made, sampled] at follows
    obtain ⟨failure, rfl⟩ := follows.sample_failure
    refine ⟨failure, List.mem_append_right _ (List.mem_filterMap.mpr ⟨entry, mem, ?_⟩)⟩
    exact failure?_eq_some.mpr ⟨rfl, sampled⟩

theorem Provider.failures_sublist : ((p.failures input none options).map (·.name)).Sublist
    ((p.failures input (some encoder) options).map (·.name)) := by
  unfold failures
  rw [List.map_append, List.map_append]
  apply List.Sublist.append (List.Sublist.refl _)
  induction (p.group input.bindings input.exampleHeaders).entries.entries with
  | nil => exact .slnil
  | cons entry entries ih =>
    have follows := p.groupService_follows input.sampleRequests encoder options entry
    rw [List.filterMap_cons, List.filterMap_cons, failure?, failure?]
    cases plain : p.groupService ⟨input.sampleRequests, none⟩ options entry with
    | ok s =>
      cases p.groupService ⟨input.sampleRequests, some encoder⟩ options entry with
      | ok s' => exact ih
      | error e => exact ih.cons _
    | error e =>
      rw [plain] at follows
      obtain ⟨e', sampled⟩ := follows.error
      rw [sampled]
      exact ih.cons_cons _

/-- Without an encoder no function shows a sample. -/
theorem Provider.service_silent {endpoints : List Endpoint} {headers : List Headers} {requests : Table Json}
    {maxDepth : Nat} (made : p.service name endpoints headers ⟨requests, none⟩ maxDepth = .ok s) {key : String}
    {f : FunctionInfo} (found : s.functions.get? key = some f) : f.sampleRequest = "" := by
  obtain ⟨methods, built, -, builds, functions, -, -⟩ := service_get? made
  have mem : f ∈ built := functions_mem (functions ▸ Table.mem_values.mpr ⟨key, found⟩)
  obtain ⟨m, -, made⟩ := mem_of_mapM (mapM_eq_ok.mpr builds) mem
  obtain ⟨_, -, -, sample, -, -, -, encoded, rfl⟩ := Resolver.function_eq_ok.mp made
  rw [Samples.encode_none] at encoded
  exact (Except.ok.inj encoded).symm

/-- If a lenient generation without an encoder ends well, so does one with any encoder. It differs from the other only
in the texts of samples, and lacks no services but those with a sample that cannot be encoded. -/
theorem Provider.generate_sampled {plain : Outcome} (lenient : options.failFast = false)
    (generated : p.generate input none options = .ok plain) (encoder : Sample.Encoder) :
    ∃ sampled, p.generate input (some encoder) options = .ok sampled ∧ plain.Sampled sampled := by
  obtain ⟨-, classes, united, rfl⟩ := generate_eq_ok.mp generated
  have held : ∀ service s, (p.built input (some encoder) options).get? service = some s →
      ∀ name c, s.classes.get? name = some c → classes.get? name = some c := by
    intro service s found name c shown
    have plain := built_withoutSamples found
    exact (unionClasses_get? united).mpr ⟨_, Table.mem_values.mpr ⟨service, Table.get?_sorted.trans plain⟩, shown⟩
  obtain ⟨classes', united'⟩ : ∃ classes', unionClasses (p.built input (some encoder) options).sorted.values =
      .ok classes' := by
    refine union_isOk (fun name c d first second => ?_) held
    exact Option.some.inj (first.symm.trans second)
  refine ⟨_, generate_eq_ok.mpr ⟨by simp [lenient], classes', united', rfl⟩, ?_, ?_, ?_, failures_sublist, ?_⟩
  · intro name s found key f listed
    obtain ⟨entry, -, -, made⟩ := get?_built.mp (Table.get?_sorted.symm.trans found)
    exact service_silent made listed
  · intro name s found
    rw [Table.get?_sorted] at found ⊢
    exact built_withoutSamples found
  · intro name c found
    rw [ClassSet.get?_sorted] at found ⊢
    obtain ⟨s, listed, shown⟩ := (unionClasses_get? united').mp found
    obtain ⟨service, documented⟩ := Table.mem_values.mp listed
    exact held service s (Table.get?_sorted.symm.trans documented) name c shown
  · intro name present missing
    rw [Table.mem_keys_sorted] at present missing
    exact missing_sample present missing

end

def orderInput : GenerationInput :=
  { singleBinding ["Orders$Iface"] with sampleRequests := .ofList [("Orders.place_args", .object [])] }

def refuse : Sample.Encoder := fun function _ _ => .error ⟨function, "refused"⟩

theorem orderInput_sampled :
    ∃ plain sampled, orderProvider.generate orderInput none {} = .ok plain ∧
      orderProvider.generate orderInput (some refuse) {} = .ok sampled ∧
      plain.specification.services.keys = ["Orders"] ∧ sampled.specification.services.keys = [] ∧
      plain.Sampled sampled := by
  have silent : (fun o => o.specification.services.keys) <$> orderProvider.generate orderInput none {} =
      .ok ["Orders"] := by cbv
  have refused : (fun o => o.specification.services.keys) <$> orderProvider.generate orderInput (some refuse) {} =
      .ok [] := by decide +kernel
  obtain ⟨plain, generated, services⟩ := map_eq_ok.mp silent
  obtain ⟨sampled, generated', follows⟩ := Provider.generate_sampled rfl generated refuse
  rw [generated'] at refused
  exact ⟨plain, sampled, generated, generated', services, Except.ok.inj refused, follows⟩

end ThriftCatalog
