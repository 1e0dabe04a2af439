import ThriftCatalog.Proofs.Consistency
import ThriftCatalog.Proofs.Documentation

/-! Where the references that were cut lead to. The struct, union or exception that one of them names is a class of the
specification exactly if references in place lead there too, from something that a documented method shows. -/
namespace ThriftCatalog

open Relation Fallible TypeInfo

namespace Registry

open Definitions

variable {r : Registry} {input : GenerationInput} {encoder : Option Sample.Encoder} {options : GenerationOptions}
  {o : Outcome} {b : String}

/-- References in place lead to a struct, union or exception from a type that some method of the services shows. -/
def Displays (r : Registry) (spec : Specification) (b : String) : Prop :=
  ∃ service ∈ spec.services.keys, ∃ ms, r.definitions.services.get? service = some ms ∧
    ∃ m ∈ ms, r.Reached ((r.definitions.shown m).flatMap TypeExpr.names) b

theorem Displays.trans {spec : Specification} {a : String} (displays : r.Displays spec a)
    (chain : ReflTransGen r.definitions.Inlines a b) : r.Displays spec b := by
  obtain ⟨service, documented, ms, found, m, mem, c, shown, composite, first⟩ := displays
  exact ⟨service, documented, ms, found, m, mem, c, shown, composite, first.trans chain⟩

/-- Whatever a specification mentions stands below a type that some method of its services shows. -/
theorem generate_stands (wf : r.definitions.WellFormed) (h : r.provider.generate input encoder options = .ok o)
    {t : TypeInfo} (mentions : o.specification.Mentions t) :
    t = .void ∨ ∃ service ∈ o.specification.services.keys, ∃ ms, r.definitions.services.get? service = some ms ∧
      ∃ m ∈ ms, ∃ v, r.Stands ((r.definitions.shown m).flatMap TypeExpr.names) v ∧
        Resolver.Resolves ⟨r.provider, r.provider.docs, options.maxDepth⟩ v t := by
  obtain ⟨s, listed, mentions⟩ := Provider.generate_mentions h mentions
  obtain ⟨service, found⟩ := Table.mem_values.mp listed
  obtain ⟨endpoints, headers, made⟩ := Provider.generate_services h found
  obtain ⟨ms, built, declared, documents, -, covered, -⟩ := service_documents made
  obtain ⟨f, mem, mentions⟩ := covered t mentions
  obtain ⟨m, mem, md, lowered, built⟩ := documents f mem
  rcases mentions_stands rfl wf lowered built mentions with void | ⟨v, stands, resolves⟩
  · exact .inl void
  · exact .inr ⟨service, Table.mem_keys.mpr ⟨s, found⟩, ms, declared, m, mem, v, stands, resolves⟩

/-- A function mentions the struct, union or exception of a name exactly if references in place lead there from a type
that its method shows. -/
theorem Documents.mentions_iff {resolver : Resolver} {samples : Samples} {service : String} {m : MethodDecl}
    {f : FunctionInfo} (documents : r.Documents resolver samples service m f) (source : resolver.provider = r.provider)
    (wf : r.definitions.WellFormed) (composite : r.definitions.isComposite b = true) :
    (∃ c : ClassInfo, c.name = b ∧ f.Mentions c.toType) ↔
      r.Reached ((r.definitions.shown m).flatMap TypeExpr.names) b := by
  obtain ⟨md, lowered, built⟩ := documents
  constructor
  · rintro ⟨c, rfl, mentions⟩
    rcases mentions_stands source wf lowered built mentions with void | ⟨v, stands, resolves⟩
    · cases c <;> contradiction
    · obtain rfl := resolves.origin.1 c (asClass?_toType c)
      rcases stands.named (descriptor_name c) with ⟨-, reached⟩ | ⟨shape, -⟩ | ⟨-, enum⟩ | ⟨tag, shape, -⟩
      · exact reached
      · cases c <;> contradiction
      · exact absurd enum (kind?_ne_enum composite)
      · cases c <;> contradiction
  · rintro ⟨a, named, start, chain⟩
    obtain ⟨type, shown, named⟩ := List.mem_flatMap.mp named
    obtain ⟨t, v, shows, lowers, resolves⟩ := (function_shows wf lowered built).2 type shown
    -- A method owns no struct, so no reference of its own is cut.
    have inside := (lower_contains lowers named start not_cut_none).trans (expansion_chain chain)
    rw [← source] at inside
    obtain ⟨u, occurs, resolves⟩ := resolves.unfolds_all inside
    have mentions : f.Mentions u := FunctionInfo.mentions_iff.mpr ⟨t, shows, occurs⟩
    obtain ⟨c, rfl, -, named⟩ := resolves.exists_class (expansion_cases r b)
    exact ⟨c, named, mentions⟩

/-- A struct, union or exception is a class of the specification exactly if references in place lead to it from a type
that a documented method shows. -/
theorem mem_generated (wf : r.definitions.WellFormed) (h : r.provider.generate input encoder options = .ok o)
    (composite : r.definitions.isComposite b = true) :
    b ∈ o.specification.classes.keys ↔ r.Displays o.specification b := by
  constructor
  · intro mem
    obtain ⟨c, found⟩ := Table.mem_keys.mp mem
    obtain ⟨s, listed, found⟩ := (Provider.generate_get? h b c).mp found
    obtain ⟨service, kept⟩ := Table.mem_values.mp listed
    obtain ⟨endpoints, headers, made⟩ := Provider.generate_services h kept
    obtain ⟨ms, built, declared, documents, -, -, classes⟩ := service_documents made
    obtain ⟨named, f, mem, mentions⟩ := (classes b c).mp found
    obtain ⟨m, mem, documents⟩ := documents f mem
    have reached := (documents.mentions_iff rfl wf composite).mp ⟨c, named, mentions⟩
    exact ⟨service, Table.mem_keys.mpr ⟨s, kept⟩, ms, declared, m, mem, reached⟩
  · rintro ⟨service, documented, ms, declared, m, mem, reached⟩
    obtain ⟨s, kept⟩ := Table.mem_keys.mp documented
    obtain ⟨endpoints, headers, made⟩ := Provider.generate_services h kept
    obtain ⟨ms', built, declared', -, documented, -, classes⟩ := service_documents made
    cases declared.symm.trans declared'
    obtain ⟨f, listed, documents⟩ := documented m mem
    obtain ⟨c, named, mentions⟩ := (documents.mentions_iff rfl wf composite).mpr reached
    have found := (classes b c).mpr ⟨named, f, listed, mentions⟩
    exact Table.mem_keys.mpr ⟨c, (Provider.generate_get? h b c).mpr ⟨s, Table.mem_values.mpr ⟨service, kept⟩, found⟩⟩

/-- What a reference that was cut to break a cycle leads to. The struct, union or exception that holds it is a class of
the specification, and in one group with the one that it names. That one is a class as well exactly if references in
place lead there, as they do from the member of the group that was declared last. -/
theorem placeholder_listed_iff {files : List RegistryFile} (built : build files = .ok r)
    (h : r.provider.generate input encoder options = .ok o) {reference : Reference}
    (mentions : o.specification.Mentions (.unresolved reference))
    (composite : r.definitions.isComposite reference.name = true) :
    (reference.name ∈ o.specification.classes.keys ↔ r.Displays o.specification reference.name) ∧
    (∃ owner ∈ o.specification.classes.keys, (owner, reference.name) ∈ r.definitions.cycleCuts ∧
      r.definitions.GroupRefers owner reference.name) ∧
    ∀ last ∈ o.specification.classes.keys, r.definitions.Last last → r.definitions.Mutual last reference.name →
      reference.name ∈ o.specification.classes.keys := by
  have wf := build_wellFormed built
  refine ⟨mem_generated wf h composite, ?_, fun last listed final paired => ?_⟩
  · rcases generate_stands wf h mentions with void | ⟨service, documented, ms, declared, m, mem, v, stands, resolves⟩
    · contradiction
    · obtain ⟨tag, rfl⟩ := resolves.origin.2 reference rfl
      rcases stands.named rfl with ⟨shape, -⟩ | ⟨-, owner, reached, cut⟩ | ⟨shape, -⟩ | ⟨tag, -, other⟩
      · unfold expansion at shape
        split at shape <;> contradiction
      · have listed := (mem_generated wf h reached.composite).mpr ⟨service, documented, ms, declared, m, mem, reached⟩
        exact ⟨owner, listed, cut, (inlines_of_cut wf.composites cut).1⟩
      · contradiction
      · rw [kind?_of_composite composite] at other
        split at other <;> contradiction
  · have start := (mem_generated wf h (isComposite_iff.mpr paired.symm.composite)).mp listed
    exact (mem_generated wf h composite).mpr (start.trans (Last.inlines wf.composites final paired))

def cutStruct : ClassInfo := .struct {
  name := "A"
  fields := [{ name := "b", requirement := .default, type := .unresolved ⟨.struct, "B", none⟩ }] }

/-- A documented registry that shows the struct `A` with its reference to `B` cut. -/
theorem exists_cutStruct (file : RegistryFile) (keys : List String)
    (run : (fun r => (r.definitions.isComposite "B",
      (fun o => (o.specification.classes.keys, o.specification.classes.get? "A")) <$>
        r.provider.generate (singleBinding ["S$Iface"]) none {})) <$> build [file] =
      .ok (true, .ok (keys, some cutStruct))) :
    ∃ r o, build [file] = .ok r ∧ r.provider.generate (singleBinding ["S$Iface"]) none {} = .ok o ∧
      r.definitions.isComposite "B" = true ∧ o.specification.Mentions (.unresolved ⟨.struct, "B", none⟩) ∧
      o.specification.classes.keys = keys := by
  obtain ⟨r, built, facts⟩ := map_eq_ok.mp run
  obtain ⟨composite, generated⟩ := Prod.mk.inj facts
  obtain ⟨o, generated, facts⟩ := map_eq_ok.mp generated
  obtain ⟨keys, found⟩ := Prod.mk.inj facts
  have mentions : cutStruct.Mentions (.unresolved ⟨.struct, "B", none⟩) := ⟨_, List.mem_singleton.mpr rfl, .refl⟩
  exact ⟨r, o, built, generated, composite, .inr ⟨_, Table.mem_values.mpr ⟨"A", found⟩, mentions⟩, keys⟩

/-- A pair whose service returns the struct declared last. -/
def lastPairFile : RegistryFile :=
  { pairFile with services := .ofList [("S", { methods := [{ name := "get", returns := some "B" }] })] }

def lastPair : Definitions where
  services := .ofList [("S", [{ name := "get", params := [], returns := .named "B", throws := [], oneway := false }])]
  structs := .ofList [("A", [⟨"b", .default, .named "B"⟩]), ("B", [⟨"a", .default, .named "A"⟩])]
  exceptions := ∅
  enums := ∅
  aliases := ∅
  docs := ∅

def lastPairRegistry : Registry := ⟨lastPair, [("A", "B")], by decide +kernel, by decide +kernel⟩

theorem lastPair_built : build [lastPairFile] = .ok lastPairRegistry := build_of_run (by decide +kernel)

theorem lastPair_listed :
    ∃ r o, build [lastPairFile] = .ok r ∧ r.provider.generate (singleBinding ["S$Iface"]) none {} = .ok o ∧
      o.specification.Mentions (.unresolved ⟨.struct, "B", none⟩) ∧
      o.specification.classes.keys = ["A", "B"] ∧ r.Displays o.specification "B" ∧
      ∃ owner ∈ o.specification.classes.keys, (owner, "B") ∈ r.definitions.cycleCuts ∧
        r.definitions.GroupRefers owner "B" := by
  obtain ⟨r, o, built, generated, composite, mentions, keys⟩ :=
    exists_cutStruct lastPairFile ["A", "B"] (by rw [lastPair_built]; cbv)
  obtain ⟨listed, owner, -⟩ := placeholder_listed_iff built generated mentions composite
  exact ⟨r, o, built, generated, mentions, keys, listed.mp (by simp [keys]), owner⟩

/-- A reference that was cut may lead nowhere: a service that returns the struct declared first documents that one
only. -/
theorem cut_reference_dangles :
    ¬ ∀ (files : List RegistryFile) (r : Registry) (input : GenerationInput) (encoder : Option Sample.Encoder)
      (options : GenerationOptions) (o : Outcome), build files = .ok r →
        r.provider.generate input encoder options = .ok o →
        ∀ reference, o.specification.Mentions (.unresolved reference) →
          r.definitions.isComposite reference.name = true → reference.name ∈ o.specification.classes.keys := by
  intro claimed
  obtain ⟨r, o, built, generated, composite, mentions, keys⟩ := exists_cutStruct pairFile ["A"] (by decide +kernel)
  have listed := claimed _ r _ _ _ o built generated _ mentions composite
  simp [keys] at listed

end Registry

end ThriftCatalog
