import Mathlib.Order.Minimal
import ThriftCatalog.Proofs.Coherence

/-! What the member of a group declared last documents. The references that expand it lead to every other member, so the
classes collected from it show the whole group, and they never conflict. -/
namespace ThriftCatalog

open Relation Fallible TypeInfo

namespace Definitions

variable {d : Definitions} {group : Set String} {a b : String}

/-- Structs, unions and exceptions that refer to one another, directly or through further ones. -/
structure Linked (d : Definitions) (group : Set String) : Prop where
  composite : ∀ a ∈ group, a ∈ d.composites
  reach : ∀ a ∈ group, ∀ b ∈ group, ReflTransGen d.FieldRefers a b

theorem Linked.insert (linked : d.Linked group) (mem : a ∈ group) (paired : d.Mutual a b) :
    d.Linked (insert b group) := by
  obtain ⟨there, back⟩ := paired
  constructor
  case composite => exact Set.forall_insert_of_forall linked.composite (Mutual.composite ⟨there, back⟩)
  case reach =>
    rintro x (rfl | here) y (rfl | here')
    · exact .refl
    · exact back.to_reflTransGen.trans (linked.reach a mem y here')
    · exact (linked.reach x here a mem).trans there.to_reflTransGen
    · exact linked.reach x here y here'

/-- Who is on a cycle with a member of a maximal group is a member. -/
theorem mem_of_mutual (maximal : Maximal d.Linked group) (mem : a ∈ group) (paired : d.Mutual a b) : b ∈ group :=
  maximal.mem_of_prop_insert (maximal.prop.insert mem paired)

/-- The last member of a maximal group expands every member. -/
theorem inlines_group (unique : d.composites.Nodup) (maximal : Maximal d.Linked group) (mem : a ∈ group)
    (last : ∀ b ∈ group, d.composites.idxOf b ≤ d.composites.idxOf a) (other : b ∈ group) :
    ReflTransGen d.Inlines a b := by
  rcases reflTransGen_iff_eq_or_transGen.mp (maximal.prop.reach a mem b other) with rfl | there
  · exact .refl
  · rcases reflTransGen_iff_eq_or_transGen.mp (maximal.prop.reach b other a mem) with rfl | back
    · exact .refl
    · have last : d.Last a := fun c paired => last c (mem_of_mutual maximal mem paired)
      exact last.inlines unique ⟨there, back⟩

end Definitions

namespace Registry

open Definitions

variable {r : Registry} {resolver : Resolver} {v : ValueDescriptor} {c d : ClassInfo} {t u : TypeInfo} {name b : String}

/-- A struct, union or exception that is expanded is resolved to the class that represents it. -/
theorem represents_of_expansion (composite : r.definitions.isComposite name = true)
    (resolves : resolver.Resolves (r.expansion name) t) :
    ∃ c : ClassInfo, c.toType = t ∧ r.Represents resolver name c := by
  obtain ⟨c, rfl, shape, named⟩ := resolves.exists_class (expansion_cases r name)
  exact ⟨c, rfl, named, shape ▸ resolves, .inl ⟨shape, composite⟩⟩

section

variable (wf : r.definitions.WellFormed)
include wf

theorem Represents.faithful (represents : r.Represents resolver name c) : r.Faithful c.descriptor := by
  rcases represents.kind with ⟨shape, -⟩ | ⟨shape, -⟩
  · exact shape ▸ expansion_faithful wf
  · rw [shape]
    exact fun _ asked => nomatch List.mem_singleton.mp asked

variable (source : resolver.provider = r.provider) (resolves : resolver.Resolves c.descriptor c.toType)
include source resolves

/-- An exception may be asked for as a struct, but its parts are those of the class that represents it. -/
theorem exists_represents :
    ∃ own : ClassInfo, r.Represents resolver c.name own ∧ ∀ u, Part u own.toType ↔ Part u c.toType := by
  rcases resolves_represents wf source resolves with represents | ⟨record, rfl, -, represents⟩
  · exact ⟨c, represents, fun _ => .rfl⟩
  · refine ⟨.exception record, represents, fun u => ?_⟩
    rw [ClassInfo.part_iff, ClassInfo.part_iff, ClassInfo.fields, ClassInfo.fields]

/-- The classes below a class represent their names, and none of them has its name again. -/
theorem below_represents (part : Part u c.toType) (occurs : Occurs d.toType u) :
    r.Represents resolver d.name d ∧ d.name ≠ c.name := by
  obtain ⟨own, represents, parts⟩ := exists_represents wf source resolves
  have part := (parts u).mpr part
  have below := occurs_represents wf source represents.resolves (occurs.tail part) (represents.faithful wf)
  refine ⟨below, fun same => ?_⟩
  obtain rfl : d = own := below.unique (same ▸ represents)
  exact part.not_occurs occurs

/-- Collecting the classes of a class meets no conflict. -/
theorem collect_isOk : ∃ s, (∅ : ClassSet).collect c.toType = (s, none) := by
  refine ClassSet.collectAll_of_unique
    (P := fun name d => if name = c.name then d = c else r.Represents resolver name d) ?_ (by simp) ?_
  · intro name d e first second
    split at first
    · rw [if_pos ‹_›] at second
      exact first.trans second.symm
    · rw [if_neg ‹_›] at second
      exact first.unique second
  · intro d mem
    rcases (mem_classes.mp mem).cases_tail with same | ⟨u, occurs, part⟩
    · obtain rfl := ClassInfo.toType_injective same
      rw [if_pos rfl]
    · obtain ⟨represents, other⟩ := below_represents wf source resolves part occurs
      rwa [if_neg other]

/-- Whatever references in place lead to occurs in a class, and all but the class itself represents its name. -/
theorem inlines_occurs (composite : r.definitions.isComposite c.name = true)
    (chain : ReflTransGen r.definitions.Inlines c.name b) :
    ∃ d : ClassInfo, Occurs d.toType c.toType ∧ d.name = b ∧ (d = c ∨ r.Represents resolver b d) := by
  obtain ⟨own, represents, parts⟩ := exists_represents wf source resolves
  have expands := represents.resolves
  rw [represents.eq_expansion composite] at expands
  obtain ⟨u, occurs, found⟩ := expands.unfolds_all (source ▸ expansion_chain chain)
  have composite' : r.definitions.isComposite b = true :=
    Reached.composite ⟨c.name, List.mem_singleton.mpr rfl, composite, chain⟩
  obtain ⟨d, rfl, represents'⟩ := represents_of_expansion composite' found
  rcases occurs.cases_tail with same | ⟨w, below, part⟩
  · obtain rfl := ClassInfo.toType_injective same
    exact ⟨c, .refl, represents.named.symm.trans represents'.named, .inl rfl⟩
  · exact ⟨d, below.tail ((parts w).mp part), represents'.named, .inr represents'⟩

end

/-- The last member of a group documents the whole group. Whatever depth is allowed, if it resolves, its classes are
collected without conflict, and they show every member: itself as it was asked for, and each other member as the class
that represents it. -/
theorem build_lastMember_documents {files : List RegistryFile} (built : build files = .ok r) {group : Set String}
    (maximal : Maximal r.definitions.Linked group) {last : String} (mem : last ∈ group)
    (order : ∀ b ∈ group, r.definitions.composites.idxOf b ≤ r.definitions.composites.idxOf last)
    (source : resolver.provider = r.provider) (asked : v = .struct last ∨ v = .exception last)
    (resolved : resolver.resolve v = .ok t) :
    ∃ s, (∅ : ClassSet).collect t = (s, none) ∧
      ∀ b ∈ group, ∃ c, s.get? b = some c ∧ c.name = b ∧ (c.toType = t ∨ r.Represents resolver b c) := by
  have wf := build_wellFormed built
  have resolves : resolver.Resolves v t := ⟨_, resolved⟩
  obtain ⟨own, rfl, rfl, rfl⟩ := resolves.exists_class asked
  obtain ⟨s, collected⟩ := collect_isOk wf source resolves
  refine ⟨s, collected, fun b other => ?_⟩
  have chain := inlines_group wf.composites maximal mem order other
  have composite := isComposite_iff.mpr (maximal.prop.composite _ mem)
  obtain ⟨c, occurs, named, shown⟩ := inlines_occurs wf source resolves composite chain
  have recorded : s.get? b = some c := (ClassSet.collectAll_get? collected).mpr (.inr ⟨mem_classes.mpr occurs, named⟩)
  exact ⟨c, recorded, named, shown.imp_left (congrArg _)⟩

set_option synthInstance.maxSize 512 in
/-- The member declared first is documented alone. -/
theorem pair_lastMember :
    ∃ r t t' s, build [pairFile] = .ok r ∧
      Resolver.resolve ⟨r.provider, r.provider.docs, 2⟩ (.struct "B") = .ok t ∧
      (∅ : ClassSet).collect t = (s, none) ∧ (∀ b ∈ ["A", "B"], ∃ c, s.get? b = some c ∧ c.name = b) ∧
      Resolver.resolve ⟨r.provider, r.provider.docs, 2⟩ (.struct "A") = .ok t' ∧
      t'.classes.map (·.name) = ["A"] := by
  have facts : (fun r => (r.definitions.composites, r.definitions.references "A", r.definitions.references "B",
      (fun t => t.classes.map (·.name)) <$> Resolver.resolve ⟨r.provider, r.provider.docs, 2⟩ (.struct "B"),
      (fun t => t.classes.map (·.name)) <$> Resolver.resolve ⟨r.provider, r.provider.docs, 2⟩ (.struct "A"))) <$>
        build [pairFile] = .ok (["A", "B"], ["B"], ["A"], .ok ["A", "B"], .ok ["A"]) := by decide +kernel
  obtain ⟨r, built, facts⟩ := map_eq_ok.mp facts
  simp only [Prod.mk.injEq] at facts
  obtain ⟨composites, fromA, fromB, last, first⟩ := facts
  obtain ⟨t, resolved, -⟩ := map_eq_ok.mp last
  obtain ⟨t', resolved', alone⟩ := map_eq_ok.mp first
  have there : r.definitions.FieldRefers "A" "B" := by simp [← mem_references, fromA]
  have back : r.definitions.FieldRefers "B" "A" := by simp [← mem_references, fromB]
  have maximal : Maximal r.definitions.Linked {"A", "B"} := by
    refine ⟨⟨?_, ?_⟩, fun group linked _ a mem => ?_⟩
    · simp [composites]
    · rintro a (rfl | rfl) b (rfl | rfl)
      · exact .refl
      · exact .single there
      · exact .single back
      · exact .refl
    · simpa [composites] using linked.composite a mem
  have mem : "B" ∈ ({"A", "B"} : Set String) := .inr rfl
  obtain ⟨s, collected, shown⟩ :=
    build_lastMember_documents built maximal mem (by simp [composites]) rfl (.inl rfl) resolved
  refine ⟨r, t, t', s, built, resolved, collected, fun b mem => ?_, resolved', alone⟩
  obtain ⟨c, found, named, -⟩ := shown b (by simpa using mem)
  exact ⟨c, found, named⟩

end Registry

end ThriftCatalog
