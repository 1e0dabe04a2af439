import ThriftCatalog.Proofs.Addition
import ThriftCatalog.Proofs.Validation
import ThriftCatalog.Registry.Basic

/-! What additions keep. A name stands for one thing only, no type nests deeper than a written type may, and whatever
had a meaning keeps it. -/
namespace ThriftCatalog

open Relation Fallible

namespace Table

variable {α : Type u} {s t u : Table α} {old mid : List String} {key : String} {value : α}

/-- The second table is the first with entries appended, none of them under an old name. -/
def Grown (old : List String) (s t : Table α) : Prop :=
  ∃ more, t.entries = s.entries ++ more ∧ ∀ entry ∈ more, entry.1 ∉ old

theorem Grown.refl : s.Grown old s := ⟨[], by simp, by simp⟩

theorem Grown.trans (first : s.Grown old t) (second : t.Grown mid u) (wider : old ⊆ mid) : s.Grown old u := by
  obtain ⟨more, grown, fresh⟩ := first
  obtain ⟨rest, grown', fresh'⟩ := second
  refine ⟨more ++ rest, by rw [grown', grown, List.append_assoc], ?_⟩
  exact List.forall_mem_append.mpr ⟨fresh, fun entry mem known => fresh' entry mem (wider known)⟩

theorem Grown.insert (new : key ∉ old) (known : s.keys ⊆ old) : s.Grown old (s.insert key value) := by
  refine ⟨[(key, value)], entries_insert fun mem => new (known mem), ?_⟩
  simpa using new

theorem Grown.get? (grown : s.Grown old t) (mem : key ∈ old) : t.get? key = s.get? key := by
  obtain ⟨more, grown, fresh⟩ := grown
  have absent : more.lookup key = none := by
    rw [← Option.not_isSome_iff_eq_none, lookup_isSome_iff, List.mem_map]
    rintro ⟨entry, found, rfl⟩
    exact fresh entry found mem
  rw [Table.get?, grown, List.lookup_append, absent, Option.or_none]
  rfl

theorem Grown.contains (grown : s.Grown old t) (mem : key ∈ old) : t.contains key = s.contains key := by
  rw [contains_eq_isSome, contains_eq_isSome, grown.get? mem]

theorem Grown.keys (grown : s.Grown old t) : ∃ more, t.keys = s.keys ++ more ∧ ∀ name ∈ more, name ∉ old := by
  obtain ⟨more, grown, fresh⟩ := grown
  exact ⟨more.map Prod.fst, by rw [Table.keys, grown, List.map_append]; rfl, by simpa using fresh⟩

end Table

namespace Definitions

variable {d d' d'' : Definitions} {name : String}

/-- The second definitions are the first with names added that stood for nothing. Docs may differ. -/
structure Extends (d d' : Definitions) : Prop where
  services : d.services.Grown d.names d'.services
  structs : d.structs.Grown d.names d'.structs
  exceptions : d.exceptions.Grown d.names d'.exceptions
  enums : d.enums.Grown d.names d'.enums
  aliases : d.aliases.Grown d.names d'.aliases

theorem Extends.refl : d.Extends d := ⟨.refl, .refl, .refl, .refl, .refl⟩

theorem Extends.names_subset (ext : d.Extends d') : d.names ⊆ d'.names := by
  intro name mem
  have wider {α : Type} {s t : Table α} (grown : s.Grown d.names t) (mem : name ∈ s.keys) : name ∈ t.keys := by
    obtain ⟨more, keys, -⟩ := grown.keys
    exact keys ▸ List.mem_append_left _ mem
  simp only [names, List.mem_append] at mem ⊢
  rcases mem with (((mem | mem) | mem) | mem) | mem
  · exact .inl (.inl (.inl (.inl (wider ext.services mem))))
  · exact .inl (.inl (.inl (.inr (wider ext.structs mem))))
  · exact .inl (.inl (.inr (wider ext.exceptions mem)))
  · exact .inl (.inr (wider ext.enums mem))
  · exact .inr (wider ext.aliases mem)

theorem Extends.trans (first : d.Extends d') (second : d'.Extends d'') : d.Extends d'' :=
  have wider := first.names_subset
  ⟨first.services.trans second.services wider, first.structs.trans second.structs wider,
    first.exceptions.trans second.exceptions wider, first.enums.trans second.enums wider,
    first.aliases.trans second.aliases wider⟩

/-- Each kind of name is among the names. -/
theorem keys_subset_names : d.services.keys ⊆ d.names ∧ d.structs.keys ⊆ d.names ∧ d.exceptions.keys ⊆ d.names ∧
    d.enums.keys ⊆ d.names ∧ d.aliases.keys ⊆ d.names := by
  refine ⟨?_, ?_, ?_, ?_, ?_⟩ <;> intro name mem <;> simp [names, mem]

theorem Addition.extends (addition : Addition d d') : d.Extends d' := by
  obtain ⟨services, structs, exceptions, enums, aliases⟩ := keys_subset_names (d := d)
  cases addition with
  | docs => exact ⟨.refl, .refl, .refl, .refl, .refl⟩
  | service _ new => exact ⟨.insert new services, .refl, .refl, .refl, .refl⟩
  | struct _ new => exact ⟨.refl, .insert new structs, .refl, .refl, .refl⟩
  | exception _ new => exact ⟨.refl, .refl, .insert new exceptions, .refl, .refl⟩
  | enum _ new => exact ⟨.refl, .refl, .refl, .insert new enums, .refl⟩
  | typeAlias _ new => exact ⟨.refl, .refl, .refl, .refl, .insert new aliases⟩

theorem extends_of_additions (additions : ReflTransGen Addition d d') : d.Extends d' := by
  induction additions with
  | refl => exact .refl
  | tail _ addition ih => exact ih.trans addition.extends

theorem Extends.kind? (ext : d.Extends d') (mem : name ∈ d.names) : d'.kind? name = d.kind? name := by
  simp only [Definitions.kind?, ext.structs.contains mem, ext.exceptions.contains mem, ext.enums.contains mem,
    ext.aliases.contains mem]

theorem Extends.compositeFields (ext : d.Extends d') (mem : name ∈ d.names) :
    d'.compositeFields name = d.compositeFields name := by
  simp only [Definitions.compositeFields, ext.structs.get? mem, ext.exceptions.get? mem]

/-- A name stands for one thing only, and types nest no deeper than written types may. -/
structure WellFormed (d : Definitions) : Prop where
  distinct : d.names.Nodup
  methods : ∀ name ms, d.services.get? name = some ms → ∀ m ∈ ms, m.Bounded
  fields : ∀ name, ∀ f ∈ d.compositeFields name, f.type.nesting ≤ TypeExpr.maxNesting

theorem wellFormed_empty : WellFormed ∅ where
  distinct := List.nodup_nil
  methods := by
    intro name ms found
    contradiction
  fields := by
    intro name f mem
    contradiction

theorem Addition.names (addition : Addition d d') (distinct : d.names.Nodup) : d'.names.Nodup := by
  obtain ⟨services, structs, exceptions, enums, aliases⟩ := keys_subset_names (d := d)
  have added {name : String} (new : name ∉ d.names) (grown : d'.names.Perm (name :: d.names)) : d'.names.Nodup :=
    grown.nodup_iff.mpr (List.nodup_cons.mpr ⟨new, distinct⟩)
  cases addition with
  | docs => exact distinct
  | @service name _ _ new | @struct name _ _ new | @exception name _ _ new | @enum name _ _ new
  | @typeAlias name _ _ new =>
    refine added new (List.perm_iff_count.mpr fun other => ?_)
    have absent : name ∉ d.services.keys ∧ name ∉ d.structs.keys ∧ name ∉ d.exceptions.keys ∧
        name ∉ d.enums.keys ∧ name ∉ d.aliases.keys :=
      ⟨fun mem => new (services mem), fun mem => new (structs mem), fun mem => new (exceptions mem),
        fun mem => new (enums mem), fun mem => new (aliases mem)⟩
    simp only [Definitions.names, Table.keys_insert, absent, if_false, List.count_append, List.count_cons,
      List.count_nil]
    omega

/-- Only the struct or exception that is added gets new fields. -/
theorem Addition.fields (addition : Addition d d')
    (bounded : ∀ name, ∀ f ∈ d.compositeFields name, f.type.nesting ≤ TypeExpr.maxNesting) :
    ∀ name, ∀ f ∈ d'.compositeFields name, f.type.nesting ≤ TypeExpr.maxNesting := by
  cases addition with
  | docs | service | enum | typeAlias => exact bounded
  | @struct name fields _ new own =>
    intro other f mem
    by_cases here : other = name
    · subst here
      simp only [compositeFields, Table.get?_insert, if_true] at mem
      exact own f mem
    · simp only [compositeFields, Table.get?_insert, if_neg here] at mem
      exact bounded other f mem
  | @exception name fields _ new own =>
    intro other f mem
    by_cases here : other = name
    · subst here
      have absent : d.structs.get? other = none :=
        Table.get?_eq_none.mpr fun mem => new (keys_subset_names.2.1 mem)
      simp only [compositeFields, absent, Table.get?_insert, if_true, Option.getD_some] at mem
      exact own f mem
    · simp only [compositeFields, Table.get?_insert, if_neg here] at mem
      exact bounded other f mem

theorem Addition.wellFormed (addition : Addition d d') (wf : d.WellFormed) : d'.WellFormed where
  distinct := addition.names wf.distinct
  methods := by
    cases addition with
    | docs | struct | exception | enum | typeAlias => exact wf.methods
    | @service name methods _ new own =>
      intro other ms found
      rw [Table.get?_insert] at found
      split at found
      · cases found
        exact own
      · exact wf.methods other ms found
  fields := addition.fields wf.fields

theorem wellFormed_of_additions (additions : ReflTransGen Addition d d') (wf : d.WellFormed) : d'.WellFormed := by
  induction additions with
  | refl => exact wf
  | tail _ addition ih => exact addition.wellFormed ih

theorem WellFormed.composites (wf : d.WellFormed) : d.composites.Nodup := by
  have apart := wf.distinct
  simp only [names, List.append_assoc] at apart
  rw [← List.append_assoc d.structs.keys] at apart
  exact (List.nodup_append.mp (List.nodup_append.mp apart).2.1).1

end Definitions

namespace Registry

open Definitions

variable {d : Definitions} {r r' : Registry}

theorem definitions_checked (r : Registry) : r.definitions.Checked := check_eq_ok.mp r.checked

theorem isCut_iff {a b : String} : r.isCut a b = true ↔ (a, b) ∈ r.definitions.cycleCuts := by
  rw [isCut, List.contains_iff_mem, r.cuts_eq]

theorem ofDefinitions_eq_ok (h : ofDefinitions d = .ok r) : r.definitions = d := by
  unfold ofDefinitions at h
  split at h
  · cases h
    rfl
  · contradiction

/-- The definitions that were built are well-formed. -/
theorem build_wellFormed {files : List RegistryFile} (h : build files = .ok r) : r.definitions.WellFormed := by
  obtain ⟨⟨⟨⟩, d⟩, added, checked⟩ := bind_eq_ok.mp h
  rw [ofDefinitions_eq_ok checked]
  exact wellFormed_of_additions (addFiles_additions added) wellFormed_empty

/-- A merge gives meaning to names that had none, and to no others. -/
theorem merge_extends {file : RegistryFile} (h : r.merge file = .ok r') : r.definitions.Extends r'.definitions := by
  obtain ⟨⟨⟨⟩, d⟩, added, checked⟩ := bind_eq_ok.mp h
  rw [ofDefinitions_eq_ok checked]
  exact extends_of_additions (addFile_additions added)

/-- Two structs that refer to one another, and a service that returns the one declared first. -/
def pairFile : RegistryFile where
  services := .ofList [("S", { methods := [{ name := "get", returns := some "A" }] })]
  structs := .ofList [
    ("A", { fields := [{ name := "b", type := "B" }] }),
    ("B", { fields := [{ name := "a", type := "A" }] })]

end Registry

end ThriftCatalog
