import ThriftCatalog.Proofs.Consistency
import ThriftCatalog.Proofs.Expansion
import ThriftCatalog.Proofs.Lowering

/-! The order of files. It decides neither whether a registry is built nor what its names mean. Only within a group of
structs that refer to one another may it decide which of their references are cut. -/
namespace ThriftCatalog

open Relation Fallible

/-- Consistency asks for no order. -/
theorem RegistryFile.Consistent.perm {files files' : List RegistryFile} (reordered : files.Perm files')
    (consistent : Consistent files) : Consistent files' := by
  have standsFor : StandsFor files' = StandsFor files := by
    funext a b
    simp only [StandsFor, reordered.mem_iff]
  obtain ⟨readable, distinct, defined, acyclic, oneway, throws⟩ := consistent
  refine ⟨?_, (reordered.flatMap_right definedNames).nodup_iff.mp distinct, ?_, ?_, ?_, ?_⟩
  · simpa only [reordered.mem_iff] using readable
  · simpa only [reordered.mem_iff] using defined
  · rwa [standsFor]
  · simpa only [reordered.mem_iff] using oneway
  · simpa only [reordered.mem_iff, standsFor] using throws

namespace Definitions

variable {d d' : Definitions} {name a b last : String} {type target : TypeExpr}

/-- Every name means the same. Orders and docs may differ. -/
def Equivalent (d d' : Definitions) : Prop := ∀ name x, d'.Declares name x ↔ d.Declares name x

section

variable (same : d.Equivalent d')
include same

theorem Equivalent.services (name : String) : d'.services.get? name = d.services.get? name :=
  Option.ext fun methods => same name (.service methods)

theorem Equivalent.structs (name : String) : d'.structs.get? name = d.structs.get? name :=
  Option.ext fun fields => same name (.struct fields)

theorem Equivalent.exceptions (name : String) : d'.exceptions.get? name = d.exceptions.get? name :=
  Option.ext fun fields => same name (.exception fields)

theorem Equivalent.enums (name : String) : d'.enums.get? name = d.enums.get? name :=
  Option.ext fun constants => same name (.enum constants)

theorem Equivalent.aliases (name : String) : d'.aliases.get? name = d.aliases.get? name :=
  Option.ext fun target => same name (.typeAlias target)

theorem Equivalent.kind? (name : String) : d'.kind? name = d.kind? name := by
  simp only [Definitions.kind?, Table.contains_congr (same.structs name), Table.contains_congr (same.exceptions name),
    Table.contains_congr (same.enums name), Table.contains_congr (same.aliases name)]

theorem Equivalent.isComposite (name : String) : d'.isComposite name = d.isComposite name := by
  simp only [Definitions.isComposite, Table.contains_congr (same.structs name),
    Table.contains_congr (same.exceptions name)]

theorem Equivalent.compositeFields (name : String) : d'.compositeFields name = d.compositeFields name := by
  simp only [Definitions.compositeFields, same.structs, same.exceptions]

theorem Equivalent.typeCount : d'.typeCount = d.typeCount := by
  simp only [Definitions.typeCount, Table.size_congr same.structs, Table.size_congr same.exceptions,
    Table.size_congr same.enums, Table.size_congr same.aliases]

theorem Equivalent.refers : d'.FieldRefers = d.FieldRefers := by
  funext a b
  simp only [fieldRefers_iff, mentions, same.isComposite, same.compositeFields]

theorem Equivalent.mutual : d'.Mutual a b ↔ d.Mutual a b := by
  rw [Mutual, Mutual, same.refers]

theorem Equivalent.leads : d'.Leads = d.Leads := by
  funext a b
  rw [Leads, Leads, same.aliases]

theorem Equivalent.ends : d'.Ends last target ↔ d.Ends last target := by
  simp only [Ends, same.aliases, Table.mem_keys]

/-- Chains that end have the same end, wherever the search for it begins. -/
theorem Equivalent.aliasTarget (checked : d.Checked) (checked' : d'.Checked) (name : String) :
    d'.aliasTarget name = d.aliasTarget name := by
  by_cases known : name ∈ d.aliases.keys
  · obtain ⟨target, found⟩ := checked.chains name known
    obtain ⟨last, chain, ends⟩ := aliasTarget_ends found
    rw [found, aliasTarget_eq_ok checked'.chains, same.leads]
    exact ⟨last, chain, same.ends.mpr ends⟩
  · have absent : name ∉ d'.aliases.keys := by rwa [Table.mem_keys, same.aliases, ← Table.mem_keys]
    rw [aliasTarget_of_not_mem known, aliasTarget_of_not_mem absent]

theorem Equivalent.exceptionName (checked : d.Checked) (checked' : d'.Checked) (type : TypeExpr) :
    d'.exceptionName type = d.exceptionName type := by
  refine exceptionName_congr ?_ fun name _ => Table.contains_congr (same.exceptions name)
  cases type with
  | named name => rw [chainEnd, chainEnd, Table.contains_congr (same.aliases name), same.aliasTarget checked checked']
  | base | list | set | map => rfl

end

end Definitions

namespace Registry

open Definitions

variable {r r' : Registry} {owner name : String} {type : TypeExpr} {v w : ValueDescriptor}

/-- Two descriptors of a type in a field of the owner. They may differ in which references to members of its own group
are cut. -/
inductive Recut (r : Registry) (owner : String) : ValueDescriptor → ValueDescriptor → Prop where
  | refl {v : ValueDescriptor} : Recut r owner v v
  | list {v w : ValueDescriptor} : Recut r owner v w → Recut r owner (.list v) (.list w)
  | set {v w : ValueDescriptor} : Recut r owner v w → Recut r owner (.set v) (.set w)
  | map {k l v w : ValueDescriptor} : Recut r owner k l → Recut r owner v w → Recut r owner (.map k v) (.map l w)
  | cut {target : String} : r.definitions.Mutual owner target →
      Recut r owner (r.expansion target) (.typedef .struct target)
  | uncut {target : String} : r.definitions.Mutual owner target →
      Recut r owner (.typedef .struct target) (r.expansion target)

/-- Off all cycles nothing may differ. -/
theorem Recut.eq (recut : r.Recut owner v w) (off : ¬ TransGen r.definitions.FieldRefers owner owner) : v = w := by
  induction recut with
  | refl => rfl
  | list _ ih | set _ ih => rw [ih]
  | map _ _ ihk ihv => rw [ihk, ihv]
  | cut group | uncut group => exact absurd (group.1.trans group.2) off

/-- Answers about the fields of the owner: none, or fields that may differ in which references are cut. -/
inductive RecutFields (r : Registry) (owner : String) :
    Except LookupError (List FieldDescriptor) → Except LookupError (List FieldDescriptor) → Prop where
  | refused {e : LookupError} : RecutFields r owner (.error e) (.error e)
  | fields {fs gs : List FieldDescriptor} :
      List.Forall₂ (fun f g => g.name = f.name ∧ g.requirement = f.requirement ∧ r.Recut owner f.value g.value) fs gs →
      RecutFields r owner (.ok fs) (.ok gs)

theorem RecutFields.eq {answer answer' : Except LookupError (List FieldDescriptor)}
    (recut : r.RecutFields owner answer answer') (off : ¬ TransGen r.definitions.FieldRefers owner owner) :
    answer = answer' := by
  cases recut with
  | refused => rfl
  | fields related =>
    congr 1
    refine List.forall₂_eq_eq_eq ▸ related.imp fun f g ⟨name, requirement, value⟩ => ?_
    obtain ⟨⟩ := f
    obtain ⟨⟩ := g
    cases name
    cases requirement
    cases value.eq off
    rfl

theorem Cut.mutual (wf : r.definitions.WellFormed) (cut : r.Cut (some owner) name) :
    r.definitions.Mutual owner name := by
  obtain ⟨_, ⟨⟩, cut⟩ := cut
  exact (inlines_of_cut wf.composites cut).1.mutual

section

variable (same : r.definitions.Equivalent r'.definitions)
include same

theorem knownAlike_of_equivalent (name : String) : r.KnownAlike r' name := by
  refine ⟨same.kind? name, ?_⟩
  rw [lowerAlias, lowerAlias, same.aliasTarget r.definitions_checked r'.definitions_checked]
  cases r.definitions.aliasTarget name with
  | error e => rfl
  | ok target =>
    cases target with
    | named target => simp only [same.kind?]
    | base | list | set | map => rfl

theorem methods_equivalent (service : String) : r'.methods service = r.methods service := by
  rw [methods, methods, same.services]
  cases r.definitions.services.get? service with
  | none => rfl
  | some ms =>
    refine mapM_congr fun m _ => lowerMethod_congr (fun name _ => knownAlike_of_equivalent same name)
      (fun f _ name _ => knownAlike_of_equivalent same name) fun f _ => ?_
    exact same.exceptionName r.definitions_checked r'.definitions_checked f.type

theorem expansion_equivalent (name : String) : r'.expansion name = r.expansion name := by
  rw [expansion, expansion, Table.contains_congr (same.structs name)]

/-- A checked type in a field is lowered by both, and alike but for references within the group of the owner. -/
theorem lower_recut (wf : r.definitions.WellFormed) (wf' : r'.definitions.WellFormed)
    (known : r.definitions.Defined type) :
    ∃ v w, r.lower (some owner) type = .ok v ∧ r'.lower (some owner) type = .ok w ∧ r.Recut owner v w := by
  induction type with
  | base b => exact ⟨_, _, rfl, rfl, .refl⟩
  | list e ih =>
    obtain ⟨v, w, lowered, lowered', recut⟩ := ih known
    exact ⟨_, _, bind_eq_ok.mpr ⟨v, lowered, rfl⟩, bind_eq_ok.mpr ⟨w, lowered', rfl⟩, .list recut⟩
  | set e ih =>
    obtain ⟨v, w, lowered, lowered', recut⟩ := ih known
    exact ⟨_, _, bind_eq_ok.mpr ⟨v, lowered, rfl⟩, bind_eq_ok.mpr ⟨w, lowered', rfl⟩, .set recut⟩
  | map k e ihk ihv =>
    obtain ⟨k, l, key, key', first⟩ := ihk fun name mem => known name (List.mem_append_left _ mem)
    obtain ⟨v, w, value, value', second⟩ := ihv fun name mem => known name (List.mem_append_right _ mem)
    exact ⟨_, _, bind_eq_ok.mpr ⟨k, key, bind_eq_ok.mpr ⟨v, value, rfl⟩⟩,
      bind_eq_ok.mpr ⟨l, key', bind_eq_ok.mpr ⟨w, value', rfl⟩⟩, .map first second⟩
  | named name =>
    by_cases cut : r.Cut (some owner) name <;> by_cases cut' : r'.Cut (some owner) name
    · have group := cut.mutual wf
      have composite := isComposite_iff.mpr group.composite
      exact ⟨_, _, lower_cut composite cut, lower_cut ((same.isComposite name).trans composite) cut', .refl⟩
    · have group := cut.mutual wf
      have composite := isComposite_iff.mpr group.composite
      refine ⟨_, _, lower_cut composite cut, lower_inline ((same.isComposite name).trans composite) cut', ?_⟩
      rw [expansion_equivalent same]
      exact .uncut group
    · have group := same.mutual.mp (cut'.mutual wf')
      have composite := isComposite_iff.mpr group.composite
      exact ⟨_, _, lower_inline composite cut, lower_cut ((same.isComposite name).trans composite) cut', .cut group⟩
    · have uncut : r'.isCut owner name = r.isCut owner name := by
        rw [Bool.eq_iff_iff, isCut_iff, isCut_iff]
        exact ⟨fun mem => absurd ⟨owner, rfl, mem⟩ cut', fun mem => absurd ⟨owner, rfl, mem⟩ cut⟩
      obtain ⟨v, lowered⟩ := lower_isOk (some owner) known
      refine ⟨v, v, lowered, ?_, .refl⟩
      rw [← lowered]
      refine lower_congr (fun name _ => knownAlike_of_equivalent same name) ?_
      rintro _ ⟨⟩ other mem
      rw [List.mem_singleton.mp mem, uncut]

theorem lowerFields_recut (wf : r.definitions.WellFormed) (wf' : r'.definitions.WellFormed) {fields : List FieldDecl}
    (known : ∀ f ∈ fields, r.definitions.Defined f.type) :
    r.RecutFields owner (r.lowerFields (some owner) fields) (r'.lowerFields (some owner) fields) := by
  have both : ∃ fs gs, r.lowerFields (some owner) fields = .ok fs ∧ r'.lowerFields (some owner) fields = .ok gs ∧
      List.Forall₂ (fun f g => g.name = f.name ∧ g.requirement = f.requirement ∧ r.Recut owner f.value g.value)
        fs gs := by
    induction fields with
    | nil => exact ⟨[], [], rfl, rfl, .nil⟩
    | cons field fields ih =>
      obtain ⟨v, w, lowered, lowered', recut⟩ := lower_recut same wf wf' (known field List.mem_cons_self)
      obtain ⟨fs, gs, rest, rest', related⟩ := ih fun f mem => known f (List.mem_cons_of_mem _ mem)
      refine ⟨_, _, mapM_eq_ok.mpr (.cons (bind_eq_ok.mpr ⟨v, lowered, rfl⟩) (mapM_eq_ok.mp rest)),
        mapM_eq_ok.mpr (.cons (bind_eq_ok.mpr ⟨w, lowered', rfl⟩) (mapM_eq_ok.mp rest')),
        .cons ⟨rfl, rfl, recut⟩ related⟩
  obtain ⟨fs, gs, lowered, lowered', related⟩ := both
  rw [lowered, lowered']
  exact .fields related

theorem structFields_recut (wf : r.definitions.WellFormed) (wf' : r'.definitions.WellFormed) (name : String) :
    r.RecutFields name (r.structFields name) (r'.structFields name) := by
  rw [structFields, structFields, same.isComposite, same.compositeFields]
  split
  · exact lowerFields_recut same wf wf' (r.definitions_checked.fields name)
  · exact .refused

theorem exceptionFields_recut (wf : r.definitions.WellFormed) (wf' : r'.definitions.WellFormed) (name : String) :
    r.RecutFields name (r.exceptionFields name) (r'.exceptionFields name) := by
  rw [exceptionFields, exceptionFields, same.exceptions]
  split
  · next fields found => exact lowerFields_recut same wf wf' (r.definitions_checked.exceptions name fields found)
  · exact .refused

theorem serviceNames_equivalent (name : String) : name ∈ r'.serviceNames ↔ name ∈ r.serviceNames := by
  rw [serviceNames, serviceNames, Table.mem_keys, Table.mem_keys, same.services]

theorem enumConstants_equivalent (name : String) : r'.enumConstants name = r.enumConstants name := by
  rw [enumConstants, enumConstants, same.enums]

end

variable {files files' : List RegistryFile}

/-- The same files in another order give every name the same meaning. -/
theorem build_equivalent (reordered : files.Perm files') (built : build files = .ok r)
    (built' : build files' = .ok r') : r.definitions.Equivalent r'.definitions := by
  obtain ⟨⟨⟨⟩, d⟩, added, checked⟩ := bind_eq_ok.mp built
  obtain ⟨⟨⟨⟩, d'⟩, added', checked'⟩ := bind_eq_ok.mp built'
  intro name x
  rw [ofDefinitions_eq_ok checked, ofDefinitions_eq_ok checked', declares_iff added, declares_iff added']
  simp only [reordered.mem_iff]

/-- The order of files decides neither whether a registry is built nor what it answers about services, enums and types
off all cycles. About a struct, union or exception on a cycle the answers may differ in which references to members of
its own group are cut, and in nothing else. -/
theorem build_reordered (reordered : files.Perm files') :
    ((∃ r, build files = .ok r) ↔ ∃ r, build files' = .ok r) ∧
    ∀ r r', build files = .ok r → build files' = .ok r' →
      (∀ name, name ∈ r'.serviceNames ↔ name ∈ r.serviceNames) ∧
      r'.definitions.typeCount = r.definitions.typeCount ∧
      (∀ service, r'.provider.methods service = r.provider.methods service) ∧
      (∀ name, r'.provider.enumConstants name = r.provider.enumConstants name) ∧
      (∀ name, ¬ TransGen r.definitions.FieldRefers name name →
        r'.provider.structFields name = r.provider.structFields name ∧
        r'.provider.exceptionFields name = r.provider.exceptionFields name) ∧
      ∀ name, r.RecutFields name (r.provider.structFields name) (r'.provider.structFields name) ∧
        r.RecutFields name (r.provider.exceptionFields name) (r'.provider.exceptionFields name) := by
  constructor
  · constructor
    · rintro ⟨r, built⟩
      exact build_isOk ((consistent_of_build built).perm reordered)
    · rintro ⟨r, built⟩
      exact build_isOk ((consistent_of_build built).perm reordered.symm)
  · intro r r' built built'
    have same := build_equivalent reordered built built'
    have structs := structFields_recut same (build_wellFormed built) (build_wellFormed built')
    have exceptions := exceptionFields_recut same (build_wellFormed built) (build_wellFormed built')
    refine ⟨serviceNames_equivalent same, same.typeCount, methods_equivalent same, enumConstants_equivalent same, ?_,
      fun name => ⟨structs name, exceptions name⟩⟩
    exact fun name off => ⟨((structs name).eq off).symm, ((exceptions name).eq off).symm⟩

def halfFile (own other : String) : RegistryFile where
  structs := .ofList [(own, { fields := [{ name := "next", type := other }] })]

/-- The order of two such files decides which of the two references is cut. -/
theorem halves_reordered :
    ∃ r r', build [halfFile "A" "B", halfFile "B" "A"] = .ok r ∧ build [halfFile "B" "A", halfFile "A" "B"] = .ok r' ∧
      r.provider.structFields "A" = .ok [{ name := "next", value := .typedef .struct "B" }] ∧
      r'.provider.structFields "A" = .ok [{ name := "next", value := .struct "B" }] ∧
      r.RecutFields "A" (r.provider.structFields "A") (r'.provider.structFields "A") := by
  have first : (fun r => r.provider.structFields "A") <$> build [halfFile "A" "B", halfFile "B" "A"] =
      .ok (.ok [{ name := "next", value := .typedef .struct "B" }]) := by decide +kernel
  have second : (fun r => r.provider.structFields "A") <$> build [halfFile "B" "A", halfFile "A" "B"] =
      .ok (.ok [{ name := "next", value := .struct "B" }]) := by decide +kernel
  obtain ⟨r, built, cut⟩ := map_eq_ok.mp first
  obtain ⟨r', built', uncut⟩ := map_eq_ok.mp second
  obtain ⟨-, -, -, -, -, recut⟩ := (build_reordered (.swap _ _ [])).2 r r' built built'
  exact ⟨r, r', built, built', cut, uncut, (recut "A").1⟩

end Registry

end ThriftCatalog
