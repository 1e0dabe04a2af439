import ThriftCatalog.Proofs.AliasChain
import ThriftCatalog.Proofs.Lowering
import ThriftCatalog.Proofs.Stability

/-! Merging is a conservative extension. Whatever a registry answers about the names it knows, it answers after one
more file has been merged into it; only docs may change. -/
namespace ThriftCatalog

open Fallible

namespace Definitions

variable {d d' : Definitions} {name : String} {type : TypeExpr}

theorem Defined.named (known : d.Defined (.named name)) : name ∈ d.names :=
  mem_names.mpr (.inr (known name (List.mem_singleton.mpr rfl)))

/-- The chain of an old alias ends where it ended. -/
theorem Extends.aliasTarget (ext : d.Extends d') (checked : d.Checked) (checked' : d'.Checked) (mem : name ∈ d.names) :
    d'.aliasTarget name = d.aliasTarget name := by
  have keys {name : String} (mem : name ∈ d.names) : name ∈ d'.aliases.keys ↔ name ∈ d.aliases.keys := by
    rw [← Table.contains_iff, ← Table.contains_iff, ext.aliases.contains mem]
  have old {name : String} (mem : name ∈ d.aliases.keys) : name ∈ d.names := keys_subset_names.2.2.2.2 mem
  by_cases known : name ∈ d.aliases.keys
  · obtain ⟨target, found⟩ := checked.chains name known
    obtain ⟨last, chain, ends⟩ := aliasTarget_ends found
    rw [found, aliasTarget_eq_ok checked'.chains]
    refine ⟨last, chain.lift id fun a b leads => (ext.aliases.get? (old (Leads.mem leads))).trans leads,
      (ext.aliases.get? (old ends.mem)).trans ends.1, fun next same => ?_⟩
    have defined : next ∈ d.names := by
      subst same
      exact (checked.aliases last _ ends.1).named
    rw [keys defined]
    exact ends.2 next same
  · rw [aliasTarget_of_not_mem known, aliasTarget_of_not_mem (mt (keys mem).mp known)]

/-- What a chain ends in mentions known names only. -/
theorem Checked.aliasTarget (checked : d.Checked) (found : d.aliasTarget name = .ok type) : d.Defined type := by
  obtain ⟨last, -, ends⟩ := aliasTarget_ends found
  exact checked.aliases last type ends.1

theorem Extends.exceptionName (ext : d.Extends d') (checked : d.Checked) (checked' : d'.Checked)
    (known : d.Defined type) : d'.exceptionName type = d.exceptionName type := by
  refine exceptionName_congr ?_ fun target found => ext.exceptions.contains (Defined.named ?_)
  · cases type with
    | named name =>
      rw [chainEnd, chainEnd, ext.aliases.contains known.named, ext.aliasTarget checked checked' known.named]
    | base | list | set | map => rfl
  · cases type with
    | named name =>
      rw [chainEnd] at found
      split at found
      · exact checked.aliasTarget found
      · cases found
        exact known
    | base | list | set | map => cases found

end Definitions

namespace Registry

open Definitions

variable {r r' : Registry} {name : String} {owner : Option String} {type : TypeExpr}

section

variable (ext : r.definitions.Extends r'.definitions)
include ext

theorem isCut_extends (mem : name ∈ r.definitions.composites) (target : String) :
    r'.isCut name target = r.isCut name target := by
  rw [Bool.eq_iff_iff, isCut_iff, isCut_iff, ext.cycleCuts r.definitions_checked mem]

theorem lowerAlias_extends (mem : name ∈ r.definitions.names) : r'.lowerAlias name = r.lowerAlias name := by
  rw [lowerAlias, lowerAlias, ext.aliasTarget r.definitions_checked r'.definitions_checked mem]
  cases found : r.definitions.aliasTarget name with
  | error e => rfl
  | ok target =>
    cases target with
    | named target =>
      have known := (r.definitions_checked.aliasTarget found).named
      simp only [ext.kind? known]
    | base | list | set | map => rfl

theorem knownAlike_of_defined (known : r.definitions.Defined type) : ∀ name ∈ type.names, r.KnownAlike r' name := by
  intro name mem
  have old : name ∈ r.definitions.names := mem_names.mpr (.inr (known name mem))
  exact ⟨ext.kind? old, lowerAlias_extends ext old⟩

theorem lowerFields_extends (old : ∀ name ∈ owner, name ∈ r.definitions.composites) {fields : List FieldDecl}
    (known : ∀ f ∈ fields, r.definitions.Defined f.type) : r'.lowerFields owner fields = r.lowerFields owner fields :=
  lowerFields_congr (fun f mem => knownAlike_of_defined ext (known f mem))
    fun a own _ _ name _ => isCut_extends ext (old a own) name

theorem lowerMethod_extends {service : String} {m : MethodDecl} (checked : r.definitions.MethodChecked m) :
    r'.lowerMethod service m = r.lowerMethod service m := by
  refine lowerMethod_congr (knownAlike_of_defined ext checked.returns)
    (fun f mem => knownAlike_of_defined ext (checked.fields f mem)) fun f mem => ?_
  exact ext.exceptionName r.definitions_checked r'.definitions_checked (checked.fields f (List.mem_append_right _ mem))

end

/-- The answers of a registry about the names it knows stay the same when a file is merged into it, whatever the
registry was built and merged from. The cuts are part of these answers; docs are not. -/
theorem merge_conservative {file : RegistryFile} (merged : r.merge file = .ok r') :
    (∀ name ∈ r.definitions.names,
      r'.provider.methods name = r.provider.methods name ∧
      r'.provider.structFields name = r.provider.structFields name ∧
      r'.provider.exceptionFields name = r.provider.exceptionFields name ∧
      r'.provider.enumConstants name = r.provider.enumConstants name) ∧
    (∀ interface service, r.provider.enclosingService interface = .ok service →
      r'.provider.enclosingService interface = .ok service) ∧
    ∀ owner ∈ r.definitions.composites, ∀ target, r'.isCut owner target = r.isCut owner target := by
  have ext := merge_extends merged
  have checked := r.definitions_checked
  refine ⟨fun name mem => ⟨?_, ?_, ?_, ?_⟩, ?_, fun owner mem => isCut_extends ext mem⟩
  · simp only [provider, methods, ext.services.get? mem]
    split
    · next ms found => exact mapM_congr fun m mem => lowerMethod_extends ext (checked.methods name ms found m mem)
    · rfl
  · simp only [provider, structFields, ext.isComposite mem, ext.compositeFields mem]
    split
    · next composite =>
      refine lowerFields_extends ext ?_ (checked.fields name)
      rintro _ ⟨⟩
      exact isComposite_iff.mp composite
    · rfl
  · simp only [provider, exceptionFields, ext.exceptions.get? mem]
    split
    · next fields found =>
      refine lowerFields_extends ext ?_ (checked.exceptions name fields found)
      rintro _ ⟨⟩
      exact List.mem_append_right _ (Table.mem_keys.mpr ⟨fields, found⟩)
    · rfl
  · simp only [provider, enumConstants, ext.enums.get? mem]
  · intro interface service placed
    simp only [provider, enclosingService] at placed ⊢
    split at placed
    · next known =>
      have mem := keys_subset_names.1 (Table.contains_iff.mp known)
      rw [ext.services.contains mem, known]
      exact placed
    · contradiction

def secondPairFile : RegistryFile where
  structs := .ofList [
    ("C", { fields := [{ name := "a", type := "list<A>" }, { name := "d", type := "D" }] }),
    ("D", { fields := [{ name := "c", type := "C" }] })]

theorem secondPair_conservative :
    ∃ r r', build [pairFile] = .ok r ∧ r.merge secondPairFile = .ok r' ∧
      r'.definitions.composites = ["A", "B", "C", "D"] ∧
      r'.provider.structFields "A" = r.provider.structFields "A" ∧ r'.isCut "A" "B" = true := by
  have first : (fun r => (r.definitions.names, r.definitions.composites, r.isCut "A" "B")) <$> build [pairFile] =
      .ok (["S", "A", "B"], ["A", "B"], true) := by decide +kernel
  have second : (fun r => r.definitions.composites) <$> (build [pairFile] >>= fun r => r.merge secondPairFile) =
      .ok ["A", "B", "C", "D"] := by decide +kernel
  obtain ⟨r', merged, composites⟩ := map_eq_ok.mp second
  obtain ⟨r, built, merged⟩ := bind_eq_ok.mp merged
  rw [built] at first
  simp only [Functor.map, Except.map, Except.ok.injEq, Prod.mk.injEq] at first
  obtain ⟨names, old, cut⟩ := first
  obtain ⟨answers, -, cuts⟩ := merge_conservative merged
  refine ⟨r, r', built, merged, composites, (answers "A" (by simp [names])).2.1, ?_⟩
  exact (cuts "A" (by simp [old]) "B").trans cut

end Registry

end ThriftCatalog
