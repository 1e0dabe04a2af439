import Mathlib.Logic.Relation
import ThriftCatalog.Proofs.Table
import ThriftCatalog.Registry.Reference

/-! References as a relation. The search decides whether a chain of at least one reference leads from one name to
another, and the group references of a name are those that lie on a cycle. -/
namespace ThriftCatalog.Definitions

open Relation

variable {d : Definitions} {a b : String}

/-- The type of some field of the first contains the second, which is a struct, union or exception. -/
def FieldRefers (d : Definitions) (a b : String) : Prop :=
  b ∈ d.composites ∧ ∃ field ∈ d.compositeFields a, field.type.Contains b

/-- A reference on a cycle. -/
def GroupRefers (d : Definitions) (a b : String) : Prop := d.FieldRefers a b ∧ TransGen d.FieldRefers b a

theorem isComposite_iff : d.isComposite a = true ↔ a ∈ d.composites := by
  simp [isComposite, composites, Table.contains_iff]

theorem references_spec (names refs : List String) :
    let found := names.foldl
      (fun refs other => if d.isComposite other && !refs.contains other then refs ++ [other] else refs) refs
    (∀ x, x ∈ found ↔ x ∈ refs ∨ (x ∈ names ∧ d.isComposite x = true)) ∧ (refs.Nodup → found.Nodup) := by
  induction names generalizing refs with
  | nil => simp
  | cons name names ih =>
    rw [List.foldl_cons]
    split
    · next new =>
      obtain ⟨composite, fresh⟩ : d.isComposite name = true ∧ name ∉ refs := by simpa using new
      refine ⟨fun x => ?_, fun distinct => (ih _).2 ?_⟩
      · rw [(ih _).1, List.mem_append, List.mem_singleton, List.mem_cons]
        constructor
        · rintro ((mem | rfl) | ⟨mem, found⟩)
          · exact .inl mem
          · exact .inr ⟨.inl rfl, composite⟩
          · exact .inr ⟨.inr mem, found⟩
        · rintro (mem | ⟨rfl | mem, found⟩)
          · exact .inl (.inl mem)
          · exact .inl (.inr rfl)
          · exact .inr ⟨mem, found⟩
      · rw [List.nodup_append]
        refine ⟨distinct, by simp, fun x mem y here => ?_⟩
        rw [List.mem_singleton] at here
        exact fun same => fresh (here ▸ same ▸ mem)
    · next old =>
      have known : d.isComposite name = true → name ∈ refs := by simpa using old
      refine ⟨fun x => ?_, (ih _).2⟩
      rw [(ih _).1, List.mem_cons]
      constructor
      · rintro (mem | ⟨mem, found⟩)
        · exact .inl mem
        · exact .inr ⟨.inr mem, found⟩
      · rintro (mem | ⟨rfl | mem, found⟩)
        · exact .inl mem
        · exact .inl (known found)
        · exact .inr ⟨mem, found⟩

theorem fieldRefers_iff : d.FieldRefers a b ↔ b ∈ d.mentions a ∧ d.isComposite b = true := by
  simp only [FieldRefers, mentions, List.mem_flatMap, TypeExpr.mem_names_iff, isComposite_iff, and_comm]

theorem mem_references : b ∈ d.references a ↔ d.FieldRefers a b := by
  rw [fieldRefers_iff, references, (references_spec _ _).1]
  simp

theorem references_nodup : (d.references a).Nodup :=
  (references_spec _ _).2 List.nodup_nil

theorem FieldRefers.composite (h : d.FieldRefers a b) : b ∈ d.composites := h.1

/-- Only structs, unions and exceptions have fields to refer from. -/
theorem FieldRefers.source (h : d.FieldRefers a b) : a ∈ d.composites := by
  obtain ⟨mem, -⟩ := fieldRefers_iff.mp h
  rw [← isComposite_iff, isComposite, Table.contains_eq_isSome, Table.contains_eq_isSome]
  unfold mentions compositeFields at mem
  cases structs : d.structs.get? a with
  | some fields => simp
  | none =>
    cases exceptions : d.exceptions.get? a with
    | some fields => simp
    | none => simp [structs, exceptions] at mem

namespace Search

variable {s t u : Search} {target x : String} {names names' stack unseen : List String}

/-- What becomes of a search when these names are met. -/
structure Met (names : List String) (s t : Search) : Prop where
  stack : ∀ x, x ∈ t.stack ↔ x ∈ s.stack ∨ x ∈ names ∧ x ∈ s.unseen
  unseen : ∀ x ∈ t.unseen, x ∈ s.unseen
  kept : ∀ x ∈ s.unseen, x ∈ t.unseen ∨ x ∈ t.stack

theorem Met.refl : Met [] s s := ⟨by simp, fun _ => id, fun _ => .inl⟩

theorem Met.trans (first : Met names s t) (second : Met names' t u) : Met (names ++ names') s u := by
  have onward {x : String} (mem : x ∈ t.stack) : x ∈ u.stack := (second.stack x).mpr (.inl mem)
  have kept : ∀ x ∈ s.unseen, x ∈ u.unseen ∨ x ∈ u.stack := fun x new =>
    (first.kept x new).elim (second.kept x) fun mem => .inr (onward mem)
  refine ⟨fun x => ⟨fun mem => ?_, ?_⟩, fun x new => first.unseen x (second.unseen x new), kept⟩
  · rcases (second.stack x).mp mem with mem | ⟨named, new⟩
    · exact ((first.stack x).mp mem).imp_right fun ⟨named, new⟩ => ⟨List.mem_append_left _ named, new⟩
    · exact .inr ⟨List.mem_append_right _ named, first.unseen x new⟩
  · rintro (mem | ⟨named, new⟩)
    · exact onward ((first.stack x).mpr (.inl mem))
    · rcases List.mem_append.mp named with named | named
      · exact onward ((first.stack x).mpr (.inr ⟨named, new⟩))
      · rcases first.kept x new with new | mem
        · exact (second.stack x).mpr (.inr ⟨named, new⟩)
        · exact onward mem

theorem met_meet (s : Search) (name : String) : Met [name] s (s.meet name) := by
  unfold meet
  split
  · next new =>
    refine ⟨fun x => ?_, fun x => List.mem_of_mem_erase, fun x seen => ?_⟩
    · rw [List.mem_cons, List.mem_singleton, or_comm]
      exact or_congr_right ⟨fun here => ⟨here, here ▸ new⟩, And.left⟩
    · by_cases here : x = name
      · exact .inr (here ▸ List.mem_cons_self)
      · exact .inl ((List.mem_erase_of_ne here).mpr seen)
  · next old =>
    refine ⟨fun x => ⟨.inl, fun h => h.elim id ?_⟩, fun _ => id, fun _ => .inl⟩
    rintro ⟨here, new⟩
    exact absurd (List.mem_singleton.mp here ▸ new) old

theorem met_meetAll (s : Search) (names : List String) : Met names s (names.foldl meet s) := by
  induction names generalizing s with
  | nil => exact .refl
  | cons name names ih => exact (met_meet s name).trans (ih (s.meet name))

/-- A search finds a target exactly if a chain through unseen names leads from the stack to a name that mentions it. -/
theorem finds_iff : finds d target ⟨stack, unseen⟩ = true ↔ ∃ first ∈ stack, ∃ last,
    ReflTransGen (fun y z => z ∈ d.mentions y ∧ z ∈ unseen) first last ∧ target ∈ d.mentions last := by
  induction h : (⟨stack, unseen⟩ : Search) using finds.induct d target generalizing stack unseen with
  | case1 unseen =>
    cases h
    simp [finds]
  | case2 name stack unseen here =>
    cases h
    rw [finds, if_pos here]
    exact iff_of_true rfl ⟨name, List.mem_cons_self, name, .refl, here⟩
  | case3 name stack unseen other ih =>
    cases h
    have met := met_meetAll ⟨stack, unseen⟩ (d.mentions name)
    rw [finds, if_neg other, ih rfl]
    have narrower {first last : String}
        (chain : ReflTransGen (fun y z => z ∈ d.mentions y ∧
          z ∈ ((d.mentions name).foldl meet ⟨stack, unseen⟩).unseen) first last) :
        ReflTransGen (fun y z => z ∈ d.mentions y ∧ z ∈ unseen) first last :=
      chain.lift id fun y z step => ⟨step.1, met.unseen z step.2⟩
    constructor
    · rintro ⟨first, mem, last, chain, found⟩
      rcases (met.stack first).mp mem with mem | step
      · exact ⟨first, List.mem_cons_of_mem _ mem, last, narrower chain, found⟩
      · exact ⟨name, List.mem_cons_self, last, .head step (narrower chain), found⟩
    · rintro ⟨first, mem, last, chain, found⟩
      -- Along the chain, every name but `name` is reached from the new stack without what was just met.
      have onward : last = name ∨ ∃ first ∈ ((d.mentions name).foldl meet ⟨stack, unseen⟩).stack,
          ReflTransGen (fun y z => z ∈ d.mentions y ∧
            z ∈ ((d.mentions name).foldl meet ⟨stack, unseen⟩).unseen) first last := by
        clear found ih
        induction chain with
        | refl =>
          rcases List.mem_cons.mp mem with here | mem
          · exact .inl here
          · exact .inr ⟨first, (met.stack first).mpr (.inl mem), .refl⟩
        | @tail y z _ step ih =>
          rcases met.kept z step.2 with new | mem
          · rcases ih with rfl | ⟨first, mem, chain⟩
            · exact .inr ⟨z, (met.stack z).mpr (.inr step), .refl⟩
            · exact .inr ⟨first, mem, chain.tail ⟨step.1, new⟩⟩
          · exact .inr ⟨z, mem, .refl⟩
      rcases onward with rfl | ⟨first, mem, chain⟩
      · exact absurd found other
      · exact ⟨first, mem, last, chain, found⟩

end Search

/-- From a name what another mentions is reached by references to that other. -/
theorem reaches_iff_mentions : d.reaches a b = true ↔ ∃ c, ReflTransGen d.FieldRefers a c ∧ b ∈ d.mentions c := by
  have steps : (fun y z => z ∈ d.mentions y ∧ z ∈ d.composites) = d.FieldRefers := by
    funext y z
    rw [← isComposite_iff, ← fieldRefers_iff]
  rw [reaches, Search.finds_iff, steps]
  simp only [List.mem_singleton, exists_eq_left]

/-- Between structs, unions and exceptions the search decides whether a chain of references leads from one to the
other. -/
theorem reaches_iff_transGen (composite : b ∈ d.composites) : d.reaches a b = true ↔ TransGen d.FieldRefers a b := by
  rw [reaches_iff_mentions, TransGen.tail'_iff]
  simp only [fieldRefers_iff, isComposite_iff.mpr composite, and_true]

theorem mem_groupReferences : b ∈ d.groupReferences a ↔ d.GroupRefers a b := by
  rw [groupReferences, List.mem_filter, mem_references]
  exact and_congr_right fun refers => reaches_iff_transGen refers.source

theorem groupReferences_nodup : (d.groupReferences a).Nodup :=
  references_nodup.filter _

end ThriftCatalog.Definitions
