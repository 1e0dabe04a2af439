import ThriftCatalog.Proofs.Reachability

/-! Reachability by the fields as they are declared. The search answers whether a chain of field references leads from
one struct, union or exception to another. It ends on every graph, after looking into at most one name more than there
are structs, unions and exceptions. -/
namespace ThriftCatalog

open Relation

namespace Definitions

variable {d : Definitions} {a b : String}

/-- Chains of field references lead from each to the other. -/
def SameGroup (d : Definitions) (a b : String) : Prop :=
  ReflTransGen d.FieldRefers a b ∧ ReflTransGen d.FieldRefers b a

/-- The references on a cycle are those that stay in the group of their owner. -/
theorem groupRefers_iff : d.GroupRefers a b ↔ d.FieldRefers a b ∧ d.SameGroup a b := by
  rw [GroupRefers, SameGroup]
  constructor
  · rintro ⟨refers, back⟩
    exact ⟨refers, .single refers, back.to_reflTransGen⟩
  · rintro ⟨refers, -, back⟩
    refine ⟨refers, ?_⟩
    rcases reflTransGen_iff_eq_or_transGen.mp back with rfl | back
    · exact .single refers
    · exact back

namespace Search

/-- A search that ends with an answer after looking into so many names. -/
inductive Looks (d : Definitions) (target : String) : Nat → Search → Bool → Prop where
  | exhausted {unseen : List String} : Looks d target 0 ⟨[], unseen⟩ false
  | found {name : String} {stack unseen : List String} : target ∈ d.mentions name →
      Looks d target 1 ⟨name :: stack, unseen⟩ true
  | further {name : String} {stack unseen : List String} {looks : Nat} {answer : Bool} : target ∉ d.mentions name →
      Looks d target looks ((d.mentions name).foldl meet ⟨stack, unseen⟩) answer →
      Looks d target (looks + 1) ⟨name :: stack, unseen⟩ answer

/-- Each look takes one name away from those that may still be looked into. -/
theorem finds_looks (d : Definitions) (target : String) (s : Search) :
    ∃ looks ≤ s.remaining, Looks d target looks s (finds d target s) := by
  induction s using finds.induct d target with
  | case1 unseen =>
    rw [finds]
    exact ⟨0, Nat.zero_le _, .exhausted⟩
  | case2 name stack unseen here =>
    rw [finds, if_pos here]
    refine ⟨1, ?_, .found here⟩
    simp only [remaining, List.length_cons]
    omega
  | case3 name stack unseen other ih =>
    obtain ⟨looks, few, further⟩ := ih
    rw [finds, if_neg other]
    refine ⟨looks + 1, ?_, .further other further⟩
    rw [remaining_meetAll] at few
    simp only [remaining, List.length_cons] at few ⊢
    omega

end Search

/-- The search from one name for a struct, union or exception finds it exactly if a chain of at least one field
reference leads there, and ends on every graph. So the group references of a name are its direct references within its
group, each of them once. -/
theorem reaches_exact (d : Definitions) {b : String} (composite : b ∈ d.composites) (a : String) :
    (d.reaches a b = true ↔ TransGen d.FieldRefers a b) ∧
      (∃ looks ≤ d.composites.length + 1, Search.Looks d b looks ⟨[a], d.composites⟩ (d.reaches a b)) ∧
      (∀ c, c ∈ d.groupReferences a ↔ d.FieldRefers a c ∧ d.SameGroup a c) ∧ (d.groupReferences a).Nodup := by
  refine ⟨?_, ?_, ?_, groupReferences_nodup⟩
  · exact reaches_iff_transGen composite
  · obtain ⟨looks, few, ends⟩ := Search.finds_looks d b ⟨[a], d.composites⟩
    rw [Search.remaining, List.length_singleton, Nat.add_comm] at few
    exact ⟨looks, few, ends⟩
  · intro c
    rw [mem_groupReferences, groupRefers_iff]

/-- Two structs on a cycle through a list and the keys of a map, and a third one, which they name by an alias only. -/
def ringDefinitions : Definitions where
  services := ∅
  structs := .ofList [
    ("A", [⟨"bs", .default, .list (.named "B")⟩]),
    ("B", [⟨"counts", .default, .map (.named "A") (.base .i32)⟩, ⟨"origin", .default, .named "Origin"⟩]),
    ("C", [⟨"a", .default, .named "A"⟩])]
  exceptions := ∅
  enums := ∅
  aliases := .ofList [("Origin", .named "C")]
  docs := ∅

theorem ring_reaches : "A" ∈ ringDefinitions.composites ∧ TransGen ringDefinitions.FieldRefers "C" "A" ∧
    ringDefinitions.groupReferences "B" = ["A"] ∧ ringDefinitions.SameGroup "B" "A" ∧
    "C" ∈ ringDefinitions.composites ∧ ¬ TransGen ringDefinitions.FieldRefers "A" "C" := by
  have first : "A" ∈ ringDefinitions.composites := by decide +kernel
  have third : "C" ∈ ringDefinitions.composites := by decide +kernel
  have references : ringDefinitions.groupReferences "B" = ["A"] := by decide +kernel
  have unreached : ringDefinitions.reaches "A" "C" = false := by decide +kernel
  obtain ⟨there, -, -, -⟩ := reaches_exact ringDefinitions first "C"
  obtain ⟨back, -, -, -⟩ := reaches_exact ringDefinitions third "A"
  obtain ⟨-, -, group, -⟩ := reaches_exact ringDefinitions first "B"
  refine ⟨first, there.mp (by decide +kernel), references, ((group "A").mp ?_).2, third,
    back.not.mp (by simp [unreached])⟩
  rw [references]
  exact List.mem_singleton_self "A"

end Definitions

end ThriftCatalog
