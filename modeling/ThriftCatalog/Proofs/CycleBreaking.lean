import ThriftCatalog.Proofs.Answer

/-! Whether cutting breaks cycles, and no more than that. A reference counts as cut if the answer about the fields of
its owner shows it by name. What is not cut has no cycle, and every cut reference would close one. -/
namespace ThriftCatalog.Registry

open Relation Fallible Definitions

variable {r : Registry} {a b : String} {v : ValueDescriptor} {field : FieldDecl}

/-- A reference between structs, unions and exceptions that the answer about the first shows by name. -/
def ShownByName (r : Registry) (a b : String) : Prop :=
  r.definitions.FieldRefers a b ∧ ∃ v, r.provider.AnswersFor (some a) v ∧ ∃ tag, .typedef tag b ∈ v.leaves

def Expanded (r : Registry) (a b : String) : Prop := r.definitions.FieldRefers a b ∧ ¬ r.ShownByName a b

/-- The cut references break every cycle, and each of them is needed for that. -/
structure BreaksCycles (r : Registry) : Prop where
  acyclic : ∀ a, ¬ TransGen r.Expanded a a
  /-- What is cut leads back to where it was cut. -/
  leadsBack : ∀ a b, r.ShownByName a b → ReflTransGen r.Expanded b a
  /-- Put back on its own, a cut reference makes its owner expand into itself. -/
  needed : ∀ a b, r.ShownByName a b → TransGen (fun x y => r.Expanded x y ∨ x = a ∧ y = b) a a
  /-- A reference on no cycle is never cut. -/
  offCycle : ∀ a b, r.definitions.FieldRefers a b → ¬ ReflTransGen r.definitions.FieldRefers b a → ¬ r.ShownByName a b
  /-- A reference is cut in all fields that mention it, or in none. -/
  everywhere : ∀ a b, r.definitions.isComposite b = true → ∀ field ∈ r.definitions.compositeFields a,
    field.type.Contains b → ∀ v, r.lower (some a) field.type = .ok v →
      (r.ShownByName a b → .typedef .struct b ∈ v.leaves) ∧ (r.Expanded a b → r.expansion b ∈ v.leaves)

section

variable (wf : r.definitions.WellFormed)
include wf

/-- A mentioned struct, union or exception appears by name if its reference is cut, and to be expanded otherwise. -/
theorem lower_leaf (composite : r.definitions.isComposite b = true) (named : field.type.Contains b)
    (lowered : r.lower (some a) field.type = .ok v) :
    ((a, b) ∈ r.definitions.cycleCuts → .typedef .struct b ∈ v.leaves) ∧
      ((a, b) ∉ r.definitions.cycleCuts → r.expansion b ∈ v.leaves) := by
  obtain ⟨leaf, part, describes⟩ := ((lower_iff wf).mp lowered).exists_part (TypeExpr.mem_names_iff.mpr named)
  have found := (lower_iff wf).mpr describes
  constructor
  · intro cut
    cases (lower_cut composite ⟨a, rfl, cut⟩).symm.trans found
    exact part
  · intro uncut
    have uncut : ¬ r.Cut (some a) b := by
      rintro ⟨_, ⟨⟩, cut⟩
      exact uncut cut
    cases (lower_inline composite uncut).symm.trans found
    exact part

/-- The answers show by name exactly what the walk has cut. -/
theorem shownByName_iff : r.ShownByName a b ↔ (a, b) ∈ r.definitions.cycleCuts := by
  constructor
  · rintro ⟨refers, v, answers, tag, mem⟩
    have shape := shape_struct_iff.mpr (isComposite_iff.mpr refers.composite)
    obtain ⟨-, field, -, describes⟩ := (answersFor_some_iff wf).mp answers
    obtain ⟨-, describes⟩ := describes.about mem rfl
    rcases describes_reference describes with ⟨-, -, _, ⟨⟩, cut⟩ | ⟨target, kind, ends, -⟩
    · exact cut
    · exact absurd shape (ends.not_shape wf.distinct)
  · intro cut
    have refers := (inlines_of_cut wf.composites cut).1.1
    have ⟨composite, field, mem, named⟩ := refers
    obtain ⟨v, lowered⟩ := lower_isOk (some a) (r.definitions_checked.fields a field mem)
    refine ⟨refers, v, ?_, .struct, (lower_leaf wf (isComposite_iff.mpr composite) named lowered).1 cut⟩
    apply (answersFor_some_iff wf).mpr
    exact ⟨isComposite_iff.mpr refers.source, field, mem, (lower_iff wf).mp lowered⟩

theorem expanded_iff : r.Expanded a b ↔ r.definitions.Inlines a b :=
  and_congr_right fun _ => not_congr (shownByName_iff wf)

theorem leads_back (shown : r.ShownByName a b) : ReflTransGen r.Expanded b a := by
  have back := (inlines_of_cut wf.composites ((shownByName_iff wf).mp shown)).2
  apply back.lift id
  intro x y inlines
  exact (expanded_iff wf).mpr inlines

end

/-- In every registry that is built the cuts break every cycle, and each of them is needed. -/
theorem build_breaksCycles {files : List RegistryFile} (built : build files = .ok r) : r.BreaksCycles := by
  have wf := build_wellFormed built
  constructor
  case acyclic =>
    intro a cycle
    apply inlines_acyclic wf.composites
    apply cycle.lift id
    intro x y expanded
    exact (expanded_iff wf).mp expanded
  case leadsBack =>
    intro a b shown
    exact leads_back wf shown
  case needed =>
    intro a b shown
    apply TransGen.head' (.inr ⟨rfl, rfl⟩)
    apply (leads_back wf shown).lift id
    intro x y expanded
    exact .inl expanded
  case offCycle =>
    intro a b refers off shown
    apply off
    have group := (inlines_of_cut wf.composites ((shownByName_iff wf).mp shown)).1
    exact group.2.to_reflTransGen
  case everywhere =>
    intro a b composite field mem named v lowered
    obtain ⟨cut, uncut⟩ := lower_leaf wf composite named lowered
    constructor
    · intro shown
      exact cut ((shownByName_iff wf).mp shown)
    · intro expanded
      exact uncut ((expanded_iff wf).mp expanded).2

theorem pair_breaksCycles : ∃ r, build [pairFile] = .ok r ∧ r.BreaksCycles ∧
    r.ShownByName "A" "B" ∧ r.Expanded "B" "A" := by
  have facts : (fun r => (r.definitions.cycleCuts, r.definitions.references "B")) <$> build [pairFile] =
      .ok ([("A", "B")], ["A"]) := by decide +kernel
  obtain ⟨r, built, facts⟩ := map_eq_ok.mp facts
  obtain ⟨cuts, references⟩ := Prod.mk.inj facts
  have wf := build_wellFormed built
  refine ⟨r, built, build_breaksCycles built, (shownByName_iff wf).mpr ?_, (expanded_iff wf).mpr ⟨?_, ?_⟩⟩
  · rw [cuts]
    exact List.mem_singleton.mpr rfl
  · rw [← mem_references, references]
    exact List.mem_singleton.mpr rfl
  · rw [cuts]
    simp

end ThriftCatalog.Registry
