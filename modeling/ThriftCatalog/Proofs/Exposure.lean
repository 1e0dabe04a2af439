import ThriftCatalog.Proofs.Expansion

/-! Where the descriptors below a documented type come from. Each is lowered from a part of such a type or from a part
of a field of what is expanded below it, so it is one of the structs, unions and exceptions that references in place
lead to, a reference cut there, an enum or an alias. -/
namespace ThriftCatalog

open Relation Fallible

def ValueDescriptor.name? : ValueDescriptor → Option String
  | .struct name | .exception name | .enum name | .typedef _ name => some name
  | _ => none

namespace Registry

open Definitions

variable {r : Registry} {owner : Option String} {type : TypeExpr} {v v' : ValueDescriptor} {name a b : String}
  {names : List String}

/-- References in place lead from one of the names to a struct, union or exception. -/
def Reached (r : Registry) (names : List String) (b : String) : Prop :=
  ∃ a ∈ names, r.definitions.isComposite a = true ∧ ReflTransGen r.definitions.Inlines a b

/-- A descriptor lowered from a type that mentions some of the names, or below one. -/
inductive Stands (r : Registry) (names : List String) (v : ValueDescriptor) : Prop where
  | here {type : TypeExpr} : type.names ⊆ names → r.lower none type = .ok v → Stands r names v
  | below {a : String} {type : TypeExpr} : r.Reached names a → type.names ⊆ r.definitions.mentions a →
      r.lower (some a) type = .ok v → Stands r names v

theorem not_cut_none : ¬ r.Cut none name := by simp [Cut]

theorem Reached.tail (reached : r.Reached names a) (inlines : r.definitions.Inlines a b) : r.Reached names b := by
  obtain ⟨c, mem, composite, chain⟩ := reached
  exact ⟨c, mem, composite, chain.tail inlines⟩

theorem Reached.composite (reached : r.Reached names b) : r.definitions.isComposite b = true := by
  obtain ⟨a, -, composite, chain⟩ := reached
  rcases chain.cases_tail with rfl | ⟨c, -, inlines⟩
  · exact composite
  · exact isComposite_iff.mpr inlines.1.composite

/-- Inside a container stands the lowered type of what it contains. Only a name that is expanded in place unfolds
further. -/
theorem lower_unfolds (h : r.lower owner type = .ok v) (inside : r.provider.Unfolds v v') :
    (∃ part, part.names ⊆ type.names ∧ r.lower owner part = .ok v') ∨
      ∃ a, type = .named a ∧ r.definitions.isComposite a = true ∧ ¬ r.Cut owner a ∧ v = r.expansion a := by
  cases type with
  | base b =>
    cases pure_eq_ok.mp h
    cases b <;> cases inside
  | list e =>
    simp only [lower, bind_eq_ok, pure_eq_ok] at h
    obtain ⟨element, lowered, rfl⟩ := h
    cases inside
    exact .inl ⟨e, List.Subset.refl _, lowered⟩
  | set e =>
    simp only [lower, bind_eq_ok, pure_eq_ok] at h
    obtain ⟨element, lowered, rfl⟩ := h
    cases inside
    exact .inl ⟨e, List.Subset.refl _, lowered⟩
  | map k w =>
    simp only [lower, bind_eq_ok, pure_eq_ok] at h
    obtain ⟨key, first, value, second, rfl⟩ := h
    cases inside with
    | mapKey => exact .inl ⟨k, List.subset_append_left _ _, first⟩
    | mapValue => exact .inl ⟨w, List.subset_append_right _ _, second⟩
  | named a =>
    cases named_of_lower h with
    | inline composite uncut => exact .inr ⟨a, rfl, composite, uncut, rfl⟩
    | base b => cases b <;> cases inside
    | cut | enum | typedef => cases inside

theorem Stands.unfolds (stands : r.Stands names v) (inside : r.provider.Unfolds v v') : r.Stands names v' := by
  -- Only what is expanded changes the owner, and with it which references are cut.
  have fields {a : String} (reached : r.Reached names a) (inside : r.provider.Unfolds (r.expansion a) v') :
      r.Stands names v' := by
    obtain ⟨f, mem, lowered⟩ := (unfolds_expansion reached.composite).mp inside
    exact .below reached (fun name named => List.mem_flatMap.mpr ⟨f, mem, named⟩) lowered
  cases stands with
  | here mentioned lowered =>
    rcases lower_unfolds lowered inside with ⟨part, smaller, lowered⟩ | ⟨a, rfl, composite, -, rfl⟩
    · exact .here (List.Subset.trans smaller mentioned) lowered
    · exact fields ⟨a, mentioned (List.mem_singleton.mpr rfl), composite, .refl⟩ inside
  | @below owner _ reached mentioned lowered =>
    rcases lower_unfolds lowered inside with ⟨part, smaller, lowered⟩ | ⟨a, rfl, composite, uncut, rfl⟩
    · exact .below reached (List.Subset.trans smaller mentioned) lowered
    · refine fields (reached.tail ⟨fieldRefers_iff.mpr ⟨mentioned (List.mem_singleton.mpr rfl), composite⟩, ?_⟩) inside
      exact fun cut => uncut ⟨owner, rfl, cut⟩

theorem Stands.chain (stands : r.Stands names v) (chain : ReflTransGen r.provider.Unfolds v v') :
    r.Stands names v' := by
  induction chain with
  | refl => exact stands
  | tail _ inside ih => exact ih.unfolds inside

/-- A descriptor that is about a name is lowered from that name alone. -/
theorem lower_name (h : r.lower owner type = .ok v) (about : v.name? = some name) :
    type = .named name ∧ r.Named owner name v := by
  cases type with
  | base b =>
    cases pure_eq_ok.mp h
    cases b <;> contradiction
  | list e | set e =>
    simp only [lower, bind_eq_ok, pure_eq_ok] at h
    obtain ⟨element, -, rfl⟩ := h
    contradiction
  | map k w =>
    simp only [lower, bind_eq_ok, pure_eq_ok] at h
    obtain ⟨key, -, value, -, rfl⟩ := h
    contradiction
  | named other =>
    have named := named_of_lower h
    obtain rfl : other = name := by
      cases named with
      | inline =>
        unfold expansion at about
        split at about <;> exact Option.some.inj about
      | base b => cases b <;> contradiction
      | cut | enum | typedef => exact Option.some.inj about
    exact ⟨rfl, named⟩

/-- What stands below the names, if it is about a name: a struct, union or exception that references in place lead to,
a reference cut at one of these, an enum or an alias. -/
theorem Stands.named (stands : r.Stands names v) (about : v.name? = some b) :
    (v = r.expansion b ∧ r.Reached names b) ∨
    (v = .typedef .struct b ∧ ∃ a, r.Reached names a ∧ (a, b) ∈ r.definitions.cycleCuts) ∨
    (v = .enum b ∧ r.definitions.kind? b = some .enum) ∨
    ∃ tag, v = .typedef tag b ∧ r.definitions.kind? b = some .alias := by
  cases stands with
  | here mentioned lowered =>
    obtain ⟨rfl, named⟩ := lower_name lowered about
    cases named with
    | inline composite => exact .inl ⟨rfl, b, mentioned (List.mem_singleton.mpr rfl), composite, .refl⟩
    | cut _ cut => exact absurd cut not_cut_none
    | enum kind => exact .inr (.inr (.inl ⟨rfl, kind⟩))
    | base b => cases b <;> contradiction
    | typedef kind => exact .inr (.inr (.inr ⟨_, rfl, kind⟩))
  | @below a _ reached mentioned lowered =>
    obtain ⟨rfl, named⟩ := lower_name lowered about
    cases named with
    | inline composite uncut =>
      refine .inl ⟨rfl, reached.tail ⟨fieldRefers_iff.mpr ⟨mentioned (List.mem_singleton.mpr rfl), composite⟩, ?_⟩⟩
      exact fun cut => uncut ⟨a, rfl, cut⟩
    | cut _ cut =>
      obtain ⟨_, ⟨⟩, cut⟩ := cut
      exact .inr (.inl ⟨rfl, a, reached, cut⟩)
    | enum kind => exact .inr (.inr (.inl ⟨rfl, kind⟩))
    | base b => cases b <;> contradiction
    | typedef kind => exact .inr (.inr (.inr ⟨_, rfl, kind⟩))

/-- A struct, union or exception that a type mentions stands inside its descriptor, unless the reference is cut. -/
theorem lower_contains (h : r.lower owner type = .ok v) (mem : a ∈ type.names)
    (composite : r.definitions.isComposite a = true) (uncut : ¬ r.Cut owner a) :
    ReflTransGen r.provider.Unfolds v (r.expansion a) := by
  induction type generalizing v with
  | base b => contradiction
  | list e ih =>
    simp only [lower, bind_eq_ok, pure_eq_ok] at h
    obtain ⟨element, lowered, rfl⟩ := h
    exact .head .listElement (ih lowered mem)
  | set e ih =>
    simp only [lower, bind_eq_ok, pure_eq_ok] at h
    obtain ⟨element, lowered, rfl⟩ := h
    exact .head .setElement (ih lowered mem)
  | map k w ihk ihw =>
    simp only [lower, bind_eq_ok, pure_eq_ok] at h
    obtain ⟨key, first, value, second, rfl⟩ := h
    rcases List.mem_append.mp mem with mem | mem
    · exact .head .mapKey (ihk first mem)
    · exact .head .mapValue (ihw second mem)
  | named name =>
    obtain rfl := List.mem_singleton.mp mem
    cases (lower_inline composite uncut).symm.trans h
    exact .refl

/-- References in place are followed by unfolding. -/
theorem expansion_chain (chain : ReflTransGen r.definitions.Inlines a b) :
    ReflTransGen r.provider.Unfolds (r.expansion a) (r.expansion b) := by
  induction chain with
  | refl => exact .refl
  | @tail b c _ inlines ih =>
    refine ih.trans ?_
    obtain ⟨refers, uncut⟩ := inlines
    obtain ⟨mentioned, composite⟩ := fieldRefers_iff.mp refers
    obtain ⟨f, mem, named⟩ := List.mem_flatMap.mp mentioned
    obtain ⟨v, lowered⟩ := lower_isOk (some b) (r.definitions_checked.fields b f mem)
    have inside := (unfolds_expansion (isComposite_iff.mpr refers.source)).mpr ⟨f, mem, lowered⟩
    refine .head inside (lower_contains lowered named composite ?_)
    rintro ⟨_, ⟨⟩, cut⟩
    exact uncut cut

end Registry

end ThriftCatalog
