import ThriftCatalog.Proofs.Acyclicity
import ThriftCatalog.Proofs.AliasChain
import ThriftCatalog.Proofs.Extension
import ThriftCatalog.Proofs.Resolution
import ThriftCatalog.Registry.Lowering

/-! Expanding the types of a registry. Every checked type is lowered, what it unfolds to are the types reached by
references that are not cut, and since these never come back, room that grows with the number of types is enough. -/
namespace ThriftCatalog

open Relation Fallible

namespace Registry

open Definitions

variable {r : Registry} {owner : Option String} {type : TypeExpr} {v v' : ValueDescriptor} {name a b x : String}

def expansion (r : Registry) (name : String) : ValueDescriptor :=
  if r.definitions.structs.contains name then .struct name else .exception name

def Cut (r : Registry) (owner : Option String) (name : String) : Prop :=
  ∃ a ∈ owner, (a, name) ∈ r.definitions.cycleCuts

inductive Named (r : Registry) (owner : Option String) (name : String) : ValueDescriptor → Prop where
  | inline : r.definitions.isComposite name = true → ¬ r.Cut owner name → Named r owner name (r.expansion name)
  | cut : r.definitions.isComposite name = true → r.Cut owner name → Named r owner name (.typedef .struct name)
  | enum : r.definitions.kind? name = some .enum → Named r owner name (.enum name)
  | base (b : BaseType) : r.definitions.kind? name = some .alias → Named r owner name b.descriptor
  | typedef {tag : WireType} : r.definitions.kind? name = some .alias → (Resolver.referenceKind? tag).isSome = true →
      Named r owner name (.typedef tag name)

theorem expansion_cases (r : Registry) (name : String) :
    r.expansion name = .struct name ∨ r.expansion name = .exception name := by
  unfold expansion
  split
  · exact .inl rfl
  · exact .inr rfl

theorem any_isCut : (owner.any fun a => r.isCut a name) = true ↔ r.Cut owner name := by
  cases owner with
  | none => simp [Cut]
  | some a => simp [Cut, isCut_iff]

theorem kind?_of_composite (composite : r.definitions.isComposite name = true) :
    r.definitions.kind? name =
      if r.definitions.structs.contains name then some .struct else some .exception := by
  rw [isComposite, Bool.or_eq_true] at composite
  rw [kind?]
  split
  · rfl
  · next noStruct => rw [if_pos (composite.resolve_left noStruct)]

theorem kind?_ne_enum (composite : r.definitions.isComposite name = true) : r.definitions.kind? name ≠ some .enum := by
  rw [kind?_of_composite composite]
  split <;> simp

/-- What stands for a type is a struct, union or exception, or an enum, or an alias. -/
theorem kind?_cases (known : (r.definitions.kind? name).isSome = true) :
    r.definitions.isComposite name = true ∨
      r.definitions.kind? name = some .enum ∨ r.definitions.kind? name = some .alias := by
  rw [isComposite, Bool.or_eq_true]
  unfold kind? at known ⊢
  split
  · next struct => exact .inl (.inl struct)
  · split
    · next exception => exact .inl (.inr exception)
    · split
      · exact .inr (.inl rfl)
      · split
        · exact .inr (.inr rfl)
        · simp_all

theorem mem_enums (kind : r.definitions.kind? name = some .enum) : name ∈ r.definitions.enums.keys := by
  unfold kind? at kind
  repeat' split at kind
  all_goals first | contradiction | exact Table.contains_iff.mp ‹_›

theorem mem_aliases (kind : r.definitions.kind? name = some .alias) : name ∈ r.definitions.aliases.keys := by
  unfold kind? at kind
  repeat' split at kind
  all_goals first | contradiction | exact Table.contains_iff.mp ‹_›

/-- A checked alias is lowered to a base type or stays a name. -/
theorem lowerAlias_named (owner : Option String) (kind : r.definitions.kind? name = some .alias) :
    ∃ v, r.lowerAlias name = .ok v ∧ r.Named owner name v := by
  obtain ⟨target, ended⟩ := r.definitions_checked.chains name (mem_aliases kind)
  unfold lowerAlias
  rw [ended]
  cases target with
  | base b => exact ⟨_, rfl, .base b kind⟩
  | list | set | map => exact ⟨_, rfl, .typedef kind rfl⟩
  | named target =>
    obtain ⟨last, -, found, plain⟩ := aliasTarget_ends ended
    have defined := r.definitions_checked.aliases last _ found target (List.mem_singleton.mpr rfl)
    dsimp only
    rcases kind?_cases defined with composite | enum | longer
    · rw [kind?_of_composite composite]
      refine ⟨.typedef .struct name, ?_, .typedef kind rfl⟩
      cases r.definitions.structs.contains target <;> rfl
    · rw [enum]
      exact ⟨_, rfl, .typedef kind rfl⟩
    · exact absurd (mem_aliases longer) (plain target rfl)

theorem lower_inline (composite : r.definitions.isComposite name = true) (uncut : ¬ r.Cut owner name) :
    r.lower owner (.named name) = .ok (r.expansion name) := by
  unfold lower
  rw [kind?_of_composite composite, Bool.eq_false_iff.mpr (mt any_isCut.mp uncut)]
  unfold expansion
  cases r.definitions.structs.contains name <;> rfl

theorem lower_cut (composite : r.definitions.isComposite name = true) (cut : r.Cut owner name) :
    r.lower owner (.named name) = .ok (.typedef .struct name) := by
  unfold lower
  rw [kind?_of_composite composite, any_isCut.mpr cut]
  cases r.definitions.structs.contains name <;> rfl

/-- Every name that stands for a type is lowered. -/
theorem lower_named (owner : Option String) (known : (r.definitions.kind? name).isSome = true) :
    ∃ v, r.lower owner (.named name) = .ok v ∧ r.Named owner name v := by
  rcases kind?_cases known with composite | enum | other
  · by_cases cut : r.Cut owner name
    · exact ⟨_, lower_cut composite cut, .cut composite cut⟩
    · exact ⟨_, lower_inline composite cut, .inline composite cut⟩
  · unfold lower
    rw [enum]
    exact ⟨_, rfl, .enum enum⟩
  · obtain ⟨v, lowered, named⟩ := lowerAlias_named owner other
    refine ⟨v, ?_, named⟩
    unfold lower
    rw [other]
    exact lowered

/-- Every type whose names stand for types is lowered. -/
theorem lower_isOk (owner : Option String) (known : r.definitions.Defined type) : ∃ v, r.lower owner type = .ok v := by
  induction type with
  | base b => exact ⟨_, rfl⟩
  | list e ih | set e ih =>
    obtain ⟨v, lowered⟩ := ih known
    exact ⟨_, by simp only [lower, bind_eq_ok, pure_eq_ok]; exact ⟨v, lowered, rfl⟩⟩
  | map k v ihk ihv =>
    obtain ⟨key, first⟩ := ihk fun name mem => known name (List.mem_append_left _ mem)
    obtain ⟨value, second⟩ := ihv fun name mem => known name (List.mem_append_right _ mem)
    exact ⟨_, by simp only [lower, bind_eq_ok, pure_eq_ok]; exact ⟨key, first, value, second, rfl⟩⟩
  | named name =>
    obtain ⟨v, lowered, -⟩ := lower_named owner (known name (List.mem_singleton.mpr rfl))
    exact ⟨v, lowered⟩

/-- A name is lowered in one of these ways only. -/
theorem named_of_lower (h : r.lower owner (.named name) = .ok v) : r.Named owner name v := by
  have known : (r.definitions.kind? name).isSome = true := by
    unfold lower at h
    cases kind : r.definitions.kind? name with
    | none =>
      rw [kind] at h
      exact absurd h throw_ne_ok
    | some kind => rfl
  obtain ⟨w, lowered, named⟩ := lower_named owner known
  cases lowered.symm.trans h
  exact named

/-- The answer about the fields of a struct, union or exception, whichever it is asked for. -/
theorem expansion_fields (composite : r.definitions.isComposite a = true) :
    (r.expansion a = .struct a ∧
      r.provider.structFields a = r.lowerFields (some a) (r.definitions.compositeFields a)) ∨
    (r.expansion a = .exception a ∧
      r.provider.exceptionFields a = r.lowerFields (some a) (r.definitions.compositeFields a)) := by
  by_cases struct : r.definitions.structs.contains a = true
  · refine .inl ⟨if_pos struct, ?_⟩
    simp only [provider, structFields, composite, if_true]
  · refine .inr ⟨if_neg struct, ?_⟩
    have absent : r.definitions.structs.get? a = none := by
      rw [Table.contains_eq_isSome] at struct
      exact Option.not_isSome_iff_eq_none.mp struct
    rw [isComposite, Bool.or_eq_true, or_iff_right struct, Table.contains_eq_isSome] at composite
    obtain ⟨fields, found⟩ := Option.isSome_iff_exists.mp composite
    simp only [provider, exceptionFields, compositeFields, absent, found, Option.getD_some]

theorem lowerFields_eq_ok {fields : List FieldDecl} {lowered : List FieldDescriptor}
    (h : r.lowerFields owner fields = .ok lowered) :
    (∀ f ∈ lowered, ∃ field ∈ fields, r.lower owner field.type = .ok f.value) ∧
      ∀ field ∈ fields, ∃ f ∈ lowered, r.lower owner field.type = .ok f.value := by
  constructor
  · intro f mem
    obtain ⟨field, source, made⟩ := mem_of_mapM h mem
    obtain ⟨v, lowers, same⟩ := bind_eq_ok.mp made
    cases pure_eq_ok.mp same
    exact ⟨field, source, lowers⟩
  · intro field mem
    obtain ⟨f, built, made⟩ := mem_mapM h mem
    obtain ⟨v, lowers, same⟩ := bind_eq_ok.mp made
    cases pure_eq_ok.mp same
    exact ⟨_, built, lowers⟩

theorem lowerFields_isOk (owner : Option String) {fields : List FieldDecl}
    (known : ∀ f ∈ fields, r.definitions.Defined f.type) :
    ∃ lowered, r.lowerFields owner fields = .ok lowered := by
  refine mapM_isOk fun f mem => ?_
  obtain ⟨v, lowered⟩ := lower_isOk owner (known f mem)
  exact ⟨_, bind_eq_ok.mpr ⟨v, lowered, rfl⟩⟩

/-- Directly inside a struct, union or exception stand the types of its fields. -/
theorem unfolds_expansion (composite : r.definitions.isComposite a = true) :
    r.provider.Unfolds (r.expansion a) v ↔
      ∃ f ∈ r.definitions.compositeFields a, r.lower (some a) f.type = .ok v := by
  obtain ⟨lowered, answered⟩ := lowerFields_isOk (some a) (r.definitions_checked.fields a)
  obtain ⟨source, target⟩ := lowerFields_eq_ok answered
  constructor
  · intro inside
    rcases expansion_fields composite with ⟨shape, fields⟩ | ⟨shape, fields⟩ <;> rw [shape] at inside
    · cases inside with
      | structField found mem =>
        cases (fields.trans answered).symm.trans found
        exact source _ mem
    · cases inside with
      | exceptionField found mem =>
        cases (fields.trans answered).symm.trans found
        exact source _ mem
  · rintro ⟨field, mem, lowers⟩
    obtain ⟨f, mem, same⟩ := target field mem
    cases lowers.symm.trans same
    rcases expansion_fields composite with ⟨shape, fields⟩ | ⟨shape, fields⟩
    · exact shape ▸ .structField (fields.trans answered) mem
    · exact shape ▸ .exceptionField (fields.trans answered) mem

section

variable {resolver : Resolver} {room : Nat} (source : resolver.provider = r.provider)
include source

omit source in
theorem base_resolves (b : BaseType) : ∃ t, resolver.resolveAt room b.descriptor = .ok t := by
  cases b <;> cases room <;> exact ⟨_, rfl⟩

theorem named_resolves (named : r.Named owner name v)
    (inline : r.definitions.isComposite name = true → ¬ r.Cut owner name →
      ∃ t, resolver.resolveAt room (r.expansion name) = .ok t) : ∃ t, resolver.resolveAt room v = .ok t := by
  cases named with
  | inline composite uncut => exact inline composite uncut
  | cut => exact ⟨_, Resolver.resolveAt_typedef.mpr ⟨.struct, rfl, rfl⟩⟩
  | enum kind =>
    obtain ⟨constants, found⟩ := Table.mem_keys.mp (mem_enums kind)
    have answered : resolver.provider.enumConstants name = .ok constants := by
      simp only [source, provider, enumConstants, found]
    exact ⟨_, Resolver.resolveAt_enum.mpr ⟨constants, answered, rfl⟩⟩
  | base b => exact base_resolves b
  | @typedef tag _ referable =>
    obtain ⟨kind, found⟩ := Option.isSome_iff_exists.mp referable
    exact ⟨_, Resolver.resolveAt_typedef.mpr ⟨kind, found, rfl⟩⟩

/-- A lowered type is resolved in the room of what it expands, plus one level for each container around it. -/
theorem lower_resolves (h : r.lower owner type = .ok v)
    (inline : ∀ a ∈ type.names, r.definitions.isComposite a = true → ¬ r.Cut owner a →
      ∃ t, resolver.resolveAt room (r.expansion a) = .ok t) :
    ∃ t, resolver.resolveAt (room + type.nesting) v = .ok t := by
  induction type generalizing v with
  | base b =>
    cases pure_eq_ok.mp h
    exact base_resolves b
  | list e ih =>
    simp only [lower, bind_eq_ok, pure_eq_ok] at h
    obtain ⟨element, lowered, rfl⟩ := h
    obtain ⟨t, found⟩ := ih lowered inline
    exact ⟨_, Resolver.resolveAt_list.mpr ⟨_, t, rfl, found, rfl⟩⟩
  | set e ih =>
    simp only [lower, bind_eq_ok, pure_eq_ok] at h
    obtain ⟨element, lowered, rfl⟩ := h
    obtain ⟨t, found⟩ := ih lowered inline
    exact ⟨_, Resolver.resolveAt_set.mpr ⟨_, t, rfl, found, rfl⟩⟩
  | map k v ihk ihv =>
    simp only [lower, bind_eq_ok, pure_eq_ok] at h
    obtain ⟨key, first, value, second, rfl⟩ := h
    obtain ⟨t, found⟩ := ihk first fun a mem => inline a (List.mem_append_left _ mem)
    obtain ⟨u, found'⟩ := ihv second fun a mem => inline a (List.mem_append_right _ mem)
    have wide := Resolver.resolveAt_mono found (Nat.add_le_add_left (Nat.le_max_left k.nesting v.nesting) room)
    have wide' := Resolver.resolveAt_mono found' (Nat.add_le_add_left (Nat.le_max_right k.nesting v.nesting) room)
    exact ⟨_, Resolver.resolveAt_map.mpr ⟨_, t, u, rfl, wide, wide', rfl⟩⟩
  | named name => exact named_resolves source (named_of_lower h) (inline name (List.mem_singleton.mpr rfl))

/-- Each struct, union or exception needs no more than 65 levels for itself and 65 for each one expanded below it: one
for itself and 64 for the containers in a field. -/
theorem expansion_resolves (wf : r.definitions.WellFormed) (composite : r.definitions.isComposite a = true)
    (enough : 65 * (r.definitions.rank a + 1) ≤ room) : ∃ t, resolver.resolveAt room (r.expansion a) = .ok t := by
  -- By induction on the rank, which every reference in place lowers.
  induction rank : r.definitions.rank a using Nat.strongRecOn generalizing a room with
  | ind n ih =>
    subst rank
    obtain ⟨room, rfl⟩ : ∃ k, room = k + 1 := ⟨room - 1, by omega⟩
    have fields : ∀ f ∈ r.definitions.compositeFields a, ∀ v, r.lower (some a) f.type = .ok v →
        ∃ t, resolver.resolveAt room v = .ok t := by
      intro f mem v lowered
      have below : ∃ t, resolver.resolveAt (65 * r.definitions.rank a + f.type.nesting) v = .ok t := by
        refine lower_resolves source lowered fun b named composite uncut => ?_
        have inlines : r.definitions.Inlines a b :=
          ⟨fieldRefers_iff.mpr ⟨List.mem_flatMap.mpr ⟨f, mem, named⟩, composite⟩, fun cut => uncut ⟨a, rfl, cut⟩⟩
        have lower := rank_lt_rank wf.composites inlines
        exact ih _ lower composite (by omega) rfl
      obtain ⟨t, found⟩ := below
      have bound := wf.fields a f mem
      exact ⟨t, Resolver.resolveAt_mono found (by simp only [TypeExpr.maxNesting] at bound; omega)⟩
    obtain ⟨lowered, answered⟩ := lowerFields_isOk (some a) (r.definitions_checked.fields a)
    have each : ∀ f ∈ lowered, ∃ t, resolver.resolveAt room f.value = .ok t := by
      intro f mem
      obtain ⟨field, mem, lowers⟩ := (lowerFields_eq_ok answered).1 f mem
      exact fields field mem f.value lowers
    rcases expansion_fields composite with ⟨shape, asked⟩ | ⟨shape, asked⟩
    all_goals
      rw [← source] at asked
      obtain ⟨record, built⟩ := Resolver.recordBy_isOk a (asked.trans answered) each
      rw [shape]
    · exact ⟨_, Resolver.resolveAt_struct.mpr ⟨room, record, rfl, built, rfl⟩⟩
    · exact ⟨_, Resolver.resolveAt_exception.mpr ⟨room, record, rfl, built, rfl⟩⟩

end

end Registry

end ThriftCatalog
