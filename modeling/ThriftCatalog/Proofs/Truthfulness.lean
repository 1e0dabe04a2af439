import ThriftCatalog.Proofs.Answer

/-! Whether descriptors tell the truth. In the answers of a registry a name stays a name only where it is an alias of
no base type or where the reference lies on a cycle, and its tag is that of what it stands for. So resolving never
rejects a tag, and a name left unexpanded is shown with the kind of its definition. -/
namespace ThriftCatalog

open Relation Fallible TypeInfo

namespace Definitions

variable {d : Definitions} {name : String} {kind kind' : ReferenceKind} {type : TypeExpr}

/-- What a name stands for, itself or at the end of its chain. -/
def StandsForKind (d : Definitions) (name : String) (kind : ReferenceKind) : Prop :=
  d.Shape (.named name) kind ∨ ∃ target, d.EndsIn name target ∧ d.Shape target kind

theorem StandsForKind.unique (distinct : d.names.Nodup) (first : d.StandsForKind name kind)
    (second : d.StandsForKind name kind') : kind = kind' := by
  rcases first with shape | ⟨target, ends, shape⟩ <;> rcases second with shape' | ⟨target', ends', shape'⟩
  · exact shape.unique distinct shape'
  · exact absurd shape (ends'.not_shape distinct)
  · exact absurd shape' (ends.not_shape distinct)
  · cases ends.unique ends'
    exact shape.unique distinct shape'

end Definitions

/-- How it ends to resolve what a provider answers, or one of its structs or exceptions by name. -/
inductive Resolver.Outcome (r : Resolver) : Except GenerationError TypeInfo → Prop where
  | answer {owner : Option String} {v : ValueDescriptor} : r.provider.AnswersFor owner v → Outcome r (r.resolve v)
  | struct (name : String) : Outcome r (.struct <$> r.resolveStruct name)
  | exception (name : String) : Outcome r (.exception <$> r.resolveException name)

namespace Registry

open Definitions

variable {r : Registry} {owner : Option String} {v v' : ValueDescriptor} {name : String} {tag : WireType}

/-- What a registry answers is true of its definitions, and stays true when it is resolved. -/
structure Truthful (r : Registry) : Prop where
  /-- Each field is described by its declared type. -/
  fields : ∀ name answered,
    r.provider.structFields name = .ok answered ∨ r.provider.exceptionFields name = .ok answered →
    List.Forall₂ (r.DescribesField (some name)) (r.definitions.compositeFields name) answered
  methods : ∀ service answered, r.provider.methods service = .ok answered →
    ∃ methods, r.definitions.Declares service (.service methods) ∧ List.Forall₂ r.DescribesMethod methods answered
  /-- A name that stays a name is an alias of what its tag says, or a struct, union or exception that leads back to the
  one in a field of which it stands. -/
  reference : ∀ owner v, r.provider.AnswersFor owner v → ∀ tag name, .typedef tag name ∈ v.leaves →
    (∃ target kind, r.definitions.EndsIn name target ∧ r.definitions.Shape target kind ∧ tag = kind.tag) ∨
      (r.definitions.Shape (.named name) .struct ∧ tag = .struct ∧ ∃ a ∈ owner, r.definitions.GroupRefers a name)
  /-- An alias of a base type is described as that base type and never stays a name. -/
  baseAlias : ∀ name b, r.definitions.EndsIn name (.base b) →
    (∀ owner v, r.Describes owner (.named name) v ↔ v = b.descriptor) ∧
      ∀ owner v, r.provider.AnswersFor owner v → ∀ tag, .typedef tag name ∉ v.leaves
  /-- What is to be expanded as a struct is declared as a struct or union, and as nothing else. -/
  struct : ∀ owner v, r.provider.AnswersFor owner v → ∀ name, .struct name ∈ v.leaves →
    ∃ fields, ∀ x, r.definitions.Declares name x ↔ x = .struct fields
  exception : ∀ owner v, r.provider.AnswersFor owner v → ∀ name, .exception name ∈ v.leaves →
    ∃ fields, ∀ x, r.definitions.Declares name x ↔ x = .exception fields
  enum : ∀ owner v, r.provider.AnswersFor owner v → ∀ name, .enum name ∈ v.leaves →
    ∃ constants, ∀ x, r.definitions.Declares name x ↔ x = .enum constants
  /-- No tag is rejected. -/
  accepted : ∀ resolver : Resolver, resolver.provider = r.provider → ∀ outcome, resolver.Outcome outcome →
    ∀ name tag, outcome ≠ .error (.unexpectedTag name tag)
  /-- A name that is left unexpanded, however deep, is shown with the kind of what it stands for. -/
  placeholder : ∀ resolver : Resolver, resolver.provider = r.provider → ∀ t, resolver.Outcome (.ok t) →
    ∀ reference, Occurs (.unresolved reference) t →
      ∀ kind, r.definitions.StandsForKind reference.name kind ↔ kind = reference.kind

def Described (r : Registry) (v : ValueDescriptor) : Prop := ∃ owner type, r.Describes owner type v

section

variable (wf : r.definitions.WellFormed)
include wf

/-- Whatever stands inside what describes a type describes a type as well. -/
theorem Described.unfolds (described : r.Described v) (inside : r.provider.Unfolds v v') : r.Described v' := by
  obtain ⟨owner, type, describes⟩ := described
  rcases lower_unfolds ((lower_iff wf).mpr describes) inside with ⟨part, -, lowered⟩ | ⟨a, -, composite, -, rfl⟩
  · exact ⟨owner, part, (lower_iff wf).mp lowered⟩
  · obtain ⟨field, -, lowered⟩ := (unfolds_expansion composite).mp inside
    exact ⟨some a, field.type, (lower_iff wf).mp lowered⟩

theorem Described.chain (described : r.Described v) (chain : ReflTransGen r.provider.Unfolds v v') :
    r.Described v' := by
  induction chain with
  | refl => exact described
  | tail _ inside ih => exact ih.unfolds wf inside

omit wf in
theorem Described.standsForKind (described : r.Described (.typedef tag name)) :
    ∃ kind, tag = kind.tag ∧ r.definitions.StandsForKind name kind := by
  obtain ⟨owner, type, describes⟩ := described
  have part := describes.about (List.mem_singleton.mpr rfl) (show ValueDescriptor.name? _ = some name from rfl)
  rcases describes_reference part.2 with ⟨shape, rfl, -⟩ | ⟨target, kind, ends, shape, rfl⟩
  · exact ⟨.struct, rfl, .inl shape⟩
  · exact ⟨kind, rfl, .inr ⟨target, ends, shape⟩⟩

/-- Every outcome is that of a descriptor below which all names have the tag of what they stand for. -/
theorem outcome_resolve {resolver : Resolver} (source : resolver.provider = r.provider)
    {outcome : Except GenerationError TypeInfo} (found : resolver.Outcome outcome) :
    ∃ v, outcome = resolver.resolve v ∧ ∀ tag name, ReflTransGen resolver.provider.Unfolds v (.typedef tag name) →
      ∃ kind, tag = kind.tag ∧ r.definitions.StandsForKind name kind := by
  have answered {owner : Option String} {v : ValueDescriptor} (answers : resolver.provider.AnswersFor owner v)
      (tag name) (chain : ReflTransGen resolver.provider.Unfolds v (.typedef tag name)) :
      ∃ kind, tag = kind.tag ∧ r.definitions.StandsForKind name kind := by
    rw [source] at answers chain
    obtain ⟨type, describes⟩ := answersFor_describes wf answers
    have described : r.Described v := ⟨_, type, describes⟩
    exact (described.chain wf chain).standsForKind
  -- Below a struct or an exception itself stand the descriptors that are answered for it.
  cases found with
  | answer answers => exact ⟨_, rfl, answered answers⟩
  | struct name =>
    refine ⟨.struct name, (Resolver.resolve_struct name).symm, fun tag other chain => ?_⟩
    obtain ⟨v, inside, chain⟩ := (ReflTransGen.cases_head chain).resolve_left nofun
    cases inside with
    | structField found mem => exact answered (.structField found mem) tag other chain
  | exception name =>
    refine ⟨.exception name, (Resolver.resolve_exception name).symm, fun tag other chain => ?_⟩
    obtain ⟨v, inside, chain⟩ := (ReflTransGen.cases_head chain).resolve_left nofun
    cases inside with
    | exceptionField found mem => exact answered (.exceptionField found mem) tag other chain

theorem outcome_accepted {resolver : Resolver} (source : resolver.provider = r.provider)
    {outcome : Except GenerationError TypeInfo} (found : resolver.Outcome outcome) :
    outcome ≠ .error (.unexpectedTag name tag) := by
  obtain ⟨v, rfl, below⟩ := outcome_resolve wf source found
  intro failed
  cases Resolver.resolveAt_fails _ _ _ failed with
  | unexpectedTag chain rejected =>
    obtain ⟨kind, rfl, -⟩ := below tag name chain
    rw [Resolver.referenceKind?_tag.mpr rfl] at rejected
    contradiction

theorem outcome_placeholder {resolver : Resolver} (source : resolver.provider = r.provider) {t : TypeInfo}
    (found : resolver.Outcome (.ok t)) {reference : Reference} (occurs : Occurs (.unresolved reference) t)
    (kind : ReferenceKind) : r.definitions.StandsForKind reference.name kind ↔ kind = reference.kind := by
  obtain ⟨v, resolved, below⟩ := outcome_resolve wf source found
  have resolves : resolver.Resolves v t := ⟨_, resolved.symm⟩
  obtain ⟨v', chain, resolves⟩ := resolves.occurs occurs
  obtain ⟨tag, rfl⟩ := resolves.origin.2 reference rfl
  obtain ⟨shown, referable, same⟩ := Resolver.resolves_typedef.mp resolves
  obtain ⟨stood, rfl, stands⟩ := below tag reference.name chain
  have kept : reference.kind = stood := by
    rw [Resolver.referenceKind?_tag.mpr rfl] at referable
    rw [TypeInfo.unresolved.inj same]
    exact (Option.some.inj referable).symm
  rw [kept]
  constructor
  · intro other
    exact other.unique wf.distinct stands
  · rintro rfl
    exact stands

end

/-- Every registry that is built is truthful. -/
theorem build_truthful {files : List RegistryFile} (built : build files = .ok r) : r.Truthful := by
  have wf := build_wellFormed built
  constructor
  case fields =>
    intro name answered found
    rcases found with found | found
    · exact ((structFields_iff wf).mp found).2
    · exact ((exceptionFields_iff wf).mp found).2
  case methods =>
    intro service answered found
    exact methods_describe wf found
  case reference =>
    intro owner v answers tag name mem
    obtain ⟨type, describes⟩ := answersFor_describes wf answers
    obtain ⟨-, describes⟩ := describes.about mem rfl
    rcases describes_reference describes with ⟨shape, tagged, a, owned, cut⟩ | ended
    · exact .inr ⟨shape, tagged, a, owned, (inlines_of_cut wf.composites cut).1⟩
    · exact .inl ended
  case baseAlias =>
    intro name b ends
    refine ⟨fun owner v => ⟨fun describes => describes.unique wf (.baseAlias ends), ?_⟩, ?_⟩
    · rintro rfl
      exact .baseAlias ends
    · intro owner v answers tag mem
      obtain ⟨type, describes⟩ := answersFor_describes wf answers
      rcases describes_reference (describes.about mem rfl).2 with ⟨shape, -⟩ | ⟨target, kind, ends', shape, -⟩
      · exact ends.not_shape wf.distinct shape
      · cases ends.unique ends'
        nomatch shape
  case struct =>
    intro owner v answers name mem
    obtain ⟨x, inline, only⟩ := answer_declares wf answers mem rfl fun _ => nofun
    cases x with
    | struct fields => exact ⟨fields, only⟩
    | service | exception | enum | typeAlias => nomatch inline
  case exception =>
    intro owner v answers name mem
    obtain ⟨x, inline, only⟩ := answer_declares wf answers mem rfl fun _ => nofun
    cases x with
    | exception fields => exact ⟨fields, only⟩
    | service | struct | enum | typeAlias => nomatch inline
  case enum =>
    intro owner v answers name mem
    obtain ⟨x, inline, only⟩ := answer_declares wf answers mem rfl fun _ => nofun
    cases x with
    | enum constants => exact ⟨constants, only⟩
    | service | struct | exception | typeAlias => nomatch inline
  case accepted =>
    intro resolver source outcome found name tag
    exact outcome_accepted wf source found
  case placeholder =>
    intro resolver source t found reference occurs
    exact outcome_placeholder wf source found occurs

theorem aliasedPair_truthful : ∃ r, build [aliasedPairFile] = .ok r ∧ r.Truthful ∧
    r.provider.structFields "shop.Order" =
      .ok [⟨"id", .default, .i64⟩, ⟨"items", .default, .map .byte (.typedef .struct "shop.Item")⟩] ∧
    r.provider.structFields "shop.Item" =
      .ok [⟨"order", .default, .struct "shop.Order"⟩, ⟨"codes", .default, .typedef .set "shop.Codes"⟩] :=
  ⟨aliasedPairRegistry, aliasedPair_built, build_truthful aliasedPair_built, by decide +kernel, by decide +kernel⟩

end Registry

end ThriftCatalog
