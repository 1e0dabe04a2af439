import ThriftCatalog.Proofs.Consistency
import ThriftCatalog.Proofs.Exposure
import ThriftCatalog.Proofs.Signature

/-! What descriptors say of declared types. A relation gives each type its descriptors: an alias of a base type is that
base type, any other alias stays a name with the tag of what its chain ends in, and a name that is neither is expanded
or cut. A registry lowers a type to what describes it and to nothing else. -/
namespace ThriftCatalog

open Relation Fallible

/-- The tag of a name that stays a name. -/
def ReferenceKind.tag : ReferenceKind → WireType
  | struct => .struct
  | enum => .enum
  | list => .list
  | map => .map
  | set => .set

theorem Resolver.referenceKind?_tag {tag : WireType} {kind : ReferenceKind} :
    Resolver.referenceKind? tag = some kind ↔ tag = kind.tag := by
  cases tag <;> cases kind <;> simp [Resolver.referenceKind?, ReferenceKind.tag]

/-- The kind of a declaration under which its name may stay a name. -/
def Declaration.referenceKind? : Declaration → Option ReferenceKind
  | struct _ | exception _ => some .struct
  | enum _ => some .enum
  | service _ | typeAlias _ => none

/-- The descriptor of a name that is to be expanded in place. -/
def Declaration.inline? (name : String) : Declaration → Option ValueDescriptor
  | struct _ => some (.struct name)
  | exception _ => some (.exception name)
  | enum _ => some (.enum name)
  | service _ | typeAlias _ => none

/-- The parts of a descriptor that are no containers. -/
def ValueDescriptor.leaves : ValueDescriptor → List ValueDescriptor
  | list e | set e => e.leaves
  | map k v => k.leaves ++ v.leaves
  | v => [v]

def Declaration.kind? : Declaration → Option DefinitionKind
  | service _ => none
  | struct _ => some .struct
  | exception _ => some .exception
  | enum _ => some .enum
  | typeAlias _ => some .alias

namespace Definitions

variable {d : Definitions} {name : String} {type target target' : TypeExpr} {kind kind' : ReferenceKind}
  {x y : Declaration}

/-- The chain of aliases that begins with a name ends in a type, which is no alias again. -/
def EndsIn (d : Definitions) (name : String) (target : TypeExpr) : Prop :=
  ∃ last, ReflTransGen d.Leads name last ∧ d.Ends last target

/-- What a type is that is neither a base type nor an alias. -/
inductive Shape (d : Definitions) : TypeExpr → ReferenceKind → Prop where
  | struct {name : String} {fields : List FieldDecl} : d.Declares name (.struct fields) → Shape d (.named name) .struct
  | exception {name : String} {fields : Option (List FieldDecl)} : d.Declares name (.exception fields) →
      Shape d (.named name) .struct
  | enum {name : String} {constants : List String} : d.Declares name (.enum constants) → Shape d (.named name) .enum
  | list (element : TypeExpr) : Shape d (.list element) .list
  | set (element : TypeExpr) : Shape d (.set element) .set
  | map (key value : TypeExpr) : Shape d (.map key value) .map

theorem EndsIn.mem (ends : d.EndsIn name target) : name ∈ d.aliases.keys := by
  obtain ⟨last, chain, ends⟩ := ends
  rcases ReflTransGen.cases_head chain with rfl | ⟨next, leads, -⟩
  · exact ends.mem
  · exact leads.mem

theorem EndsIn.unique (first : d.EndsIn name target) (second : d.EndsIn name target') : target = target' := by
  obtain ⟨last, chain, ends⟩ := first
  obtain ⟨last', chain', ends'⟩ := second
  exact Ends.unique chain ends chain' ends'

/-- Where no name is given twice, it has one meaning. -/
theorem declares_unique (distinct : d.names.Nodup) (first : d.Declares name x) (second : d.Declares name y) :
    x = y := by
  have once := List.nodup_iff_count_le_one.mp distinct name
  simp only [names, List.count_append] at once
  have counted {α : Type} {t : Table α} {value : α} (found : t.get? name = some value) : 0 < t.keys.count name :=
    List.count_pos_iff.mpr (Table.mem_keys.mpr ⟨value, found⟩)
  -- Declared as two kinds of things, the name would count twice among all names.
  cases x <;> cases y <;>
    first
    | exact congrArg _ (Option.some.inj (first.symm.trans second))
    | have := counted first
      have := counted second
      omega

theorem declares_of_kind? {known : DefinitionKind} (found : d.kind? name = some known) :
    ∃ x, d.Declares name x ∧ x.kind? = some known := by
  have held {α : Type} {t : Table α} (listed : t.contains name = true) : ∃ value, t.get? name = some value :=
    Table.mem_keys.mp (Table.contains_iff.mp listed)
  unfold Definitions.kind? at found
  split at found
  · obtain ⟨fields, declared⟩ := held ‹_›
    exact ⟨.struct fields, declared, found⟩
  · split at found
    · obtain ⟨fields, declared⟩ := held ‹_›
      exact ⟨.exception fields, declared, found⟩
    · split at found
      · obtain ⟨constants, declared⟩ := held ‹_›
        exact ⟨.enum constants, declared, found⟩
      · split at found
        · obtain ⟨target, declared⟩ := held ‹_›
          exact ⟨.typeAlias target, declared, found⟩
        · contradiction

theorem kind?_of_declares (distinct : d.names.Nodup) (declares : d.Declares name x) : d.kind? name = x.kind? := by
  cases found : d.kind? name with
  | some known =>
    obtain ⟨y, declares', kind⟩ := declares_of_kind? found
    rw [declares_unique distinct declares declares', kind]
  | none =>
    cases x with
    | service => rfl
    | struct | exception | enum | typeAlias =>
      have known := kind?_iff_declares.mpr ⟨_, declares, nofun⟩
      rw [found] at known
      contradiction

theorem shape_struct_iff : d.Shape (.named name) .struct ↔ d.isComposite name = true := by
  rw [isComposite, Bool.or_eq_true, Table.contains_iff, Table.contains_iff, Table.mem_keys, Table.mem_keys]
  constructor
  · rintro (declares | declares)
    · exact .inl ⟨_, declares⟩
    · exact .inr ⟨_, declares⟩
  · rintro (⟨fields, declares⟩ | ⟨fields, declares⟩)
    · exact .struct declares
    · exact .exception declares

theorem Shape.declares (shape : d.Shape (.named name) kind) :
    ∃ x, d.Declares name x ∧ x.referenceKind? = some kind := by
  cases shape with
  | struct declares | exception declares | enum declares => exact ⟨_, declares, rfl⟩

theorem Shape.unique (distinct : d.names.Nodup) (first : d.Shape type kind) (second : d.Shape type kind') :
    kind = kind' := by
  cases type with
  | base => nomatch first
  | list | set | map =>
    cases first
    cases second
    rfl
  | named name =>
    obtain ⟨x, declares, known⟩ := first.declares
    obtain ⟨y, declares', known'⟩ := second.declares
    rw [declares_unique distinct declares declares', known'] at known
    exact (Option.some.inj known).symm

theorem EndsIn.not_shape (distinct : d.names.Nodup) (ends : d.EndsIn name target) :
    ¬ d.Shape (.named name) kind := by
  obtain ⟨first, found⟩ := Table.mem_keys.mp ends.mem
  intro shape
  obtain ⟨x, declares, known⟩ := shape.declares
  have same : x = .typeAlias first := declares_unique distinct declares found
  rw [same] at known
  contradiction

end Definitions

namespace Registry

open Definitions

variable {r : Registry} {owner : Option String} {type : TypeExpr} {v leaf : ValueDescriptor} {name : String}

/-- The descriptors of a declared type. The owner is the struct, union or exception in a field of which the type
stands, if it stands in one. -/
inductive Describes (r : Registry) (owner : Option String) : TypeExpr → ValueDescriptor → Prop where
  | base (b : BaseType) : Describes r owner (.base b) b.descriptor
  | list {e : TypeExpr} {v : ValueDescriptor} : Describes r owner e v → Describes r owner (.list e) (.list v)
  | set {e : TypeExpr} {v : ValueDescriptor} : Describes r owner e v → Describes r owner (.set e) (.set v)
  | map {k e : TypeExpr} {l v : ValueDescriptor} :
      Describes r owner k l → Describes r owner e v → Describes r owner (.map k e) (.map l v)
  | struct {name : String} {fields : List FieldDecl} : r.definitions.Declares name (.struct fields) →
      ¬ r.Cut owner name → Describes r owner (.named name) (.struct name)
  | exception {name : String} {fields : Option (List FieldDecl)} : r.definitions.Declares name (.exception fields) →
      ¬ r.Cut owner name → Describes r owner (.named name) (.exception name)
  | cut {name : String} : r.definitions.Shape (.named name) .struct → r.Cut owner name →
      Describes r owner (.named name) (.typedef .struct name)
  | enum {name : String} {constants : List String} : r.definitions.Declares name (.enum constants) →
      Describes r owner (.named name) (.enum name)
  | baseAlias {name : String} {b : BaseType} : r.definitions.EndsIn name (.base b) →
      Describes r owner (.named name) b.descriptor
  | otherAlias {name : String} {target : TypeExpr} {kind : ReferenceKind} : r.definitions.EndsIn name target →
      r.definitions.Shape target kind → Describes r owner (.named name) (.typedef kind.tag name)

theorem aliasTarget_iff {target : TypeExpr} :
    r.definitions.aliasTarget name = .ok target ↔ r.definitions.EndsIn name target :=
  aliasTarget_eq_ok r.definitions_checked.chains

/-- An alias is lowered to the base type at the end of its chain, or stays a name with the tag of what is there. -/
theorem lowerAlias_eq_ok (distinct : r.definitions.names.Nodup) : r.lowerAlias name = .ok v ↔
    (∃ b, r.definitions.EndsIn name (.base b) ∧ v = b.descriptor) ∨
      ∃ target kind, r.definitions.EndsIn name target ∧ r.definitions.Shape target kind ∧
        v = .typedef kind.tag name := by
  constructor
  · intro lowered
    unfold lowerAlias at lowered
    split at lowered
    · contradiction
    · next b found =>
      cases lowered
      exact .inl ⟨b, aliasTarget_iff.mp found, rfl⟩
    · next element found =>
      cases lowered
      exact .inr ⟨_, _, aliasTarget_iff.mp found, .list element, rfl⟩
    · next element found =>
      cases lowered
      exact .inr ⟨_, _, aliasTarget_iff.mp found, .set element, rfl⟩
    · next key value found =>
      cases lowered
      exact .inr ⟨_, _, aliasTarget_iff.mp found, .map key value, rfl⟩
    · next target found =>
      have ends := aliasTarget_iff.mp found
      cases known : r.definitions.kind? target with
      | none =>
        rw [known] at lowered
        contradiction
      | some kind =>
        rw [known] at lowered
        obtain ⟨x, declares, same⟩ := declares_of_kind? known
        cases x <;> cases same <;> cases lowered
        · exact .inr ⟨_, _, ends, .struct declares, rfl⟩
        · exact .inr ⟨_, _, ends, .exception declares, rfl⟩
        · exact .inr ⟨_, _, ends, .enum declares, rfl⟩
  · rintro (⟨b, ends, rfl⟩ | ⟨target, kind, ends, shape, rfl⟩)
    · unfold lowerAlias
      rw [aliasTarget_iff.mpr ends]
    · unfold lowerAlias
      rw [aliasTarget_iff.mpr ends]
      cases shape with
      | struct declares | exception declares | enum declares =>
        dsimp only
        rw [kind?_of_declares distinct declares]
        rfl
      | list | set | map => rfl

theorem lower_alias (kind : r.definitions.kind? name = some .alias) :
    r.lower owner (.named name) = r.lowerAlias name := by
  unfold lower
  rw [kind]

theorem lower_endsIn (wf : r.definitions.WellFormed) {target : TypeExpr}
    (ends : r.definitions.EndsIn name target) : r.lower owner (.named name) = r.lowerAlias name := by
  obtain ⟨first, found⟩ := Table.mem_keys.mp ends.mem
  have declares : r.definitions.Declares name (.typeAlias first) := found
  exact lower_alias (kind?_of_declares wf.distinct declares)

theorem expansion_struct {fields : List FieldDecl} (declares : r.definitions.Declares name (.struct fields)) :
    r.expansion name = .struct name :=
  if_pos (Table.contains_iff.mpr (Table.mem_keys.mpr ⟨fields, declares⟩))

theorem expansion_thrown (wf : r.definitions.WellFormed) {fields : Option (List FieldDecl)}
    (declares : r.definitions.Declares name (.exception fields)) : r.expansion name = .exception name :=
  (expansion_exception wf (Table.mem_keys.mpr ⟨fields, declares⟩)).2

/-- What a name is lowered to describes it. -/
theorem lower_named_describes (wf : r.definitions.WellFormed) (lowered : r.lower owner (.named name) = .ok v) :
    r.Describes owner (.named name) v := by
  have ended (kind : r.definitions.kind? name = some .alias) : r.Describes owner (.named name) v := by
    rw [lower_alias kind] at lowered
    rcases (lowerAlias_eq_ok wf.distinct).mp lowered with ⟨b, ends, rfl⟩ | ⟨target, kind, ends, shape, rfl⟩
    · exact .baseAlias ends
    · exact .otherAlias ends shape
  cases named_of_lower lowered with
  | inline composite uncut =>
    cases shape_struct_iff.mpr composite with
    | struct declares =>
      rw [expansion_struct declares]
      exact .struct declares uncut
    | exception declares =>
      rw [expansion_thrown wf declares]
      exact .exception declares uncut
  | cut composite cut => exact .cut (shape_struct_iff.mpr composite) cut
  | enum known =>
    obtain ⟨x, declares, kind⟩ := declares_of_kind? known
    cases x <;> cases kind
    exact .enum declares
  | base b kind => exact ended kind
  | typedef kind => exact ended kind

/-- A registry lowers a type to what describes it. -/
theorem lower_iff (wf : r.definitions.WellFormed) : r.lower owner type = .ok v ↔ r.Describes owner type v := by
  constructor
  · intro lowered
    induction type generalizing v with
    | base b =>
      cases pure_eq_ok.mp lowered
      exact .base b
    | list e ih =>
      simp only [lower, bind_eq_ok, pure_eq_ok] at lowered
      obtain ⟨element, found, rfl⟩ := lowered
      exact .list (ih found)
    | set e ih =>
      simp only [lower, bind_eq_ok, pure_eq_ok] at lowered
      obtain ⟨element, found, rfl⟩ := lowered
      exact .set (ih found)
    | map k e ihk ihe =>
      simp only [lower, bind_eq_ok, pure_eq_ok] at lowered
      obtain ⟨key, first, value, second, rfl⟩ := lowered
      exact .map (ihk first) (ihe second)
    | named name => exact lower_named_describes wf lowered
  · intro describes
    induction describes with
    | base b => rfl
    | list _ ih | set _ ih =>
      unfold lower
      rw [ih]
      rfl
    | map _ _ ihk ihe =>
      unfold lower
      rw [ihk, ihe]
      rfl
    | struct declares uncut =>
      rw [lower_inline (shape_struct_iff.mp (.struct declares)) uncut, expansion_struct declares]
    | exception declares uncut =>
      rw [lower_inline (shape_struct_iff.mp (.exception declares)) uncut, expansion_thrown wf declares]
    | cut shape cut => exact lower_cut (shape_struct_iff.mp shape) cut
    | enum declares =>
      unfold lower
      rw [kind?_of_declares wf.distinct declares]
      rfl
    | baseAlias ends => exact (lower_endsIn wf ends).trans ((lowerAlias_eq_ok wf.distinct).mpr (.inl ⟨_, ends, rfl⟩))
    | otherAlias ends shape =>
      exact (lower_endsIn wf ends).trans ((lowerAlias_eq_ok wf.distinct).mpr (.inr ⟨_, _, ends, shape, rfl⟩))

theorem Describes.unique (wf : r.definitions.WellFormed) {w : ValueDescriptor} (first : r.Describes owner type v)
    (second : r.Describes owner type w) : v = w :=
  Except.ok.inj (((lower_iff wf).mpr first).symm.trans ((lower_iff wf).mpr second))

theorem Describes.named_leaves (describes : r.Describes owner (.named name) v) : v.leaves = [v] := by
  cases describes with
  | struct | exception | cut | enum | otherAlias => rfl
  | @baseAlias _ b => cases b <;> rfl

/-- A part of a descriptor describes a base type or a name that the type mentions. -/
theorem Describes.part (describes : r.Describes owner type v) (mem : leaf ∈ v.leaves) :
    (∃ b : BaseType, leaf = b.descriptor) ∨ ∃ name ∈ type.names, r.Describes owner (.named name) leaf := by
  induction type generalizing v with
  | base b =>
    cases describes
    exact .inl ⟨b, by cases b <;> exact List.mem_singleton.mp mem⟩
  | list _ ih =>
    cases describes with
    | list inner => exact ih inner mem
  | set _ ih =>
    cases describes with
    | set inner => exact ih inner mem
  | map k e ihk ihe =>
    cases describes with
    | map first second =>
      rcases List.mem_append.mp mem with mem | mem
      · refine (ihk first mem).imp_right ?_
        rintro ⟨name, mentioned, describes⟩
        exact ⟨name, List.mem_append_left _ mentioned, describes⟩
      · refine (ihe second mem).imp_right ?_
        rintro ⟨name, mentioned, describes⟩
        exact ⟨name, List.mem_append_right _ mentioned, describes⟩
  | named name =>
    rw [describes.named_leaves] at mem
    obtain rfl := List.mem_singleton.mp mem
    exact .inr ⟨name, List.mem_singleton.mpr rfl, describes⟩

/-- A name that is mentioned is described somewhere in the descriptor. -/
theorem Describes.exists_part (describes : r.Describes owner type v) (mem : name ∈ type.names) :
    ∃ leaf ∈ v.leaves, r.Describes owner (.named name) leaf := by
  induction type generalizing v with
  | base b => contradiction
  | list _ ih =>
    cases describes with
    | list inner =>
      have found := ih inner mem
      exact found
  | set _ ih =>
    cases describes with
    | set inner =>
      have found := ih inner mem
      exact found
  | map k e ihk ihe =>
    cases describes with
    | map first second =>
      rcases List.mem_append.mp mem with mem | mem
      · obtain ⟨leaf, part, describes⟩ := ihk first mem
        exact ⟨leaf, List.mem_append_left _ part, describes⟩
      · obtain ⟨leaf, part, describes⟩ := ihe second mem
        exact ⟨leaf, List.mem_append_right _ part, describes⟩
  | named other =>
    obtain rfl := List.mem_singleton.mp mem
    rw [describes.named_leaves]
    exact ⟨v, List.mem_singleton.mpr rfl, describes⟩

/-- A part that is about a name describes the name, which the type mentions. -/
theorem Describes.about (describes : r.Describes owner type v) (mem : leaf ∈ v.leaves)
    (about : leaf.name? = some name) : name ∈ type.names ∧ r.Describes owner (.named name) leaf := by
  obtain ⟨b, rfl⟩ | ⟨other, mentioned, describes⟩ := describes.part mem
  · cases b <;> contradiction
  · have same : other = name := by
      cases describes with
      | @baseAlias _ b => cases b <;> contradiction
      | struct | exception | cut | enum | otherAlias => exact Option.some.inj about
    exact ⟨same ▸ mentioned, same ▸ describes⟩

/-- Only a cut reference stays a name with a tag, or an alias of something that is no base type. -/
theorem describes_reference {tag : WireType} (describes : r.Describes owner (.named name) (.typedef tag name)) :
    (r.definitions.Shape (.named name) .struct ∧ tag = .struct ∧ r.Cut owner name) ∨
      ∃ target kind, r.definitions.EndsIn name target ∧ r.definitions.Shape target kind ∧ tag = kind.tag := by
  generalize said : ValueDescriptor.typedef tag name = v at describes
  cases describes with
  | cut shape cut =>
    cases said
    exact .inl ⟨shape, rfl, cut⟩
  | otherAlias ends shape =>
    cases said
    exact .inr ⟨_, _, ends, shape, rfl⟩
  | @baseAlias _ b => cases b <;> contradiction
  | struct | exception | enum => contradiction

/-- Whatever else is described under its own name is declared as what the descriptor calls it. -/
theorem describes_inline (describes : r.Describes owner (.named name) v) (about : v.name? = some name)
    (untagged : ∀ tag, v ≠ .typedef tag name) : ∃ x, r.definitions.Declares name x ∧ x.inline? name = some v := by
  cases describes with
  | struct declares | exception declares | enum declares => exact ⟨_, declares, rfl⟩
  | cut | otherAlias => exact absurd rfl (untagged _)
  | @baseAlias _ b => cases b <;> contradiction

end Registry

end ThriftCatalog
