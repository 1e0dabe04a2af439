import ThriftCatalog.Proofs.Description
import ThriftCatalog.Proofs.Documentation

/-! What a registry answers, declaration by declaration. The answers list what was declared, in the same order, each
with a descriptor of the declared type. -/
namespace ThriftCatalog

open Fallible

/-- A descriptor in the answers of a provider, with the struct or exception in a field of which it stands, if it stands
in one. -/
inductive Provider.AnswersFor (p : Provider) : Option String → ValueDescriptor → Prop where
  | parameter {service : String} {methods : List MethodDescriptor} {m : MethodDescriptor} {f : FieldDescriptor} :
      p.methods service = .ok methods → m ∈ methods → f ∈ m.parameters → AnswersFor p none f.value
  | result {service : String} {methods : List MethodDescriptor} {m : MethodDescriptor}
      {fields : List FieldDescriptor} {f : FieldDescriptor} :
      p.methods service = .ok methods → m ∈ methods → m.resultFields = some fields → f ∈ fields →
      AnswersFor p none f.value
  | structField {name : String} {fields : List FieldDescriptor} {f : FieldDescriptor} :
      p.structFields name = .ok fields → f ∈ fields → AnswersFor p (some name) f.value
  | exceptionField {name : String} {fields : List FieldDescriptor} {f : FieldDescriptor} :
      p.exceptionFields name = .ok fields → f ∈ fields → AnswersFor p (some name) f.value

/-- The result struct as it would be declared: the returned value, if there is one, then what is thrown. -/
def MethodDecl.resultFields (m : MethodDecl) : List FieldDecl :=
  (if m.returns = .base .void then [] else [⟨MethodDescriptor.successName, .default, m.returns⟩]) ++
    m.throws.map fun f => { f with requirement := .default }

namespace Registry

open Definitions

variable {r : Registry} {owner : Option String} {v : ValueDescriptor} {name service : String}
  {fields : List FieldDecl} {answered : List FieldDescriptor}

structure DescribesField (r : Registry) (owner : Option String) (field : FieldDecl) (f : FieldDescriptor) : Prop where
  name : f.name = field.name
  requirement : f.requirement = field.requirement
  value : r.Describes owner field.type f.value

structure DescribesMethod (r : Registry) (m : MethodDecl) (md : MethodDescriptor) : Prop where
  name : md.name = m.name
  parameters : List.Forall₂ (r.DescribesField none) m.params md.parameters
  oneway : md.resultFields = none ↔ m.oneway = true
  results : ∀ answered, md.resultFields = some answered →
    List.Forall₂ (r.DescribesField none) m.resultFields answered

section

variable (wf : r.definitions.WellFormed)
include wf

theorem lowerFields_iff :
    r.lowerFields owner fields = .ok answered ↔ List.Forall₂ (r.DescribesField owner) fields answered := by
  unfold lowerFields
  rw [mapM_eq_ok]
  suffices each : ∀ field f, (do
      return { name := field.name, requirement := field.requirement, value := ← r.lower owner field.type }) =
        Except.ok (ε := LookupError) f ↔ r.DescribesField owner field f by
    simp only [each]
  intro field f
  simp only [bind_eq_ok, pure_eq_ok, lower_iff wf]
  constructor
  · rintro ⟨v, describes, rfl⟩
    exact ⟨rfl, rfl, describes⟩
  · rintro ⟨name, requirement, describes⟩
    exact ⟨f.value, describes, by rw [← name, ← requirement]⟩

theorem structFields_iff : r.provider.structFields name = .ok answered ↔
    r.definitions.isComposite name = true ∧
      List.Forall₂ (r.DescribesField (some name)) (r.definitions.compositeFields name) answered := by
  rw [← lowerFields_iff wf]
  simp only [provider, structFields]
  split
  · next composite => exact (and_iff_right composite).symm
  · next other => exact iff_of_false throw_ne_ok fun both => other both.1

omit wf in
theorem compositeFields_struct (declares : r.definitions.Declares name (.struct fields)) :
    r.definitions.compositeFields name = fields := by
  have found : r.definitions.structs.get? name = some fields := declares
  rw [compositeFields, found]

theorem compositeFields_exception {known : Option (List FieldDecl)}
    (declares : r.definitions.Declares name (.exception known)) :
    r.definitions.compositeFields name = known.getD [] := by
  have found : r.definitions.exceptions.get? name = some known := declares
  cases other : r.definitions.structs.get? name with
  | none => rw [compositeFields, other, found, Option.getD_some]
  | some fields =>
    have same : Declaration.struct fields = .exception known := declares_unique wf.distinct other declares
    contradiction

theorem exceptionFields_iff : r.provider.exceptionFields name = .ok answered ↔
    (∃ fields, r.definitions.Declares name (.exception fields)) ∧
      List.Forall₂ (r.DescribesField (some name)) (r.definitions.compositeFields name) answered := by
  rw [← lowerFields_iff wf]
  simp only [provider, exceptionFields]
  cases found : r.definitions.exceptions.get? name with
  | none =>
    refine iff_of_false throw_ne_ok ?_
    rintro ⟨⟨known, declares⟩, -⟩
    cases found.symm.trans declares
  | some known =>
    have declares : r.definitions.Declares name (.exception known) := found
    rw [and_iff_right ⟨known, declares⟩, compositeFields_exception wf declares]

theorem lowerMethod_describes {m : MethodDecl} {md : MethodDescriptor} (lowered : r.lowerMethod service m = .ok md) :
    r.DescribesMethod m md := by
  obtain ⟨name, params, -, returned⟩ := lowerMethod_parts lowered
  refine ⟨name, (lowerFields_iff wf).mp params, ?_, fun answered results => ?_⟩
  · rcases returned with ⟨oneway, results⟩ | ⟨answers, fields, -, results⟩
    · exact iff_of_true results oneway
    · simp [answers, results]
  · rcases returned with ⟨-, none⟩ | ⟨-, fields, found, results'⟩
    · rw [none] at results
      contradiction
    · cases results.symm.trans results'
      obtain ⟨thrown, throws, shape⟩ := resultFields_eq_ok.mp found
      have throws : List.Forall₂ (r.DescribesField none) (m.throws.map fun f => { f with requirement := .default })
          thrown := by
        refine List.forall₂_map_left_iff.mpr ((mapM_eq_ok.mp throws).imp fun field f made => ?_)
        obtain ⟨v, lowered, same⟩ := bind_eq_ok.mp made
        cases pure_eq_ok.mp same
        exact ⟨rfl, rfl, (lower_iff wf).mp lowered⟩
      unfold MethodDecl.resultFields
      rcases shape with ⟨nothing, rfl⟩ | ⟨something, value, lowered, rfl⟩
      · rw [if_pos nothing]
        exact throws
      · rw [if_neg something]
        exact .cons ⟨rfl, rfl, (lower_iff wf).mp lowered⟩ throws

theorem methods_describe {mds : List MethodDescriptor} (answered : r.provider.methods service = .ok mds) :
    ∃ ms, r.definitions.Declares service (.service ms) ∧ List.Forall₂ r.DescribesMethod ms mds := by
  obtain ⟨ms, declares, lowered⟩ := methods_eq_ok answered
  exact ⟨ms, declares, (mapM_eq_ok.mp lowered).imp fun m md made => lowerMethod_describes wf made⟩

omit wf in
/-- Each service that is declared is answered for. -/
theorem methods_isOk {ms : List MethodDecl} (declares : r.definitions.Declares service (.service ms)) :
    ∃ mds, r.provider.methods service = .ok mds ∧
      List.Forall₂ (fun m md => r.lowerMethod service m = .ok md) ms mds := by
  have found : r.definitions.services.get? service = some ms := declares
  have checked := r.definitions_checked.methods service ms found
  obtain ⟨mds, lowered⟩ : ∃ mds, ms.mapM (r.lowerMethod service) = .ok mds :=
    mapM_isOk fun m mem => lowerMethod_isOk (checked m mem)
  refine ⟨mds, ?_, mapM_eq_ok.mp lowered⟩
  simp only [provider, Registry.methods, found, lowered]

/-- Only declared types are answered for: in the fields of a struct, union or exception its own, and in a method those
of its parameters and of its result struct. -/
theorem answersFor_describes (answers : r.provider.AnswersFor owner v) : ∃ type, r.Describes owner type v := by
  cases answers with
  | parameter answered mem listed =>
    obtain ⟨ms, -, described⟩ := methods_describe wf answered
    obtain ⟨m, -, described⟩ := forall₂_source described mem
    obtain ⟨field, -, described⟩ := forall₂_source described.parameters listed
    exact ⟨field.type, described.value⟩
  | result answered mem returns listed =>
    obtain ⟨ms, -, described⟩ := methods_describe wf answered
    obtain ⟨m, -, described⟩ := forall₂_source described mem
    obtain ⟨field, -, described⟩ := forall₂_source (described.results _ returns) listed
    exact ⟨field.type, described.value⟩
  | structField answered listed =>
    obtain ⟨field, -, described⟩ := forall₂_source ((structFields_iff wf).mp answered).2 listed
    exact ⟨field.type, described.value⟩
  | exceptionField answered listed =>
    obtain ⟨field, -, described⟩ := forall₂_source ((exceptionFields_iff wf).mp answered).2 listed
    exact ⟨field.type, described.value⟩

/-- A name that is to be expanded in place is declared once, as what it is expanded to. -/
theorem answer_declares (answers : r.provider.AnswersFor owner v) {leaf : ValueDescriptor} (mem : leaf ∈ v.leaves)
    (about : leaf.name? = some name) (untagged : ∀ tag, leaf ≠ .typedef tag name) :
    ∃ x, x.inline? name = some leaf ∧ ∀ y, r.definitions.Declares name y ↔ y = x := by
  obtain ⟨type, describes⟩ := answersFor_describes wf answers
  obtain ⟨-, describes⟩ := describes.about mem about
  obtain ⟨x, declares, inline⟩ := describes_inline describes about untagged
  refine ⟨x, inline, fun y => ⟨fun other => declares_unique wf.distinct other declares, ?_⟩⟩
  rintro rfl
  exact declares

theorem structFields_isOk (composite : r.definitions.isComposite name = true) :
    ∃ answered, r.provider.structFields name = .ok answered := by
  obtain ⟨answered, lowered⟩ := lowerFields_isOk (some name) (r.definitions_checked.fields name)
  exact ⟨answered, (structFields_iff wf).mpr ⟨composite, (lowerFields_iff wf).mp lowered⟩⟩

theorem exceptionFields_isOk {known : Option (List FieldDecl)}
    (declares : r.definitions.Declares name (.exception known)) :
    ∃ answered, r.provider.exceptionFields name = .ok answered := by
  obtain ⟨answered, found⟩ := structFields_isOk wf (shape_struct_iff.mp (.exception declares))
  exact ⟨answered, (exceptionFields_iff wf).mpr ⟨⟨known, declares⟩, ((structFields_iff wf).mp found).2⟩⟩

theorem answersFor_some_iff : r.provider.AnswersFor (some name) v ↔
    r.definitions.isComposite name = true ∧
      ∃ field ∈ r.definitions.compositeFields name, r.Describes (some name) field.type v := by
  constructor
  · intro answers
    cases answers with
    | structField answered listed =>
      obtain ⟨composite, described⟩ := (structFields_iff wf).mp answered
      obtain ⟨field, mem, described⟩ := forall₂_source described listed
      exact ⟨composite, field, mem, described.value⟩
    | exceptionField answered listed =>
      obtain ⟨⟨fields, declares⟩, described⟩ := (exceptionFields_iff wf).mp answered
      obtain ⟨field, mem, described⟩ := forall₂_source described listed
      exact ⟨shape_struct_iff.mp (.exception declares), field, mem, described.value⟩
  · rintro ⟨composite, field, mem, describes⟩
    obtain ⟨answered, found⟩ := structFields_isOk wf composite
    obtain ⟨-, described⟩ := (structFields_iff wf).mp found
    obtain ⟨f, listed, described⟩ := forall₂_target described mem
    rw [describes.unique wf described.value]
    exact .structField found listed

end

section

variable {files : List RegistryFile} (built : build files = .ok r) {f : RegistryFile} (mem : f ∈ files)
include built mem

/-- What a file defines is declared, with its types qualified. -/
theorem declares_of_build {short : String} {item : RegistryFile.Item} (holds : f.Holds short item) :
    r.definitions.Declares (qualify f.namespaceName short) (item.inScope f.namespaceName) := by
  obtain ⟨⟨⟨⟩, d⟩, run, checked⟩ := bind_eq_ok.mp built
  rw [ofDefinitions_eq_ok checked]
  exact (declares_iff_item run).mpr ⟨f, mem, short, item, RegistryFile.mem_items.mpr holds, rfl, rfl⟩

end

/-- Two structs that refer to one another, some of their fields by the aliases of other types. -/
def aliasedPairFile : RegistryFile where
  namespaceName := "shop"
  services := .ofList [("Shop", { methods := [
    { name := "find", params := [{ name := "id", type := "Id", requirement := .required }], returns := "Order" }] })]
  structs := .ofList [
    ("Order", { fields := [{ name := "id", type := "Id" }, { name := "items", type := "map<i8, Item>" }] }),
    ("Item", { fields := [{ name := "order", type := "Order" }, { name := "codes", type := "Codes" }] })]
  typedefs := .ofList [("Id", "i64"), ("Codes", "set<Id>")]

def aliasedPair : Definitions where
  services := .ofList [("shop.Shop", [
    { name := "find", params := [⟨"id", .required, .named "shop.Id"⟩], returns := .named "shop.Order", throws := [],
      oneway := false }])]
  structs := .ofList [
    ("shop.Order", [⟨"id", .default, .named "shop.Id"⟩,
      ⟨"items", .default, .map (.base .byte) (.named "shop.Item")⟩]),
    ("shop.Item", [⟨"order", .default, .named "shop.Order"⟩, ⟨"codes", .default, .named "shop.Codes"⟩])]
  exceptions := ∅
  enums := ∅
  aliases := .ofList [("shop.Id", .base .i64), ("shop.Codes", .set (.named "shop.Id"))]
  docs := ∅

theorem aliasedPair_checked : aliasedPair.check = .ok () := by decide +kernel

def aliasedPairRegistry : Registry := ⟨aliasedPair, aliasedPair.cycleCuts, aliasedPair_checked, rfl⟩

theorem aliasedPair_built : build [aliasedPairFile] = .ok aliasedPairRegistry :=
  build_of_run (by decide +kernel)

end Registry

end ThriftCatalog
