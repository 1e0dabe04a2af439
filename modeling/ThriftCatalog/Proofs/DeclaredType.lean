import ThriftCatalog.Proofs.Answer

/-! Documented types against declared ones. Whatever is expanded, cut or left as an alias, the type shown for a
parameter or a field has the text of the declared type, with its names qualified and the aliases of base types written
out. -/
namespace ThriftCatalog

open Fallible

/-- The spelling in signatures, which is the short one of `byte`. -/
def BaseType.shortWord : BaseType → String
  | byte => "i8"
  | b => b.word

def TypeExpr.text (spell : BaseType → String) : TypeExpr → String
  | base b => spell b
  | list e => "list<" ++ e.text spell ++ ">"
  | set e => "set<" ++ e.text spell ++ ">"
  | map k v => "map<" ++ k.text spell ++ ", " ++ v.text spell ++ ">"
  | named name => name

/-- In their own words this is the form in which types are written. -/
theorem TypeExpr.text_word (e : TypeExpr) : e.text BaseType.word = e.render := by
  induction e with
  | base | named => rfl
  | list e ih | set e ih => rw [text, render, ih]
  | map k v ihk ihv => rw [text, render, ihk, ihv]

/-- A type with the aliases of base types replaced by these. -/
def Definitions.writtenOut (d : Definitions) : TypeExpr → TypeExpr
  | .base b => .base b
  | .list e => .list (d.writtenOut e)
  | .set e => .set (d.writtenOut e)
  | .map k v => .map (d.writtenOut k) (d.writtenOut v)
  | .named name =>
    match d.aliasTarget name with
    | .ok (.base b) => .base b
    | _ => .named name

namespace Definitions

/-- The signature of a type that is written in a namespace. -/
def Signs (d : Definitions) (scope text signature : String) : Prop :=
  ∃ e, TypeExpr.parse text = .ok e ∧ signature = (d.writtenOut (e.mapNames (qualify scope))).text BaseType.shortWord

/-- A descriptor of a field that a file declares. Whatever it resolves to has the declared signature. -/
structure AnswersField (d : Definitions) (scope : String) (field : FieldDef) (f : FieldDescriptor) : Prop where
  name : f.name = field.name
  requirement : f.requirement = field.requirement
  signature : ∀ (resolver : Resolver) (t : TypeInfo), resolver.resolve f.value = .ok t →
    d.Signs scope field.type t.signature

structure ShowsField (d : Definitions) (scope : String) (field : FieldDef) (info : FieldInfo) : Prop where
  name : info.name = field.name
  requirement : info.requirement = field.requirement
  signature : d.Signs scope field.type info.type.signature

end Definitions

namespace Registry

open Definitions

variable {r : Registry} {resolver : Resolver} {owner : Option String} {type : TypeExpr} {v : ValueDescriptor}
  {t : TypeInfo} {name scope : String}

theorem writtenOut_endsIn {target : TypeExpr} (ends : r.definitions.EndsIn name target) :
    r.definitions.writtenOut (.named name) = if let .base b := target then .base b else .named name := by
  rw [writtenOut, aliasTarget_iff.mpr ends]
  cases target <;> rfl

theorem writtenOut_shape (wf : r.definitions.WellFormed) {kind : ReferenceKind}
    (shape : r.definitions.Shape (.named name) kind) : r.definitions.writtenOut (.named name) = .named name := by
  rw [writtenOut]
  split
  · next found => exact absurd shape ((aliasTarget_iff.mp found).not_shape wf.distinct)
  · rfl

theorem base_signature {b : BaseType} (resolves : resolver.Resolves b.descriptor t) : t.signature = b.shortWord := by
  obtain ⟨room, found⟩ := resolves
  cases b <;> cases room <;> cases found <;> rfl

/-- What a type resolves to has the text of the type. -/
theorem Describes.signature (wf : r.definitions.WellFormed) (describes : r.Describes owner type v)
    (resolves : resolver.Resolves v t) :
    t.signature = (r.definitions.writtenOut type).text BaseType.shortWord := by
  -- Expanded, cut or left as an alias, a name is shown by name, so only the ends of chains in base types differ.
  induction describes generalizing t with
  | base b => exact base_signature resolves
  | list _ ih =>
    obtain ⟨u, found, rfl⟩ := Resolver.resolves_list.mp resolves
    rw [TypeInfo.signature, ih found]
    rfl
  | set _ ih =>
    obtain ⟨u, found, rfl⟩ := Resolver.resolves_set.mp resolves
    rw [TypeInfo.signature, ih found]
    rfl
  | map _ _ ihk ihe =>
    obtain ⟨key, value, first, second, rfl⟩ := Resolver.resolves_map.mp resolves
    rw [TypeInfo.signature, ihk first, ihe second]
    rfl
  | struct declares =>
    obtain ⟨room, record, made, rfl⟩ := Resolver.resolves_struct.mp resolves
    rw [writtenOut_shape wf (.struct declares)]
    exact Resolver.recordBy_name made
  | exception declares =>
    obtain ⟨room, record, made, rfl⟩ := Resolver.resolves_exception.mp resolves
    rw [writtenOut_shape wf (.exception declares)]
    exact Resolver.recordBy_name made
  | cut shape =>
    obtain ⟨kind, -, rfl⟩ := Resolver.resolves_typedef.mp resolves
    rw [writtenOut_shape wf shape]
    rfl
  | enum declares =>
    obtain ⟨constants, -, rfl⟩ := Resolver.resolves_enum.mp resolves
    rw [writtenOut_shape wf (.enum declares)]
    rfl
  | baseAlias ends =>
    rw [writtenOut_endsIn ends]
    exact base_signature resolves
  | otherAlias ends shape =>
    obtain ⟨kind, -, rfl⟩ := Resolver.resolves_typedef.mp resolves
    rw [writtenOut_endsIn ends]
    cases shape <;> rfl

theorem Describes.signs (wf : r.definitions.WellFormed) {text : String} (readable : TypeExpr.Readable text)
    (describes : r.Describes owner (.inScope scope text) v) (resolves : resolver.Resolves v t) :
    r.definitions.Signs scope text t.signature := by
  obtain ⟨e, parsed⟩ := readable
  refine ⟨e, parsed, ?_⟩
  rw [← TypeExpr.inScope_of_parse parsed]
  exact describes.signature wf resolves

section

variable (wf : r.definitions.WellFormed) {fields : List FieldDef} {answered : List FieldDescriptor}
  (readable : ∀ field ∈ fields, TypeExpr.Readable field.type)
  (described : List.Forall₂ (r.DescribesField owner) (fields.map (·.inScope scope)) answered)
include wf readable described

omit wf in
theorem fields_readable : List.Forall₂
    (fun field f => TypeExpr.Readable field.type ∧ r.DescribesField owner (field.inScope scope) f) fields answered :=
  (List.forall₂_and_left fields answered).mpr ⟨readable, List.forall₂_map_left_iff.mp described⟩

theorem fields_answered : List.Forall₂ (r.definitions.AnswersField scope) fields answered := by
  refine (fields_readable readable described).imp ?_
  rintro field f ⟨readable, described⟩
  refine ⟨described.name, described.requirement, fun resolver t found => ?_⟩
  exact described.value.signs wf readable ⟨_, found⟩

theorem fields_shown {resolve : ValueDescriptor → Except GenerationError TypeInfo} {key : String}
    (sound : ∀ v t, resolve v = .ok t → resolver.Resolves v t) {infos : List FieldInfo}
    (made : answered.mapM (resolver.fieldBy resolve key) = .ok infos) :
    List.Forall₂ (r.definitions.ShowsField scope) fields infos := by
  refine (forall₂_comp (fields_readable readable described) (mapM_eq_ok.mp made)).imp ?_
  rintro field info ⟨f, ⟨readable, described⟩, made⟩
  obtain ⟨t, found, rfl⟩ := Resolver.fieldBy_eq_ok.mp made
  exact ⟨described.name, described.requirement, described.value.signs wf readable (sound _ _ found)⟩

end

/-- The fields that a file declares are answered and shown in the declared order, each with its name, its requirement
and the signature of its type. -/
def DocumentsFields (r : Registry) (scope : String) (fields : List FieldDef)
    (answer : Except LookupError (List FieldDescriptor))
    (shown : Resolver → Except GenerationError RecordInfo) : Prop :=
  ∃ answered, answer = .ok answered ∧ List.Forall₂ (r.definitions.AnswersField scope) fields answered ∧
    ∀ resolver, resolver.provider = r.provider → ∀ record, shown resolver = .ok record →
      List.Forall₂ (r.definitions.ShowsField scope) fields record.fields

/-- So are those of each struct, union and exception of a file, and the parameters of each method. -/
structure DocumentsTypes (r : Registry) (file : RegistryFile) : Prop where
  methods : ∀ name s, file.services.get? name = some s →
    ∃ mds, r.provider.methods (qualify file.namespaceName name) = .ok mds ∧
      List.Forall₂ (fun m md => md.name = m.name ∧
        List.Forall₂ (r.definitions.AnswersField file.namespaceName) m.params md.parameters ∧
        ∀ (resolver : Resolver) service samples f, resolver.function service samples md = .ok f →
          List.Forall₂ (r.definitions.ShowsField file.namespaceName) m.params f.parameters) s.methods mds
  structs : ∀ name s, file.structs.get? name = some s ∨ file.unions.get? name = some s →
    r.DocumentsFields file.namespaceName s.fields (r.provider.structFields (qualify file.namespaceName name))
      fun resolver => resolver.resolveStruct (qualify file.namespaceName name)
  exceptions : ∀ name e, file.exceptions.get? name = some e →
    r.DocumentsFields file.namespaceName (e.fields.getD [])
      (r.provider.exceptionFields (qualify file.namespaceName name))
      fun resolver => resolver.resolveException (qualify file.namespaceName name)

/-- What is answered for declared fields is shown as well wherever records are made of the answer. -/
theorem documentsFields_of_answer (wf : r.definitions.WellFormed) {fields : List FieldDef}
    (readable : ∀ field ∈ fields, TypeExpr.Readable field.type) {answered : List FieldDescriptor}
    {answer : Except LookupError (List FieldDescriptor)} (asked : answer = .ok answered)
    (described : List.Forall₂ (r.DescribesField owner) (fields.map (·.inScope scope)) answered)
    {shown : Resolver → Except GenerationError RecordInfo}
    (records : ∀ resolver, resolver.provider = r.provider → ∀ record, shown resolver = .ok record →
      ∃ room, resolver.recordBy (resolver.resolveAt room) name answer = .ok record) :
    r.DocumentsFields scope fields answer shown := by
  refine ⟨answered, asked, fields_answered wf readable described, ?_⟩
  intro resolver source record made
  obtain ⟨room, made⟩ := records resolver source record made
  obtain ⟨_, infos, found, made, rfl⟩ := Resolver.recordBy_eq_ok.mp made
  cases asked.symm.trans found
  exact fields_shown wf readable described (fun v t found => ⟨room, found⟩) made

theorem struct_documentsFields (wf : r.definitions.WellFormed) {fields : List FieldDef}
    (declares : r.definitions.Declares name (.struct (fields.map (·.inScope scope))))
    (readable : ∀ field ∈ fields, TypeExpr.Readable field.type) :
    r.DocumentsFields scope fields (r.provider.structFields name) fun resolver => resolver.resolveStruct name := by
  obtain ⟨answered, asked⟩ := structFields_isOk wf (shape_struct_iff.mp (.struct declares))
  obtain ⟨-, described⟩ := (structFields_iff wf).mp asked
  rw [compositeFields_struct declares] at described
  apply documentsFields_of_answer wf readable asked described
  intro resolver source record made
  rw [← source]
  exact Resolver.recordBy_of_resolveStruct made

theorem exception_documentsFields (wf : r.definitions.WellFormed) {fields : Option (List FieldDef)}
    (declares : r.definitions.Declares name (.exception (fields.map fun fields => fields.map (·.inScope scope))))
    (readable : ∀ field ∈ fields.getD [], TypeExpr.Readable field.type) :
    r.DocumentsFields scope (fields.getD []) (r.provider.exceptionFields name)
      fun resolver => resolver.resolveException name := by
  obtain ⟨answered, asked⟩ := exceptionFields_isOk wf declares
  obtain ⟨-, described⟩ := (exceptionFields_iff wf).mp asked
  have declared : r.definitions.compositeFields name = (fields.getD []).map (·.inScope scope) := by
    rw [compositeFields_exception wf declares]
    cases fields <;> rfl
  rw [declared] at described
  apply documentsFields_of_answer wf readable asked described
  intro resolver source record made
  rw [← source]
  exact Resolver.recordBy_of_resolveException made

/-- Documented signatures match declared types in every file that a registry is built from. -/
theorem build_documentsTypes {files : List RegistryFile} (built : build files = .ok r) :
    ∀ file ∈ files, r.DocumentsTypes file := by
  intro file mem
  have wf := build_wellFormed built
  have readable {short : String} {item : RegistryFile.Item} (holds : file.Holds short item) :
      ∀ text ∈ item.texts, TypeExpr.Readable text := by
    intro text written
    apply (consistent_of_build built).readable file mem
    exact List.mem_flatMap.mpr ⟨(short, item), RegistryFile.mem_items.mpr holds, written⟩
  constructor
  case methods =>
    intro short s found
    have holds : file.Holds short (.service s) := found
    obtain ⟨mds, answered, lowered⟩ := methods_isOk (declares_of_build built mem holds)
    have described := lowered.imp fun m md made => lowerMethod_describes wf made
    refine ⟨mds, answered, ?_⟩
    have each : ∀ m ∈ s.methods, ∀ p ∈ m.params, TypeExpr.Readable p.type := by
      intro m listed p param
      apply readable holds
      refine List.mem_flatMap.mpr ⟨m, listed, List.mem_append_right _ (List.mem_map_of_mem ?_)⟩
      exact List.mem_append_left _ param
    refine ((List.forall₂_and_left _ _).mpr ⟨each, List.forall₂_map_left_iff.mp described⟩).imp ?_
    rintro m md ⟨readable, described⟩
    refine ⟨described.name, fields_answered wf readable described.parameters, ?_⟩
    intro resolver service samples f made
    obtain ⟨ps, t, es, sample, parameters, -, -, -, rfl⟩ := Resolver.function_eq_ok.mp made
    exact fields_shown wf readable described.parameters (fun v t found => ⟨_, found⟩) parameters
  case structs =>
    intro short s found
    have holds : file.Holds short (.struct s) := found
    apply struct_documentsFields wf (declares_of_build built mem holds)
    intro field listed
    exact readable holds _ (List.mem_map_of_mem listed)
  case exceptions =>
    intro short e found
    have holds : file.Holds short (.exception e) := found
    apply exception_documentsFields wf (declares_of_build built mem holds)
    intro field listed
    exact readable holds _ (List.mem_map_of_mem listed)

theorem aliasedPair_documentsTypes : ∃ r, build [aliasedPairFile] = .ok r ∧ r.DocumentsTypes aliasedPairFile ∧
    (fun record : RecordInfo => record.fields.map fun f => (f.name, f.type.signature)) <$>
      Resolver.resolveStruct ⟨r.provider, r.provider.docs, 9⟩ "shop.Order" =
        .ok [("id", "i64"), ("items", "map<i8, shop.Item>")] :=
  ⟨aliasedPairRegistry, aliasedPair_built, build_documentsTypes aliasedPair_built _ (List.mem_singleton.mpr rfl),
    by decide +kernel⟩

end Registry

end ThriftCatalog
