import ThriftCatalog.Proofs.Answer

/-! A registry never conflicts with itself. What a name is expanded to depends on nothing but the name: not on the place
where it occurs, nor on the owner for which references are cut, nor on the depth that is allowed. -/
namespace ThriftCatalog

open Relation Fallible Generation TypeInfo

inductive Provider.Answers (p : Provider) : ValueDescriptor → Prop where
  | value {owner : Option String} {v : ValueDescriptor} : p.AnswersFor owner v → Answers p v
  | thrown {service name : String} {methods : List MethodDescriptor} {m : MethodDescriptor} :
      p.methods service = .ok methods → m ∈ methods → name ∈ m.exceptions → Answers p (.exception name)

namespace Registry

open Definitions

variable {r : Registry} {resolver : Resolver} {v v' : ValueDescriptor} {t t' : TypeInfo} {c c' : ClassInfo}
  {name : String}

/-- No exception is asked for as a struct. -/
def Faithful (r : Registry) (v : ValueDescriptor) : Prop :=
  ∀ name, .struct name ∈ v.leaves → name ∉ r.definitions.exceptions.keys

/-- What two classes of one name are, each in a tree of its own descriptor. They are equal, unless one of the
descriptors asks for an exception as a struct. Then they differ in that alone. -/
inductive OneDefinition (r : Registry) (v v' : ValueDescriptor) : ClassInfo → ClassInfo → Prop where
  | same (c : ClassInfo) : OneDefinition r v v' c c
  | asStruct {record : RecordInfo} : record.name ∈ r.definitions.exceptions.keys → .struct record.name ∈ v.leaves →
      OneDefinition r v v' (.struct record) (.exception record)
  | asException {record : RecordInfo} : record.name ∈ r.definitions.exceptions.keys →
      .struct record.name ∈ v'.leaves → OneDefinition r v v' (.exception record) (.struct record)

theorem OneDefinition.eq_of_kind (one : r.OneDefinition v v' c c') (kind : c.kind = c'.kind) : c = c' := by
  cases one with
  | same => rfl
  | asStruct | asException => simp [ClassInfo.kind] at kind

theorem OneDefinition.eq_of_faithful (one : r.OneDefinition v v' c c') (faithful : r.Faithful v)
    (faithful' : r.Faithful v') : c = c' := by
  cases one with
  | same => rfl
  | asStruct exception asked => exact absurd exception (faithful _ asked)
  | asException exception asked => exact absurd exception (faithful' _ asked)

section

variable (wf : r.definitions.WellFormed)
include wf

theorem expansion_faithful : r.Faithful (r.expansion name) := by
  intro other mem exception
  rcases expansion_cases r name with shape | shape <;> rw [shape] at mem
  · cases List.mem_singleton.mp mem
    rw [(expansion_exception wf exception).2] at shape
    contradiction
  · cases List.mem_singleton.mp mem

theorem answersFor_faithful {owner : Option String} (answers : r.provider.AnswersFor owner v) : r.Faithful v := by
  intro name asked exception
  obtain ⟨fields, declares⟩ := Table.mem_keys.mp exception
  obtain ⟨x, inline, once⟩ := answer_declares wf answers asked rfl nofun
  cases (once (.exception fields)).mp declares
  cases inline

theorem answers_faithful (answers : r.provider.Answers v) : r.Faithful v := by
  cases answers with
  | value answers => exact answersFor_faithful wf answers
  | thrown => exact fun _ asked => nomatch List.mem_singleton.mp asked

/-- What a descriptor unfolds to asks for no exception as a struct but those that the descriptor itself asks for so. -/
theorem asked_of_unfolds (exception : name ∈ r.definitions.exceptions.keys)
    (chain : ReflTransGen r.provider.Unfolds v v') (asked : .struct name ∈ v'.leaves) : .struct name ∈ v.leaves := by
  induction chain with
  | refl => exact asked
  | tail _ inside ih =>
    cases inside with
    | listElement | setElement => exact ih asked
    | mapKey => exact ih (List.mem_append_left _ asked)
    | mapValue => exact ih (List.mem_append_right _ asked)
    | structField answered mem => exact absurd exception (answersFor_faithful wf (.structField answered mem) name asked)
    | exceptionField answered mem =>
      exact absurd exception (answersFor_faithful wf (.exceptionField answered mem) name asked)

variable (source : resolver.provider = r.provider)
include source

/-- A class that is resolved from its own descriptor is the one that represents its name, or shows a represented
exception as a struct. -/
theorem resolves_represents (h : resolver.Resolves c.descriptor c.toType) : r.Represents resolver c.name c ∨
    ∃ record, c = .struct record ∧ c.name ∈ r.definitions.exceptions.keys ∧
      r.Represents resolver c.name (.exception record) := by
  cases c with
  | enum info =>
    obtain ⟨constants, answered, -⟩ := Resolver.resolves_enum.mp h
    simp only [source, provider, enumConstants] at answered
    split at answered
    · next constants found =>
      have declares : r.definitions.Declares info.name (.enum constants) := found
      exact .inl ⟨rfl, h, .inr ⟨rfl, kind?_of_declares wf.distinct declares⟩⟩
    · contradiction
  | exception record =>
    obtain ⟨room, _, built, -⟩ := Resolver.resolves_exception.mp h
    obtain ⟨fields, -, answered, -⟩ := Resolver.recordBy_eq_ok.mp built
    simp only [source, provider, exceptionFields] at answered
    split at answered
    · next found =>
      obtain ⟨composite, shape⟩ := expansion_exception wf (Table.mem_keys.mpr ⟨_, found⟩)
      exact .inl ⟨rfl, h, .inl ⟨shape.symm, composite⟩⟩
    · contradiction
  | struct record =>
    obtain ⟨room, _, built, same⟩ := Resolver.resolves_struct.mp h
    cases same
    have composite : r.definitions.isComposite record.name = true := by
      obtain ⟨fields, -, answered, -⟩ := Resolver.recordBy_eq_ok.mp built
      simp only [source, provider, structFields] at answered
      split at answered
      · assumption
      · contradiction
    rcases expansion_fields composite with ⟨shape, -⟩ | ⟨shape, answers⟩
    · exact .inl ⟨rfl, h, .inl ⟨shape.symm, composite⟩⟩
    · have asked : resolver.provider.exceptionFields record.name = resolver.provider.structFields record.name := by
        rw [source, answers]
        simp only [provider, structFields, composite, if_true]
      have shown : resolver.Resolves (.exception record.name) (.exception record) :=
        Resolver.resolves_exception.mpr ⟨room, record, asked ▸ built, rfl⟩
      have exception : record.name ∈ r.definitions.exceptions.keys := by
        refine Table.contains_iff.mp (((Bool.or_eq_true _ _).mp composite).resolve_left fun struct => ?_)
        rw [expansion, if_pos struct] at shape
        contradiction
      exact .inr ⟨record, rfl, exception, rfl, shown, .inl ⟨shape.symm, composite⟩⟩

/-- A class in a tree represents its name, or it is an exception that the descriptor itself asks for as a struct. -/
theorem occurs_cases (resolves : resolver.Resolves v t) (occurs : Occurs c.toType t) :
    r.Represents resolver c.name c ∨ ∃ record : RecordInfo, c = .struct record ∧
      record.name ∈ r.definitions.exceptions.keys ∧ .struct record.name ∈ v.leaves ∧
        r.Represents resolver c.name (.exception record) := by
  obtain ⟨_, chain, found⟩ := resolves.occurs occurs
  obtain rfl := found.origin.1 c (asClass?_toType c)
  rw [source] at chain
  rcases resolves_represents wf source found with represents | ⟨record, rfl, exception, represents⟩
  · exact .inl represents
  · exact .inr ⟨record, rfl, exception, asked_of_unfolds wf exception chain (List.mem_singleton.mpr rfl), represents⟩

theorem occurs_represents (resolves : resolver.Resolves v t) (occurs : Occurs c.toType t) (faithful : r.Faithful v) :
    r.Represents resolver c.name c := by
  rcases occurs_cases wf source resolves occurs with represents | ⟨record, rfl, exception, asked, -⟩
  · exact represents
  · exact absurd exception (faithful _ asked)

/-- Two classes of one name show one definition, in whatever trees they occur. -/
theorem occurs_oneDefinition (first : resolver.Resolves v t) (second : resolver.Resolves v' t')
    (occurs : Occurs c.toType t) (occurs' : Occurs c'.toType t') (same : c.name = c'.name) :
    r.OneDefinition v v' c c' := by
  rcases occurs_cases wf source first occurs with represents | ⟨record, rfl, exception, asked, represents⟩ <;>
    rcases occurs_cases wf source second occurs' with represents' | ⟨record', rfl, exception', asked', represents'⟩
  · obtain rfl := represents.unique (same ▸ represents')
    exact .same c
  · obtain rfl := represents.unique (same ▸ represents')
    exact .asException exception' asked'
  · obtain rfl := represents'.unique (same ▸ represents)
    exact .asStruct exception asked
  · cases represents.unique (same ▸ represents')
    exact .same _

end

/-- A registry that can be built never conflicts with itself: neither a generation nor one of its services fails with a
conflict, and a lenient generation does not fail at all. The reason is that two classes of one name show one
definition, wherever they occur and whatever depth is allowed. If they are of one kind, they are equal, and so they are
whatever their kinds where the registry itself asks for them. -/
theorem build_coherent {files : List RegistryFile} (built : build files = .ok r) :
    (∀ input encoder options name, r.provider.generate input encoder options ≠ .error (.conflict name)) ∧
    (∀ input encoder options o, r.provider.generate input encoder options = .ok o →
      ∀ failure ∈ o.failures, ∀ name, failure.error ≠ .conflict name) ∧
    (∀ input encoder options, options.failFast = false → ∃ o, r.provider.generate input encoder options = .ok o) ∧
    ∀ depth depth' v v' t t', Resolver.resolve ⟨r.provider, r.provider.docs, depth⟩ v = .ok t →
      Resolver.resolve ⟨r.provider, r.provider.docs, depth'⟩ v' = .ok t' →
        ∀ c c' : ClassInfo, Occurs c.toType t → Occurs c'.toType t' → c.name = c'.name →
          (c.kind = c'.kind → c = c') ∧ (r.provider.Answers v → r.provider.Answers v' → c = c') ∧
            r.OneDefinition v v' c c' := by
  have wf := build_wellFormed built
  refine ⟨fun input encoder options name failed => ?_, fun input encoder options o generated => ?_,
    fun input encoder options lenient => ?_, ?_⟩
  · exact (consistent wf _ _).generate_noConflict _ failed name rfl
  · rw [Provider.generate_failures generated]
    exact (consistent wf _ _).failures_noConflict
  · exact (consistent wf _ _).lenient_isOk lenient
  · intro depth depth' v v' t t' resolved resolved' c c' occurs occurs' same
    have first : Resolver.Resolves ⟨r.provider, r.provider.docs, depth⟩ v t := ⟨depth, resolved⟩
    have second : Resolver.Resolves ⟨r.provider, r.provider.docs, depth⟩ v' t' :=
      Resolver.Resolves.limit ⟨depth', resolved'⟩ depth
    have one := occurs_oneDefinition wf rfl first second occurs occurs' same
    refine ⟨one.eq_of_kind, fun answers answers' => ?_, one⟩
    exact one.eq_of_faithful (answers_faithful wf answers) (answers_faithful wf answers')

theorem pair_coherent :
    ∃ r o t t', build [pairFile] = .ok r ∧
      r.provider.generate (singleBinding ["S$Iface"]) none { maxDepth := 0 } = .ok o ∧
      o.failures = [⟨"S", .tooDeep "A" 0⟩] ∧
      Resolver.resolve ⟨r.provider, r.provider.docs, 5⟩ (.list (.struct "A")) = .ok t ∧
      Resolver.resolve ⟨r.provider, r.provider.docs, 2⟩ (.struct "B") = .ok t' ∧
      t.classes.map (·.name) = ["A"] ∧ t'.classes.map (·.name) = ["A", "B"] ∧
      ∀ c ∈ t.classes, ∀ c' ∈ t'.classes, c.name = c'.name → c = c' := by
  have facts : (fun r => (r.definitions.exceptions.keys,
      (fun o => o.failures) <$> r.provider.generate (singleBinding ["S$Iface"]) none { maxDepth := 0 },
      (fun t => t.classes.map (·.name)) <$> Resolver.resolve ⟨r.provider, r.provider.docs, 5⟩ (.list (.struct "A")),
      (fun t => t.classes.map (·.name)) <$> Resolver.resolve ⟨r.provider, r.provider.docs, 2⟩ (.struct "B"))) <$>
        build [pairFile] =
      .ok ([], .ok [⟨"S", .tooDeep "A" 0⟩], .ok ["A"], .ok ["A", "B"]) := by decide +kernel
  obtain ⟨r, built, facts⟩ := map_eq_ok.mp facts
  simp only [Prod.mk.injEq] at facts
  obtain ⟨exceptions, generated, first, second⟩ := facts
  obtain ⟨o, generated, failures⟩ := map_eq_ok.mp generated
  obtain ⟨t, resolved, names⟩ := map_eq_ok.mp first
  obtain ⟨t', resolved', names'⟩ := map_eq_ok.mp second
  refine ⟨r, o, t, t', built, generated, failures, resolved, resolved', names, names', ?_⟩
  intro c mem c' mem' same
  obtain ⟨-, -, one⟩ := (build_coherent built).2.2.2 5 2 _ _ t t' resolved resolved' c c' (mem_classes.mp mem)
    (mem_classes.mp mem') same
  apply one.eq_of_faithful <;> simp [Faithful, exceptions]

def soldOutFile : RegistryFile where
  exceptions := .ofList [("SoldOut", { fields := some [{ name := "line", type := "i32" }] })]

/-- An exception can be asked for as a struct, and the two classes of its name are of different kinds. -/
theorem exception_asked_as_struct : ∃ r record, build [soldOutFile] = .ok r ∧
    Resolver.resolve ⟨r.provider, r.provider.docs, 64⟩ (.struct "SoldOut") = .ok (.struct record) ∧
    Resolver.resolve ⟨r.provider, r.provider.docs, 64⟩ (.exception "SoldOut") = .ok (.exception record) ∧
    ¬ ∀ depth depth' v v' t t', Resolver.resolve ⟨r.provider, r.provider.docs, depth⟩ v = .ok t →
      Resolver.resolve ⟨r.provider, r.provider.docs, depth'⟩ v' = .ok t' →
        ∀ c c' : ClassInfo, Occurs c.toType t → Occurs c'.toType t' → c.name = c'.name → c = c' := by
  have facts : (fun r : Registry => (Resolver.resolve ⟨r.provider, r.provider.docs, 64⟩ (.struct "SoldOut"),
      Resolver.resolve ⟨r.provider, r.provider.docs, 64⟩ (.exception "SoldOut"))) <$> build [soldOutFile] =
        .ok (.ok (.struct ⟨"SoldOut", [⟨"line", .default, .i32, none⟩], none⟩),
          .ok (.exception ⟨"SoldOut", [⟨"line", .default, .i32, none⟩], none⟩)) := by decide +kernel
  obtain ⟨r, built, facts⟩ := map_eq_ok.mp facts
  obtain ⟨struct, exception⟩ := Prod.mk.inj facts
  refine ⟨r, _, built, struct, exception, fun claimed => ?_⟩
  have equal := claimed 64 64 _ _ _ _ struct exception (.struct _) (.exception _) .refl .refl rfl
  contradiction

end Registry

end ThriftCatalog
