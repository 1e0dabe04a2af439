import ThriftCatalog.Proofs.AliasChain
import ThriftCatalog.Proofs.Declaration
import ThriftCatalog.Proofs.Extension

/-! Which files make a registry. The conditions speak of the files alone, as they are written: a registry is built
exactly if all of them hold, whatever the order of files and definitions. -/
namespace ThriftCatalog

open Relation Fallible

namespace RegistryFile

/-- The qualified names of the types of a file. A service is no type. -/
def typeNames (f : RegistryFile) : List String :=
  (f.structs.keys ++ f.unions.keys ++ f.exceptions.keys ++ f.enums.keys ++ f.typedefs.keys).map
    (qualify f.namespaceName)

def exceptionNames (f : RegistryFile) : List String := f.exceptions.keys.map (qualify f.namespaceName)

def methods (f : RegistryFile) : List MethodDef := f.services.values.flatMap ServiceDef.methods

def StandsFor (files : List RegistryFile) (a b : String) : Prop :=
  ∃ f ∈ files, ∃ name text target, f.typedefs.get? name = some text ∧ TypeExpr.parse text = .ok (.named target) ∧
    a = qualify f.namespaceName name ∧ b = qualify f.namespaceName target

/-- What files must be like to make a registry together. -/
structure Consistent (files : List RegistryFile) : Prop where
  /-- Every type expression can be read. -/
  readable : ∀ f ∈ files, ∀ text ∈ f.texts, TypeExpr.Readable text
  /-- No name is defined twice. -/
  distinct : (files.flatMap definedNames).Nodup
  /-- Every name in a type is the name of a type. -/
  defined : ∀ f ∈ files, ∀ text ∈ f.texts, ∀ type, TypeExpr.parse text = .ok type → ∀ name, type.Contains name →
    ∃ g ∈ files, qualify f.namespaceName name ∈ g.typeNames
  /-- No name stands for itself in the end. -/
  acyclic : ∀ name, ¬ TransGen (StandsFor files) name name
  /-- A oneway method neither throws nor returns anything. -/
  oneway : ∀ f ∈ files, ∀ m ∈ f.methods, m.oneway = true →
    m.throws = [] ∧ ∀ text ∈ m.returns, TypeExpr.parse text = .ok (.base .void)
  /-- What is thrown is an exception or a name that stands for one in the end. -/
  throws : ∀ f ∈ files, ∀ m ∈ f.methods, ∀ t ∈ m.throws, ∃ name thrown, TypeExpr.parse t.type = .ok (.named name) ∧
    ReflTransGen (StandsFor files) (qualify f.namespaceName name) thrown ∧ ∃ g ∈ files, thrown ∈ g.exceptionNames

variable {f : RegistryFile} {name full : String} {item : Item}

def Holds (f : RegistryFile) (name : String) : Item → Prop
  | .service s => f.services.get? name = some s
  | .struct s => f.structs.get? name = some s ∨ f.unions.get? name = some s
  | .exception e => f.exceptions.get? name = some e
  | .enum e => f.enums.get? name = some e
  | .typedef text => f.typedefs.get? name = some text

theorem mem_items : (name, item) ∈ f.items ↔ f.Holds name item := by
  cases item <;> simp [items, Holds, Table.mem_entries]

theorem mem_exceptionNames : full ∈ f.exceptionNames ↔
    ∃ name e, (name, Item.exception e) ∈ f.items ∧ qualify f.namespaceName name = full := by
  simp only [exceptionNames, List.mem_map, Table.mem_keys, mem_items, Holds]
  exact ⟨fun ⟨name, ⟨e, found⟩, same⟩ => ⟨name, e, found, same⟩, fun ⟨name, e, found, same⟩ => ⟨name, ⟨e, found⟩, same⟩⟩

theorem mem_methods {m : MethodDef} :
    m ∈ f.methods ↔ ∃ name s, (name, Item.service s) ∈ f.items ∧ m ∈ s.methods := by
  simp only [methods, List.mem_flatMap, Table.mem_values, mem_items, Holds]
  exact ⟨fun ⟨s, ⟨name, found⟩, mem⟩ => ⟨name, s, found, mem⟩, fun ⟨name, s, found, mem⟩ => ⟨s, ⟨name, found⟩, mem⟩⟩

theorem mem_typeNames : full ∈ f.typeNames ↔
    ∃ name item, (name, item) ∈ f.items ∧ (∀ s, item ≠ .service s) ∧ qualify f.namespaceName name = full := by
  simp only [typeNames, List.mem_map, List.mem_append, Table.mem_keys, mem_items]
  constructor
  · rintro ⟨name, (((⟨s, found⟩ | ⟨s, found⟩) | ⟨e, found⟩) | ⟨e, found⟩) | ⟨text, found⟩, same⟩
    · exact ⟨name, .struct s, .inl found, nofun, same⟩
    · exact ⟨name, .struct s, .inr found, nofun, same⟩
    · exact ⟨name, .exception e, found, nofun, same⟩
    · exact ⟨name, .enum e, found, nofun, same⟩
    · exact ⟨name, .typedef text, found, nofun, same⟩
  · rintro ⟨name, item, found, type, same⟩
    refine ⟨name, ?_, same⟩
    cases item with
    | service s => exact absurd rfl (type s)
    | struct s => exact .inl (.inl (.inl (found.imp (⟨s, ·⟩) (⟨s, ·⟩))))
    | exception e => exact .inl (.inl (.inr ⟨e, found⟩))
    | enum e => exact .inl (.inr ⟨e, found⟩)
    | typedef text => exact .inr ⟨text, found⟩

end RegistryFile

namespace MethodDef

variable {scope : String} {m : MethodDef}

/-- A method returns nothing if it says so or does not say what. -/
theorem returns_void_iff (known : ∀ text ∈ m.returns, TypeExpr.Readable text) :
    (m.inScope scope).returns = .base .void ↔ ∀ text ∈ m.returns, TypeExpr.parse text = .ok (.base .void) := by
  unfold inScope
  cases returns : m.returns with
  | none => simp
  | some text =>
    have known := known text returns
    simp [TypeExpr.inScope_eq_void known]

/-- A method is meant to answer nothing if it is written so. -/
theorem silent_iff (known : ∀ text ∈ m.returns, TypeExpr.Readable text) :
    ((m.inScope scope).returns = .base .void ∧ (m.inScope scope).throws = []) ↔
      m.throws = [] ∧ ∀ text ∈ m.returns, TypeExpr.parse text = .ok (.base .void) := by
  rw [and_comm]
  exact and_congr List.map_eq_nil_iff (returns_void_iff known)

end MethodDef

def Declaration.mentions : Declaration → List String
  | service methods => methods.flatMap fun m => m.returns.names ++ (m.params ++ m.throws).flatMap fun f => f.type.names
  | struct fields => fields.flatMap fun f => f.type.names
  | exception fields => (fields.getD []).flatMap fun f => f.type.names
  | enum _ => []
  | typeAlias target => target.names

theorem RegistryFile.Item.inScope_mentions (scope : String) (item : Item) :
    (item.inScope scope).mentions = item.texts.flatMap fun text => (TypeExpr.inScope scope text).names := by
  have fields (fs : List FieldDef) : (fs.map (·.inScope scope)).flatMap (fun f => f.type.names) =
      (fs.map FieldDef.type).flatMap fun text => (TypeExpr.inScope scope text).names := by
    rw [List.flatMap_map, List.flatMap_map]
    rfl
  cases item with
  | service s =>
    simp only [inScope, Declaration.mentions, texts, List.flatMap_map, List.flatMap_assoc]
    refine List.flatMap_congr fun m _ => ?_
    simp only [MethodDef.texts, List.flatMap_append, MethodDef.inScope, fields, ← List.map_append]
    cases m.returns <;> simp [TypeExpr.names]
  | struct s => exact fields s.fields
  | exception e =>
    obtain ⟨doc, fs⟩ := e
    cases fs with
    | none => rfl
    | some fs => exact fields fs
  | enum e => rfl
  | typedef text => simp [inScope, Declaration.mentions, texts]

namespace Definitions

variable {d : Definitions} {name a b : String} {x : Declaration}

theorem kind?_iff_declares :
    (d.kind? name).isSome = true ↔ ∃ x, d.Declares name x ∧ ∀ methods, x ≠ .service methods := by
  simp only [kind?_isSome_iff, Table.mem_keys]
  constructor
  · rintro (⟨fields, found⟩ | ⟨fields, found⟩ | ⟨constants, found⟩ | ⟨target, found⟩)
    · exact ⟨.struct fields, found, nofun⟩
    · exact ⟨.exception fields, found, nofun⟩
    · exact ⟨.enum constants, found, nofun⟩
    · exact ⟨.typeAlias target, found, nofun⟩
  · rintro ⟨x, found, type⟩
    cases x with
    | service methods => exact absurd rfl (type methods)
    | struct fields => exact .inl ⟨fields, found⟩
    | exception fields => exact .inr (.inl ⟨fields, found⟩)
    | enum constants => exact .inr (.inr (.inl ⟨constants, found⟩))
    | typeAlias target => exact .inr (.inr (.inr ⟨target, found⟩))

/-- The checks, by what names are declared to be. -/
theorem checked_iff : d.Checked ↔
    (∀ name ∈ d.aliases.keys, ∃ target, d.aliasTarget name = .ok target) ∧
    (∀ name x, d.Declares name x → ∀ other ∈ x.mentions, (d.kind? other).isSome = true) ∧
    ∀ service ms, d.Declares service (.service ms) → ∀ m ∈ ms,
      (∀ f ∈ m.throws, ∃ thrown, d.exceptionName f.type = .ok (some thrown)) ∧
        (m.oneway = true → m.returns = .base .void ∧ m.throws = []) := by
  constructor
  · intro checked
    refine ⟨checked.chains, fun name x found other mem => ?_, fun service ms found m mem => ?_⟩
    · cases x with
      | service ms =>
        obtain ⟨m, listed, mem⟩ := List.mem_flatMap.mp mem
        have method := checked.methods name ms found m listed
        rcases List.mem_append.mp mem with mem | mem
        · exact method.returns other mem
        · obtain ⟨f, listed, mem⟩ := List.mem_flatMap.mp mem
          exact method.fields f listed other mem
      | struct fields =>
        obtain ⟨f, listed, mem⟩ := List.mem_flatMap.mp mem
        exact checked.structs name fields found f listed other mem
      | exception fields =>
        obtain ⟨f, listed, mem⟩ := List.mem_flatMap.mp mem
        exact checked.exceptions name fields found f listed other mem
      | enum constants => contradiction
      | typeAlias target => exact checked.aliases name target found other mem
    · have method := checked.methods service ms found m mem
      exact ⟨method.throws, method.oneway⟩
  · rintro ⟨chains, known, methods⟩
    refine ⟨chains, fun name target found => known name (.typeAlias target) found, ?_, ?_, ?_⟩
    · exact fun name fields found f listed other mem =>
        known name (.struct fields) found other (List.mem_flatMap.mpr ⟨f, listed, mem⟩)
    · exact fun name fields found f listed other mem =>
        known name (.exception fields) found other (List.mem_flatMap.mpr ⟨f, listed, mem⟩)
    · intro service ms found m listed
      have inside (other : String)
          (mem : other ∈ m.returns.names ++ (m.params ++ m.throws).flatMap fun f => f.type.names) :
          (d.kind? other).isSome = true :=
        known service (.service ms) found other (List.mem_flatMap.mpr ⟨m, listed, mem⟩)
      obtain ⟨throws, oneway⟩ := methods service ms found m listed
      refine ⟨fun other mem => inside other (List.mem_append_left _ mem), fun f field other mem => ?_, throws, oneway⟩
      exact inside other (List.mem_append_right _ (List.mem_flatMap.mpr ⟨f, field, mem⟩))

section

variable {files : List RegistryFile} (run : (files.forM addFile).run ∅ = .ok ((), d))
include run

theorem declares_iff_item : d.Declares name x ↔ ∃ f ∈ files, ∃ short item, (short, item) ∈ f.items ∧
    qualify f.namespaceName short = name ∧ item.inScope f.namespaceName = x := by
  rw [declares_iff run]
  simp only [RegistryFile.declarations, List.mem_map, Prod.mk.injEq, Prod.exists]

theorem kind?_iff_typeNames : (d.kind? name).isSome = true ↔ ∃ f ∈ files, name ∈ f.typeNames := by
  simp only [kind?_iff_declares, declares_iff_item run, RegistryFile.mem_typeNames]
  constructor
  · rintro ⟨_, ⟨f, mem, short, item, listed, same, rfl⟩, type⟩
    refine ⟨f, mem, short, item, listed, ?_, same⟩
    rintro s rfl
    exact type _ rfl
  · rintro ⟨f, mem, short, item, listed, type, same⟩
    refine ⟨_, ⟨f, mem, short, item, listed, same, rfl⟩, ?_⟩
    cases item with
    | service s => exact absurd rfl (type s)
    | struct | exception | enum | typedef => exact nofun

theorem mem_exceptions_iff : name ∈ d.exceptions.keys ↔ ∃ f ∈ files, name ∈ f.exceptionNames := by
  have declared : name ∈ d.exceptions.keys ↔ ∃ fields, d.Declares name (.exception fields) := Table.mem_keys
  simp only [declared, declares_iff_item run, RegistryFile.mem_exceptionNames]
  constructor
  · rintro ⟨fields, f, mem, short, item, listed, same, means⟩
    cases item with
    | exception e => exact ⟨f, mem, short, e, listed, same⟩
    | service | struct | enum | typedef => contradiction
  · rintro ⟨f, mem, short, e, listed, same⟩
    exact ⟨_, f, mem, short, .exception e, listed, same, rfl⟩

theorem leads_iff_standsFor : d.Leads a b ↔ RegistryFile.StandsFor files a b := by
  have declared : d.Leads a b ↔ d.Declares a (.typeAlias (.named b)) := .rfl
  rw [declared, declares_iff_item run]
  constructor
  · rintro ⟨f, mem, short, item, listed, rfl, means⟩
    cases item with
    | typedef text =>
      obtain ⟨target, parsed, rfl⟩ := TypeExpr.inScope_eq_named.mp (Declaration.typeAlias.inj means)
      exact ⟨f, mem, short, text, target, RegistryFile.mem_items.mp listed, parsed, rfl, rfl⟩
    | service | struct | exception | enum => contradiction
  · rintro ⟨f, mem, short, text, target, found, parsed, rfl, rfl⟩
    refine ⟨f, mem, short, .typedef text, RegistryFile.mem_items.mpr found, rfl, ?_⟩
    exact congrArg Declaration.typeAlias (TypeExpr.inScope_eq_named.mpr ⟨target, parsed, rfl⟩)

theorem leads_eq_standsFor : d.Leads = RegistryFile.StandsFor files :=
  funext₂ fun _ _ => propext (leads_iff_standsFor run)

/-- What declarations mention is what the type expressions mention once their names are qualified. -/
theorem forall_mentions {P : String → Prop} : (∀ name x, d.Declares name x → ∀ other ∈ x.mentions, P other) ↔
    ∀ f ∈ files, ∀ text ∈ f.texts, ∀ type, TypeExpr.parse text = .ok type →
      ∀ short, type.Contains short → P (qualify f.namespaceName short) := by
  simp only [← TypeExpr.mem_names_iff]
  constructor
  · intro all f mem text written type parsed short mentioned
    obtain ⟨⟨name, item⟩, listed, written⟩ := List.mem_flatMap.mp written
    refine all _ _ ((declares_iff_item run).mpr ⟨f, mem, name, item, listed, rfl, rfl⟩) _ ?_
    rw [RegistryFile.Item.inScope_mentions, List.mem_flatMap]
    exact ⟨text, written, TypeExpr.mem_names_inScope.mpr ⟨type, parsed, short, mentioned, rfl⟩⟩
  · rintro all _ _ declares other mentioned
    obtain ⟨f, mem, name, item, listed, rfl, rfl⟩ := (declares_iff_item run).mp declares
    rw [RegistryFile.Item.inScope_mentions, List.mem_flatMap] at mentioned
    obtain ⟨text, written, mentioned⟩ := mentioned
    obtain ⟨type, parsed, short, inside, rfl⟩ := TypeExpr.mem_names_inScope.mp mentioned
    exact all f mem text (List.mem_flatMap.mpr ⟨(name, item), listed, written⟩) type parsed short inside

theorem forall_methods {P : MethodDecl → Prop} :
    (∀ service ms, d.Declares service (.service ms) → ∀ m ∈ ms, P m) ↔
      ∀ f ∈ files, ∀ m ∈ f.methods, P (m.inScope f.namespaceName) := by
  constructor
  · intro all f mem m written
    obtain ⟨name, s, listed, written⟩ := RegistryFile.mem_methods.mp written
    exact all _ _ ((declares_iff_item run).mpr ⟨f, mem, name, .service s, listed, rfl, rfl⟩) _
      (List.mem_map_of_mem written)
  · intro all service ms declares m mem
    obtain ⟨f, file, name, item, listed, -, means⟩ := (declares_iff_item run).mp declares
    cases item with
    | service s =>
      obtain rfl := Declaration.service.inj means
      obtain ⟨m, written, rfl⟩ := List.mem_map.mp mem
      exact all f file m (RegistryFile.mem_methods.mpr ⟨name, s, listed, written⟩)
    | struct | exception | enum | typedef => contradiction

theorem chains_iff_standsFor : (∀ name ∈ d.aliases.keys, ∃ target, d.aliasTarget name = .ok target) ↔
    ∀ name, ¬ TransGen (RegistryFile.StandsFor files) name name := by
  rw [chains_iff_acyclic, leads_eq_standsFor run]

/-- Where chains of aliases end, a written type denotes an exception if it names one or what stands for one. -/
theorem denotes_iff {scope text : String}
    (chains : ∀ name ∈ d.aliases.keys, ∃ target, d.aliasTarget name = .ok target) :
    (∃ thrown, d.exceptionName (.inScope scope text) = .ok (some thrown)) ↔
      ∃ name thrown, TypeExpr.parse text = .ok (.named name) ∧
        ReflTransGen (RegistryFile.StandsFor files) (qualify scope name) thrown ∧
        ∃ g ∈ files, thrown ∈ g.exceptionNames := by
  have distinct : d.names.Nodup :=
    (wellFormed_of_additions (addFiles_additions run) wellFormed_empty).distinct
  have apart : ∀ name ∈ d.exceptions.keys, name ∉ d.aliases.keys := by
    intro name exception other
    rw [names, List.nodup_append] at distinct
    exact distinct.2.2 name (by simp [exception]) name other rfl
  simp only [exceptionName_iff chains apart, leads_eq_standsFor run, mem_exceptions_iff run, TypeExpr.inScope_eq_named]
  constructor
  · rintro ⟨thrown, _, ⟨name, parsed, rfl⟩, chain, exception⟩
    exact ⟨name, thrown, parsed, chain, exception⟩
  · rintro ⟨name, thrown, parsed, chain, exception⟩
    exact ⟨thrown, _, ⟨name, parsed, rfl⟩, chain, exception⟩

/-- Definitions that could be added pass the checks exactly if the files are consistent. -/
theorem checked_iff_consistent : d.Checked ↔ RegistryFile.Consistent files := by
  obtain ⟨readable, distinct⟩ := exists_added_iff.mp ⟨d, run⟩
  have silent (f : RegistryFile) (mem : f ∈ files) (m : MethodDef) (written : m ∈ f.methods) :
      ((m.inScope f.namespaceName).returns = .base .void ∧ (m.inScope f.namespaceName).throws = []) ↔
        m.throws = [] ∧ ∀ text ∈ m.returns, TypeExpr.parse text = .ok (.base .void) := by
    refine MethodDef.silent_iff fun text returns => ?_
    obtain ⟨name, s, listed, written⟩ := RegistryFile.mem_methods.mp written
    refine readable f mem text (List.mem_flatMap.mpr ⟨_, listed, List.mem_flatMap.mpr ⟨m, written, ?_⟩⟩)
    exact List.mem_append_left _ (Option.mem_toList.mpr returns)
  rw [checked_iff, forall_mentions run, forall_methods run, chains_iff_standsFor run]
  simp only [kind?_iff_typeNames run]
  constructor
  · rintro ⟨acyclic, defined, methods⟩
    have chains := (chains_iff_standsFor run).mpr acyclic
    refine ⟨readable, distinct, defined, acyclic, fun f mem m written oneway => ?_, fun f mem m written t thrown => ?_⟩
    · exact (silent f mem m written).mp ((methods f mem m written).2 oneway)
    · exact (denotes_iff run chains).mp ((methods f mem m written).1 _ (List.mem_map_of_mem thrown))
  · intro consistent
    have chains := (chains_iff_standsFor run).mpr consistent.acyclic
    refine ⟨consistent.acyclic, consistent.defined, fun f mem m written => ⟨fun t thrown => ?_, fun oneway => ?_⟩⟩
    · obtain ⟨t, declared, rfl⟩ := List.mem_map.mp thrown
      exact (denotes_iff run chains).mpr (consistent.throws f mem m written t declared)
    · exact (silent f mem m written).mpr (consistent.oneway f mem m written oneway)

end

end Definitions

namespace Registry

open Definitions

variable {files : List RegistryFile} {d : Definitions}

theorem ofDefinitions_isOk : (∃ r, ofDefinitions d = .ok r) ↔ d.Checked := by
  rw [← check_eq_ok]
  unfold ofDefinitions
  split
  · next passed => exact ⟨fun _ => passed, fun _ => ⟨_, rfl⟩⟩
  · next e failed => simp [failed]

theorem build_of_run {r : Registry} (run : (files.forM addFile).run ∅ = .ok ((), r.definitions)) :
    build files = .ok r := by
  obtain ⟨d, cuts, checked, rfl⟩ := r
  have made : ofDefinitions d = .ok ⟨d, d.cycleCuts, checked, rfl⟩ := by
    unfold ofDefinitions
    split
    · rfl
    · next failed =>
      rw [checked] at failed
      contradiction
  exact bind_eq_ok.mpr ⟨((), d), run, made⟩

theorem consistent_of_build {r : Registry} (built : build files = .ok r) : RegistryFile.Consistent files := by
  obtain ⟨⟨⟨⟩, d⟩, added, checked⟩ := bind_eq_ok.mp built
  exact (checked_iff_consistent added).mp (ofDefinitions_isOk.mp ⟨r, checked⟩)

theorem build_isOk (consistent : RegistryFile.Consistent files) : ∃ r, build files = .ok r := by
  obtain ⟨d, added⟩ := exists_added_iff.mpr ⟨consistent.readable, consistent.distinct⟩
  obtain ⟨r, checked⟩ := ofDefinitions_isOk.mpr ((checked_iff_consistent added).mpr consistent)
  exact ⟨r, bind_eq_ok.mpr ⟨((), d), added, checked⟩⟩

/-- A registry is built exactly from consistent files. -/
theorem build_isOk_iff_consistent : (∃ r, build files = .ok r) ↔ RegistryFile.Consistent files :=
  ⟨fun ⟨_, built⟩ => consistent_of_build built, build_isOk⟩

end Registry

end ThriftCatalog
