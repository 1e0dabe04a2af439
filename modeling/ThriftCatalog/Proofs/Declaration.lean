import ThriftCatalog.Proofs.Fallible
import ThriftCatalog.Proofs.Table
import ThriftCatalog.Registry.AddFile

/-! What files declare. Adding files succeeds exactly if all their types can be read and no name is declared twice. Then
each name stands for what was declared under it, and for nothing else. -/
namespace ThriftCatalog

open Fallible

/-- What a name is declared to be. -/
inductive Declaration where
  | service (methods : List MethodDecl)
  | struct (fields : List FieldDecl)
  | exception (fields : Option (List FieldDecl))
  | enum (constants : List String)
  | typeAlias (target : TypeExpr)

namespace TypeExpr

variable {scope text : String} {e : TypeExpr}

def Readable (text : String) : Prop := ∃ e, parse text = .ok e

/-- The type that a text stands for in a namespace. What stands for an unreadable text does not matter. -/
def inScope (scope text : String) : TypeExpr :=
  match parse text with
  | .ok e => e.mapNames (qualify scope)
  | .error _ => .base .void

theorem inScope_of_parse (parsed : parse text = .ok e) : inScope scope text = e.mapNames (qualify scope) := by
  rw [inScope, parsed]

theorem inScope_eq_void (readable : Readable text) :
    inScope scope text = .base .void ↔ parse text = .ok (.base .void) := by
  obtain ⟨e, parsed⟩ := readable
  rw [inScope_of_parse parsed, parsed]
  cases e <;> simp [mapNames]

theorem inScope_eq_named {full : String} :
    inScope scope text = .named full ↔ ∃ name, parse text = .ok (.named name) ∧ qualify scope name = full := by
  rw [inScope]
  cases parse text with
  | ok e => cases e <;> simp [mapNames]
  | error fault => simp

theorem mem_names_inScope {full : String} : full ∈ (inScope scope text).names ↔
    ∃ type, parse text = .ok type ∧ ∃ name ∈ type.names, qualify scope name = full := by
  rw [inScope]
  cases parse text with
  | ok e => simp [names_mapNames]
  | error fault => simp [names]

end TypeExpr

def FieldDef.inScope (scope : String) (f : FieldDef) : FieldDecl where
  name := f.name
  requirement := f.requirement
  type := .inScope scope f.type

namespace MethodDef

def inScope (scope : String) (m : MethodDef) : MethodDecl where
  name := m.name
  params := m.params.map (·.inScope scope)
  returns := m.returns.elim (.base .void) (TypeExpr.inScope scope)
  throws := m.throws.map (·.inScope scope)
  oneway := m.oneway

def texts (m : MethodDef) : List String := m.returns.toList ++ (m.params ++ m.throws).map FieldDef.type

end MethodDef

namespace RegistryFile

inductive Item where
  | service (s : ServiceDef)
  /-- A struct or a union. -/
  | struct (s : StructDef)
  | exception (e : ExceptionDef)
  | enum (e : EnumDef)
  | typedef (text : String)

namespace Item

def texts : Item → List String
  | service s => s.methods.flatMap MethodDef.texts
  | struct s => s.fields.map FieldDef.type
  | exception e => (e.fields.getD []).map FieldDef.type
  | enum _ => []
  | typedef text => [text]

def inScope (scope : String) : Item → Declaration
  | service s => .service (s.methods.map (·.inScope scope))
  | struct s => .struct (s.fields.map (·.inScope scope))
  | exception e => .exception (e.fields.map fun fields => fields.map (·.inScope scope))
  | enum e => .enum e.constants
  | typedef text => .typeAlias (.inScope scope text)

def add (scope name : String) : Item → Definitions.AddM Unit
  | service s => Definitions.addService scope name s
  | struct s => Definitions.addStruct scope name s
  | exception e => Definitions.addException scope name e
  | enum e => Definitions.addEnum scope name e
  | typedef text => Definitions.addAlias scope name text

end Item

def items (f : RegistryFile) : List (String × Item) :=
  f.services.entries.map (Prod.map id .service) ++
    (f.structs.entries ++ f.unions.entries).map (Prod.map id .struct) ++
    f.exceptions.entries.map (Prod.map id .exception) ++
    f.enums.entries.map (Prod.map id .enum) ++
    f.typedefs.entries.map (Prod.map id .typedef)

def declarations (f : RegistryFile) : List (String × Declaration) :=
  f.items.map fun (name, item) => (qualify f.namespaceName name, item.inScope f.namespaceName)

def definedNames (f : RegistryFile) : List String := f.items.map fun (name, _) => qualify f.namespaceName name

def texts (f : RegistryFile) : List String := f.items.flatMap fun (_, item) => item.texts

end RegistryFile

namespace Definitions

variable {α β : Type} {d d' : Definitions} {scope name other key text : String} {x y : Declaration}
  {xs ys : List (String × Declaration)} {p q : Prop} {file : Table String → Table String}

def names (d : Definitions) : List String :=
  d.services.keys ++ d.structs.keys ++ d.exceptions.keys ++ d.enums.keys ++ d.aliases.keys

def declare (d : Definitions) (name : String) : Declaration → Definitions
  | .service methods => { d with services := d.services.insert name methods }
  | .struct fields => { d with structs := d.structs.insert name fields }
  | .exception fields => { d with exceptions := d.exceptions.insert name fields }
  | .enum constants => { d with enums := d.enums.insert name constants }
  | .typeAlias target => { d with aliases := d.aliases.insert name target }

def declareAll (d : Definitions) (xs : List (String × Declaration)) : Definitions :=
  xs.foldl (fun d x => d.declare x.1 x.2) d

def refile (d : Definitions) (file : Table String → Table String) : Definitions := { d with docs := file d.docs }

def Declares (d : Definitions) (name : String) : Declaration → Prop
  | .service methods => d.services.get? name = some methods
  | .struct fields => d.structs.get? name = some fields
  | .exception fields => d.exceptions.get? name = some fields
  | .enum constants => d.enums.get? name = some constants
  | .typeAlias target => d.aliases.get? name = some target

/-- No name is declared twice, nor was it declared before. -/
def Fits (d : Definitions) (xs : List (String × Declaration)) : Prop :=
  (xs.map Prod.fst).Nodup ∧ ∀ name ∈ xs.map Prod.fst, name ∉ d.names

theorem kind?_isSome_iff : (d.kind? name).isSome = true ↔
    name ∈ d.structs.keys ∨ name ∈ d.exceptions.keys ∨ name ∈ d.enums.keys ∨ name ∈ d.aliases.keys := by
  simp only [kind?, Table.contains_iff]
  split
  · next mem => simp [mem]
  · next none =>
    split
    · next mem => simp [mem]
    · next none' =>
      split
      · next mem => simp [mem]
      · next none'' => split <;> simp_all

theorem mem_names : name ∈ d.names ↔ name ∈ d.services.keys ∨ (d.kind? name).isSome = true := by
  simp only [names, List.mem_append, kind?_isSome_iff, or_assoc]

theorem mem_names_declare : other ∈ (d.declare name x).names ↔ other = name ∨ other ∈ d.names := by
  cases x <;> simp only [declare, names, List.mem_append, Table.mem_keys_insert] <;> tauto

theorem mem_names_iff : name ∈ d.names ↔ ∃ x, d.Declares name x := by
  simp only [names, List.mem_append, Table.mem_keys]
  constructor
  · rintro ((((⟨_, found⟩ | ⟨_, found⟩) | ⟨_, found⟩) | ⟨_, found⟩) | ⟨_, found⟩)
    · exact ⟨.service _, found⟩
    · exact ⟨.struct _, found⟩
    · exact ⟨.exception _, found⟩
    · exact ⟨.enum _, found⟩
    · exact ⟨.typeAlias _, found⟩
  · rintro ⟨x, found⟩
    cases x with
    | service => exact .inl (.inl (.inl (.inl ⟨_, found⟩)))
    | struct => exact .inl (.inl (.inl (.inr ⟨_, found⟩)))
    | exception => exact .inl (.inl (.inr ⟨_, found⟩))
    | enum => exact .inl (.inr ⟨_, found⟩)
    | typeAlias => exact .inr ⟨_, found⟩

theorem declares_declare_self (new : name ∉ d.names) : (d.declare name y).Declares name x ↔ x = y := by
  have absent : ¬ d.Declares name x := fun found => new (mem_names_iff.mpr ⟨x, found⟩)
  -- The table of one kind has the new entry only, and the others are as before.
  cases y <;> cases x <;>
    first
    | exact iff_of_false absent (by simp)
    | simp [Declares, declare, Table.get?_insert, eq_comm]

theorem declares_declare_ne (apart : other ≠ name) : (d.declare name y).Declares other x ↔ d.Declares other x := by
  cases y <;> cases x <;> simp [Declares, declare, Table.get?_insert, apart]

theorem declares_declare (new : name ∉ d.names) :
    (d.declare name y).Declares other x ↔ d.Declares other x ∨ (other, x) = (name, y) := by
  by_cases here : other = name
  · subst here
    have absent : ¬ d.Declares other x := fun found => new (mem_names_iff.mpr ⟨x, found⟩)
    rw [declares_declare_self new, or_iff_right absent, Prod.mk.injEq, and_iff_right rfl]
  · rw [declares_declare_ne here, Prod.mk.injEq, or_iff_left fun same => here same.1]

theorem declareAll_append : d.declareAll (xs ++ ys) = (d.declareAll xs).declareAll ys := List.foldl_append

theorem declareAll_refile : (d.refile file).declareAll xs = (d.declareAll xs).refile file := by
  induction xs generalizing d with
  | nil => rfl
  | cons x xs ih =>
    obtain ⟨name, x⟩ := x
    have first : (d.refile file).declare name x = (d.declare name x).refile file := by cases x <;> rfl
    rw [declareAll, List.foldl_cons, first]
    exact ih

theorem mem_names_declareAll : name ∈ (d.declareAll xs).names ↔ name ∈ d.names ∨ name ∈ xs.map Prod.fst := by
  induction xs generalizing d with
  | nil => simp [declareAll]
  | cons x xs ih =>
    refine (ih (d := d.declare x.1 x.2)).trans ?_
    rw [mem_names_declare, List.map_cons, List.mem_cons]
    tauto

theorem fits_append : d.Fits (xs ++ ys) ↔ d.Fits xs ∧ (d.declareAll xs).Fits ys := by
  simp only [Fits, List.map_append, List.nodup_append, List.mem_append, mem_names_declareAll]
  constructor
  · rintro ⟨⟨first, second, apart⟩, free⟩
    refine ⟨⟨first, fun name mem => free name (.inl mem)⟩, second, fun name mem => ?_⟩
    rintro (old | early)
    · exact free name (.inr mem) old
    · exact apart name early name mem rfl
  · rintro ⟨⟨first, free⟩, second, free'⟩
    refine ⟨⟨first, second, ?_⟩, fun name mem => mem.elim (free name) fun mem old => free' name mem (.inl old)⟩
    rintro name early _ late rfl
    exact free' name late (.inr early)

/-- A name means what it meant before or what was declared under it. -/
theorem declares_declareAll (fits : d.Fits xs) :
    (d.declareAll xs).Declares name x ↔ d.Declares name x ∨ (name, x) ∈ xs := by
  induction xs generalizing d with
  | nil => simp [declareAll]
  | cons y ys ih =>
    obtain ⟨first, rest⟩ := fits_append.mp (List.singleton_append ▸ fits : d.Fits ([y] ++ ys))
    refine (ih rest).trans ?_
    rw [declareAll, List.foldl_cons, List.foldl_nil, declares_declare (first.2 y.1 (by simp)), List.mem_cons, or_assoc]

theorem run_bind_eq_ok {x : AddM α} {f : α → AddM β} {b : β} :
    (x >>= f).run d = .ok (b, d') ↔ ∃ a middle, x.run d = .ok (a, middle) ∧ (f a).run middle = .ok (b, d') := by
  rw [StateT.run_bind, bind_eq_ok]
  exact ⟨fun ⟨⟨a, middle⟩, h⟩ => ⟨a, middle, h⟩, fun ⟨a, middle, h⟩ => ⟨(a, middle), h⟩⟩

theorem run_pure_eq_ok {a b : α} : (pure a : AddM α).run d = .ok (b, d') ↔ a = b ∧ d = d' := by
  rw [StateT.run_pure, pure_eq_ok, Prod.mk.injEq]

/-- Reading succeeds exactly if everything in it can be read. Then it has the given result and files docs. -/
def Yields (action : AddM α) (readable : Prop) (a : α) : Prop :=
  ∃ file : Table String → Table String, ∀ d b d',
    action.run d = .ok (b, d') ↔ readable ∧ b = a ∧ d' = d.refile file

theorem Yields.pure {a : α} : Yields (pure a) True a := by
  refine ⟨id, fun d b d' => ?_⟩
  rw [run_pure_eq_ok]
  exact ⟨fun ⟨same, kept⟩ => ⟨trivial, same.symm, kept.symm⟩, fun ⟨_, same, kept⟩ => ⟨same.symm, kept.symm⟩⟩

theorem Yields.bind {action : AddM α} {next : α → AddM β} {a : α} {b : β} (first : Yields action p a)
    (rest : Yields (next a) q b) : Yields (action >>= next) (p ∧ q) b := by
  obtain ⟨file, first⟩ := first
  obtain ⟨file', rest⟩ := rest
  refine ⟨file' ∘ file, fun d c d' => ?_⟩
  rw [run_bind_eq_ok]
  constructor
  · rintro ⟨a', middle, one, two⟩
    obtain ⟨left, rfl, rfl⟩ := (first _ _ _).mp one
    obtain ⟨right, rfl, rfl⟩ := (rest _ _ _).mp two
    exact ⟨⟨left, right⟩, rfl, rfl⟩
  · rintro ⟨⟨left, right⟩, rfl, rfl⟩
    exact ⟨a, _, (first _ _ _).mpr ⟨left, rfl, rfl⟩, (rest _ _ _).mpr ⟨right, rfl, rfl⟩⟩

theorem Yields.congr {action : AddM α} {a : α} (yields : Yields action p a) (same : p ↔ q) : Yields action q a :=
  propext same ▸ yields

theorem Yields.mapM {f : α → AddM β} {g : α → β} {readable : α → Prop} {as : List α}
    (each : ∀ a, Yields (f a) (readable a) (g a)) : Yields (as.mapM f) (∀ a ∈ as, readable a) (as.map g) := by
  induction as with
  | nil => exact Yields.pure.congr (by simp)
  | cons a as ih =>
    rw [List.mapM_cons]
    exact .congr (.bind (each a) (.bind ih .pure)) (by simp)

theorem addDoc_yields (key : String) (doc : Option String) : Yields (addDoc key doc) True () := by
  cases doc with
  | none => exact .pure
  | some text =>
    refine ⟨fun docs => docs.insert key text, fun d b d' => ?_⟩
    constructor
    · intro run
      cases run
      exact ⟨trivial, rfl, rfl⟩
    · rintro ⟨-, -, rfl⟩
      rfl

theorem readType_yields : Yields (readType scope text) (TypeExpr.Readable text) (.inScope scope text) := by
  unfold readType
  cases parsed : TypeExpr.parse text with
  | ok e =>
    rw [TypeExpr.inScope_of_parse parsed]
    exact Yields.pure.congr ⟨fun _ => ⟨e, parsed⟩, fun _ => trivial⟩
  | error fault =>
    refine ⟨id, fun d b d' => ⟨fun run => ?_, fun ⟨⟨e, read⟩, _⟩ => ?_⟩⟩
    · cases run
    · rw [parsed] at read
      contradiction

theorem readFields_yields {fields : List FieldDef} : Yields (readFields scope key fields)
    (∀ text ∈ fields.map FieldDef.type, TypeExpr.Readable text) (fields.map (·.inScope scope)) := by
  refine .congr (.mapM fun f => .bind (addDoc_yields _ _) (.bind readType_yields .pure)) ?_
  simp

theorem readMethod_yields {service : String} {m : MethodDef} :
    Yields (readMethod scope service m) (∀ text ∈ m.texts, TypeExpr.Readable text) (m.inScope scope) := by
  obtain ⟨name, doc, params, returns, throws, oneway⟩ := m
  cases returns with
  | some text =>
    refine .congr (.bind (addDoc_yields _ _) (.bind readType_yields (.bind readFields_yields
      (.bind readFields_yields .pure)))) ?_
    simp [MethodDef.texts, or_imp, forall_and]
  | none =>
    refine .congr (.bind (addDoc_yields _ _) (.bind .pure (.bind readFields_yields (.bind readFields_yields .pure)))) ?_
    simp [MethodDef.texts, or_imp, forall_and]

/-- The action declares names and files docs. It succeeds exactly if everything can be read and the names are new. -/
def Introduces (action : AddM Unit) (readable : Prop) (xs : List (String × Declaration)) : Prop :=
  ∃ file : Table String → Table String, ∀ d d',
    action.run d = .ok ((), d') ↔ readable ∧ d.Fits xs ∧ d' = (d.declareAll xs).refile file

theorem Introduces.refile (file : Table String → Table String) :
    Introduces (modify fun d => d.refile file) True [] := by
  refine ⟨file, fun d d' => ⟨fun run => ?_, fun ⟨_, _, same⟩ => ?_⟩⟩
  · cases run
    exact ⟨trivial, ⟨.nil, by simp⟩, rfl⟩
  · subst same
    rfl

theorem Introduces.bind {first second : AddM Unit} (one : Introduces first p xs) (two : Introduces second q ys) :
    Introduces (first >>= fun _ => second) (p ∧ q) (xs ++ ys) := by
  obtain ⟨file, one⟩ := one
  obtain ⟨file', two⟩ := two
  refine ⟨file' ∘ file, fun d d' => ?_⟩
  rw [run_bind_eq_ok, fits_append, declareAll_append]
  constructor
  · rintro ⟨⟨⟩, middle, ran, run⟩
    obtain ⟨left, fits, rfl⟩ := (one _ _).mp ran
    obtain ⟨right, fits', rfl⟩ := (two _ _).mp run
    exact ⟨⟨left, right⟩, ⟨fits, fits'⟩, by rw [declareAll_refile]; rfl⟩
  · rintro ⟨⟨left, right⟩, ⟨fits, fits'⟩, rfl⟩
    refine ⟨(), _, (one _ _).mpr ⟨left, fits, rfl⟩, (two _ _).mpr ⟨right, fits', ?_⟩⟩
    rw [declareAll_refile]
    rfl

theorem Introduces.congr {action : AddM Unit} (introduces : Introduces action p xs) (same : p ↔ q) :
    Introduces action q xs := propext same ▸ introduces

theorem Introduces.forM {f : α → AddM Unit} {readable : α → Prop} {declared : α → List (String × Declaration)}
    (as : List α) (each : ∀ a, Introduces (f a) (readable a) (declared a)) :
    Introduces (as.forM f) (∀ a ∈ as, readable a) (as.flatMap declared) := by
  rw [List.forM_eq_forM]
  induction as with
  | nil => exact .congr (.refile id) (by simp)
  | cons a as ih =>
    rw [List.forM_cons, List.flatMap_cons]
    exact .congr (.bind (each a) ih) (by simp)

theorem ensureUndefined_run : (ensureUndefined name).run d = .ok ((), d') ↔ name ∉ d.names ∧ d' = d := by
  have known : (d.services.contains name || (d.kind? name).isSome) = true ↔ name ∈ d.names := by
    rw [Bool.or_eq_true, Table.contains_iff, mem_names]
  rw [← known, ensureUndefined, run_bind_eq_ok]
  constructor
  · rintro ⟨_, _, got, run⟩
    cases got
    split at run
    · cases run
    · next free =>
      cases run
      exact ⟨free, rfl⟩
  · rintro ⟨free, rfl⟩
    exact ⟨d', d', rfl, by rw [if_neg free]; rfl⟩

theorem define_run (scope name : String) (doc : Option String) : ∃ file : Table String → Table String, ∀ d full d',
    (define scope name doc).run d = .ok (full, d') ↔
      qualify scope name ∉ d.names ∧ full = qualify scope name ∧ d' = d.refile file := by
  obtain ⟨file, filed⟩ := addDoc_yields (qualify scope name) doc
  refine ⟨file, fun d full d' => ?_⟩
  rw [define, run_bind_eq_ok]
  constructor
  · rintro ⟨⟨⟩, middle, one, run⟩
    obtain ⟨free, rfl⟩ := ensureUndefined_run.mp one
    obtain ⟨⟨⟩, last, two, run⟩ := run_bind_eq_ok.mp run
    obtain ⟨-, -, rfl⟩ := (filed _ _ _).mp two
    obtain ⟨rfl, rfl⟩ := run_pure_eq_ok.mp run
    exact ⟨free, rfl, rfl⟩
  · rintro ⟨free, rfl, rfl⟩
    refine ⟨(), d, ensureUndefined_run.mpr ⟨free, rfl⟩, run_bind_eq_ok.mpr ?_⟩
    exact ⟨(), _, (filed _ _ _).mpr ⟨trivial, rfl, rfl⟩, rfl⟩

/-- A definition declares its qualified name to be what is read next. -/
theorem Introduces.define {doc : Option String} {a : α} (action : String → AddM α) (make : α → Declaration)
    (read : Yields (action (qualify scope name)) p a) :
    Introduces (define scope name doc >>= fun full => action full >>= fun a => modify fun d => d.declare full (make a))
      p [(qualify scope name, make a)] := by
  obtain ⟨file, started⟩ := define_run scope name doc
  obtain ⟨file', read⟩ := read
  have fits (d : Definitions) : d.Fits [(qualify scope name, make a)] ↔ qualify scope name ∉ d.names := by simp [Fits]
  have stored (d : Definitions) : ((d.refile file).refile file').declare (qualify scope name) (make a) =
      (d.declare (qualify scope name) (make a)).refile (file' ∘ file) := by
    cases make a <;> rfl
  refine ⟨file' ∘ file, fun d d' => ?_⟩
  rw [fits, run_bind_eq_ok]
  constructor
  · rintro ⟨full, middle, one, run⟩
    obtain ⟨free, rfl, rfl⟩ := (started _ _ _).mp one
    obtain ⟨b, last, two, run⟩ := run_bind_eq_ok.mp run
    obtain ⟨readable, rfl, rfl⟩ := (read _ _ _).mp two
    cases run
    exact ⟨readable, free, stored d⟩
  · rintro ⟨readable, free, rfl⟩
    refine ⟨_, _, (started _ _ _).mpr ⟨free, rfl, rfl⟩, run_bind_eq_ok.mpr ?_⟩
    refine ⟨a, _, (read _ _ _).mpr ⟨readable, rfl, rfl⟩, ?_⟩
    exact congrArg (fun last => Except.ok ((), last)) (stored d)

/-- Each kind of definition declares one name. -/
theorem add_introduces (scope name : String) (item : RegistryFile.Item) : Introduces (item.add scope name)
    (∀ text ∈ item.texts, TypeExpr.Readable text) [(qualify scope name, item.inScope scope)] := by
  cases item with
  | service s =>
    refine .congr (.define (fun full => s.methods.mapM (readMethod scope full)) .service
      (.mapM fun m => readMethod_yields)) ?_
    simp only [RegistryFile.Item.texts, List.forall_mem_flatMap]
  | struct s => exact .define (fun full => readFields scope full s.fields) .struct readFields_yields
  | exception e =>
    obtain ⟨doc, fields⟩ := e
    cases fields with
    | some fields =>
      refine .define (fun full => some <$> readFields scope full fields) .exception ?_
      rw [map_eq_pure_bind]
      exact .congr (.bind readFields_yields .pure) (and_true _ ▸ .rfl)
    | none => exact .define (fun _ => pure none) .exception (.congr .pure (by simp [RegistryFile.Item.texts]))
  | enum e =>
    exact .define (fun _ => pure e.constants) .enum (.congr .pure (by simp [RegistryFile.Item.texts]))
  | typedef text =>
    exact .define (fun _ => readType scope text) .typeAlias
      (.congr readType_yields (by simp [RegistryFile.Item.texts]))

theorem addFile_eq (f : RegistryFile) : addFile f =
    (f.items.forM fun entry => entry.2.add f.namespaceName entry.1) >>= fun _ =>
      modify fun d => d.refile fun docs => docs.insertAll f.docstrings.entries := by
  simp only [addFile, RegistryFile.items, List.forM_eq_forM, List.forM_append, List.forM_map, bind_assoc]
  rfl

/-- A file declares all that is in it. -/
theorem addFile_introduces (f : RegistryFile) :
    Introduces (addFile f) (∀ text ∈ f.texts, TypeExpr.Readable text) f.declarations := by
  have each (entry : String × RegistryFile.Item) := add_introduces f.namespaceName entry.1 entry.2
  have whole := (Introduces.forM f.items each).bind (.refile fun docs => docs.insertAll f.docstrings.entries)
  rw [addFile_eq]
  simpa only [List.append_nil, ← List.map_eq_flatMap, and_true, RegistryFile.texts, List.forall_mem_flatMap,
    RegistryFile.declarations] using whole

variable {files : List RegistryFile}

theorem fits_empty : (∅ : Definitions).Fits (files.flatMap RegistryFile.declarations) ↔
    (files.flatMap RegistryFile.definedNames).Nodup := by
  have names : (files.flatMap RegistryFile.declarations).map Prod.fst = files.flatMap RegistryFile.definedNames := by
    simp only [List.map_flatMap, RegistryFile.declarations, List.map_map]
    rfl
  rw [Fits, names]
  exact and_iff_left fun _ _ => List.not_mem_nil

/-- Files can be added exactly if all their types can be read and no name is declared twice. -/
theorem exists_added_iff : (∃ d, (files.forM addFile).run ∅ = .ok ((), d)) ↔
    (∀ f ∈ files, ∀ text ∈ f.texts, TypeExpr.Readable text) ∧ (files.flatMap RegistryFile.definedNames).Nodup := by
  obtain ⟨file, added⟩ := Introduces.forM files addFile_introduces
  constructor
  · rintro ⟨d, run⟩
    obtain ⟨readable, fits, -⟩ := (added _ _).mp run
    exact ⟨readable, fits_empty.mp fits⟩
  · rintro ⟨readable, distinct⟩
    exact ⟨_, (added _ _).mpr ⟨readable, fits_empty.mpr distinct, rfl⟩⟩

/-- Then a name stands for what some file declares it to be. -/
theorem declares_iff (run : (files.forM addFile).run ∅ = .ok ((), d)) :
    d.Declares name x ↔ ∃ f ∈ files, (name, x) ∈ f.declarations := by
  obtain ⟨file, added⟩ := Introduces.forM files addFile_introduces
  obtain ⟨-, fits, rfl⟩ := (added _ _).mp run
  have kept (d : Definitions) : (d.refile file).Declares name x ↔ d.Declares name x := by cases x <;> rfl
  have absent : ¬ Declares ∅ name x := by cases x <;> exact Option.some_ne_none _ ∘ Eq.symm
  rw [kept, declares_declareAll fits, or_iff_right absent, List.mem_flatMap]

end Definitions

end ThriftCatalog
