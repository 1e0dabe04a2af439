import ThriftCatalog.Proofs.Answer
import ThriftCatalog.Proofs.DocFiling

/-! Which doc a parameter is documented with. All docs of a file are filed in one table, by keys put together from
names, and what a method throws is filed like its parameters are. So a parameter is found with the last doc under its
key, which is its own unless something else has the same key. -/
namespace ThriftCatalog

open Fallible

def FieldDef.docOf (fields : List FieldDef) (name : String) : Option String :=
  ((fields.filter fun f => f.name = name).filterMap FieldDef.doc).getLast?

namespace RegistryFile

/-- No name of a definition or method has a dot, and no definition has the empty name. -/
structure Plain (file : RegistryFile) : Prop where
  definitions : ∀ entry ∈ file.items, entry.1 ≠ "" ∧ '.' ∉ entry.1.toList
  methods : ∀ name s, file.services.get? name = some s → ∀ m ∈ s.methods, '.' ∉ m.name.toList

def DistinctNames (file : RegistryFile) : Prop :=
  ∀ name s, file.services.get? name = some s →
    (s.methods.map (·.name)).Nodup ∧ ∀ m ∈ s.methods, (m.params.map (·.name)).Nodup

/-- What a parameter is documented with: the last doc under its key. This is its own doc if no other is filed there.
With plain names only fields that the method throws under the same name have that key, and their docs come later. -/
structure DocumentsParameter (file : RegistryFile) (service : String) (m : MethodDef) (p : FieldDef)
    (doc : Option String) : Prop where
  last : doc = lastDoc file.filings (docKey (docKey service m.name) p.name)
  own : (∀ text, ⟨docKey (docKey service m.name) p.name, some text⟩ ∈ file.filings → p.doc = some text) → doc = p.doc
  plain : file.Plain → doc = (FieldDef.docOf m.throws p.name).or p.doc

end RegistryFile

variable {α : Type} {a : α} {as : List α} {filed : α → List Filing} {key scope name name' rest : String}
  {fields : List FieldDef} {p : FieldDef}

/-- Among elements of which one only files docs under a key, the last doc is that of this one. -/
theorem lastDoc_flatMap (mem : a ∈ as) (distinct : as.Nodup)
    (others : ∀ b ∈ as, b ≠ a → ∀ x ∈ filed b, x.key ≠ key) :
    lastDoc (as.flatMap filed) key = lastDoc (filed a) key := by
  obtain ⟨before, after, rfl⟩ := List.append_of_mem mem
  rw [List.nodup_append, List.nodup_cons] at distinct
  obtain ⟨-, ⟨later, -⟩, apart⟩ := distinct
  have none {bs : List α} (some : ∀ b ∈ bs, b ∈ before ++ a :: after) (other : ∀ b ∈ bs, b ≠ a) :
      lastDoc (bs.flatMap filed) key = none := by
    refine lastDoc_eq_none fun x listed => ?_
    obtain ⟨b, here, filed⟩ := List.mem_flatMap.mp listed
    exact others b (some b here) (other b here) x filed
  have first : lastDoc (before.flatMap filed) key = Option.none :=
    none (fun b here => List.mem_append_left _ here) fun b here => apart b here a List.mem_cons_self
  have last : lastDoc (after.flatMap filed) key = Option.none :=
    none (fun b here => List.mem_append_right _ (List.mem_cons_of_mem _ here)) fun b here same => later (same ▸ here)
  rw [List.flatMap_append, List.flatMap_cons, lastDoc_append, lastDoc_append, first, last, Option.none_or,
    Option.or_none]

theorem docKey_of_ne (h : scope ≠ "") : docKey scope name = scope ++ "." ++ name := if_neg h

theorem docKey_injective (same : docKey scope name = docKey scope name') : name = name' := by
  unfold docKey at same
  split at same
  · exact same
  · exact (String.append_right_inj _).mp same

theorem lastDoc_fields : lastDoc (FieldDef.filings scope fields) (docKey scope name) = FieldDef.docOf fields name := by
  have keys : (fun f : FieldDef => decide (docKey scope f.name = docKey scope name)) =
      fun f => decide (f.name = name) :=
    funext fun f => decide_eq_decide.mpr ⟨docKey_injective, congrArg _⟩
  rw [lastDoc, FieldDef.filings, FieldDef.docOf, List.filter_map, List.filterMap_map]
  exact congrArg (fun fs : List FieldDef => (fs.filterMap FieldDef.doc).getLast?) (congrArg (fields.filter ·) keys)

/-- The doc of a field whose name no other field has. -/
theorem docOf_mem (mem : p ∈ fields) (distinct : (fields.map (·.name)).Nodup) :
    FieldDef.docOf fields p.name = p.doc := by
  rw [← @lastDoc_fields "", FieldDef.filings, List.map_eq_flatMap, lastDoc_flatMap mem (.of_map _ distinct),
    lastDoc_singleton, if_pos rfl]
  intro f listed other x filed same
  obtain rfl := List.mem_singleton.mp filed
  exact other (List.inj_on_of_nodup_map distinct listed mem (@docKey_injective "" _ _ same))

def Under (full key : String) : Prop := key = full ∨ ∃ rest, key = full ++ "." ++ rest

theorem takeWhile_dot {cs ds : List Char} (plain : '.' ∉ cs) : (cs ++ '.' :: ds).takeWhile (· ≠ '.') = cs := by
  have other : ∀ c ∈ cs, decide (c ≠ '.') = true := fun c mem => decide_eq_true fun same => plain (same ▸ mem)
  rw [List.takeWhile_append_of_pos other]
  simp

/-- A key in the scope of a name is in no other scope whose name differs from it after a common start. -/
theorem under_unique {start : String} (plain : '.' ∉ name.toList) (plain' : '.' ∉ name'.toList)
    (under : Under (start ++ name') (start ++ name ++ "." ++ rest)) : name' = name := by
  have dot : ".".toList = ['.'] := rfl
  rcases under with same | ⟨rest', same⟩
  · have same := congrArg String.toList same
    simp only [String.toList_append, List.append_assoc, List.append_cancel_left_eq, dot] at same
    exact absurd (same ▸ by simp) plain'
  · have same := congrArg String.toList same
    simp only [String.toList_append, List.append_assoc, List.append_cancel_left_eq, dot, List.singleton_append] at same
    have first := congrArg (List.takeWhile (· ≠ '.')) same
    rw [takeWhile_dot plain, takeWhile_dot plain'] at first
    exact String.toList_inj.mp first.symm

theorem ne_member (full rest : String) : full ≠ full ++ "." ++ rest := by
  intro same
  have longer := congrArg (fun s : String => s.toList.length) same
  simp at longer

theorem under_docKey {full : String} (some : full ≠ "") (under : Under full scope) :
    Under full (docKey scope name) := by
  have nonempty : scope ≠ "" := by
    rcases under with rfl | ⟨rest, rfl⟩
    · exact some
    · simp
  rw [docKey_of_ne nonempty]
  rcases under with rfl | ⟨rest, rfl⟩
  · exact .inr ⟨name, rfl⟩
  · exact .inr ⟨rest ++ "." ++ name, by simp only [String.append_assoc]⟩

theorem under_fields {full : String} (some : full ≠ "") (under : Under full scope) (fields : List FieldDef) :
    ∀ x ∈ FieldDef.filings scope fields, Under full x.key :=
  List.forall_mem_map.mpr fun _ _ => under_docKey some under

theorem under_method {full service : String} {m : MethodDef} (some : full ≠ "")
    (under : Under full (docKey service m.name)) : ∀ x ∈ m.filings service, Under full x.key :=
  List.forall_mem_cons.mpr ⟨under, List.forall_mem_append.mpr ⟨under_fields some under _, under_fields some under _⟩⟩

/-- What a definition files is filed in the scope of its name. -/
theorem under_item {full : String} (some : full ≠ "") (item : RegistryFile.Item) :
    ∀ x ∈ item.filings full, Under full x.key := by
  have self : Under full full := .inl rfl
  cases item with
  | service s =>
    exact List.forall_mem_cons.mpr ⟨self, List.forall_mem_flatMap.mpr fun m _ =>
      under_method some (under_docKey some self)⟩
  | struct s => exact List.forall_mem_cons.mpr ⟨self, under_fields some self _⟩
  | exception e => exact List.forall_mem_cons.mpr ⟨self, under_fields some self _⟩
  | enum e => exact List.forall_mem_singleton.mpr self
  | typedef text => exact List.forall_mem_singleton.mpr self

/-- Names without a dot are qualified by one text before each of them. -/
theorem qualify_plain (scope : String) :
    ∃ start, ∀ name : String, '.' ∉ name.toList → qualify scope name = start ++ name := by
  by_cases none : scope = ""
  · exact ⟨"", fun name _ => by simp [qualify, none]⟩
  · exact ⟨scope ++ ".", fun name plain => by simp [qualify, none, plain]⟩

section Plain

variable {file : RegistryFile} {s : ServiceDef} {m : MethodDef} {service : String}

/-- In a method a parameter shares its key with what is thrown under its name. -/
theorem lastDoc_method (some : docKey service m.name ≠ "") (param : p ∈ m.params)
    (distinct : (m.params.map (·.name)).Nodup) :
    lastDoc (m.filings service) (docKey (docKey service m.name) p.name) =
      (FieldDef.docOf m.throws p.name).or p.doc := by
  have own : lastDoc [⟨docKey service m.name, m.doc⟩] (docKey (docKey service m.name) p.name) = none := by
    rw [lastDoc_singleton, docKey_of_ne some]
    exact if_neg (ne_member _ _)
  rw [MethodDef.filings, ← List.singleton_append, lastDoc_append, lastDoc_append, lastDoc_fields, lastDoc_fields,
    docOf_mem param distinct, own, Option.or_none]

/-- In a service whose methods have no dots in their names, what has the key of a parameter is in its method. -/
theorem lastDoc_service (some : service ≠ "") (listed : m ∈ s.methods)
    (distinct : (s.methods.map (·.name)).Nodup) (plain : ∀ m ∈ s.methods, '.' ∉ m.name.toList) :
    lastDoc (RegistryFile.Item.filings service (.service s)) (docKey (docKey service m.name) p.name) =
      lastDoc (m.filings service) (docKey (docKey service m.name) p.name) := by
  have method (m : MethodDef) : docKey service m.name = service ++ "." ++ m.name := docKey_of_ne some
  have nonempty (m : MethodDef) : docKey service m.name ≠ "" := by rw [method]; simp
  have key : docKey (docKey service m.name) p.name = service ++ "." ++ m.name ++ "." ++ p.name := by
    rw [docKey_of_ne (nonempty m), method]
  have own : lastDoc [⟨service, s.doc⟩] (docKey (docKey service m.name) p.name) = none := by
    have longer : docKey (docKey service m.name) p.name = service ++ "." ++ (m.name ++ "." ++ p.name) := by
      rw [key]
      simp only [String.append_assoc]
    rw [lastDoc_singleton, longer]
    exact if_neg (ne_member _ _)
  rw [RegistryFile.Item.filings, ← List.singleton_append, lastDoc_append, own, Option.or_none]
  refine lastDoc_flatMap listed (.of_map _ distinct) fun b listed' other x filed same => ?_
  have under : Under (service ++ "." ++ b.name) x.key := method b ▸ under_method (nonempty b) (.inl rfl) x filed
  rw [same, key] at under
  have names := under_unique (plain m listed) (plain b listed') under
  exact other (List.inj_on_of_nodup_map distinct listed' listed names)

theorem RegistryFile.Plain.qualify_ne (plain : file.Plain) {entry : String × RegistryFile.Item}
    (listed : entry ∈ file.items) : qualify file.namespaceName entry.1 ≠ "" := by
  obtain ⟨start, qualified⟩ := qualify_plain file.namespaceName
  obtain ⟨some, bare⟩ := plain.definitions entry listed
  rw [qualified _ bare]
  simp [some]

/-- In a file with plain names, what has the key of a parameter is in its service. -/
theorem lastDoc_plain (plain : file.Plain) (defined : file.definedNames.Nodup) {short : String}
    (found : file.services.get? short = some s) {m p : String} :
    lastDoc file.filings (docKey (docKey (qualify file.namespaceName short) m) p) =
      lastDoc (RegistryFile.Item.filings (qualify file.namespaceName short) (.service s))
        (docKey (docKey (qualify file.namespaceName short) m) p) := by
  obtain ⟨start, qualified⟩ := qualify_plain file.namespaceName
  have mem : (short, RegistryFile.Item.service s) ∈ file.items := RegistryFile.mem_items.mpr found
  have bare : '.' ∉ short.toList := (plain.definitions _ mem).2
  have key : docKey (docKey (qualify file.namespaceName short) m) p = start ++ short ++ "." ++ (m ++ "." ++ p) := by
    rw [docKey_of_ne (plain.qualify_ne mem), docKey_of_ne (by simp), qualified _ bare]
    simp only [String.append_assoc]
  have others : ∀ b ∈ file.items, b ≠ (short, .service s) → ∀ x ∈ b.2.filings (qualify file.namespaceName b.1),
      x.key ≠ docKey (docKey (qualify file.namespaceName short) m) p := by
    -- Another definition files in the scope of its own name, which no key in this scope has.
    intro b listed other x filed same
    have bare' := (plain.definitions b listed).2
    have under : Under (start ++ b.1) x.key := qualified b.1 bare' ▸ under_item (plain.qualify_ne listed) b.2 x filed
    rw [same, key] at under
    have names : b.1 = short := under_unique bare bare' under
    exact other (List.inj_on_of_nodup_map defined listed mem (congrArg (qualify file.namespaceName) names))
  rw [RegistryFile.filings, lastDoc_flatMap mem (.of_map _ defined) others]

end Plain

namespace Registry

open Definitions

variable {r : Registry} {file : RegistryFile} {short service : String} {s : ServiceDef} {m : MethodDef}
  {md : MethodDescriptor} {resolver : Resolver} {samples : Samples} {f : FunctionInfo}

/-- The docs of a registry of one file without a list of docs are those of its elements. -/
theorem docs_of_build (built : build [file] = .ok r) (alone : file.docstrings = ∅) (key : String) :
    r.provider.docs.get? key = lastDoc file.filings key := by
  obtain ⟨⟨⟨⟩, d⟩, run, checked⟩ := bind_eq_ok.mp built
  obtain ⟨⟨⟩, middle, one, two⟩ := run_bind_eq_ok.mp run
  obtain ⟨-, rfl⟩ := run_pure_eq_ok.mp two
  have docs : r.provider.docs = (fileAll ∅ file.filings).insertAll file.docstrings.entries := by
    rw [provider, ofDefinitions_eq_ok checked]
    exact addFile_docs one
  rw [docs, alone]
  exact get?_fileAll.trans (Option.or_none ..)

theorem definedNames_nodup (built : build [file] = .ok r) : file.definedNames.Nodup := by
  obtain ⟨⟨⟨⟩, d⟩, run, -⟩ := bind_eq_ok.mp built
  have names := (exists_added_iff.mp ⟨d, run⟩).2
  rwa [List.flatMap_singleton] at names

theorem parameter_filed (found : file.services.get? short = some s) (listed : m ∈ s.methods) (param : p ∈ m.params) :
    ⟨docKey (docKey (qualify file.namespaceName short) m.name) p.name, p.doc⟩ ∈ file.filings := by
  refine List.mem_flatMap.mpr ⟨(short, .service s), RegistryFile.mem_items.mpr found, List.mem_cons_of_mem _ ?_⟩
  refine List.mem_flatMap.mpr ⟨m, listed, List.mem_cons_of_mem _ (List.mem_append_left _ ?_)⟩
  exact List.mem_map_of_mem param

theorem documentsParameter (built : build [file] = .ok r) (alone : file.docstrings = ∅)
    (distinct : file.DistinctNames) (found : file.services.get? short = some s) (listed : m ∈ s.methods)
    (param : p ∈ m.params) :
    file.DocumentsParameter (qualify file.namespaceName short) m p
      (r.provider.docs.get? (docKey (docKey (qualify file.namespaceName short) m.name) p.name)) := by
  rw [docs_of_build built alone]
  refine ⟨rfl, fun alike => ?_, fun plain => ?_⟩
  · cases doc : p.doc with
    | none =>
      refine Option.eq_none_iff_forall_ne_some.mpr fun text last => ?_
      rw [alike text (lastDoc_mem last)] at doc
      contradiction
    | some text =>
      obtain ⟨last, ended⟩ := lastDoc_isSome (doc ▸ parameter_filed found listed param)
      rw [ended, ← alike last (lastDoc_mem ended), doc]
  · have mem : (short, RegistryFile.Item.service s) ∈ file.items := RegistryFile.mem_items.mpr found
    have some : qualify file.namespaceName short ≠ "" := (plain.qualify_ne mem :)
    obtain ⟨methods, params⟩ := distinct short s found
    rw [lastDoc_plain plain (definedNames_nodup built) found,
      lastDoc_service some listed methods (plain.methods short s found), lastDoc_method ?_ param (params m listed)]
    rw [docKey_of_ne some]
    simp

/-- A parameter is documented with the last doc under its key, in the table of the docs of all elements of the file. -/
theorem build_documentsParameters (built : build [file] = .ok r) (alone : file.docstrings = ∅)
    (distinct : file.DistinctNames) : ∀ short s, file.services.get? short = some s →
      ∃ mds, r.provider.methods (qualify file.namespaceName short) = .ok mds ∧
        List.Forall₂ (fun m md => ∀ (resolver : Resolver) samples f, resolver.docs = r.provider.docs →
          resolver.function (qualify file.namespaceName short) samples md = .ok f →
            List.Forall₂ (fun p info => info.name = p.name ∧
              file.DocumentsParameter (qualify file.namespaceName short) m p info.doc) m.params f.parameters)
          s.methods mds := by
  intro short s found
  have wf := build_wellFormed built
  have holds : file.Holds short (.service s) := found
  obtain ⟨mds, answered, lowered⟩ := methods_isOk (declares_of_build built (List.mem_singleton.mpr rfl) holds)
  refine ⟨mds, answered, ?_⟩
  have each : ∀ m ∈ s.methods, ∀ p ∈ m.params, file.DocumentsParameter (qualify file.namespaceName short) m p
      (r.provider.docs.get? (docKey (docKey (qualify file.namespaceName short) m.name) p.name)) :=
    fun m listed p param => documentsParameter built alone distinct found listed param
  refine ((List.forall₂_and_left _ _).mpr ⟨each, List.forall₂_map_left_iff.mp lowered⟩).imp ?_
  rintro m md ⟨documents, lowered⟩ resolver samples f docs made
  obtain ⟨name, params, -, -⟩ := lowerMethod_parts lowered
  obtain ⟨infos, -, -, -, resolved, -, -, -, rfl⟩ := Resolver.function_eq_ok.mp made
  have described := List.forall₂_map_left_iff.mp ((lowerFields_iff wf).mp params)
  refine ((List.forall₂_and_left _ _).mpr ⟨documents, forall₂_comp described (mapM_eq_ok.mp resolved)⟩).imp ?_
  rintro p info ⟨documented, field, describes, resolves⟩
  obtain ⟨t, -, rfl⟩ := Resolver.fieldBy_eq_ok.mp resolves
  have same : field.name = p.name := describes.name
  have doc : resolver.doc (docKey (docKey (qualify file.namespaceName short) md.name) field.name) =
      r.provider.docs.get? (docKey (docKey (qualify file.namespaceName short) m.name) p.name) := by
    rw [Resolver.doc, docs, same, name]
    rfl
  exact ⟨same, doc ▸ documented⟩

/-- A service with a method that throws something under the name of a parameter. -/
def sharedName : ServiceDef where
  methods := [
    { name := "get"
      params := [
        { name := "id", type := "i64", doc := "The id." },
        { name := "limit", type := "i32", doc := "At most." }]
      throws := [{ name := "id", type := "E", doc := "No such id." }] }]

def sharedNameFile : RegistryFile where
  services := .ofList [("S", sharedName)]
  exceptions := .ofList [("E", {})]

theorem sharedNameFile_distinct : sharedNameFile.DistinctNames := by
  intro name s found
  have mem : (name, s) ∈ [("S", sharedName)] := Table.mem_entries.mpr found
  cases List.mem_singleton.mp mem
  decide

set_option synthInstance.maxSize 512 in
theorem sharedName_facts : (fun r : Registry => (fun mds => mds.map fun md =>
      (fun f => f.parameters.map fun p => (p.name, p.doc)) <$>
        Resolver.function ⟨r.provider, r.provider.docs, 64⟩ "S" {} md) <$> r.provider.methods "S") <$>
      build [sharedNameFile] =
    .ok (.ok [.ok [("id", some "No such id."), ("limit", some "At most.")]]) := by decide +kernel

theorem sharedName_documentsParameters : ∃ r mds, build [sharedNameFile] = .ok r ∧ sharedNameFile.docstrings = ∅ ∧
    sharedNameFile.DistinctNames ∧ r.provider.methods "S" = .ok mds ∧
    mds.map (fun md => (fun f => f.parameters.map fun p => (p.name, p.doc)) <$>
        Resolver.function ⟨r.provider, r.provider.docs, 64⟩ "S" {} md) =
      [.ok [("id", some "No such id."), ("limit", some "At most.")]] ∧
    List.Forall₂ (fun m md => ∀ (resolver : Resolver) samples f, resolver.docs = r.provider.docs →
      resolver.function "S" samples md = .ok f →
        List.Forall₂ (fun p info => info.name = p.name ∧ sharedNameFile.DocumentsParameter "S" m p info.doc)
          m.params f.parameters) sharedName.methods mds := by
  obtain ⟨r, built, facts⟩ := map_eq_ok.mp sharedName_facts
  obtain ⟨mds, answered, documented⟩ := map_eq_ok.mp facts
  obtain ⟨_, answered', documents⟩ := build_documentsParameters built rfl sharedNameFile_distinct "S" sharedName
    (by decide +kernel)
  cases answered.symm.trans answered'
  exact ⟨r, mds, built, rfl, sharedNameFile_distinct, answered, documented, documents⟩

/-- Not every parameter is documented with its own doc. -/
theorem thrown_doc_shown : ¬ ∀ file r, build [file] = .ok r → file.docstrings = ∅ → file.DistinctNames →
    ∀ short s, file.services.get? short = some s → ∀ mds,
      r.provider.methods (qualify file.namespaceName short) = .ok mds →
        List.Forall₂ (fun m md => ∀ f,
          Resolver.function ⟨r.provider, r.provider.docs, 64⟩ (qualify file.namespaceName short) {} md = .ok f →
            List.Forall₂ (fun p info => info.doc = p.doc) m.params f.parameters) s.methods mds := by
  intro claim
  obtain ⟨r, built, facts⟩ := map_eq_ok.mp sharedName_facts
  obtain ⟨mds, answered, documented⟩ := map_eq_ok.mp facts
  have own := claim _ r built rfl sharedNameFile_distinct "S" sharedName (by decide +kernel) mds answered
  rw [sharedName] at own
  obtain _ | ⟨own, -⟩ := own
  simp only [List.map_cons, List.cons.injEq] at documented
  obtain ⟨f, made, shown⟩ := map_eq_ok.mp documented.1
  have own := own f made
  -- The first parameter is the one whose name the thrown field has.
  cases parameters : f.parameters with
  | nil =>
    rw [parameters] at shown
    contradiction
  | cons id others =>
    rw [parameters] at own shown
    obtain _ | ⟨doc, -⟩ := own
    simp only [List.map_cons, List.cons.injEq, Prod.mk.injEq] at shown
    rw [doc] at shown
    simp at shown

end Registry

end ThriftCatalog
