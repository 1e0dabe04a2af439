import ThriftCatalog.Proofs.Declaration

/-! Where docs are filed. The elements of a file are gone through in order, and each that has a doc files it under its
key. Under one key the doc that is filed last is found. -/
namespace ThriftCatalog

/-- An element of a file: the key for its doc, and the doc if it has one. -/
structure Filing where
  key : String
  doc : Option String

def lastDoc (xs : List Filing) (key : String) : Option String :=
  ((xs.filter fun x => x.key = key).filterMap Filing.doc).getLast?

def FieldDef.filings (scope : String) (fields : List FieldDef) : List Filing :=
  fields.map fun f => ⟨docKey scope f.name, f.doc⟩

def MethodDef.filings (service : String) (m : MethodDef) : List Filing :=
  ⟨docKey service m.name, m.doc⟩ ::
    (FieldDef.filings (docKey service m.name) m.params ++ FieldDef.filings (docKey service m.name) m.throws)

namespace RegistryFile

def Item.filings (full : String) : Item → List Filing
  | service s => ⟨full, s.doc⟩ :: s.methods.flatMap (MethodDef.filings full)
  | struct s => ⟨full, s.doc⟩ :: FieldDef.filings full s.fields
  | exception e => ⟨full, e.doc⟩ :: FieldDef.filings full (e.fields.getD [])
  | enum e => [⟨full, e.doc⟩]
  | typedef _ => [⟨full, none⟩]

/-- The elements of a file in the order in which their docs are filed. -/
def filings (f : RegistryFile) : List Filing :=
  f.items.flatMap fun entry => entry.2.filings (qualify f.namespaceName entry.1)

end RegistryFile

variable {xs ys : List Filing} {key : String}

theorem lastDoc_append : lastDoc (xs ++ ys) key = (lastDoc ys key).or (lastDoc xs key) := by
  simp only [lastDoc, List.filter_append, List.filterMap_append, List.getLast?_append]

theorem lastDoc_singleton (x : Filing) : lastDoc [x] key = if x.key = key then x.doc else none := by
  rw [lastDoc, List.filter_singleton]
  obtain ⟨other, doc⟩ := x
  by_cases here : other = key <;> cases doc <;> simp [here]

theorem lastDoc_eq_none (absent : ∀ x ∈ xs, x.key ≠ key) : lastDoc xs key = none := by
  have none : (xs.filter fun x => x.key = key) = [] := List.filter_eq_nil_iff.mpr (by simpa using absent)
  rw [lastDoc, none]
  rfl

theorem lastDoc_mem {text : String} (found : lastDoc xs key = some text) : ⟨key, some text⟩ ∈ xs := by
  obtain ⟨x, mem, doc⟩ := List.mem_filterMap.mp (List.mem_of_getLast? found)
  obtain ⟨filed, here⟩ := List.mem_filter.mp mem
  obtain ⟨other, doc'⟩ := x
  obtain rfl : other = key := by simpa using here
  obtain rfl : doc' = some text := doc
  exact filed

theorem lastDoc_isSome {text : String} (mem : ⟨key, some text⟩ ∈ xs) : ∃ last, lastDoc xs key = some last := by
  have filed : text ∈ (xs.filter fun x => x.key = key).filterMap Filing.doc :=
    List.mem_filterMap.mpr ⟨_, List.mem_filter.mpr ⟨mem, by simp⟩, rfl⟩
  exact Option.isSome_iff_exists.mp (List.getLast?_isSome.mpr (List.ne_nil_of_mem filed))

namespace Definitions

variable {α β : Type} {d d' : Definitions} {scope name : String} {docs : Table String}

def fileAll (docs : Table String) (xs : List Filing) : Table String :=
  xs.foldl (fun docs x => x.doc.elim docs (docs.insert x.key)) docs

theorem fileAll_append : fileAll docs (xs ++ ys) = fileAll (fileAll docs xs) ys := List.foldl_append

/-- What is filed last under a key is found there, and else what was there before. -/
theorem get?_fileAll : (fileAll docs xs).get? key = (lastDoc xs key).or (docs.get? key) := by
  induction xs generalizing docs with
  | nil => rfl
  | cons x xs ih =>
    have first : (x.doc.elim docs (docs.insert x.key)).get? key =
        (if x.key = key then x.doc else none).or (docs.get? key) := by
      obtain ⟨other, doc⟩ := x
      cases doc with
      | none => simp
      | some text => simp only [Option.elim_some, Table.get?_insert, eq_comm (a := key)]; split <;> rfl
    rw [fileAll, List.foldl_cons]
    refine ih.trans ?_
    rw [first, ← List.singleton_append, lastDoc_append, lastDoc_singleton, Option.or_assoc]

/-- Where the action succeeds, it has filed the docs of these elements. -/
def Files (action : AddM α) (xs : List Filing) : Prop :=
  ∀ d a d', action.run d = .ok (a, d') → d'.docs = fileAll d.docs xs

namespace Files

theorem pure (a : α) : Files (pure a) [] := by
  intro d b d' run
  obtain ⟨-, rfl⟩ := run_pure_eq_ok.mp run
  rfl

theorem bind {action : AddM α} {next : α → AddM β} (first : Files action xs)
    (rest : ∀ a d d', action.run d = .ok (a, d') → Files (next a) ys) : Files (action >>= next) (xs ++ ys) := by
  intro d b d' run
  obtain ⟨a, middle, one, two⟩ := run_bind_eq_ok.mp run
  rw [rest a d middle one middle b d' two, first d a middle one, fileAll_append]

/-- Files nothing after the first action. -/
theorem then_nothing {action : AddM α} {next : α → AddM β} (first : Files action xs) (rest : ∀ a, Files (next a) []) :
    Files (action >>= next) xs := by
  rw [← List.append_nil xs]
  exact first.bind fun a _ _ _ => rest a

theorem mapM {f : α → AddM β} {filed : α → List Filing} (as : List α) (each : ∀ a, Files (f a) (filed a)) :
    Files (as.mapM f) (as.flatMap filed) := by
  induction as with
  | nil => exact .pure []
  | cons a as ih =>
    rw [List.mapM_cons, List.flatMap_cons]
    exact (each a).bind fun _ _ _ _ => ih.then_nothing fun _ => .pure _

theorem forM {f : α → AddM Unit} {filed : α → List Filing} (as : List α) (each : ∀ a, Files (f a) (filed a)) :
    Files (as.forM f) (as.flatMap filed) := by
  rw [List.forM_eq_forM]
  induction as with
  | nil => exact .pure ()
  | cons a as ih =>
    rw [List.forM_cons, List.flatMap_cons]
    exact (each a).bind fun _ _ _ _ => ih

/-- Changes that leave the docs alone. -/
theorem modify {change : Definitions → Definitions} (kept : ∀ d, (change d).docs = d.docs) :
    Files (modify change) [] := by
  intro d a d' run
  cases run
  exact kept d

end Files

theorem addDoc_files (key : String) (doc : Option String) : Files (addDoc key doc) [⟨key, doc⟩] := by
  intro d a d' run
  cases doc <;> cases run <;> rfl

theorem readType_files (text : String) : Files (readType scope text) [] := by
  unfold readType
  cases TypeExpr.parse text with
  | ok e => exact .pure _
  | error fault => exact fun d a d' run => nomatch run

theorem readFields_files (key : String) (fields : List FieldDef) :
    Files (readFields scope key fields) (FieldDef.filings key fields) := by
  rw [FieldDef.filings, List.map_eq_flatMap]
  refine .mapM fields fun f => ?_
  exact (addDoc_files _ _).then_nothing fun _ => (readType_files f.type).then_nothing fun _ => .pure _

theorem readMethod_files (service : String) (m : MethodDef) :
    Files (readMethod scope service m) (m.filings service) := by
  have fields (returns : TypeExpr) : Files (do
      let params ← readFields scope (docKey service m.name) m.params
      let throws ← readFields scope (docKey service m.name) m.throws
      return { name := m.name, params, returns, throws, oneway := m.oneway : MethodDecl })
      (FieldDef.filings (docKey service m.name) m.params ++ FieldDef.filings (docKey service m.name) m.throws) :=
    (readFields_files _ _).bind fun _ _ _ _ => (readFields_files _ _).then_nothing fun _ => .pure _
  refine (addDoc_files (docKey service m.name) m.doc).bind fun _ _ _ _ => ?_
  cases m.returns with
  | some text => exact (readType_files text).bind fun returns _ _ _ => fields returns
  | none => exact fields (.base .void)

/-- A definition files its own doc, then what is filed as it is read. -/
theorem define_files {doc : Option String} {next : String → AddM Unit} (rest : Files (next (qualify scope name)) xs) :
    Files (define scope name doc >>= next) (⟨qualify scope name, doc⟩ :: xs) := by
  have checked : Files (ensureUndefined (qualify scope name)) [] := by
    intro d a d' run
    rw [(ensureUndefined_run.mp run).2]
    rfl
  have defined : Files (define scope name doc) [⟨qualify scope name, doc⟩] :=
    checked.bind fun _ _ _ _ => (addDoc_files _ _).then_nothing fun _ => .pure _
  -- What is filed next depends on the name that is handed on.
  refine defined.bind fun full d d' run => ?_
  obtain ⟨file, started⟩ := define_run scope name doc
  obtain ⟨-, rfl, -⟩ := (started _ _ _).mp run
  exact rest

theorem add_files (item : RegistryFile.Item) :
    Files (item.add scope name) (item.filings (qualify scope name)) := by
  cases item with
  | service s => exact define_files ((Files.mapM _ (readMethod_files _)).then_nothing fun _ => .modify fun _ => rfl)
  | struct s => exact define_files ((readFields_files _ _).then_nothing fun _ => .modify fun _ => rfl)
  | exception e =>
    obtain ⟨doc, fields⟩ := e
    cases fields with
    | some fields =>
      have read : Files (some <$> readFields scope (qualify scope name) fields)
          (FieldDef.filings (qualify scope name) fields) := by
        rw [map_eq_pure_bind]
        exact (readFields_files _ fields).then_nothing fun _ => .pure _
      exact define_files (read.then_nothing fun _ => .modify fun _ => rfl)
    | none => exact define_files ((Files.pure none).then_nothing fun _ => .modify fun _ => rfl)
  | enum e => exact define_files (.modify fun _ => rfl)
  | typedef text => exact define_files ((readType_files text).then_nothing fun _ => .modify fun _ => rfl)

/-- A file files the docs of its elements, and then those that it lists apart from them. -/
theorem addFile_docs {f : RegistryFile} (run : (addFile f).run d = .ok ((), d')) :
    d'.docs = (fileAll d.docs f.filings).insertAll f.docstrings.entries := by
  rw [addFile_eq] at run
  obtain ⟨⟨⟩, middle, one, two⟩ := run_bind_eq_ok.mp run
  have filed : Files (f.items.forM fun entry => entry.2.add f.namespaceName entry.1) f.filings :=
    .forM f.items fun entry => add_files entry.2
  cases two
  rw [← filed d () middle one]
  rfl

end Definitions

end ThriftCatalog
