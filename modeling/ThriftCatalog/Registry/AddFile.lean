import ThriftCatalog.Naming
import ThriftCatalog.Registry.Definitions
import ThriftCatalog.Registry.Error
import ThriftCatalog.RegistryFile.Basic

/-! Adding the definitions of one file: names are qualified, type expressions read, docs filed under their keys. -/
namespace ThriftCatalog

namespace Definitions

/-- Additions that may be refused. -/
abbrev AddM := StateT Definitions (Except RegistryError)

/-- Reads a type expression and qualifies the names in it. -/
def readType (scope text : String) : AddM TypeExpr :=
  match TypeExpr.parse text with
  | .ok e => return e.mapNames (qualify scope)
  | .error fault => throw (.typeExpression text fault)

def addDoc (key : String) (doc : Option String) : AddM Unit :=
  match doc with
  | some text => modify fun d => { d with docs := d.docs.insert key text }
  | none => return ()

/-- A name may be defined only once, be it as a service or as a type. -/
def ensureUndefined (name : String) : AddM Unit := do
  let d ← get
  if d.services.contains name || (d.kind? name).isSome then throw (.duplicate name)

/-- Reads fields; their docs are filed under the given key. -/
def readFields (scope key : String) (fields : List FieldDef) : AddM (List FieldDecl) :=
  fields.mapM fun f => do
    addDoc (docKey key f.name) f.doc
    return { name := f.name, requirement := f.requirement, type := ← readType scope f.type }

def readMethod (scope service : String) (m : MethodDef) : AddM MethodDecl := do
  let key := docKey service m.name
  addDoc key m.doc
  let returns ← match m.returns with
    | some text => readType scope text
    | none => pure (.base .void)
  let params ← readFields scope key m.params
  let throws ← readFields scope key m.throws
  return { name := m.name, params, returns, throws, oneway := m.oneway }

/-- Starts the definition of a name: checks that it is free and files its doc. -/
def define (scope name : String) (doc : Option String) : AddM String := do
  let name := qualify scope name
  ensureUndefined name
  addDoc name doc
  return name

def addService (scope name : String) (s : ServiceDef) : AddM Unit := do
  let name ← define scope name s.doc
  let methods ← s.methods.mapM (readMethod scope name)
  modify fun d => { d with services := d.services.insert name methods }

def addStruct (scope name : String) (s : StructDef) : AddM Unit := do
  let name ← define scope name s.doc
  let fields ← readFields scope name s.fields
  modify fun d => { d with structs := d.structs.insert name fields }

def addException (scope name : String) (e : ExceptionDef) : AddM Unit := do
  let name ← define scope name e.doc
  let fields ← match e.fields with
    | some fields => some <$> readFields scope name fields
    | none => pure none
  modify fun d => { d with exceptions := d.exceptions.insert name fields }

def addEnum (scope name : String) (e : EnumDef) : AddM Unit := do
  let name ← define scope name e.doc
  modify fun d => { d with enums := d.enums.insert name e.constants }

def addAlias (scope name text : String) : AddM Unit := do
  let name ← define scope name none
  let target ← readType scope text
  modify fun d => { d with aliases := d.aliases.insert name target }

/-- Adds a file: services, structs, unions, exceptions, enums, aliases, then its own list of docs. -/
def addFile (f : RegistryFile) : AddM Unit := do
  let scope := f.namespaceName
  f.services.entries.forM fun (name, s) => addService scope name s
  (f.structs.entries ++ f.unions.entries).forM fun (name, s) => addStruct scope name s
  f.exceptions.entries.forM fun (name, e) => addException scope name e
  f.enums.entries.forM fun (name, e) => addEnum scope name e
  f.typedefs.entries.forM fun (name, text) => addAlias scope name text
  modify fun d => { d with docs := d.docs.insertAll f.docstrings.entries }

end Definitions

end ThriftCatalog
