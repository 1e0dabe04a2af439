import ThriftCatalog.Naming
import ThriftCatalog.Registry.Alias

/-! Checking definitions: chains of aliases end, every name mentioned is defined, and every method makes sense. -/
namespace ThriftCatalog.Definitions

/-- Every name in a type must stand for a type. -/
def checkType (d : Definitions) (context : String) (type : TypeExpr) : Except RegistryError Unit :=
  type.names.forM fun name =>
    if (d.kind? name).isSome then .ok () else .error (.undefinedType name context)

def checkFields (d : Definitions) (context : String) (fields : List FieldDecl) :
    Except RegistryError Unit :=
  fields.forM fun f => d.checkType (docKey context f.name) f.type

/-- A method must throw exceptions only, and a oneway method neither returns nor throws. -/
def checkAnswers (d : Definitions) (context : String) (m : MethodDecl) : Except RegistryError Unit := do
  if m.oneway && (m.returns != .base .void || !m.throws.isEmpty) then
    throw (.onewayAnswers context)
  m.throws.forM fun f => do
    if (← d.exceptionName f.type).isNone then throw (.notAnException context f.type)

def checkMethod (d : Definitions) (service : String) (m : MethodDecl) : Except RegistryError Unit := do
  let context := docKey service m.name
  d.checkType context m.returns
  d.checkFields context (m.params ++ m.throws)
  d.checkAnswers context m

def check (d : Definitions) : Except RegistryError Unit := do
  d.aliases.keys.forM fun name => do discard (d.aliasTarget name)
  d.aliases.entries.forM fun (name, target) => d.checkType name target
  d.structs.entries.forM fun (name, fields) => d.checkFields name fields
  d.exceptions.entries.forM fun (name, fields) => d.checkFields name (fields.getD [])
  d.services.entries.forM fun (name, methods) => methods.forM (d.checkMethod name)

end ThriftCatalog.Definitions
