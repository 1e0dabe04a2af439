import ThriftCatalog.Provider
import ThriftCatalog.Registry.Basic

/-! A registry as a provider. Type expressions become descriptors: aliases of base types are replaced, other aliases
and cut references stay names, and everything else is to be expanded in place. -/
namespace ThriftCatalog

def BaseType.descriptor : BaseType → ValueDescriptor
  | void => .void
  | bool => .bool
  | byte => .byte
  | i16 => .i16
  | i32 => .i32
  | i64 => .i64
  | double => .double
  | string => .string
  | binary => .binary

namespace Registry

/-- The descriptor of an alias: that of its base type, or its name. -/
def lowerAlias (r : Registry) (name : String) : Except LookupError ValueDescriptor :=
  match r.definitions.aliasTarget name with
  | .error e => .error (.malformed name e.message)
  | .ok (.base b) => .ok b.descriptor
  | .ok (.list _) => .ok (.typedef .list name)
  | .ok (.set _) => .ok (.typedef .set name)
  | .ok (.map _ _) => .ok (.typedef .map name)
  | .ok (.named target) =>
    match r.definitions.kind? target with
    | some .struct | some .exception => .ok (.typedef .struct name)
    | some .enum => .ok (.typedef .enum name)
    | _ => .error (.unavailable target)

/-- The descriptor of a type that stands in a field of the owner, or in a method if there is none. -/
def lower (r : Registry) (owner : Option String) : TypeExpr → Except LookupError ValueDescriptor
  | .base b => return b.descriptor
  | .list e => return .list (← r.lower owner e)
  | .set e => return .set (← r.lower owner e)
  | .map k v => return .map (← r.lower owner k) (← r.lower owner v)
  | .named name =>
    let isCut := owner.any fun owner => r.isCut owner name
    match r.definitions.kind? name with
    | some .struct => return if isCut then .typedef .struct name else .struct name
    | some .exception => return if isCut then .typedef .struct name else .exception name
    | some .enum => return .enum name
    | some .alias => r.lowerAlias name
    | none => throw (.unavailable name)

def lowerFields (r : Registry) (owner : Option String) (fields : List FieldDecl) :
    Except LookupError (List FieldDescriptor) :=
  fields.mapM fun f => do
    return { name := f.name, requirement := f.requirement, value := ← r.lower owner f.type }

def resultFields (r : Registry) (m : MethodDecl) : Except LookupError (List FieldDescriptor) := do
  let returned ←
    if m.returns = .base .void then pure []
    else do
      let value ← r.lower none m.returns
      pure [{ name := MethodDescriptor.successName, requirement := .default, value }]
  let thrown ← m.throws.mapM fun f => do
    return { name := f.name, requirement := .default, value := ← r.lower none f.type }
  return returned ++ thrown

def thrownName (r : Registry) (f : FieldDecl) : Except LookupError String :=
  match r.definitions.exceptionName f.type with
  | .ok (some name) => .ok name
  | _ => .error (.unavailable f.type.render)

def lowerMethod (r : Registry) (service : String) (m : MethodDecl) :
    Except LookupError MethodDescriptor := do
  let resultFields ← if m.oneway then pure none else some <$> r.resultFields m
  let exceptions ← m.throws.mapM r.thrownName
  let parameters ← r.lowerFields none m.params
  return {
    name := m.name
    argsType := service ++ "." ++ m.name ++ "_args"
    parameters
    resultFields
    exceptions := exceptions ++ [MethodDescriptor.baseException] }

def methods (r : Registry) (service : String) : Except LookupError (List MethodDescriptor) :=
  match r.definitions.services.get? service with
  | some methods => methods.mapM (r.lowerMethod service)
  | none => .error (.unavailable service)

def structFields (r : Registry) (name : String) : Except LookupError (List FieldDescriptor) :=
  if r.definitions.isComposite name then
    r.lowerFields (some name) (r.definitions.compositeFields name)
  else .error (.unavailable name)

/-- The fields of an exception; none if none are known. -/
def exceptionFields (r : Registry) (name : String) : Except LookupError (List FieldDescriptor) :=
  match r.definitions.exceptions.get? name with
  | some fields => r.lowerFields (some name) (fields.getD [])
  | none => .error (.unavailable name)

def enumConstants (r : Registry) (name : String) : Except LookupError (List String) :=
  match r.definitions.enums.get? name with
  | some constants => .ok constants
  | none => .error (.unavailable name)

/-- The service of an interface must be one of the registry. -/
def enclosingService (r : Registry) (interface : String) : Except LookupError String :=
  let service := interfaceService interface
  if r.definitions.services.contains service then .ok service else .error (.unavailable interface)

def provider (r : Registry) : Provider where
  enclosingService := r.enclosingService
  methods := r.methods
  structFields := r.structFields
  exceptionFields := r.exceptionFields
  enumConstants := r.enumConstants
  docs := r.definitions.docs

end Registry

end ThriftCatalog
