import ThriftCatalog.Generation.Error

/-! Resolving descriptors: structs, enums and exceptions are looked up and written out in place, with their docs.

Each container, struct and exception takes one level of the depth allowed, before anything is looked up. -/
namespace ThriftCatalog

structure Resolver where
  provider : Provider
  docs : Table String
  maxDepth : Nat

namespace Resolver

/-- The depth allowed unless another is asked for. -/
def defaultMaxDepth : Nat := 64

def doc (r : Resolver) (key : String) : Option String := r.docs.get? key

/-- The kind of a name that stays a name. -/
def referenceKind? : WireType → Option ReferenceKind
  | .struct => some .struct
  | .enum => some .enum
  | .list => some .list
  | .map => some .map
  | .set => some .set
  | _ => none

def reference (r : Resolver) (tag : WireType) (name : String) : Except GenerationError TypeInfo :=
  match referenceKind? tag with
  | some kind => .ok (.unresolved ⟨kind, name, r.doc name⟩)
  | none => .error (.unexpectedTag name tag)

def enumInfo (r : Resolver) (name : String) : Except GenerationError EnumInfo := do
  return ⟨name, ← answer (r.provider.enumConstants name), r.doc name⟩

/-- A field within a scope, its type resolved by `resolve`. -/
def fieldBy (r : Resolver) (resolve : ValueDescriptor → Except GenerationError TypeInfo)
    (scope : String) (f : FieldDescriptor) : Except GenerationError FieldInfo := do
  return ⟨f.name, f.requirement, ← resolve f.value, r.doc (docKey scope f.name)⟩

/-- A struct or exception with the given fields, their types resolved by `resolve`. -/
def recordBy (r : Resolver) (resolve : ValueDescriptor → Except GenerationError TypeInfo)
    (name : String) (fields : Except LookupError (List FieldDescriptor)) :
    Except GenerationError RecordInfo := do
  let fields ← answer fields
  return ⟨name, ← fields.mapM (r.fieldBy resolve name), r.doc name⟩

/-- Resolves a descriptor, with so many levels left. -/
def resolveAt (r : Resolver) (room : Nat) (v : ValueDescriptor) : Except GenerationError TypeInfo :=
  match v with
  | .void => .ok .void
  | .bool => .ok .bool
  | .byte => .ok .i8
  | .i16 => .ok .i16
  | .i32 => .ok .i32
  | .i64 => .ok .i64
  | .double => .ok .double
  | .string => .ok .string
  | .binary => .ok .binary
  | .enum name => .enum <$> r.enumInfo name
  | .typedef tag name => r.reference tag name
  | .struct name =>
    match room with
    | 0 => .error (.tooDeep name r.maxDepth)
    | room + 1 =>
      .struct <$> r.recordBy (fun v => r.resolveAt room v) name (r.provider.structFields name)
  | .exception name =>
    match room with
    | 0 => .error (.tooDeep name r.maxDepth)
    | room + 1 =>
      .exception <$> r.recordBy (fun v => r.resolveAt room v) name (r.provider.exceptionFields name)
  | .list element =>
    match room with
    | 0 => .error (.tooDeep "list" r.maxDepth)
    | room + 1 => .list <$> r.resolveAt room element
  | .set element =>
    match room with
    | 0 => .error (.tooDeep "set" r.maxDepth)
    | room + 1 => .set <$> r.resolveAt room element
  | .map key value =>
    match room with
    | 0 => .error (.tooDeep "map" r.maxDepth)
    | room + 1 => do
      let key ← r.resolveAt room key
      return .map key (← r.resolveAt room value)
termination_by structural room

def resolve (r : Resolver) (v : ValueDescriptor) : Except GenerationError TypeInfo :=
  r.resolveAt r.maxDepth v

def resolveField (r : Resolver) (scope : String) (f : FieldDescriptor) :
    Except GenerationError FieldInfo :=
  r.fieldBy r.resolve scope f

def resolveStruct (r : Resolver) (name : String) : Except GenerationError RecordInfo :=
  match r.maxDepth with
  | 0 => .error (.tooDeep name r.maxDepth)
  | room + 1 => r.recordBy (r.resolveAt room) name (r.provider.structFields name)

def resolveException (r : Resolver) (name : String) : Except GenerationError RecordInfo :=
  match r.maxDepth with
  | 0 => .error (.tooDeep name r.maxDepth)
  | room + 1 => r.recordBy (r.resolveAt room) name (r.provider.exceptionFields name)

end Resolver

end ThriftCatalog
