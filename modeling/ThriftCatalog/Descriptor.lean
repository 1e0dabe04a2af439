import ThriftCatalog.Requirement

/-! Descriptors: the declared shape of values, fields and methods before names are looked up. -/
namespace ThriftCatalog

inductive WireType where
  | stop | void | bool | byte | double | i16 | i32 | i64 | string | struct | map | set | list | enum
deriving DecidableEq, Repr

namespace WireType

/-- The number on the wire; 5, 7 and 9 are not in use. -/
def code : WireType → Nat
  | stop => 0
  | void => 1
  | bool => 2
  | byte => 3
  | double => 4
  | i16 => 6
  | i32 => 8
  | i64 => 10
  | string => 11
  | struct => 12
  | map => 13
  | set => 14
  | list => 15
  | enum => 16

def all : List WireType :=
  [stop, void, bool, byte, double, i16, i32, i64, string, struct, map, set, list, enum]

def ofCode? (n : Nat) : Option WireType := all.find? (·.code = n)

@[simp] theorem ofCode?_code (t : WireType) : ofCode? t.code = some t := by
  cases t <;> decide

end WireType

/-- The declared type of a value. Definitions are mentioned by name. -/
inductive ValueDescriptor where
  | void | bool | byte | i16 | i32 | i64 | double | string | binary
  /-- A struct or union, to be expanded in place. -/
  | struct (name : String)
  | exception (name : String)
  | enum (name : String)
  | list (element : ValueDescriptor)
  | set (element : ValueDescriptor)
  | map (key value : ValueDescriptor)
  /-- A name that stays a name, with the tag of what it stands for. -/
  | typedef (tag : WireType) (name : String)
deriving DecidableEq, Repr

/-- The tag of a value: binary travels as a string, an exception as a struct. -/
def ValueDescriptor.wireType : ValueDescriptor → WireType
  | void => .void
  | bool => .bool
  | byte => .byte
  | i16 => .i16
  | i32 => .i32
  | i64 => .i64
  | double => .double
  | string | binary => .string
  | struct _ | exception _ => .struct
  | enum _ => .enum
  | list _ => .list
  | set _ => .set
  | map _ _ => .map
  | typedef tag _ => tag

structure FieldDescriptor where
  name : String
  requirement : Requirement := .default
  value : ValueDescriptor
deriving DecidableEq, Repr

structure MethodDescriptor where
  name : String
  /-- The name of the argument struct, under which sample requests are filed. -/
  argsType : String
  parameters : List FieldDescriptor
  /-- The fields of the result struct; a oneway method has none. -/
  resultFields : Option (List FieldDescriptor)
  exceptions : List String
deriving DecidableEq, Repr

namespace MethodDescriptor

/-- The result field that carries the returned value has this name. -/
def successName : String := "success"

/-- The exception that every method declares without saying so. -/
def baseException : String := "org.apache.thrift.TException"

/-- The first result field with the name of the returned value. -/
def success? (m : MethodDescriptor) : Option FieldDescriptor :=
  (m.resultFields.getD []).find? (·.name = successName)

def isOneway (m : MethodDescriptor) : Bool := m.resultFields.isNone

end MethodDescriptor

end ThriftCatalog
