/-! Type expressions such as `map<string, list<ns.Foo>>`: the tree, the names it mentions and its written form. -/
namespace ThriftCatalog

/-- The types that need no definition. -/
inductive BaseType where
  | void | bool | byte | i16 | i32 | i64 | double | string | binary
deriving DecidableEq, Repr

namespace BaseType

/-- The written form; `byte` has a second spelling that only `ofWord?` knows. -/
def word : BaseType → String
  | void => "void"
  | bool => "bool"
  | byte => "byte"
  | i16 => "i16"
  | i32 => "i32"
  | i64 => "i64"
  | double => "double"
  | string => "string"
  | binary => "binary"

def all : List BaseType :=
  [void, bool, byte, i16, i32, i64, double, string, binary]

/-- The base type that a word spells; `i8` is another spelling of `byte`. -/
def ofWord? (w : String) : Option BaseType :=
  if w = "i8" then some byte else all.find? (·.word = w)

@[simp] theorem ofWord?_word (b : BaseType) : ofWord? b.word = some b := by
  cases b <;> decide

end BaseType

/-- A type as it is written in a registry file. -/
inductive TypeExpr where
  | base (b : BaseType)
  | list (element : TypeExpr)
  | set (element : TypeExpr)
  | map (key value : TypeExpr)
  /-- A struct, union, enum, exception or alias. -/
  | named (name : String)
deriving DecidableEq, Repr

namespace TypeExpr

/-- The deepest nesting of containers that a written type may have. -/
def maxNesting : Nat := 64

def mapNames (f : String → String) : TypeExpr → TypeExpr
  | base b => base b
  | list e => list (e.mapNames f)
  | set e => set (e.mapNames f)
  | map k v => map (k.mapNames f) (v.mapNames f)
  | named n => named (f n)

def names : TypeExpr → List String
  | base _ => []
  | list e | set e => e.names
  | map k v => k.names ++ v.names
  | named n => [n]

/-- The name stands somewhere in the type, inside of any containers. What it stands for is not looked into. -/
inductive Contains (name : String) : TypeExpr → Prop where
  | here : Contains name (named name)
  | listElement {element : TypeExpr} : Contains name element → Contains name (list element)
  | setElement {element : TypeExpr} : Contains name element → Contains name (set element)
  | mapKey {key value : TypeExpr} : Contains name key → Contains name (map key value)
  | mapValue {key value : TypeExpr} : Contains name value → Contains name (map key value)

/-- How many containers enclose the innermost part. -/
def nesting : TypeExpr → Nat
  | base _ | named _ => 0
  | list e | set e => e.nesting + 1
  | map k v => max k.nesting v.nesting + 1

/-- The written form, without blanks but for one after the comma of a map. -/
def render : TypeExpr → String
  | base b => b.word
  | list e => "list<" ++ e.render ++ ">"
  | set e => "set<" ++ e.render ++ ">"
  | map k v => "map<" ++ k.render ++ ", " ++ v.render ++ ">"
  | named n => n

theorem mem_names_iff {name : String} {e : TypeExpr} : name ∈ e.names ↔ e.Contains name := by
  constructor
  · intro mem
    induction e with
    | base b => contradiction
    | named other =>
      cases List.mem_singleton.mp mem
      exact .here
    | list element ih => exact .listElement (ih mem)
    | set element ih => exact .setElement (ih mem)
    | map key value first second =>
      rcases List.mem_append.mp mem with mem | mem
      · exact .mapKey (first mem)
      · exact .mapValue (second mem)
  · intro contains
    induction contains with
    | here => exact List.mem_singleton_self name
    | listElement _ ih | setElement _ ih => exact ih
    | mapKey _ ih => exact List.mem_append_left _ ih
    | mapValue _ ih => exact List.mem_append_right _ ih

theorem names_mapNames (f : String → String) (e : TypeExpr) :
    (e.mapNames f).names = e.names.map f := by
  induction e <;> simp_all [mapNames, names]

theorem nesting_mapNames (f : String → String) (e : TypeExpr) :
    (e.mapNames f).nesting = e.nesting := by
  induction e <;> simp_all [mapNames, nesting]

end TypeExpr

end ThriftCatalog
