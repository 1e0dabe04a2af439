import ThriftCatalog.Document.Node
import ThriftCatalog.Json.Basic
import ThriftCatalog.Table.Basic
import ThriftCatalog.Yaml.CoreSchema

/-! Reading typed values out of document trees. A reader fails as a whole: only whether a tree has the wanted shape
matters, never why not.

An unknown member of a record is not looked at. The nesting of what is looked at is bounded, and so is the number of
aliases that are followed. -/
namespace ThriftCatalog.Document

/-- What a notation allows, and where its aliases lead. -/
structure Setting where
  /-- A record may be written as the list of its members in order. -/
  positional : Bool
  target? : Nat → Option Node

/-- A reading in a setting; the state is how many aliases may still be followed. -/
abbrev ReadM := ReaderT Setting (StateT Nat Option)

/-- Reads a node inside which so many collections may be nested. -/
abbrev Reader (α : Type) := (room : Nat) → Node → ReadM α

def Node.unanchored : Node → Node
  | .anchored _ node => node.unanchored
  | node => node

def resolve : Node → ReadM Node
  | .alias id => do
    match (← get), (← read).target? id with
    | left + 1, some node =>
      set left
      return node.unanchored
    | _, _ => failure
  | node => return node.unanchored

/-- The room inside a collection. -/
def enter : Nat → ReadM Nat
  | 0 => failure
  | room + 1 => return room

namespace Scalar

/-- The empty plain scalar, which stands for any empty collection. -/
def isVoid (s : Scalar) : Bool := s.text.isEmpty && s.style = .plain

/-- Whether the text may be read as the core type with this name. -/
def mayBe (s : Scalar) (name : String) : Bool :=
  s.style = .plain || (s.style = .literal && s.tag = some (.core name))

end Scalar

namespace Reader

variable {α β : Type}

def ofOption (x : Option α) : ReadM α :=
  match x with
  | some a => return a
  | none => failure

def string : Reader String := fun _ node => do
  match ← resolve node with
  | .string s => ofOption s
  | .scalar s => return s.text
  | _ => failure

def bool : Reader Bool := fun _ node => do
  match ← resolve node with
  | .bool b => return b
  | .scalar s => if s.mayBe "bool" then ofOption (Yaml.bool? s.text) else failure
  | _ => failure

/-- A natural number of at most `max`, itself at most 64 bits wide. -/
def nat (max : Nat) : Reader Nat := fun _ node => do
  match ← resolve node with
  | .number n =>
    match n.toNumber? with
    | some (.integer n) => if 0 ≤ n ∧ n ≤ max then return n.toNat else failure
    | _ => failure
  | .scalar s =>
    if s.mayBe "int" then ofOption (Yaml.unsigned? max s.text.toList) else failure
  | _ => failure

/-- Nothing for a null or a void scalar. -/
def option (r : Reader α) : Reader (Option α) := fun room node => do
  let node ← resolve node
  match node with
  | .null => return none
  | .scalar s =>
    if s.style ≠ .plain then some <$> r room node
    else
      match s.tag with
      | none => if s.text.isEmpty || Yaml.isNullWord s.text then return none else some <$> r room node
      | some tag =>
        if tag = .core "null" then
          if Yaml.isNullWord s.text then return none else failure
        else some <$> r room node
  | _ => some <$> r room node

def list (r : Reader α) : Reader (List α) := fun room node => do
  match ← resolve node with
  | .list _ items =>
    let room ← enter room
    items.mapM (r room)
  | .scalar s => if s.isVoid then return [] else failure
  | _ => failure

/-- The entries of a mapping in order, repeated keys repeated. -/
def entries (r : Reader α) : Reader (List (String × α)) := fun room node => do
  match ← resolve node with
  | .map _ entries =>
    let room ← enter room
    entries.mapM fun entry => do
      let key ← string room entry.1
      return (key, ← r room entry.2)
  | .scalar s => if s.isVoid then return [] else failure
  | _ => failure

/-- A table from names; the last value given for a name stands in the place of the first. -/
def table (r : Reader α) : Reader (Table α) := fun room node =>
  Table.ofList <$> entries r room node

/-- One of a few words. A tag may hold the word if the node itself is null, and so may the one key of a JSON
object. -/
def word (ofWord? : String → Option α) : Reader α := fun room node => do
  match ← resolve node with
  | .string s => ofOption (s.bind ofWord?)
  | .map none [(.string s, .null)] =>
    let _ ← enter room
    ofOption (s.bind ofWord?)
  | .scalar s =>
    match s.tag.bind Tag.localName? with
    | none => ofOption (ofWord? s.text)
    | some name =>
      if s.isVoid || (s.style = .plain && Yaml.isNullWord s.text) then ofOption (ofWord? name)
      else failure
  | _ => failure

end Reader

structure Members where
  found : List (String × Node)
  positional : Bool
  room : Nat

namespace Members

variable {α : Type}

/-- Adds a member if its name is known; a known name must not come twice. -/
def add (names : List String) (m : Members) (name : String) (node : Node) : ReadM Members :=
  if names.contains name then
    if (m.found.lookup name).isSome then failure
    else return { m with found := m.found ++ [(name, node)] }
  else return m

def ofNode (names : List String) : Reader Members := fun room node => do
  match ← resolve node with
  | .map _ entries =>
    let room ← enter room
    entries.foldlM
      (fun m entry => do m.add names (← Reader.string room entry.1) entry.2) ⟨[], false, room⟩
  | .list _ items =>
    if (← read).positional && items.length ≤ names.length then
      let room ← enter room
      return ⟨names.zip items, true, room⟩
    else failure
  | .scalar s => if s.isVoid then return ⟨[], false, room⟩ else failure
  | _ => failure

def required (m : Members) (name : String) (r : Reader α) : ReadM α :=
  match m.found.lookup name with
  | some node => r m.room node
  | none => failure

/-- A member that has a value of its own when it is left out. -/
def defaulted (m : Members) (name : String) (value : α) (r : Reader α) : ReadM α :=
  match m.found.lookup name with
  | some node => r m.room node
  | none => return value

/-- A member that may be left out by name, but not by position. -/
def optional (m : Members) (name : String) (r : Reader α) : ReadM (Option α) :=
  match m.found.lookup name with
  | some node => r.option m.room node
  | none => if m.positional then failure else return none

end Members

namespace Reader

/-- A record, from its members. -/
def record {α : Type} (names : List String) (build : Members → ReadM α) : Reader α :=
  fun room node => do build (← Members.ofNode names room node)

/-- The value of a plain or tagged scalar that may be anything. -/
def freeScalar (s : Scalar) : Option Json :=
  let ofPlain : Yaml.Plain → Option Json
    | .null => some .null
    | .bool b => some (.bool b)
    | .integer n => some (.number (.integer n))
    | .wideInteger => none
    | .float (some x) => some (.number (.float x))
    | .float none => some .null
    | .text => some (.string s.text)
  match s.tag with
  | none => if s.style = .plain then ofPlain (Yaml.plain s.text) else some (.string s.text)
  | some tag =>
    if tag.localName?.isSome then none
    else if tag = .core "bool" then (Yaml.bool? s.text).map .bool
    else if tag = .core "int" then (Yaml.integer? s.text).bind ofPlain
    else if tag = .core "float" then (Yaml.float? s.text.toList).bind fun x => ofPlain (.float x)
    else if tag = .core "null" then if Yaml.isNullWord s.text then some .null else none
    else if tag.isLocal && s.style = .plain then ofPlain (Yaml.plain s.text)
    else some (.string s.text)

def free : Reader Json
  | room, node => do
    match ← resolve node with
    | .null => return .null
    | .bool b => return .bool b
    | .number n => ofOption (n.toNumber?.map .number)
    | .string s => ofOption (s.map .string)
    | .scalar s => ofOption (freeScalar s)
    | .list tag items =>
      match room with
      | 0 => failure
      | room + 1 =>
        if (tag.bind Tag.localName?).isSome then failure else .array <$> items.mapM (free room)
    | .map tag entries =>
      match room with
      | 0 => failure
      | room + 1 =>
        if (tag.bind Tag.localName?).isSome then failure
        else do
          let members ← entries.mapM fun entry => do
            let key ← string room entry.1
            return (key, ← free room entry.2)
          return .object (members.foldl (fun ms m => Table.insertEntry m.1 m.2 ms) [])
    | _ => failure

end Reader

/-- Reads a whole JSON text: at most 127 collections may be nested, and there are no aliases. -/
def readJson? {α : Type} (r : Reader α) (node : Node) : Option α :=
  ((r 127 node).run ⟨true, fun _ => none⟩).run' 0

end ThriftCatalog.Document
