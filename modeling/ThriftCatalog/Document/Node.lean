import ThriftCatalog.Document.Tag
import ThriftCatalog.Json.Numeral

/-! Documents as trees before any place in them has a type. A JSON leaf has its kind already; the kind of a YAML
scalar is chosen by the place where it is read. -/
namespace ThriftCatalog.Document

inductive ScalarStyle where
  | plain | singleQuoted | doubleQuoted | literal | folded
deriving DecidableEq, Repr

structure Scalar where
  text : String
  style : ScalarStyle
  tag : Option Tag
deriving DecidableEq, Repr

inductive Node where
  | null
  | bool (b : Bool)
  | number (n : Json.Numeral)
  /-- A quoted text, `none` if escapes in it stand for half a surrogate pair. -/
  | string (s : Option String)
  | scalar (s : Scalar)
  | list (tag : Option Tag) (items : List Node)
  | map (tag : Option Tag) (entries : List (Node × Node))
  /-- A node that aliases can stand for. -/
  | anchored (id : Nat) (node : Node)
  | alias (id : Nat)
deriving Repr

end ThriftCatalog.Document
