/-! Tags of nodes. A tag is made of bytes, since escapes in it can write bytes that are no text. -/
namespace ThriftCatalog.Document

structure Tag where
  bytes : List UInt8
deriving DecidableEq, Repr

namespace Tag

instance : Append Tag := ⟨fun t u => ⟨t.bytes ++ u.bytes⟩⟩

def ofString (s : String) : Tag := ⟨s.toUTF8.data.toList⟩

def text? (t : Tag) : Option String := String.fromUTF8? ⟨t.bytes.toArray⟩

/-- The tag before its first byte of zero. -/
def untilZero (t : Tag) : Tag := ⟨t.bytes.takeWhile (· ≠ 0)⟩

/-- The tag of the core schema with a given name. -/
def core (name : String) : Tag := ofString ("tag:yaml.org,2002:" ++ name)

/-- Whether the tag is one of the document's own: it begins with an exclamation mark. -/
def isLocal (t : Tag) : Bool := t.bytes.head? = some 0x21

/-- The name in a tag of the document's own, if it is a text. A mark alone is its own name. -/
def localName? (t : Tag) : Option String :=
  match t.bytes with
  | 0x21 :: [] => some "!"
  | 0x21 :: name => text? ⟨name⟩
  | _ => none

end Tag

end ThriftCatalog.Document
