import ThriftCatalog.Document.Node

/-! The tokens of a YAML text. -/
namespace ThriftCatalog.Yaml

open Document

inductive Token where
  | versionDirective (major minor : Nat)
  /-- `uri` is what the handle stands for. -/
  | tagDirective (handle : String) (uri : Tag)
  | documentStart
  | documentEnd
  | blockSequence
  | blockMapping
  /-- The end of a block collection. -/
  | blockEnd
  | flowSequence
  | flowSequenceEnd
  | flowMapping
  | flowMappingEnd
  /-- The hyphen before an item. -/
  | entry
  /-- The comma between entries within brackets. -/
  | comma
  /-- What comes is a key, whether a mark stands before it or not. -/
  | key
  | value
  | alias (name : String)
  | anchor (name : String)
  /-- With an empty handle the suffix is the whole tag. -/
  | tag (handle : String) (suffix : Tag)
  | scalar (text : String) (style : ScalarStyle)
deriving DecidableEq, Repr

end ThriftCatalog.Yaml
