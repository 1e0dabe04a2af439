import ThriftCatalog.Json.Parser
import ThriftCatalog.Yaml.Tree

/-! Reading values from texts in either language. -/
namespace ThriftCatalog.Document

inductive Language where
  | json | yaml
deriving DecidableEq, Repr

/-- The value that a text stands for, if it has the shape that the reader wants. -/
def parse? {α : Type} (language : Language) (r : Reader α) (text : String) : Option α :=
  match language with
  | .json => Node.ofJson? text >>= readJson? r
  | .yaml => Node.ofYaml? text >>= readYaml? r

end ThriftCatalog.Document
