import ThriftCatalog.Json.Token
import ThriftCatalog.Document.Node

/-! Document trees from JSON tokens, by a machine that holds the collections still open and takes one token at a
time. -/
namespace ThriftCatalog.Json

open Document (Node)

/-- A collection still open, with what it holds so far, last first. -/
inductive Frame where
  | array (before : List Node)
  /-- An object whose member with this name waits for its value. -/
  | member (before : List (Node × Node)) (name : Node)

inductive Phase where
  | value
  /-- A value, or the end of an array just opened. -/
  | item
  /-- A key, or the end of the object if nothing but its opening came before. -/
  | key (before : List (Node × Node)) (closable : Bool)
  | colon (before : List (Node × Node)) (name : Node)
  /-- A value is complete. -/
  | done (v : Node)

def Token.leaf? : Token → Option Node
  | .null => some .null
  | .bool b => some (.bool b)
  | .number n => some (.number n)
  | .string s => some (.string s)
  | _ => none

def Phase.step? (stack : List Frame) : Phase → Token → Option (List Frame × Phase)
  | .value, .openArray | .item, .openArray => some (.array [] :: stack, .item)
  | .value, .openObject | .item, .openObject => some (stack, .key [] true)
  | .value, t => t.leaf?.map fun v => (stack, .done v)
  | .item, .closeArray =>
    match stack with
    | .array before :: stack => some (stack, .done (.list none before.reverse))
    | _ => none
  | .item, t => t.leaf?.map fun v => (stack, .done v)
  | .key before _, .string s => some (stack, .colon before (.string s))
  | .key before true, .closeObject => some (stack, .done (.map none before.reverse))
  | .key _ _, _ => none
  | .colon before name, .colon => some (.member before name :: stack, .value)
  | .colon _ _, _ => none
  | .done v, .comma =>
    match stack with
    | .array before :: stack => some (.array (v :: before) :: stack, .value)
    | .member before name :: stack => some (stack, .key ((name, v) :: before) false)
    | [] => none
  | .done v, .closeArray =>
    match stack with
    | .array before :: stack => some (stack, .done (.list none (v :: before).reverse))
    | _ => none
  | .done v, .closeObject =>
    match stack with
    | .member before name :: stack => some (stack, .done (.map none ((name, v) :: before).reverse))
    | _ => none
  | .done _, _ => none

/-- Runs the machine; it ends well with one value complete and nothing open. -/
def parseTokens? (stack : List Frame) (phase : Phase) : List Token → Option Node
  | [] =>
    match stack, phase with
    | [], .done v => some v
    | _, _ => none
  | t :: ts => do
    let (stack, phase) ← phase.step? stack t
    parseTokens? stack phase ts

end Json

def Document.Node.ofJson? (s : String) : Option Document.Node := do
  Json.parseTokens? [] .value (← Json.Token.ofChars? s.toList)

end ThriftCatalog
