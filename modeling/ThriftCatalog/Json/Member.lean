import ThriftCatalog.Json.Basic
import ThriftCatalog.Table.Basic

/-! Members of objects that are left out when they have nothing to say. -/
namespace ThriftCatalog.Json

/-- A member that is left out when there is no value. -/
def optionalMember (name : String) (value : Option Json) : List (String × Json) :=
  match value with
  | some v => [(name, v)]
  | none => []

def textMember (name : String) (text : Option String) : List (String × Json) :=
  optionalMember name (text.map string)

def listMember {α : Type} (name : String) (f : α → Json) (items : List α) :
    List (String × Json) :=
  if items.isEmpty then [] else [(name, array (items.map f))]

def ofTable {α : Type} (f : α → Json) (t : Table α) : Json := object (t.map f).entries

def tableMember {α : Type} (name : String) (f : α → Json) (t : Table α) : List (String × Json) :=
  if t.isEmpty then [] else [(name, ofTable f t)]

def strings (items : List String) : Json := array (items.map string)

end ThriftCatalog.Json
