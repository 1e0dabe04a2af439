import ThriftCatalog.Requirement
import ThriftCatalog.Table.Basic
import ThriftCatalog.TypeExpr.Basic

/-! The definitions of all files together, under qualified names and with their type expressions read. -/
namespace ThriftCatalog

structure FieldDecl where
  name : String
  requirement : Requirement
  type : TypeExpr
deriving DecidableEq, Repr

structure MethodDecl where
  name : String
  params : List FieldDecl
  returns : TypeExpr
  throws : List FieldDecl
  oneway : Bool
deriving DecidableEq, Repr

inductive DefinitionKind where
  | struct | exception | enum | alias
deriving DecidableEq, Repr

structure Definitions where
  services : Table (List MethodDecl)
  /-- Structs and unions. -/
  structs : Table (List FieldDecl)
  /-- Exceptions; of some no fields are known. -/
  exceptions : Table (Option (List FieldDecl))
  enums : Table (List String)
  aliases : Table TypeExpr
  docs : Table String
deriving DecidableEq, Repr

namespace Definitions

instance : EmptyCollection Definitions := ⟨⟨∅, ∅, ∅, ∅, ∅, ∅⟩⟩

/-- The kind of type that a name stands for. A service is no type. -/
def kind? (d : Definitions) (name : String) : Option DefinitionKind :=
  if d.structs.contains name then some .struct
  else if d.exceptions.contains name then some .exception
  else if d.enums.contains name then some .enum
  else if d.aliases.contains name then some .alias
  else none

/-- Whether a name stands for a struct, union or exception. -/
def isComposite (d : Definitions) (name : String) : Bool :=
  d.structs.contains name || d.exceptions.contains name

/-- The structs, unions and exceptions in their order. -/
def composites (d : Definitions) : List String := d.structs.keys ++ d.exceptions.keys

/-- The fields of a struct, union or exception; none for any other name. -/
def compositeFields (d : Definitions) (name : String) : List FieldDecl :=
  match d.structs.get? name with
  | some fields => fields
  | none => ((d.exceptions.get? name).getD none).getD []

def typeCount (d : Definitions) : Nat :=
  d.structs.size + d.exceptions.size + d.enums.size + d.aliases.size

end Definitions

/-- Taking a member out makes a list shorter, so a search through unseen names ends. -/
theorem length_erase_lt {names : List String} {name : String} (h : name ∈ names) :
    (names.erase name).length < names.length := by
  rw [List.length_erase_of_mem h]
  have := List.length_pos_of_mem h
  omega

end ThriftCatalog
