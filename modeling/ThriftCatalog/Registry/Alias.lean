import ThriftCatalog.Registry.Definitions
import ThriftCatalog.Registry.Error

/-! Chains of aliases. An alias that names another alias is followed until a type comes that does not. -/
namespace ThriftCatalog.Definitions

/-- Follows the chain from `current`, no name of which may come twice; `unseen` are the aliases not met so far. -/
def follow (d : Definitions) (start : String) (unseen : List String) (current : String) :
    Except RegistryError TypeExpr :=
  match d.aliases.get? current with
  | none => .error (.undefinedType current start)
  | some target =>
    if _h : current ∈ unseen then
      match target with
      | .named next =>
        if d.aliases.contains next then d.follow start (unseen.erase current) next else .ok target
      | _ => .ok target
    else .error (.aliasCycle start)
termination_by unseen.length
decreasing_by exact length_erase_lt _h

/-- The type at the end of the chain of an alias. -/
def aliasTarget (d : Definitions) (name : String) : Except RegistryError TypeExpr :=
  d.follow name d.aliases.keys name

/-- The exception that a type denotes, itself or at the end of a chain. -/
def exceptionName (d : Definitions) (type : TypeExpr) : Except RegistryError (Option String) := do
  let target ← match type with
    | .named name => if d.aliases.contains name then d.aliasTarget name else pure type
    | _ => pure type
  match target with
  | .named name => return if d.exceptions.contains name then some name else none
  | _ => return none

end ThriftCatalog.Definitions
