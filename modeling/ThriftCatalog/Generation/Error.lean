import ThriftCatalog.Provider
import ThriftCatalog.Sample.Encoder

/-! Why a service or a specification cannot be built. -/
namespace ThriftCatalog

inductive GenerationError where
  | lookup (error : LookupError)
  /-- The expansion of a type is nested too deep; the context is a container word or the name of a struct. -/
  | tooDeep (context : String) (limit : Nat)
  /-- A name that stays a name has the tag of a type without one. -/
  | unexpectedTag (name : String) (tag : WireType)
  /-- Two classes of one name differ. -/
  | conflict (name : String)
  | sample (failure : Sample.Failure)
deriving DecidableEq

def GenerationError.message : GenerationError → String
  | lookup (.unavailable name) => "metadata unavailable: " ++ name
  | lookup (.malformed context reason) => "malformed descriptor in " ++ context ++ ": " ++ reason
  | tooDeep context limit =>
    "malformed descriptor in " ++ context ++ ": type nesting exceeds " ++ toString limit ++ " levels"
  | unexpectedTag name tag =>
    "malformed descriptor in " ++ name ++ ": unexpected typedef type: " ++ toString tag.code
  | conflict name => "conflicting definitions for " ++ name
  | sample failure => "sample encoding failed: " ++ failure.message

def answer {α : Type} (x : Except LookupError α) : Except GenerationError α :=
  x.mapError .lookup

end ThriftCatalog
