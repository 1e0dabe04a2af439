import ThriftCatalog.Descriptor
import ThriftCatalog.Naming
import ThriftCatalog.Table.Basic

/-! Providers: what can be asked about declared services and types, without saying where the answers come from. -/
namespace ThriftCatalog

inductive LookupError where
  | unavailable (name : String)
  | malformed (context reason : String)
deriving DecidableEq, Repr

def LookupError.message : LookupError → String
  | unavailable name => "no metadata available for " ++ name
  | malformed context reason => "malformed descriptor in " ++ context ++ ": " ++ reason

/-- Answers by qualified name. Nothing is promised about how they fit together. -/
structure Provider where
  enclosingService : String → Except LookupError String := fun interface =>
    .ok (interfaceService interface)
  methods : String → Except LookupError (List MethodDescriptor)
  structFields : String → Except LookupError (List FieldDescriptor)
  exceptionFields : String → Except LookupError (List FieldDescriptor)
  enumConstants : String → Except LookupError (List String)
  docs : Table String := ∅

end ThriftCatalog
