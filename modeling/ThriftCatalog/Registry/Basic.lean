import ThriftCatalog.Registry.AddFile
import ThriftCatalog.Registry.CycleCut
import ThriftCatalog.Registry.Validation

/-! Registries: definitions that have passed every check, with the references to cut. -/
namespace ThriftCatalog

structure Registry where
  definitions : Definitions
  cuts : List (String × String)
  checked : definitions.check = .ok ()
  cuts_eq : cuts = definitions.cycleCuts

namespace Registry

/-- A registry of definitions, if they pass the checks. -/
def ofDefinitions (d : Definitions) : Except RegistryError Registry :=
  match h : d.check with
  | .ok () => .ok ⟨d, d.cycleCuts, h, rfl⟩
  | .error e => .error e

/-- Adds all files, then checks. -/
def build (files : List RegistryFile) : Except RegistryError Registry := do
  let ((), d) ← (files.forM Definitions.addFile).run ∅
  ofDefinitions d

/-- Adds one more file and checks again. -/
def merge (r : Registry) (file : RegistryFile) : Except RegistryError Registry := do
  let ((), d) ← (Definitions.addFile file).run r.definitions
  ofDefinitions d

/-- Merges a file in place. Its definitions are added to a copy, which takes the place of the registry only when it has
passed the checks. -/
def mergeInto (file : RegistryFile) : ExceptT RegistryError (StateM Registry) Unit := do
  let r ← get
  let ((), d) ← ofExcept ((Definitions.addFile file).run r.definitions)
  let merged ← ofExcept (ofDefinitions d)
  set merged

def serviceNames (r : Registry) : List String := r.definitions.services.keys

/-- Whether a reference from an owner is shown by name. -/
def isCut (r : Registry) (owner target : String) : Bool := r.cuts.contains (owner, target)

end Registry

end ThriftCatalog
