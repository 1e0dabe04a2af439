import ThriftCatalog.Registry.Error
import ThriftCatalog.RegistryFile.Reader

/-! Registry files from texts. -/
namespace ThriftCatalog.RegistryFile

/-- Reads a file, which must have the version that is supported. -/
def parse (language : Document.Language) (text : String) : Except RegistryError RegistryFile :=
  match Document.parse? language reader text with
  | none => .error (.malformed language)
  | some file =>
    if file.version = supportedVersion then .ok file else .error (.unsupportedVersion file.version)

end ThriftCatalog.RegistryFile
