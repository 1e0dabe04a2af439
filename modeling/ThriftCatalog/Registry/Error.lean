import ThriftCatalog.Document.Text
import ThriftCatalog.TypeExpr.Parser

/-! Why registry files make no registry. -/
namespace ThriftCatalog

inductive RegistryError where
  /-- A text is no registry file. -/
  | malformed (language : Document.Language)
  | unsupportedVersion (version : Nat)
  | typeExpression (text : String) (fault : TypeExpr.Fault)
  | undefinedType (name context : String)
  /-- A oneway method returns or throws something. -/
  | onewayAnswers (method : String)
  /-- A method throws what is no exception. -/
  | notAnException (method : String) (thrown : TypeExpr)
  | duplicate (name : String)
  /-- The chain that starts at this alias comes back to itself somewhere. -/
  | aliasCycle (name : String)
deriving DecidableEq, Repr

def RegistryError.message : RegistryError → String
  | malformed .json => "failed to parse JSON"
  | malformed .yaml => "failed to parse YAML"
  | unsupportedVersion version => "unsupported registry version: " ++ toString version
  | typeExpression text fault => "invalid type expression '" ++ text ++ "': " ++ fault.message
  | undefinedType name context => "undefined type '" ++ name ++ "' referenced from " ++ context
  | onewayAnswers method =>
    "invalid method " ++ method ++ ": oneway methods cannot return a value or throw"
  | notAnException method thrown =>
    "invalid method " ++ method ++ ": '" ++ thrown.render ++ "' is not an exception"
  | duplicate name => "duplicate definition: " ++ name
  | aliasCycle name => "typedef cycle through: " ++ name

end ThriftCatalog
