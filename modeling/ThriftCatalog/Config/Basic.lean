import ThriftCatalog.Generation.Basic

/-! Configurations: which registries are read, what is bound where, and how the specification is written. -/
namespace ThriftCatalog

inductive OutputFormat where
  | json | yaml
deriving DecidableEq, Repr

def OutputFormat.ofWord? : String → Option OutputFormat
  | "json" => some json
  | "yaml" => some yaml
  | _ => none

def OutputFormat.word : OutputFormat → String
  | json => "json"
  | yaml => "yaml"

structure OutputConfig where
  /-- The file to write; without one the specification is printed. -/
  path : Option String := none
  format : OutputFormat := .json
  pretty : Bool := true
deriving DecidableEq, Repr

structure GenerationConfig where
  options : GenerationOptions := {}
  /-- Show the sample requests with their functions. -/
  encodeSamples : Bool := true
deriving DecidableEq, Repr

/-- A binding as it is configured; either a path or the beginning of one must be given. -/
structure BindingConfig where
  host : String := "*"
  path : Option String := none
  /-- The beginning of all paths of the binding. -/
  pathStart : Option String := none
  defaultFormat : Format := .binary
  /-- All formats unless some are given. -/
  allowedFormats : Option (List Format) := none
  services : Table (List String)
deriving DecidableEq, Repr

/-- A binding without a route, or with two. -/
inductive BindingError where
  | twoRoutes (path : String)
  | noRoute
deriving DecidableEq, Repr

def BindingError.message : BindingError → String
  | twoRoutes path => "invalid binding for " ++ path ++ ": both path and prefix set"
  | noRoute => "invalid binding for <unset>: one of path or prefix is required"

namespace BindingConfig

def route (b : BindingConfig) : Except BindingError Route :=
  match b.path, b.pathStart with
  | some path, none => .ok (.exact path)
  | none, some path => .ok (.under path)
  | some path, some _ => .error (.twoRoutes path)
  | none, none => .error .noRoute

/-- The binding; its default format is always allowed. -/
def toBinding (b : BindingConfig) : Except BindingError Binding := do
  let route ← b.route
  return {
    hostPattern := b.host
    route
    defaultFormat := b.defaultFormat
    allowedFormats := Format.ordered (b.defaultFormat :: b.allowedFormats.getD Format.all)
    entries := b.services }

end BindingConfig

structure Config where
  registries : List String := ["thrift-metadata.yaml"]
  output : OutputConfig := {}
  generation : GenerationConfig := {}
  bindings : List BindingConfig := []
  exampleHeaders : Table (List Headers) := ∅
  sampleRequests : Table Json := ∅

namespace Config

def input (c : Config) : Except BindingError GenerationInput := do
  let bindings ← c.bindings.mapM BindingConfig.toBinding
  return { bindings, exampleHeaders := c.exampleHeaders, sampleRequests := c.sampleRequests }

def fileName : String := ".tdoc.yaml"

end Config

end ThriftCatalog
