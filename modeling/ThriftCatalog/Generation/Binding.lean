import ThriftCatalog.Generation.Error
import ThriftCatalog.Model.Service

/-! Bindings of interfaces to places on the network, and their grouping by service. -/
namespace ThriftCatalog

/-- What requests a binding gets. -/
inductive Route where
  | exact (path : String)
  /-- Every path that begins so; there is no one path to document. -/
  | under (path : String)
deriving DecidableEq, Repr

def Route.exactPath? : Route → Option String
  | exact path => some path
  | under _ => none

structure Binding where
  hostPattern : String
  route : Route
  defaultFormat : Format
  allowedFormats : List Format
  /-- The interfaces under each name within the endpoint. -/
  entries : Table (List String)
deriving DecidableEq, Repr

structure Registration where
  interface : String
  endpoint : Option Endpoint

/-- The endpoint of an entry of a binding, if its path is exact. -/
def Binding.endpoint? (b : Binding) (entry : String) : Option Endpoint :=
  b.route.exactPath?.map fun path =>
    { hostPattern := b.hostPattern, path, serviceName := entry, defaultFormat := b.defaultFormat,
      allowedFormats := b.allowedFormats }

/-- The interfaces of a binding in order, each with its endpoint. -/
def Binding.registrations (b : Binding) : List Registration :=
  b.entries.entries.flatMap fun (entry, interfaces) =>
    interfaces.map fun interface => ⟨interface, b.endpoint? entry⟩

/-- A service or interface that is left out, and why. -/
structure Failure where
  name : String
  error : GenerationError
deriving DecidableEq

/-- What all bindings together say of one service. -/
structure ServiceEntry where
  endpoints : List Endpoint := []
  exampleHeaders : List Headers := []
deriving DecidableEq, Repr

structure Grouping where
  entries : Table ServiceEntry := ∅
  failures : List Failure := []

namespace Grouping

def add (p : Provider) (headers : Table (List Headers)) (g : Grouping) (x : Registration) : Grouping :=
  match p.enclosingService x.interface with
  | .error e => { g with failures := g.failures ++ [⟨x.interface, .lookup e⟩] }
  | .ok service =>
    let entry := (g.entries.get? service).getD {}
    { g with entries := g.entries.insert service {
        endpoints := entry.endpoints ++ x.endpoint.toList
        exampleHeaders := entry.exampleHeaders ++ (headers.get? service).getD [] } }

end Grouping

/-- Groups the interfaces of all bindings by service. -/
def Provider.group (p : Provider) (bindings : List Binding) (headers : Table (List Headers)) :
    Grouping :=
  (bindings.flatMap Binding.registrations).foldl (Grouping.add p headers) {}

end ThriftCatalog
