import ThriftCatalog.CommandLine.Arguments
import ThriftCatalog.CommandLine.Files
import ThriftCatalog.CommandLine.Summary
import ThriftCatalog.Config.Reader
import ThriftCatalog.Config.Template
import ThriftCatalog.Model.JsonForm
import ThriftCatalog.RegistryFile.Text
import ThriftCatalog.Yaml.Printer

/-! Running commands on any files. What a command prints is kept beside its result, since it stays printed when the
command fails later. -/
namespace ThriftCatalog

structure Printed where
  out : String := ""
  err : String := ""
deriving DecidableEq, Repr

namespace Command

variable {m : Type → Type} [Monad m]

/-- A command at work; it prints, and it may fail with a report. -/
abbrev Work (m : Type → Type) := ExceptT Report (StateT Printed m)

def printOut (text : String) : Work m Unit :=
  modifyThe Printed fun p => { p with out := p.out ++ text }

def printErr (line : String) : Work m Unit :=
  modifyThe Printed fun p => { p with err := p.err ++ line ++ "\n" }

def onFiles {α : Type} (action : m α) : Work m α :=
  liftM (liftM action : StateT Printed m α)

def ofExcept {ε α : Type} (report : ε → Report) (x : Except ε α) : Work m α :=
  match x with
  | .ok a => return a
  | .error e => throw (report e)

def languageOf (path : String) : Document.Language :=
  if Path.extension? path = some "json" then .json else .yaml

def readRegistryFile (fs : FileSystem m) (path : String) : Work m RegistryFile := do
  let text ← ofExcept (fun e => ⟨"failed to read " ++ path, [e.message]⟩) (← onFiles (fs.read path))
  ofExcept (fun e => ⟨"failed to parse " ++ path, [e.message]⟩)
    (RegistryFile.parse (languageOf path) text)

def readRegistry (fs : FileSystem m) (paths : List String) : Work m Registry := do
  let files ← paths.mapM (readRegistryFile fs)
  ofExcept .ofRegistryError (Registry.build files)

/-- The configuration; without a path, that of the directory if there is one. -/
def readConfig (fs : FileSystem m) (given : Option String) : Work m Config := do
  let path := given.getD Config.fileName
  if ← onFiles (fs.isThere path) then
    let text ← ofExcept
      (fun e => ⟨"failed to read config " ++ path ++ ": " ++ e.message, [e.message]⟩)
      (← onFiles (fs.read path))
    match Document.parse? .yaml Config.reader text with
    | some c => return c
    | none => throw { message := "failed to parse config " ++ path }
  else if given.isSome then
    throw { message := "config file " ++ path ++ " not found" }
  else return {}

def render (format : OutputFormat) (pretty : Bool) (j : Json) : String :=
  match format with
  | .yaml => Yaml.print j
  | .json => (if pretty then j.pretty else j.compact) ++ "\n"

def writeFile (fs : FileSystem m) (path text : String) : Work m Unit := do
  let parent := Path.parent path
  if parent ≠ "" then
    ofExcept (fun e => ⟨"failed to create directory " ++ parent, [e.message]⟩)
      (← onFiles (fs.createDirectories parent))
  ofExcept (fun e => ⟨"failed to write " ++ path, [e.message]⟩) (← onFiles (fs.write path text))

def runGenerate (fs : FileSystem m) (config output : Option String) (format : Option OutputFormat) :
    Work m Unit := do
  let c ← readConfig fs config
  let r ← readRegistry fs c.registries
  if c.bindings.isEmpty then
    printErr "No bindings configured. Add a \x60bindings\x60 section to your config."
  else
    let input ← ofExcept (fun e : BindingError => { message := e.message }) c.input
    let encoder := if c.generation.encodeSamples then some Sample.jsonEncoder else none
    let o ← ofExcept .ofGenerationError (r.provider.generate input encoder c.generation.options)
    o.failures.forM fun f => printErr ("  skipped " ++ f.name ++ ": " ++ f.error.message)
    let text := render (format.getD c.output.format) c.output.pretty o.specification.toJson
    match output.or c.output.path with
    | none => printOut text
    | some path =>
      writeFile fs path text
      printErr ("Generated " ++ toString o.specification.services.size ++ " services, " ++
        toString o.specification.classes.size ++ " classes → " ++ path)
    unless o.failures.isEmpty do
      printErr (toString o.failures.length ++ " services could not be documented.")

def runValidate (fs : FileSystem m) (inputs : List String) : Work m Unit := do
  let r ← readRegistry fs inputs
  printErr "Valid metadata registry"
  printErr ("  Files: " ++ toString inputs.length)
  printErr ("  Services: " ++ toString r.serviceNames.length)
  printErr ("  Types: " ++ toString r.definitions.typeCount)
  let o ← ofExcept .ofGenerationError r.buildAll
  printErr ("  Classes: " ++ toString o.specification.classes.size)
  printErr "Validation successful."

def runInspect (fs : FileSystem m) (inputs : List String) (format : OutputFormat) : Work m Unit := do
  let r ← readRegistry fs inputs
  printOut (render format true (← ofExcept id r.summary))

def runInit (fs : FileSystem m) (force : Bool) : Work m Unit := do
  let path := Config.fileName
  if !force && (← onFiles (fs.isThere path)) then
    throw { message := path ++ " already exists. Use --force to overwrite." }
  ofExcept (fun e => { message := e.message }) (← onFiles (fs.write path Config.template))
  printErr ("Created " ++ path)

def work (fs : FileSystem m) : Command → Work m Unit
  | generate config output format => runGenerate fs config output format
  | validate inputs => runValidate fs inputs
  | inspect inputs format => runInspect fs inputs format
  | init force => runInit fs force

/-- Runs a command: whether it succeeded, and all that it printed, the report of a failure at the end. -/
def run (fs : FileSystem m) (c : Command) : m (Bool × Printed) := do
  match ← ((c.work fs).run).run {} with
  | (.ok (), p) => return (true, p)
  | (.error r, p) => return (false, { p with err := p.err ++ r.text })

end Command

end ThriftCatalog
