import ThriftCatalog.Config.Basic

/-! Commands, and reading them from arguments. -/
namespace ThriftCatalog

inductive Command where
  | generate (config output : Option String) (format : Option OutputFormat)
  | validate (inputs : List String)
  | inspect (inputs : List String) (format : OutputFormat)
  | init (force : Bool)
deriving DecidableEq, Repr

namespace Command

structure OptionSpec where
  long : String
  short : Option Char := none
  takesValue : Bool := true

/-- Arguments sorted out: options with their values, and all else in order. -/
structure Sorted where
  options : List (String × String) := []
  inputs : List String := []

def Sorted.add? (s : Sorted) (spec : OptionSpec) (value : String) : Option Sorted :=
  if (s.options.lookup spec.long).isSome || (spec.takesValue && value = "") then none
  else some { s with options := s.options ++ [(spec.long, value)] }

def Sorted.addInput? (s : Sorted) (input : String) : Option Sorted :=
  if input = "" then none else some { s with inputs := s.inputs ++ [input] }

/-- Whether an argument can be a value: a hyphen may stand for itself, but not begin it. -/
def isValue (argument : String) : Bool :=
  argument = "-" || argument.toList.head? ≠ some '-'

/-- The option that an argument is, and the value written in the same argument. -/
def option? (specs : List OptionSpec) (argument : String) : Option (OptionSpec × Option String) :=
  match argument.toList with
  | '-' :: '-' :: text =>
    let long := text.takeWhile (· ≠ '=')
    let value := (text.drop long.length).tail?.map String.ofList
    (specs.find? (·.long = String.ofList long)).map fun spec => (spec, value)
  | '-' :: letter :: text =>
    let value := if text.head? = some '=' then text.tail else text
    (specs.find? (·.short = some letter)).map fun spec =>
      (spec, if text.isEmpty then none else some (String.ofList value))
  | _ => none

/-- Sorts out arguments. After two hyphens alone all are inputs. -/
def sort? (specs : List OptionSpec) (s : Sorted) : List String → Option Sorted
  | [] => some s
  | argument :: rest =>
    if argument = "--" then rest.foldlM Sorted.addInput? s
    else if isValue argument then do sort? specs (← s.addInput? argument) rest
    else
      match option? specs argument with
      | none => none
      | some (spec, value) =>
        match spec.takesValue, value, rest with
        | false, none, rest => do sort? specs (← s.add? spec "") rest
        | false, some _, _ => none
        | true, some value, rest => do sort? specs (← s.add? spec value) rest
        | true, none, value :: rest =>
          if isValue value then do sort? specs (← s.add? spec value) rest else none
        | true, none, [] => none

def format? (s : Sorted) : Option (Option OutputFormat) :=
  match s.options.lookup "format" with
  | none => some none
  | some word => (OutputFormat.ofWord? word).map some

def ofArguments? : List String → Option Command
  | "generate" :: rest => do
    let s ← sort? [⟨"config", some 'c', true⟩, ⟨"output", some 'o', true⟩, ⟨"format", none, true⟩] {} rest
    if !s.inputs.isEmpty then none
    else some (.generate (s.options.lookup "config") (s.options.lookup "output") (← format? s))
  | "validate" :: rest => do
    let s ← sort? [] {} rest
    if s.inputs.isEmpty then none else some (.validate s.inputs)
  | "inspect" :: rest => do
    let s ← sort? [⟨"format", none, true⟩] {} rest
    if s.inputs.isEmpty then none else some (.inspect s.inputs ((← format? s).getD .yaml))
  | "init" :: rest => do
    let s ← sort? [⟨"force", none, false⟩] {} rest
    if !s.inputs.isEmpty then none else some (.init (s.options.lookup "force").isSome)
  | _ => none

end Command

end ThriftCatalog
