import ThriftCatalog.Generation.Error
import ThriftCatalog.Registry.Error

/-! Reports of failed commands: what went wrong, and beneath it why. -/
namespace ThriftCatalog

structure Report where
  message : String
  /-- Each is the reason for what stands before it. -/
  causes : List String := []
deriving DecidableEq, Repr

namespace Report

/-- A text whose further lines are indented. -/
def indented (width : Nat) (text : String) : List Char :=
  text.toList.flatMap fun c => if c = '\n' then '\n' :: List.replicate width ' ' else [c]

def numbered (cause : String × Nat) : List Char :=
  let number := (toString cause.2).toList
  List.replicate (5 - number.length) ' ' ++ number ++ [':', ' '] ++ indented 7 cause.1

def causeChars : List String → List Char
  | [] => []
  | [cause] => "\n\nCaused by:\n    ".toList ++ indented 4 cause
  | causes =>
    "\n\nCaused by:\n".toList ++ ['\n'].intercalate (causes.zipIdx.map numbered)

def text (r : Report) : String :=
  "Error: " ++ r.message ++ String.ofList (causeChars r.causes ++ ['\n'])

def ofRegistryError (e : RegistryError) : Report := ⟨"invalid metadata registry", [e.message]⟩

def ofLookupError (e : LookupError) : Report := { message := e.message }

/-- A sample that could not be encoded is told twice, at large and by itself. -/
def ofGenerationError (e : GenerationError) : Report where
  message := e.message
  causes :=
    match e with
    | .sample failure => [failure.message]
    | _ => []

end Report

end ThriftCatalog
