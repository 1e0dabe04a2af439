import ThriftCatalog.CommandLine.Run

/-! The program: files and streams, and nothing else. -/
namespace ThriftCatalog

def fileErrorOfCode (code : UInt32) (message : String) : FileError :=
  let code := if code < 0x80000000 then code else 0 - code
  if code = 2 then .notFound
  else if code = 17 then .fileExists
  else if code = 20 then .notDirectory
  else if code = 21 then .isDirectory
  else if code = 36 then .nameTooLong
  else .other message

def fileErrorOf (e : IO.Error) : FileError :=
  match e with
  | .noFileOrDirectory _ code _ | .inappropriateType _ code _ | .alreadyExists _ code _
  | .resourceExhausted _ code _ | .invalidArgument _ code _ | .otherError code _ => fileErrorOfCode code (toString e)
  | e => .other (toString e)

def onPath {α : Type} (action : String → IO α) (path : String) : IO (Except FileError α) := do
  if Path.hasNull path then return .error .nullInPath
  match ← (action path).toBaseIO with
  | .ok a => return .ok a
  | .error e => return .error (fileErrorOf e)

def machineFiles : FileSystem IO where
  isThere path := do
    match ← onPath (IO.FS.realPath ·) path with
    | .ok _ => return true
    | .error _ => return false
  read path := do
    match ← onPath (IO.FS.readBinFile ·) path with
    | .error e => return .error e
    | .ok bytes =>
      match String.fromUTF8? bytes with
      | some text => return .ok text
      | none => return .error .noText
  createDirectories := onPath (IO.FS.createDirAll ·)
  write path text := onPath (IO.FS.writeFile · text) path

end ThriftCatalog

open ThriftCatalog

def main (arguments : List String) : IO UInt32 := do
  match Command.ofArguments? arguments with
  | none =>
    IO.eprintln "usage: tdoc <generate|validate|inspect|init> [arguments]"
    return 2
  | some command =>
    let (succeeded, printed) ← command.run machineFiles
    IO.print printed.out
    IO.eprint printed.err
    return if succeeded then 0 else 1
