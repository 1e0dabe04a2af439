import ThriftCatalog.CommandLine.Path
import ThriftCatalog.Text.Blank

/-! Files: what a program asks of them, and trees of files as plain data. -/
namespace ThriftCatalog

inductive FileError where
  | notFound
  | notDirectory
  | isDirectory
  | fileExists
  | nameTooLong
  /-- There is a null character in the path. -/
  | nullInPath
  /-- The bytes are not the UTF-8 form of a text. -/
  | noText
  | other (message : String)
deriving DecidableEq, Repr

def FileError.message : FileError → String
  | notFound => "No such file or directory (os error 2)"
  | notDirectory => "Not a directory (os error 20)"
  | isDirectory => "Is a directory (os error 21)"
  | fileExists => "File exists (os error 17)"
  | nameTooLong => "File name too long (os error 36)"
  | nullInPath => "file name contained an unexpected NUL byte"
  | noText => "stream did not contain valid UTF-8"
  | other message => message

structure FileSystem (m : Type → Type) where
  isThere : String → m Bool
  read : String → m (Except FileError String)
  createDirectories : String → m (Except FileError Unit)
  write : String → String → m (Except FileError Unit)

inductive Entry where
  | file (text : String)
  | directory (entries : List (List Char × Entry))
deriving Repr

abbrev Entries := List (List Char × Entry)

/-- The entries with one of them new or changed. -/
def Entries.put (entries : Entries) (name : List Char) (entry : Entry) : Entries :=
  (name, entry) :: entries.filter (·.1 ≠ name)

/-- A directory in its tree: what is in it, and the directories around it, the innermost first, each with the name of
the one inside. -/
structure Place where
  entries : Entries := []
  around : List (List Char × Entries) := []
deriving Repr

namespace Place

def maxNameLength : Nat := 255

/-- The entry with a name, if there is one. -/
def find? (p : Place) (name : List Char) : Except FileError (Option Entry) :=
  if maxNameLength < Text.byteLength name then .error .nameTooLong
  else .ok (p.entries.lookup name)

/-- The directory inside under a name. -/
def down (p : Place) (name : List Char) (entries : Entries) : Place :=
  ⟨entries, (name, p.entries) :: p.around⟩

def up (p : Place) : Place :=
  match p.around with
  | [] => p
  | (name, outer) :: around => ⟨outer.put name (.directory p.entries), around⟩

def top (p : Place) : Place :=
  (List.range p.around.length).foldl (fun p _ => p.up) p

def follow (p : Place) : List (List Char) → Except FileError Place
  | [] => .ok p
  | s :: rest => do
    if Path.isIdle s then p.follow rest
    else if Path.isParent s then p.up.follow rest
    else
      match ← p.find? s with
      | none => throw .notFound
      | some (.file _) => throw .notDirectory
      | some (.directory entries) => (p.down s entries).follow rest

/-- What segments lead to, if there is something in the last directory on the way. -/
def target? (p : Place) (segments : List (List Char)) : Except FileError (Option Entry) :=
  match segments.getLast? with
  | none => .ok (some (.directory p.entries))
  | some last => do
    if Path.isIdle last || Path.isParent last then
      return some (.directory (← p.follow segments).entries)
    else (← p.follow segments.dropLast).find? last

/-- Creates the directories that are missing on the way along segments: the place where that ends, and the error that
ends it early. A file in the way is no directory; once something had to be created, it exists already. -/
def create (p : Place) (created : Bool) : List (List Char) → Place × Option FileError
  | [] => (p, none)
  | s :: rest =>
    if Path.isIdle s then p.create created rest
    else if Path.isParent s then p.up.create created rest
    else
      match p.find? s with
      | .error e => (p, some e)
      | .ok none => (p.down s []).create true rest
      | .ok (some (.file _)) =>
        (p, some (if created || rest.all Path.isIdle then .fileExists else .notDirectory))
      | .ok (some (.directory entries)) => (p.down s entries).create created rest

end Place

structure FileTree where
  entries : Entries
  /-- The names on the way from there to the current directory. -/
  current : List (List Char)
deriving Repr

namespace FileTree

/-- A path has less than so many bytes. -/
def maxPathLength : Nat := 4096

/-- What is wrong with a path in itself. -/
def pathError? (path : String) : Option FileError :=
  if Path.hasNull path then some .nullInPath
  else if maxPathLength ≤ path.utf8ByteSize then some .nameTooLong
  else if path.isEmpty then some .notFound
  else none

/-- Where a path begins: at the topmost directory if it begins with a slash. -/
def start (t : FileTree) (path : String) : Except FileError Place :=
  match pathError? path with
  | some e => .error e
  | none =>
    if path.toList.head? = some '/' then .ok { entries := t.entries }
    else Place.follow { entries := t.entries } t.current

def target? (t : FileTree) (path : String) : Except FileError (Option Entry) := do
  (← t.start path).target? (Path.segments path)

def isThere (t : FileTree) (path : String) : Bool :=
  match t.target? path with
  | .ok (some _) => true
  | _ => false

def read (t : FileTree) (path : String) : Except FileError String := do
  match ← t.target? path with
  | some (.file text) => return text
  | some (.directory _) => throw .isDirectory
  | none => throw .notFound

def around (t : FileTree) (p : Place) : FileTree := { t with entries := p.top.entries }

/-- Creates directories: the tree after that, and the error that may have ended it early. -/
def createDirectories (t : FileTree) (path : String) : FileTree × Except FileError Unit :=
  match t.start path with
  | .error e => (t, .error e)
  | .ok p =>
    match p.create false (Path.segments path) with
    | (p, none) => (t.around p, .ok ())
    | (p, some e) => (t.around p, .error e)

/-- Writes a file, over the one that may be there. A path that ends with a slash can only be a directory. -/
def write (t : FileTree) (path text : String) : Except FileError FileTree := do
  let p ← t.start path
  let segments := Path.segments path
  let names := (segments.reverse.dropWhile (· = [])).reverse
  match names.getLast? with
  | none => throw .isDirectory
  | some last =>
    if Path.isIdle last || Path.isParent last then
      let _ ← p.follow names
      throw .isDirectory
    else
      let p ← p.follow names.dropLast
      if names.length < segments.length then throw .isDirectory
      else
        match ← p.find? last with
        | some (.directory _) => throw .isDirectory
        | _ => return t.around { p with entries := p.entries.put last (.file text) }

def empty : FileTree :=
  let names := ["tmp".toList, "work".toList]
  ⟨(Place.create {} false names).1.top.entries, names⟩

def ofFiles (files : List (String × String)) : FileTree :=
  files.foldl (fun t file =>
    let t := (t.createDirectories (Path.parent file.1)).1
    (t.write file.1 file.2).toOption.getD t) empty

/-- Files as data: what is written changes the state. -/
def fileSystem : FileSystem (StateM FileTree) where
  isThere path := return (← get).isThere path
  read path := return (← get).read path
  createDirectories path := modifyGet fun t => (t.createDirectories path).swap
  write path text := do
    match (← get).write path text with
    | .ok t => set t; return .ok ()
    | .error e => return .error e

end FileTree

end ThriftCatalog
