/-! Paths as texts. Segments are set apart by slashes; an empty segment and a single dot stay where they are. -/
namespace ThriftCatalog.Path

/-- Whether there is a null character in a path. No file has such a path. -/
def hasNull (path : String) : Bool := path.toList.contains '\x00'

def segments (path : String) : List (List Char) := path.toList.splitOn '/'

def isIdle (segment : List Char) : Bool := segment = [] || segment = ['.']

def isParent (segment : List Char) : Bool := segment = ['.', '.']

def trimEnd : List (List Char) → List (List Char)
  | [] => []
  | s :: rest => s :: (rest.reverse.dropWhile isIdle).reverse

/-- The last segment that is not idle, unless it leads up. -/
def fileName? (path : String) : Option (List Char) :=
  ((segments path).filter (!isIdle ·)).getLast?.filter (!isParent ·)

/-- The text after the last dot of the name, if there is a dot after its first character. -/
def extension? (path : String) : Option String := do
  let name ← fileName? path
  let after := name.reverse.takeWhile (· ≠ '.')
  if after.length + 1 < name.length then some (String.ofList after.reverse) else none

/-- The path without its last segment; empty if there is no other. -/
def parent (path : String) : String :=
  let kept := trimEnd (trimEnd (segments path)).dropLast
  String.ofList (['/'].intercalate kept)

end ThriftCatalog.Path
