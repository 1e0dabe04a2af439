import ThriftCatalog.Text.Blank

/-! A place in a YAML text, and the characters that the grammar tells apart. -/
namespace ThriftCatalog.Yaml

/-- Characters that end a line. A carriage return and the line feed after it are one break. -/
def isBreak (c : Char) : Bool :=
  c = '\n' || c = '\r' || c = '\x85' || c = '\u2028' || c = '\u2029'

def isBlank (c : Char) : Bool := c = ' ' || c = '\t'

def isSpacing (c : Char) : Bool := isBlank c || isBreak c

/-- The characters of anchors, handles and directive names. -/
def isWordChar (c : Char) : Bool := c.isAlphanum || c = '_' || c = '-'

/-- Whether a text may hold the character at all. -/
def isAllowed (c : Char) : Bool :=
  let n := c.toNat
  n = 0x9 || n = 0xA || n = 0xD || (0x20 ≤ n && n ≤ 0x7E) || n = 0x85 || (0xA0 ≤ n && n ≤ 0xD7FF) ||
    (0xE000 ≤ n && n ≤ 0xFFFD) || 0x10000 ≤ n

/-- Whether a text is over or goes on with a blank or a line break. -/
def atSpacing : List Char → Bool
  | [] => true
  | c :: _ => isSpacing c

/-- The character that stands for a line break in a scalar. -/
def breakChar (c : Char) : Char :=
  if c = '\r' || c = '\x85' then '\n' else c

/-- The rest of a text and where it begins. -/
structure Cursor where
  rest : List Char
  /-- The number of bytes before it in UTF-8. -/
  index : Nat := 0
  line : Nat := 0
  column : Nat := 0
deriving Repr

namespace Cursor

/-- Passes over characters of the same line. -/
def skip (c : Cursor) (n : Nat) : Cursor :=
  { c with
    rest := c.rest.drop n
    index := c.index + Text.byteLength (c.rest.take n)
    column := c.column + n }

def skipWhile (c : Cursor) (p : Char → Bool) : Cursor := c.skip (c.rest.takeWhile p).length

/-- Passes over one line break. -/
def skipBreak (c : Cursor) : Cursor :=
  match c.rest with
  | '\r' :: '\n' :: rest => ⟨rest, c.index + 2, c.line + 1, 0⟩
  | x :: rest => ⟨rest, c.index + x.utf8Size, c.line + 1, 0⟩
  | [] => c

/-- Passes over blanks and a comment, if one begins there. -/
def skipComment (c : Cursor) : Cursor :=
  let c := c.skipWhile isBlank
  if c.rest.head? = some '#' then c.skipWhile (!isBreak ·) else c

def lineEnd? (c : Cursor) : Option Cursor :=
  match c.rest with
  | [] => some c
  | x :: _ => if isBreak x then some c.skipBreak else none

/-- Whether a line begins here with three hyphens and nothing more. -/
def atDocumentStart (c : Cursor) : Bool :=
  c.column = 0 && ['-', '-', '-'].isPrefixOf c.rest && atSpacing (c.rest.drop 3)

/-- Whether a line begins here with three dots and nothing more. -/
def atDocumentEnd (c : Cursor) : Bool :=
  c.column = 0 && ['.', '.', '.'].isPrefixOf c.rest && atSpacing (c.rest.drop 3)

def atDocumentMark (c : Cursor) : Bool := c.atDocumentStart || c.atDocumentEnd

theorem length_skipBreak {c : Cursor} (h : c.rest ≠ []) : c.skipBreak.rest.length < c.rest.length := by
  unfold skipBreak
  split
  · next rest hc =>
    show rest.length < c.rest.length
    rw [hc, List.length_cons, List.length_cons]
    omega
  · next _ rest _ hc =>
    show rest.length < c.rest.length
    rw [hc, List.length_cons]
    omega
  · next hc => exact absurd hc h

end Cursor

end ThriftCatalog.Yaml
