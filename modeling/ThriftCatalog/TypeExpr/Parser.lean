import ThriftCatalog.Text.Blank
import ThriftCatalog.TypeExpr.Basic

/-! Reading type expressions by recursive descent. The nesting still allowed is the argument of the recursion, and a
fault carries the place where reading stopped, counted in UTF-8 bytes. -/
namespace ThriftCatalog.TypeExpr

inductive Fault.Cause where
  | expectedName
  | malformedName
  | expected (mark : Char)
  | tooDeep
  | trailing
deriving DecidableEq, Repr

/-- Why a text is no type expression, and where. -/
structure Fault where
  cause : Fault.Cause
  offset : Nat
deriving DecidableEq, Repr

def Fault.Cause.message : Fault.Cause → String
  | expectedName => "expected a type name"
  | malformedName => "malformed qualified name"
  | expected mark => "expected '" ++ mark.toString ++ "'"
  | tooDeep => "nesting too deep"
  | trailing => "trailing input"

def Fault.message (f : Fault) : String :=
  f.cause.message ++ " at offset " ++ toString f.offset

/-- The characters of words: ASCII letters and digits, the underscore and the dot. -/
def isWordChar (c : Char) : Bool :=
  c.isAlphanum || c == '_' || c == '.'

/-- Whether two dots meet somewhere. -/
def hasDoubleDot : List Char → Bool
  | '.' :: '.' :: _ => true
  | _ :: cs => hasDoubleDot cs
  | [] => false

/-- A dot neither begins nor ends the word, and no two dots meet. -/
def wellDotted (w : List Char) : Bool :=
  w.head? != some '.' && w.getLast? != some '.' && !hasDoubleDot w

/-- The text still to be read and the number of bytes before it. -/
structure Cursor where
  rest : List Char
  offset : Nat

namespace Cursor

def ofString (s : String) : Cursor := ⟨s.toList, 0⟩

def fault (c : Cursor) (cause : Fault.Cause) : Fault := ⟨cause, c.offset⟩

/-- Passes over the longest run of characters that satisfy `p`. -/
def skipWhile (c : Cursor) (p : Char → Bool) : Cursor :=
  ⟨c.rest.dropWhile p, c.offset + Text.byteLength (c.rest.takeWhile p)⟩

/-- Reads the longest word after any white space. -/
def word (c : Cursor) : Except Fault (List Char × Cursor) :=
  let c := c.skipWhile Text.isBlank
  match c.rest.takeWhile isWordChar with
  | [] => .error (c.fault .expectedName)
  | w => if wellDotted w then .ok (w, c.skipWhile isWordChar) else .error (c.fault .malformedName)

/-- Reads one punctuation mark after any white space. -/
def expect (c : Cursor) (mark : Char) : Except Fault Cursor :=
  let c := c.skipWhile Text.isBlank
  match c.rest with
  | d :: rest =>
    if d = mark then .ok ⟨rest, c.offset + d.utf8Size⟩ else .error (c.fault (.expected mark))
  | [] => .error (c.fault (.expected mark))

end Cursor

/-- Reads one type that nests at most `room` containers. -/
def read (room : Nat) (c : Cursor) : Except Fault (TypeExpr × Cursor) := do
  let (w, c) ← c.word
  match String.ofList w with
  | "list" =>
    let c ← c.expect '<'
    match room with
    | 0 => throw (c.fault .tooDeep)
    | room + 1 =>
      let (element, c) ← read room c
      let c ← c.expect '>'
      return (list element, c)
  | "set" =>
    let c ← c.expect '<'
    match room with
    | 0 => throw (c.fault .tooDeep)
    | room + 1 =>
      let (element, c) ← read room c
      let c ← c.expect '>'
      return (set element, c)
  | "map" =>
    let c ← c.expect '<'
    match room with
    | 0 => throw (c.fault .tooDeep)
    | room + 1 =>
      let (key, c) ← read room c
      let c ← c.expect ','
      let (value, c) ← read room c
      let c ← c.expect '>'
      return (map key value, c)
  | w =>
    match BaseType.ofWord? w with
    | some b => return (base b, c)
    | none => return (named w, c)

/-- Reads a whole text, white space around it allowed. -/
def parse (s : String) : Except Fault TypeExpr := do
  let (e, c) ← read maxNesting (.ofString s)
  let c := c.skipWhile Text.isBlank
  if c.rest.isEmpty then return e else throw (c.fault .trailing)

end ThriftCatalog.TypeExpr
