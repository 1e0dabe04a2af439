import ThriftCatalog.Yaml.Scalar
import ThriftCatalog.Yaml.Token

/-! Reading directives, anchors, aliases and tags. -/
namespace ThriftCatalog.Yaml

open Document

/-- A word and what comes after it. -/
def word (c : Cursor) : List Char × Cursor :=
  (c.rest.takeWhile isWordChar, c.skipWhile isWordChar)

/-- The characters that may follow the name of an anchor or alias without a blank. -/
def nameEnds : List Char := ['?', ':', ',', ']', '\x7d', '%', '@', '\x60']

def readName (c : Cursor) : Option (String × Cursor) :=
  let (name, after) := word c
  if name.isEmpty then none
  else if atSpacing after.rest || after.rest.head?.any nameEnds.contains then
    some (String.ofList name, after)
  else none

/-- The characters of tags beyond those of words. -/
def uriMarks : List Char :=
  [';', '/', '?', ':', '@', '&', '=', '+', '$', '.', '!', '~', '*', '\'', '(', ')']

/-- The marks that are allowed in full tags only. -/
def fullUriMarks : List Char := [',', '[', ']']

/-- How many bytes follow the first byte of a character. -/
def bytesAfter? (first : UInt8) : Option Nat :=
  if first < 0x80 then some 0
  else if first / 0x20 = 0x6 then some 1
  else if first / 0x10 = 0xE then some 2
  else if first / 0x8 = 0x1E then some 3
  else none

/-- One byte, written as a percent sign and two hexadecimal digits. -/
def percentByte? : List Char → Option (UInt8 × List Char)
  | '%' :: x :: y :: rest => (hexNumber? [x, y]).map fun n => (n.toUInt8, rest)
  | _ => none

/-- So many further bytes of a character. -/
def percentTail? : Nat → List Char → Option (List UInt8 × List Char)
  | 0, rest => some ([], rest)
  | count + 1, rest => do
    let (byte, rest) ← percentByte? rest
    if byte / 0x40 ≠ 2 then none
    else
      let (bytes, rest) ← percentTail? count rest
      return (byte :: bytes, rest)

/-- Bytes in the shape of a character. Whether there is such a character does not matter. -/
def percentBytes? (rest : List Char) : Option (List UInt8 × List Char) := do
  let (first, rest) ← percentByte? rest
  let (bytes, rest) ← percentTail? (← bytesAfter? first) rest
  return (first :: bytes, rest)

/-- The bytes of a tag, in its full form or after a handle. -/
def uriBytes (full : Bool) (rest : List Char) : Option (List UInt8 × List Char) :=
  match rest with
  | [] => some ([], [])
  | x :: rest =>
    if x = '%' then
      match percentBytes? (x :: rest) with
      | none => none
      | some (bytes, after) =>
        if _h : after.length < rest.length + 1 then
          (uriBytes full after).map fun (more, rest) => (bytes ++ more, rest)
        else none
    else if isWordChar x || uriMarks.contains x || (full && fullUriMarks.contains x) then
      (uriBytes full rest).map fun (more, rest) => (x.toNat.toUInt8 :: more, rest)
    else some ([], x :: rest)
termination_by rest.length

/-- A part of a tag as it is written. Only what stands before a byte of zero counts in the end. -/
def readUri (full : Bool) (c : Cursor) : Option (Tag × Cursor) := do
  let (bytes, rest) ← uriBytes full c.rest
  return (⟨bytes⟩, c.skip (c.rest.length - rest.length))

/-- A handle: an exclamation mark, perhaps a word, perhaps another mark. -/
def readHandle (c : Cursor) : Option (List Char × Cursor) :=
  if c.rest.head? ≠ some '!' then none
  else
    let (name, after) := word (c.skip 1)
    if after.rest.head? = some '!' then some ('!' :: (name ++ ['!']), after.skip 1)
    else some ('!' :: name, after)

/-- Whether a handle has a mark at either end. -/
def isClosed (handle : List Char) : Bool :=
  1 < handle.length && handle.getLast? = some '!'

/-- The parts of a tag before it is checked what follows. -/
def tagParts (c : Cursor) : Option (String × Tag × Cursor) :=
  match c.rest with
  | '!' :: '<' :: _ => do
    let (uri, c) ← readUri true (c.skip 2)
    if uri.bytes.isEmpty || c.rest.head? ≠ some '>' then none
    else some ("", uri.untilZero, c.skip 1)
  | _ => do
    let (handle, c) ← readHandle c
    let (uri, c) ← readUri false c
    if isClosed handle then
      if uri.bytes.isEmpty then none else some (String.ofList handle, uri.untilZero, c)
    else
      let suffix := Tag.ofString (String.ofList (handle.drop 1)) ++ uri.untilZero
      if suffix.bytes.isEmpty then some ("", .ofString "!", c) else some ("!", suffix, c)

def readTag (flow : Bool) (c : Cursor) : Option (Token × Cursor) := do
  let (handle, suffix, c) ← tagParts c
  if atSpacing c.rest || (flow && c.rest.head? = some ',') then some (.tag handle suffix, c) else none

/-- A number of a version, at most nine digits. -/
def versionNumber (c : Cursor) : Option (Nat × Cursor) :=
  let digits := c.rest.takeWhile Char.isDigit
  if digits.isEmpty || 9 < digits.length then none
  else some (digits.foldl (fun n d => 10 * n + (d.toNat - '0'.toNat)) 0, c.skip digits.length)

def versionDirective (c : Cursor) : Option (Token × Cursor) := do
  let (major, c) ← versionNumber (c.skipWhile isBlank)
  if c.rest.head? ≠ some '.' then none
  else
    let (minor, c) ← versionNumber (c.skip 1)
    return (.versionDirective major minor, c)

def tagDirective (c : Cursor) : Option (Token × Cursor) := do
  let (handle, c) ← readHandle (c.skipWhile isBlank)
  if (1 < handle.length && !isClosed handle) || !c.rest.head?.any isBlank then none
  else
    let (uri, c) ← readUri true (c.skipWhile isBlank)
    if uri.bytes.isEmpty || !atSpacing c.rest then none
    else some (.tagDirective (String.ofList handle) uri.untilZero, c)

def readDirective (c : Cursor) : Option (Token × Cursor) := do
  let (name, c) := word c
  let (t, c) ←
    if !atSpacing c.rest then none
    else if name = "YAML".toList then versionDirective c
    else if name = "TAG".toList then tagDirective c
    else none
  return (t, ← c.skipComment.lineEnd?)

end ThriftCatalog.Yaml
