import ThriftCatalog.Document.Node
import ThriftCatalog.Yaml.Cursor

/-! Reading the text of YAML scalars: plain, in single or double quotes, and in blocks. -/
namespace ThriftCatalog.Yaml

open Document

/-- Blanks and line breaks between two pieces of a scalar. -/
structure Gap where
  /-- The blanks before the first break. -/
  blanks : List Char := []
  breaks : List Char := []

namespace Gap

/-- What a gap stands for: itself within a line, a blank for one break, and all breaks but the first for more. -/
def text (g : Gap) : List Char :=
  match g.breaks with
  | [] => g.blanks
  | ['\n'] => [' ']
  | '\n' :: breaks => breaks
  | breaks => breaks

end Gap

/-- Reads a gap; after a break no tab may stand left of the given column. -/
def readGap (least : Nat) (c : Cursor) (g : Gap) (broken : Bool) : Option (Gap × Cursor) :=
  match _h : c.rest with
  | [] => some (g, c)
  | x :: _ =>
    if isBlank x then
      if !broken then readGap least (c.skip 1) { g with blanks := g.blanks ++ [x] } false
      else if x = '\t' && c.column < least then none
      else readGap least (c.skip 1) g true
    else if isBreak x then
      readGap least c.skipBreak { g with breaks := g.breaks ++ [breakChar x] } true
    else some (g, c)
termination_by c.rest.length
decreasing_by
  · simp [Cursor.skip, _h]
  · simp [Cursor.skip, _h]
  · exact Cursor.length_skipBreak (by simp [_h])

/-- The marks that end a plain scalar inside brackets. -/
def flowMarks : List Char := [',', '[', ']', '\x7b', '\x7d']

/-- Reads the characters of a plain scalar up to a blank, a break or a mark that ends it. Inside brackets a colon must
not be followed by a mark. -/
def plainPiece (flow : Bool) : List Char → Option (List Char × List Char)
  | [] => some ([], [])
  | x :: rest =>
    if isSpacing x then some ([], x :: rest)
    else if flow && x = ':' && rest.head?.any (fun y => y = '?' || flowMarks.contains y) then none
    else if (x = ':' && atSpacing rest) || (flow && flowMarks.contains x) then some ([], x :: rest)
    else do
      let (piece, rest) ← plainPiece flow rest
      return (x :: piece, rest)

/-- Reads a plain scalar; also says whether a line break came after it. -/
def readPlain (flow : Bool) (margin : Nat) (c : Cursor) (text : List Char) (gap : Gap) :
    Option (List Char × Bool × Cursor) :=
  let broken := !gap.breaks.isEmpty
  if c.atDocumentMark || c.rest.head? = some '#' then some (text, broken, c)
  else
    match plainPiece flow c.rest with
    | none => none
    | some (piece, _) =>
      let after := c.skip piece.length
      if piece.isEmpty then some (text, broken, c)
      else
        let text := text ++ gap.text ++ piece
        match readGap margin after {} false with
        | none => none
        | some (gap, next) =>
          if gap.blanks.isEmpty && gap.breaks.isEmpty then some (text, false, after)
          else if !flow && next.column < margin then some (text, !gap.breaks.isEmpty, next)
          else if _h : next.rest.length < c.rest.length then readPlain flow margin next text gap
          else none
termination_by c.rest.length

def hexValue? (c : Char) : Option Nat :=
  if c.isDigit then some (c.toNat - '0'.toNat)
  else if 'a' ≤ c ∧ c ≤ 'f' then some (c.toNat - 'a'.toNat + 10)
  else if 'A' ≤ c ∧ c ≤ 'F' then some (c.toNat - 'A'.toNat + 10)
  else none

def hexNumber? (digits : List Char) : Option Nat :=
  digits.foldlM (fun n c => (hexValue? c).map (16 * n + ·)) 0

/-- The character with a code given by exactly so many digits. -/
def hexEscape? (count : Nat) (rest : List Char) : Option (Char × List Char) :=
  if rest.length < count then none
  else
    match hexNumber? (rest.take count) with
    | some n => if n.isValidChar then some (Char.ofNat n, rest.drop count) else none
    | none => none

def escape? : List Char → Option (Char × List Char)
  | '0' :: rest => some ('\x00', rest)
  | 'a' :: rest => some ('\x07', rest)
  | 'b' :: rest => some ('\x08', rest)
  | 't' :: rest | '\t' :: rest => some ('\t', rest)
  | 'n' :: rest => some ('\n', rest)
  | 'v' :: rest => some ('\x0b', rest)
  | 'f' :: rest => some ('\x0c', rest)
  | 'r' :: rest => some ('\r', rest)
  | 'e' :: rest => some ('\x1b', rest)
  | ' ' :: rest => some (' ', rest)
  | '"' :: rest => some ('"', rest)
  | '/' :: rest => some ('/', rest)
  | '\\' :: rest => some ('\\', rest)
  | 'N' :: rest => some ('\x85', rest)
  | '_' :: rest => some ('\xa0', rest)
  | 'L' :: rest => some ('\u2028', rest)
  | 'P' :: rest => some ('\u2029', rest)
  | 'x' :: rest => hexEscape? 2 rest
  | 'u' :: rest => hexEscape? 4 rest
  | 'U' :: rest => hexEscape? 8 rest
  | _ => none

/-- Characters within quotes up to a blank, a break, the closing quote or the end. -/
structure QuotedPiece where
  text : List Char
  /-- The piece ends with a backslash before a break. -/
  escapedBreak : Bool
  rest : List Char

def QuotedPiece.cons (x : Char) (p : QuotedPiece) : QuotedPiece := { p with text := x :: p.text }

/-- A quote within single quotes is written twice. -/
def singlePiece : List Char → QuotedPiece
  | '\'' :: '\'' :: rest => (singlePiece rest).cons '\''
  | [] => ⟨[], false, []⟩
  | x :: rest =>
    if x = '\'' || isSpacing x then ⟨[], false, x :: rest⟩ else (singlePiece rest).cons x

def doublePiece (rest : List Char) : Option QuotedPiece :=
  match rest with
  | [] => some ⟨[], false, []⟩
  | '\\' :: rest =>
    if rest.head?.any isBreak then some ⟨[], true, rest⟩
    else
      match escape? rest with
      | none => none
      | some (x, after) =>
        if _h : after.length < rest.length then (doublePiece after).map (·.cons x) else none
  | x :: rest =>
    if x = '"' || isSpacing x then some ⟨[], false, x :: rest⟩ else (doublePiece rest).map (·.cons x)
termination_by rest.length

/-- Reads what stands after the opening quote, and the closing quote. -/
def readQuoted (quote : Char) (c : Cursor) (text : List Char) : Option (List Char × Cursor) :=
  if c.atDocumentMark || c.rest.isEmpty then none
  else
    match if quote = '\'' then some (singlePiece c.rest) else doublePiece c.rest with
    | none => none
    | some piece =>
      let after := c.skip (c.rest.length - piece.rest.length)
      let after := if piece.escapedBreak then after.skipBreak else after
      let text := text ++ piece.text
      if after.rest.head? = some quote then some (text, after.skip 1)
      else
        match readGap 0 after {} piece.escapedBreak with
        | none => none
        | some (gap, next) =>
          let filler := if piece.escapedBreak then gap.breaks else gap.text
          if _h : next.rest.length < c.rest.length then readQuoted quote next (text ++ filler)
          else none
termination_by c.rest.length

/-- The indentation that a digit from 1 to 9 asks for. -/
def indentDigit? (c : Char) : Option Nat :=
  if '1' ≤ c ∧ c ≤ '9' then some (c.toNat - '0'.toNat) else none

/-- What happens to the line breaks at the end of a block. -/
inductive Chomping where
  | strip | clip | keep

def chomping? : Char → Option Chomping
  | '-' => some .strip
  | '+' => some .keep
  | _ => none

/-- The header of a block: chomping and indentation, in either order. -/
def blockHeader (c : Cursor) : Option (Chomping × Option Nat × Cursor) :=
  match c.rest with
  | x :: y :: _ =>
    match chomping? x, indentDigit? x with
    | some chomping, _ =>
      if y = '0' then none
      else
        match indentDigit? y with
        | some n => some (chomping, some n, c.skip 2)
        | none => some (chomping, none, c.skip 1)
    | none, some n =>
      match chomping? y with
      | some chomping => some (chomping, some n, c.skip 2)
      | none => some (.clip, some n, c.skip 1)
    | none, none => if x = '0' then none else some (.clip, none, c)
  | [x] =>
    match chomping? x, indentDigit? x with
    | some chomping, _ => some (chomping, none, c.skip 1)
    | none, some n => some (.clip, some n, c.skip 1)
    | none, none => if x = '0' then none else some (.clip, none, c)
  | [] => some (.clip, none, c)

/-- Passes over the blanks that indent a line, at most `indent` columns if it is known. -/
def skipIndent (indent : Option Nat) (c : Cursor) : Cursor :=
  let blanks := (c.rest.takeWhile (· = ' ')).length
  c.skip (match indent with
    | some n => min blanks (n - c.column)
    | none => blanks)

/-- Reads empty lines and indents the line after them. An indentation that is not known yet is that of the longest
line so far, but at least `least`. -/
def readEmptyLines (least : Nat) (indent : Option Nat) (longest : Nat) (c : Cursor) (breaks : List Char) :
    Option (Nat × List Char × Cursor) :=
  let c' := skipIndent indent c
  let longest := max longest c'.column
  let settled := indent.getD (max longest least)
  match c'.rest with
  | [] => some (settled, breaks, c')
  | x :: _ =>
    if x = '\t' && indent.all (c'.column < ·) then none
    else if isBreak x then
      if _h : c'.skipBreak.rest.length < c.rest.length then
        readEmptyLines least indent longest c'.skipBreak (breaks ++ [breakChar x])
      else none
    else some (settled, breaks, c')
termination_by c.rest.length

structure BlockText where
  text : List Char := []
  /-- The break after the last line. -/
  lastBreak : List Char := []
  /-- The breaks of the empty lines after that. -/
  emptyLines : List Char := []
  /-- The last line begins with a blank. -/
  blankLine : Bool := false

/-- The text of a block with its next line. In a folded block a break between two lines that begin with no blank
becomes a blank, or disappears before empty lines. -/
def BlockText.addLine (literal : Bool) (b : BlockText) (line lineBreak : List Char) : BlockText :=
  let blankLine := line.head?.any isBlank
  let joint :=
    if !literal && b.lastBreak.head? = some '\n' && !b.blankLine && !blankLine then
      if b.emptyLines.isEmpty then [' '] else []
    else b.lastBreak
  { text := b.text ++ joint ++ b.emptyLines ++ line, lastBreak := lineBreak, emptyLines := [], blankLine }

def BlockText.chomp (b : BlockText) : Chomping → List Char
  | .strip => b.text
  | .clip => b.text ++ b.lastBreak
  | .keep => b.text ++ b.lastBreak ++ b.emptyLines

/-- Reads the lines of a block that are indented so far. -/
def readLines (literal : Bool) (indent : Nat) (c : Cursor) (b : BlockText) : Option (BlockText × Cursor) :=
  if c.column ≠ indent || c.rest.isEmpty then some (b, c)
  else
    let line := c.rest.takeWhile (!isBreak ·)
    let after := c.skip line.length
    let lineBreak := (after.rest.head?.map breakChar).toList
    match readEmptyLines 0 (some indent) 0 after.skipBreak [] with
    | none => none
    | some (_, emptyLines, next) =>
      let b := { b.addLine literal line lineBreak with emptyLines }
      if _h : next.rest.length < c.rest.length then readLines literal indent next b else none
termination_by c.rest.length

/-- Reads a block whose mark has been passed; `margin` is the column after that of the enclosing block, or zero. -/
def readBlock (literal : Bool) (margin : Nat) (c : Cursor) : Option (List Char × Cursor) := do
  let (chomping, step, c) ← blockHeader c
  let c ← c.skipComment.lineEnd?
  let indent := step.map fun n => margin - 1 + n
  let (indent, emptyLines, c) ← readEmptyLines (max margin 1) indent 0 c []
  let (b, c) ← readLines literal indent c { emptyLines }
  return (b.chomp chomping, c)

end ThriftCatalog.Yaml
