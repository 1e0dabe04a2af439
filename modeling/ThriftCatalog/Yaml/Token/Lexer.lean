import ThriftCatalog.Yaml.Property

/-! The tokens of a YAML text. Indentation becomes tokens of its own, and a key without a mark is found out when the
colon after it is met: its token is then put in where the key began. -/
namespace ThriftCatalog.Yaml

structure KeyCandidate where
  /-- The number of tokens before it. -/
  position : Nat
  index : Nat
  line : Nat
  column : Nat
  /-- Nothing but a key can stand there. -/
  required : Bool
deriving Repr

structure Lexer where
  cursor : Cursor
  /-- The tokens so far, the last one first. -/
  tokens : List Token := []
  /-- The columns after those where the open block collections stand, the innermost first. -/
  margins : List Nat := []
  /-- The candidate at the present level of brackets. -/
  candidate : Option KeyCandidate := none
  /-- The candidates of the levels around it. -/
  outer : List (Option KeyCandidate) := []
  /-- A key without a mark may begin here. -/
  keyAllowed : Bool := true
deriving Repr

namespace Lexer

/-- A candidate must end on its line and within so many bytes. -/
def maxKeyLength : Nat := 1024

def inFlow (l : Lexer) : Bool := !l.outer.isEmpty

/-- The column after that of the innermost open block collection, or zero. -/
def margin (l : Lexer) : Nat := l.margins.headD 0

def push (l : Lexer) (t : Token) : Lexer := { l with tokens := t :: l.tokens }

/-- Puts a token in behind so many others. -/
def insert (l : Lexer) (position : Nat) (t : Token) : Lexer :=
  let later := l.tokens.length - position
  { l with tokens := l.tokens.take later ++ t :: l.tokens.drop later }

/-- Opens a block collection at a column unless one is open there, its token behind `position` others. -/
def indent (l : Lexer) (column position : Nat) (t : Token) : Lexer :=
  if l.inFlow || column < l.margin then l
  else { l with margins := (column + 1) :: l.margins }.insert position t

/-- How many of the open block collections end when the margin comes down. -/
def closing (margin : Nat) (margins : List Nat) : Nat :=
  (margins.takeWhile (margin < ·)).length

def dedent (l : Lexer) (margin : Nat) : Lexer :=
  if l.inFlow then l
  else
    let n := closing margin l.margins
    { l with margins := l.margins.drop n, tokens := List.replicate n .blockEnd ++ l.tokens }

/-- Gives up the candidate, which must not be required. -/
def dropCandidate (l : Lexer) : Option Lexer :=
  if l.candidate.any (·.required) then none else some { l with candidate := none }

/-- Makes this place the candidate if a key may begin here. -/
def saveCandidate (l : Lexer) : Option Lexer :=
  if l.keyAllowed then do
    let required := !l.inFlow && l.margin = l.cursor.column + 1
    let l ← l.dropCandidate
    return { l with
      candidate := some ⟨l.tokens.length, l.cursor.index, l.cursor.line, l.cursor.column, required⟩ }
  else some l

/-- Whether it is too late for the colon of a candidate. -/
def isStale (c : Cursor) (k : KeyCandidate) : Bool :=
  k.line < c.line || k.index + maxKeyLength < c.index

/-- Forgets the candidates for which it is too late; none of them may be required. -/
def dropStale (l : Lexer) : Option Lexer :=
  let stale := ((l.candidate :: l.outer).filterMap id).filter (isStale l.cursor)
  let keep := fun (k : Option KeyCandidate) => k.filter (!isStale l.cursor ·)
  if stale.any (·.required) then none
  else some { l with candidate := keep l.candidate, outer := l.outer.map keep }

/-- Passes over blanks, comments, line breaks and a byte order mark where a line begins. After a break a key may
begin, except within brackets. -/
def skipSpacing (l : Lexer) : Lexer :=
  match _h : l.cursor.rest with
  | [] => l
  | x :: _ =>
    if x = ' ' || (x = '\t' && (l.inFlow || !l.keyAllowed)) ||
        (x = '\ufeff' && l.cursor.column = 0) then
      skipSpacing { l with cursor := l.cursor.skip 1 }
    else if x = '#' then
      let after := l.cursor.skipWhile (!isBreak ·)
      if _h' : after.rest.length < l.cursor.rest.length then skipSpacing { l with cursor := after }
      else l
    else if isBreak x then
      skipSpacing { l with cursor := l.cursor.skipBreak, keyAllowed := !l.inFlow || l.keyAllowed }
    else l
termination_by l.cursor.rest.length
decreasing_by
  · simp [Cursor.skip, _h]
  · simpa [_h] using _h'
  · exact Cursor.length_skipBreak (by simp [_h])

/-- A token of so many characters that does not depend on what comes after it. -/
def mark (l : Lexer) (width : Nat) (t : Token) (keyAllowed : Bool) : Lexer :=
  { l.push t with cursor := l.cursor.skip width, keyAllowed }

/-- A token read by `read`, at the beginning of which a key may begin. -/
def content (l : Lexer) (read : Option (Token × Cursor)) : Option Lexer := do
  let l ← l.saveCandidate
  let (t, cursor) ← read
  return { l.push t with cursor, keyAllowed := false }

def endBlocks (l : Lexer) : Option Lexer := (l.dedent 0).dropCandidate

def documentMark (l : Lexer) (t : Token) : Option Lexer := do
  return (← l.endBlocks).mark 3 t false

def directive (l : Lexer) : Option Lexer := do
  let l ← l.endBlocks
  let (t, cursor) ← readDirective (l.cursor.skip 1)
  return { l.push t with cursor, keyAllowed := false }

def openFlow (l : Lexer) (t : Token) : Option Lexer := do
  let l ← l.saveCandidate
  return { l.mark 1 t true with candidate := none, outer := l.candidate :: l.outer }

def closeFlow (l : Lexer) (t : Token) : Option Lexer := do
  let l ← l.dropCandidate
  match l.outer with
  | candidate :: outer => return { l.mark 1 t false with candidate, outer }
  | [] => return l.mark 1 t false

def comma (l : Lexer) : Option Lexer := do
  return (← l.dropCandidate).mark 1 .comma true

def openBlock (l : Lexer) (t : Token) : Option Lexer :=
  if l.inFlow then some l
  else if l.keyAllowed then some (l.indent l.cursor.column l.tokens.length t)
  else none

def entry (l : Lexer) : Option Lexer := do
  let l ← l.openBlock .blockSequence
  return (← l.dropCandidate).mark 1 .entry true

def key (l : Lexer) : Option Lexer := do
  let l ← l.openBlock .blockMapping
  return (← l.dropCandidate).mark 1 .key (!l.inFlow)

/-- The colon after a key. If the key had no mark, the token for it is put in now. -/
def value (l : Lexer) : Option Lexer :=
  match l.candidate with
  | some k =>
    let l := (l.insert k.position .key).indent k.column k.position .blockMapping
    some ({ l with candidate := none }.mark 1 .value false)
  | none => do
    let l ← l.openBlock .blockMapping
    return l.mark 1 .value (!l.inFlow)

def block (l : Lexer) (literal : Bool) : Option Lexer := do
  let l ← l.dropCandidate
  let (text, cursor) ← readBlock literal l.margin (l.cursor.skip 1)
  let style := if literal then .literal else .folded
  return { l.push (.scalar (String.ofList text) style) with cursor, keyAllowed := true }

def quoted (l : Lexer) (quote : Char) : Option Lexer :=
  l.content do
    let (text, cursor) ← readQuoted quote (l.cursor.skip 1) []
    let style := if quote = '\'' then .singleQuoted else .doubleQuoted
    return (.scalar (String.ofList text) style, cursor)

def plain (l : Lexer) : Option Lexer := do
  let l ← l.saveCandidate
  let (text, broken, cursor) ← readPlain l.inFlow l.margin l.cursor [] {}
  return { l.push (.scalar (String.ofList text) .plain) with cursor, keyAllowed := broken }

/-- Characters that begin no plain scalar. -/
def indicators : List Char :=
  ['-', '?', ':', ',', '[', ']', '\x7b', '\x7d', '#', '&', '*', '!', '|', '>', '\'', '"', '%', '@', '\x60']

/-- Whether a plain scalar begins with `x` before `rest`. -/
def startsPlain (flow : Bool) (x : Char) (rest : List Char) : Bool :=
  !(isSpacing x || indicators.contains x) ||
    (x = '-' && !rest.head?.any isBlank) ||
    (!flow && (x = '?' || x = ':') && !atSpacing rest)

/-- Reads the token that begins with `x` before `rest`. -/
def readToken (l : Lexer) (x : Char) (rest : List Char) : Option Lexer :=
  if l.cursor.column = 0 && x = '%' then l.directive
  else if l.cursor.atDocumentStart then l.documentMark .documentStart
  else if l.cursor.atDocumentEnd then l.documentMark .documentEnd
  else if x = '[' then l.openFlow .flowSequence
  else if x = '\x7b' then l.openFlow .flowMapping
  else if x = ']' then l.closeFlow .flowSequenceEnd
  else if x = '\x7d' then l.closeFlow .flowMappingEnd
  else if x = ',' then l.comma
  else if x = '-' && atSpacing rest then l.entry
  else if x = '?' && (l.inFlow || atSpacing rest) then l.key
  else if x = ':' && (l.inFlow || atSpacing rest) then l.value
  else if x = '*' then l.content ((readName (l.cursor.skip 1)).map fun (n, c) => (.alias n, c))
  else if x = '&' then l.content ((readName (l.cursor.skip 1)).map fun (n, c) => (.anchor n, c))
  else if x = '!' then l.content (readTag l.inFlow l.cursor)
  else if x = '|' && !l.inFlow then l.block true
  else if x = '>' && !l.inFlow then l.block false
  else if x = '\'' || x = '"' then l.quoted x
  else if startsPlain l.inFlow x rest then l.plain
  else none

def run (l : Lexer) : Option (List Token) :=
  match l.skipSpacing.dropStale with
  | none => none
  | some ready =>
    let ready := ready.dedent (ready.cursor.column + 1)
    match ready.cursor.rest with
    | [] => ready.endBlocks.map fun l => l.tokens.reverse
    | x :: rest =>
      match ready.readToken x rest with
      | none => none
      | some next =>
        if _h : next.cursor.rest.length < l.cursor.rest.length then next.run else none
termination_by l.cursor.rest.length

end Lexer

/-- The tokens of a text, if every character and every token in it is allowed. -/
def Token.ofChars? (cs : List Char) : Option (List Token) :=
  if cs.all isAllowed then Lexer.run { cursor := { rest := cs } } else none

end ThriftCatalog.Yaml
