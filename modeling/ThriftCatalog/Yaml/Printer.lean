import ThriftCatalog.Json.Printer
import ThriftCatalog.Yaml.CoreSchema
import ThriftCatalog.Yaml.Cursor
import ThriftCatalog.Document.Node

/-! JSON values as YAML texts in block style, two blanks for each level, lists not indented below their key. Lines are
never folded. -/
namespace ThriftCatalog.Yaml

open Document

def isPrintable (c : Char) : Bool :=
  let n := c.toNat
  n = 0xA || (0x20 ≤ n && n ≤ 0x7E) || (0xA0 ≤ n && n ≤ 0xFFFD && n ≠ 0xFEFF) ||
    0x10000 ≤ n

/-- Whether a character that satisfies `p` stands right before one that satisfies `q`. -/
def adjacent (p q : Char → Bool) : List Char → Bool
  | x :: y :: rest => (p x && q y) || adjacent p q (y :: rest)
  | _ => false

/-- Whether a colon stands before a blank, a break or the end. -/
def hasValueMark : List Char → Bool
  | [] => false
  | x :: rest => (x = ':' && atSpacing rest) || hasValueMark rest

def openingMarks : List Char :=
  ['#', ',', '[', ']', '\x7b', '\x7d', '&', '*', '!', '|', '>', '\'', '"', '%', '@', '\x60']

/-- Whether a text would be read as something else than a plain scalar. -/
def hasIndicator (cs : List Char) : Bool :=
  ['-', '-', '-'].isPrefixOf cs || ['.', '.', '.'].isPrefixOf cs || hasValueMark cs ||
    adjacent isSpacing (· = '#') cs ||
    match cs with
    | [] => false
    | x :: rest => openingMarks.contains x || ((x = '?' || x = '-') && atSpacing rest)

def plainAllowed (cs : List Char) : Bool :=
  cs.all isPrintable && !cs.any isBreak && cs.head? ≠ some ' ' && cs.getLast? ≠ some ' ' &&
    !hasIndicator cs

def singleQuotesAllowed (cs : List Char) : Bool :=
  cs.all isPrintable && !adjacent isBreak (· = ' ') cs && !adjacent (· = ' ') isBreak cs

def literalAllowed (cs : List Char) : Bool :=
  cs.all isPrintable && !adjacent (· = ' ') isBreak cs && cs.getLast? ≠ some ' '

def isAmbiguous (s : String) : Bool :=
  match plain s with
  | .text => isZeroPadded s.toList
  | _ => true

/-- How a text is written: plain if it stays the same text, over several lines if it has line feeds. -/
def styleFor (s : String) : ScalarStyle :=
  let cs := s.toList
  if cs.contains '\n' then if literalAllowed cs then .literal else .doubleQuoted
  else if plainAllowed cs && !isAmbiguous s then .plain
  else if singleQuotesAllowed cs then .singleQuoted
  else .doubleQuoted

def blanks (n : Nat) : List Char := List.replicate n ' '

/-- Indents what comes after each run of line breaks; `broken` says that a break came before. -/
def indentLines (indent : Nat) (broken : Bool) : List Char → List Char
  | [] => []
  | x :: rest =>
    if isBreak x then x :: indentLines indent true rest
    else if broken then blanks indent ++ x :: indentLines indent false rest
    else x :: indentLines indent false rest

def singleQuoted (indent : Nat) (cs : List Char) : List Char :=
  let text := indentLines indent false (cs.flatMap fun c => if c = '\'' then ['\'', '\''] else [c])
  let filler := if cs.getLast?.any isBreak then blanks indent else []
  '\'' :: (text ++ filler ++ ['\''])

def escapeLetter? : Char → Option Char
  | '\x00' => some '0'
  | '\x07' => some 'a'
  | '\x08' => some 'b'
  | '\t' => some 't'
  | '\n' => some 'n'
  | '\x0b' => some 'v'
  | '\x0c' => some 'f'
  | '\r' => some 'r'
  | '\x1b' => some 'e'
  | '"' => some '"'
  | '\\' => some '\\'
  | '\x85' => some 'N'
  | '\u2028' => some 'L'
  | '\u2029' => some 'P'
  | _ => none

def hexDigits : Nat → Nat → List Char
  | 0, _ => []
  | count + 1, n => hexDigits count (n / 16) ++ [(Json.hexDigit (n % 16)).toUpper]

def doubleQuotedChar (c : Char) : List Char :=
  match escapeLetter? c with
  | some letter => ['\\', letter]
  | none =>
    let n := c.toNat
    if isPrintable c then [c]
    else if n ≤ 0xFF then '\\' :: 'x' :: hexDigits 2 n
    else if n ≤ 0xFFFF then '\\' :: 'u' :: hexDigits 4 n
    else '\\' :: 'U' :: hexDigits 8 n

def doubleQuoted (cs : List Char) : List Char :=
  '"' :: (cs.flatMap doubleQuotedChar ++ ['"'])

/-- The end of the mark of a literal: how many blanks indent it, where that cannot be seen, and what happens to the
breaks at its end. -/
def literalHints (cs : List Char) : List Char :=
  let step := if cs.head?.any fun c => c = ' ' || isBreak c then ['2'] else []
  let chomping :=
    match cs.reverse with
    | [] => ['-']
    | x :: before =>
      if !isBreak x then ['-']
      else if before.head?.all isBreak then ['+']
      else []
  step ++ chomping

def literal (indent : Nat) (cs : List Char) : List Char :=
  '|' :: (literalHints cs ++ '\n' :: indentLines indent true cs)

def scalarLine (indent : Nat) (s : String) : List Char :=
  let cs := s.toList
  match styleFor s with
  | .plain => cs ++ ['\n']
  | .singleQuoted => singleQuoted indent cs ++ ['\n']
  | .literal => literal indent cs ++ (if cs.getLast?.any isBreak then [] else ['\n'])
  | _ => doubleQuoted cs ++ ['\n']

/-- A key can stand before its colon if it is short and has one line. -/
def isSimpleKey (key : String) : Bool :=
  !key.toList.any isBreak && key.utf8ByteSize ≤ 128

/-- A key up to the place where its value begins, and whether it has a line of its own. -/
def keyChars (column : Nat) (key : String) : List Char :=
  if isSimpleKey key then (scalarLine (column + 2) key).dropLast ++ [':']
  else '?' :: ' ' :: (scalarLine (column + 2) key ++ blanks column ++ [':'])

/-- Whether a value is a collection that takes lines of its own. -/
def takesLines : Json → Bool
  | .array items => !items.isEmpty
  | .object members => !members.isEmpty
  | _ => false

/-- The column of the value of a key. A list stands below its key, anything else further right. -/
def valueColumn (column : Nat) (key : String) (v : Json) : Nat :=
  match v with
  | .array _ => if isSimpleKey key && takesLines v then column else column + 2
  | _ => column + 2

/-- What stands between the colon of a key and its value. -/
def valueGap (column : Nat) (key : String) (v : Json) : List Char :=
  if isSimpleKey key && takesLines v then '\n' :: blanks (valueColumn column key v) else [' ']

mutual

def valueChars (column : Nat) : Json → List Char
  | .array [] => ['[', ']', '\n']
  | .object [] => ['\x7b', '\x7d', '\n']
  | .array (v :: vs) => '-' :: ' ' :: (valueChars (column + 2) v ++ itemLines column vs)
  | .object ((k, v) :: ms) =>
    keyChars column k ++ valueGap column k v ++ valueChars (valueColumn column k v) v ++
      memberLines column ms
  | .string s => scalarLine column s
  | v => v.chars ++ ['\n']

def itemLines (column : Nat) : List Json → List Char
  | [] => []
  | v :: vs =>
    blanks column ++ '-' :: ' ' :: (valueChars (column + 2) v ++ itemLines column vs)

def memberLines (column : Nat) : List (String × Json) → List Char
  | [] => []
  | (k, v) :: ms =>
    blanks column ++ keyChars column k ++ valueGap column k v ++
      valueChars (valueColumn column k v) v ++ memberLines column ms

end

def print (j : Json) : String := String.ofList (valueChars 0 j)

end ThriftCatalog.Yaml
