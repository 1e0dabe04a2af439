import ThriftCatalog.Json.Basic

/-! Numerals: the text of a number, split into its parts, and the number it means.

The leading digits that fit 64 bits are the significand; the others only move the point. A float is the nearest one
to the significand, multiplied or divided once by the float nearest to a power of ten. -/
namespace ThriftCatalog.Json

/-- A numeral by its parts; digits are values, not characters. -/
structure Numeral where
  negative : Bool
  whole : List Nat
  fraction : Option (List Nat)
  exponent : Option (Bool × List Nat)
deriving DecidableEq, Repr

namespace Numeral

def digit (c : Char) : Nat := c.toNat - '0'.toNat

def digits (cs : List Char) : List Nat × List Char :=
  ((cs.takeWhile Char.isDigit).map digit, cs.dropWhile Char.isDigit)

def scanSign : List Char → Bool × List Char
  | '-' :: cs => (true, cs)
  | cs => (false, cs)

/-- A single zero, or digits that do not begin with one. -/
def scanWhole? (cs : List Char) : Option (List Nat × List Char) :=
  match cs with
  | '0' :: rest => some ([0], rest)
  | _ =>
    match digits cs with
    | ([], _) => none
    | found => some found

/-- Nothing, or a point with at least one digit after it. -/
def scanFraction? (cs : List Char) : Option (Option (List Nat) × List Char) :=
  match cs with
  | '.' :: rest =>
    match digits rest with
    | ([], _) => none
    | (ds, rest) => some (some ds, rest)
  | _ => some (none, cs)

/-- Nothing, or the mark of an exponent, a sign or none, and at least one digit. -/
def scanExponent? (cs : List Char) : Option (Option (Bool × List Nat) × List Char) :=
  match cs with
  | c :: rest =>
    if c = 'e' ∨ c = 'E' then
      let (negative, rest) :=
        match rest with
        | '+' :: rest => (false, rest)
        | '-' :: rest => (true, rest)
        | _ => (false, rest)
      match digits rest with
      | ([], _) => none
      | (ds, rest) => some (some (negative, ds), rest)
    else some (none, cs)
  | [] => some (none, cs)

def scan? (cs : List Char) : Option (Numeral × List Char) := do
  let (negative, cs) := scanSign cs
  let (whole, cs) ← scanWhole? cs
  let (fraction, cs) ← scanFraction? cs
  let (exponent, cs) ← scanExponent? cs
  return (⟨negative, whole, fraction, exponent⟩, cs)

/-- The digits that a significand can take up, followed by those it cannot. -/
def absorb (significand : Nat) : List Nat → Nat × List Nat
  | [] => (significand, [])
  | d :: ds =>
    if (10 * significand + d : Nat) ≤ maxInteger then absorb (10 * significand + d) ds
    else (significand, d :: ds)

/-- Divides by a power of ten, in steps of the greatest finite one. -/
def scaleDown (x : Binary64) (k : Nat) : Option Binary64 :=
  if x.isZero then some x
  else if k ≤ Binary64.maxPowerOfTen then do x.div? (← Binary64.powerOfTen? k)
  else do
    let x ← x.div? (← Binary64.powerOfTen? Binary64.maxPowerOfTen)
    scaleDown x (k - Binary64.maxPowerOfTen)
termination_by k
decreasing_by simp [Binary64.maxPowerOfTen] at *; omega

/-- The float for a significand and a power of ten; there is none beyond the finite range. -/
def toFloat? (significand : Nat) (exponent : Int) : Option Binary64 := do
  let x ← Binary64.ofRat? significand
  if exponent < 0 then scaleDown x exponent.natAbs
  else if x.isZero then some x
  else if exponent.natAbs ≤ Binary64.maxPowerOfTen then
    x.mul? (← Binary64.powerOfTen? exponent.natAbs)
  else none

def valueOf (ds : List Nat) : Nat := ds.foldl (fun n d => 10 * n + d) 0

/-- An integer if the numeral has only whole digits and they fit, except that minus zero is a float. -/
def toNumber? (n : Numeral) : Option Number :=
  let (head, unusedWhole) := absorb 0 n.whole
  let (significand, unusedFraction) := absorb head (n.fraction.getD [])
  let used := (n.fraction.getD []).length - unusedFraction.length
  let stated : Int :=
    match n.exponent with
    | none => 0
    | some (negative, ds) => if negative then -(valueOf ds : Int) else valueOf ds
  let isInteger := n.fraction.isNone && n.exponent.isNone && unusedWhole.isEmpty
  if isInteger && !n.negative then some (.integer significand)
  else if isInteger && significand ≠ 0 && (minInteger ≤ -(significand : Int)) then
    some (.integer (-(significand : Int)))
  else
    (toFloat? significand (unusedWhole.length - used + stated)).map
      fun x => .float (x.withSign n.negative)

end Numeral

end ThriftCatalog.Json
