import ThriftCatalog.Number.Binary64

/-! The fewest decimal digits that read back to a binary64 number. On the grid of each power of ten, coarsest first,
only the two neighbours of the number can be the nearest point, so the search tries those. -/
namespace ThriftCatalog

/-- The number `digits * 10 ^ exponent`. -/
structure Decimal where
  digits : Nat
  exponent : Int
deriving DecidableEq, Repr

namespace Decimal

def value (d : Decimal) : Rat := d.digits * (10 : Rat) ^ d.exponent

/-- Moves factors of ten from the digits into the exponent. -/
def strip (d : Decimal) : Decimal :=
  if h : 0 < d.digits ∧ d.digits % 10 = 0 then strip ⟨d.digits / 10, d.exponent + 1⟩ else d
termination_by d.digits
decreasing_by exact Nat.div_lt_self h.1 (by decide)

end Decimal

namespace Binary64

def NearestTo (x : Binary64) (a : Rat) : Prop := ofRat? a = some (x.withSign false)

instance (x : Binary64) (a : Rat) : Decidable (x.NearestTo a) :=
  inferInstanceAs (Decidable (_ = _))

/-- The least power of ten above the magnitude of a number that is not zero. -/
def decimalMagnitude (x : Binary64) : Int :=
  -- the logarithm of two is a little above 30102 / 100000
  let guess := (floorLog x.magnitude * 30103) / 100000
  if x.magnitude < (10 : Rat) ^ (guess - 1) then guess - 1
  else if x.magnitude < (10 : Rat) ^ guess then guess
  else if x.magnitude < (10 : Rat) ^ (guess + 1) then guess + 1
  else guess + 2

/-- The point of a grid of powers of ten that reads back to the number: the nearer of its two neighbours, the even
one if both are as near. -/
def onGrid? (x : Binary64) (exponent : Int) : Option Decimal :=
  let scaled := x.magnitude * (10 : Rat) ^ (-exponent)
  let lower : Decimal := ⟨scaled.floor.toNat, exponent⟩
  let upper : Decimal := ⟨scaled.floor.toNat + 1, exponent⟩
  let readsBack (d : Decimal) : Bool := 0 < d.digits ∧ x.NearestTo d.value
  match readsBack lower, readsBack upper with
  | true, true =>
    if nearestEven scaled = scaled.floor then some lower else some upper
  | true, false => some lower
  | false, true => some upper
  | false, false => none

/-- The fewest digits that read back; seventeen are always enough. -/
def shortest (x : Binary64) : Decimal :=
  if x.isZero then ⟨0, 0⟩
  else
    let top := x.decimalMagnitude
    match (List.range 17).findSome? fun n => x.onGrid? (top - (n + 1 : Nat)) with
    | some d => d.strip
    | none => ⟨x.magnitude.num.natAbs * Nat.pow 5 x.magnitude.den.log2, -(x.magnitude.den.log2 : Int)⟩

end Binary64

end ThriftCatalog
