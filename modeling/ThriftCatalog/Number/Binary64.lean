/-! Finite binary64 numbers as a sign, a significand and an exponent of two, and the nearest one to a rational. -/
namespace ThriftCatalog

/-- The number `significand * 2 ^ exponent`, with a sign that zero keeps too. The significand has 53 bits unless
the exponent is the least one. -/
structure Binary64 where
  negative : Bool := false
  significand : Nat
  exponent : Int
deriving DecidableEq, Repr

namespace Binary64

/-- The least significand of 53 bits. -/
def leastNormal : Nat := 0x10000000000000

def minExponent : Int := -1074

def maxExponent : Int := 971

def magnitude (x : Binary64) : Rat := x.significand * (2 : Rat) ^ x.exponent

def zero : Binary64 := ⟨false, 0, minExponent⟩

def isZero (x : Binary64) : Bool := x.significand = 0

def withSign (x : Binary64) (negative : Bool) : Binary64 := { x with negative }

/-- The nearest integer, a half going to the even neighbour. -/
def nearestEven (a : Rat) : Int :=
  let below := a.floor
  let gap := a - below
  if gap < 1 / 2 || (gap = 1 / 2 && below % 2 = 0) then below else below + 1

/-- The greatest power of two that is at most a positive rational. -/
def floorLog (a : Rat) : Int :=
  let guess := (a.num.natAbs.log2 : Int) - a.den.log2
  if (2 : Rat) ^ guess ≤ a then guess else guess - 1

/-- The nearest number to a rational that is not negative, ties to the even significand. There is none if rounding
leads beyond the greatest finite number. -/
def ofRat? (a : Rat) : Option Binary64 :=
  if a = 0 then some zero
  else
    let exponent := max (floorLog a - 52) minExponent
    let significand := (nearestEven (a * (2 : Rat) ^ (-exponent))).toNat
    let x : Binary64 :=
      if significand = 2 * leastNormal then ⟨false, leastNormal, exponent + 1⟩
      else ⟨false, significand, exponent⟩
    if x.exponent ≤ maxExponent then some x else none

/-- The greatest power of ten that is finite is `10 ^ 308`. -/
def maxPowerOfTen : Nat := 308

def powerOfTen? (k : Nat) : Option Binary64 := ofRat? ((10 : Rat) ^ k)

/-- The product of the magnitudes, rounded once. -/
def mul? (x y : Binary64) : Option Binary64 := ofRat? (x.magnitude * y.magnitude)

/-- The quotient of the magnitudes, rounded once. -/
def div? (x y : Binary64) : Option Binary64 := ofRat? (x.magnitude / y.magnitude)

/-- The nearest number to `m * 10 ^ e`. Far beyond the range the power of ten is not computed. -/
def ofDecimal? (m : Nat) (e : Int) : Option Binary64 :=
  let top := e + (toString m).length
  if m = 0 ∨ top < -330 then some zero
  else if 310 < top then none
  else ofRat? (m * (10 : Rat) ^ e)

end Binary64

end ThriftCatalog
