import ThriftCatalog.Json.Numeral
import ThriftCatalog.Proofs.Rounding

/-! Which numerals are read as floats. Dividing by a power of ten leads to no number beyond the finite range, and
multiplying does not as long as the product stays away from the end of the range, since each of the two factors and the
product are rounded by a small part of themselves. -/
namespace ThriftCatalog

namespace Binary64

variable {x y : Binary64} {k : Nat}

theorem Finite.half_step_le (finite : x.Finite) : (x.significand + 1 / 2) * (2 : Rat) ^ x.exponent ≤ overflow := by
  have significand : (x.significand : Rat) ≤ 2 * leastNormal - 1 := by
    have := finite.significand_lt
    have : (x.significand + 1 : Nat) ≤ ((2 * leastNormal : Nat) : Rat) := by exact_mod_cast this
    push_cast at this
    linarith
  have exponent : (2 : Rat) ^ x.exponent ≤ 2 ^ maxExponent := zpow_le_zpow_right₀ one_le_two finite.exponent_le
  refine mul_le_mul (by linarith) exponent (by positivity) ?_
  norm_num [leastNormal]

theorem Finite.magnitude_lt (finite : x.Finite) : x.magnitude < overflow := by
  refine lt_of_lt_of_le ?_ finite.half_step_le
  unfold magnitude
  gcongr
  linarith

theorem powerOfTen_lt_overflow : (10 : Rat) ^ maxPowerOfTen < overflow := by decide +kernel

theorem overflow_lt_powerOfTen : overflow < (10 : Rat) ^ (maxPowerOfTen + 1) := by decide +kernel

theorem powerOfTen?_isSome (small : k ≤ maxPowerOfTen) : ∃ x, powerOfTen? k = some x := by
  apply ofRat?_isSome (by positivity)
  calc (10 : Rat) ^ k ≤ 10 ^ maxPowerOfTen := pow_le_pow_right₀ (by norm_num) small
    _ < overflow := powerOfTen_lt_overflow

theorem powerOfTen?_bounds (found : powerOfTen? k = some x) :
    1 ≤ x.magnitude ∧ x.magnitude ≤ 10 ^ k * (1 + 1 / 2 ^ 53) :=
  ofRat?_bounds (one_le_pow₀ (by norm_num)) found

theorem div?_isSome (finite : x.Finite) (large : 1 ≤ y.magnitude) : ∃ z, x.div? y = some z ∧ z.Finite := by
  have nonneg : 0 ≤ x.magnitude / y.magnitude := div_nonneg x.magnitude_nonneg y.magnitude_nonneg
  have small : x.magnitude / y.magnitude < overflow :=
    (div_le_self x.magnitude_nonneg large).trans_lt finite.magnitude_lt
  obtain ⟨z, found⟩ := ofRat?_isSome nonneg small
  exact ⟨z, found, ofRat?_finite nonneg found⟩

end Binary64

namespace Json.Numeral

open Binary64

variable {x : Binary64} {k significand : Nat} {exponent : Int}

theorem scaleDown_isSome (finite : x.Finite) (k : Nat) : ∃ y, scaleDown x k = some y := by
  induction x, k using scaleDown.induct with
  | case1 x k zero => exact ⟨x, by rw [scaleDown, if_pos zero]⟩
  | case2 x k nonzero small =>
    obtain ⟨p, power⟩ := powerOfTen?_isSome small
    obtain ⟨z, quotient, -⟩ := div?_isSome finite (powerOfTen?_bounds power).1
    refine ⟨z, ?_⟩
    rw [scaleDown, if_neg nonzero, if_pos small, power]
    exact quotient
  | case3 x k nonzero large ih =>
    obtain ⟨p, power⟩ := powerOfTen?_isSome (Nat.le_refl maxPowerOfTen)
    obtain ⟨z, quotient, finite'⟩ := div?_isSome finite (powerOfTen?_bounds power).1
    obtain ⟨y, rest⟩ := ih z finite'
    refine ⟨y, ?_⟩
    rw [scaleDown, if_neg nonzero, if_neg large, power, Option.bind_eq_bind, Option.bind_some, quotient]
    exact rest

theorem significand_lt (fits : (significand : Int) ≤ maxInteger) :
    (significand : Rat) * (1 + 1 / 2 ^ 53) ^ 2 < overflow := by
  have bound : (significand : Rat) ≤ (maxInteger : Int) := by exact_mod_cast fits
  have small : ((maxInteger : Int) : Rat) * (1 + 1 / 2 ^ 53) ^ 2 < overflow := by decide +kernel
  refine lt_of_le_of_lt ?_ small
  gcongr

/-- A product with a power of ten stays within the range if it does so with room for the rounding of both factors. -/
theorem mul?_isSome {x : Binary64} (read : ofRat? significand = some x) (nonzero : ¬ x.isZero = true)
    (small : significand * (10 : Rat) ^ k * (1 + 1 / 2 ^ 53) ^ 2 < overflow) :
    k ≤ maxPowerOfTen ∧ ∃ p y, powerOfTen? k = some p ∧ x.mul? p = some y := by
  have positive : 1 ≤ significand := by
    rcases Nat.eq_zero_or_pos significand with rfl | positive
    · rw [Nat.cast_zero, ofRat?, if_pos rfl] at read
      obtain rfl := Option.some.inj read
      exact absurd rfl nonzero
    · exact positive
  have large : (1 : Rat) ≤ significand := by exact_mod_cast positive
  have fits : k ≤ maxPowerOfTen := by
    by_contra beyond
    have power : (10 : Rat) ^ (maxPowerOfTen + 1) ≤ 10 ^ k := pow_le_pow_right₀ (by norm_num) (by omega)
    have factor : (1 : Rat) ≤ significand * (1 + 1 / 2 ^ 53) ^ 2 :=
      one_le_mul_of_one_le_of_one_le large (one_le_pow₀ (by norm_num))
    have product : (10 : Rat) ^ k ≤ significand * 10 ^ k * (1 + 1 / 2 ^ 53) ^ 2 := by
      calc (10 : Rat) ^ k = 1 * 10 ^ k := (one_mul _).symm
        _ ≤ significand * (1 + 1 / 2 ^ 53) ^ 2 * 10 ^ k := by gcongr
        _ = significand * 10 ^ k * (1 + 1 / 2 ^ 53) ^ 2 := by ring
    have := overflow_lt_powerOfTen
    linarith
  obtain ⟨p, power⟩ := powerOfTen?_isSome fits
  obtain ⟨-, upper⟩ := ofRat?_bounds large read
  obtain ⟨-, upper'⟩ := powerOfTen?_bounds power
  have product : x.magnitude * p.magnitude < overflow := by
    refine lt_of_le_of_lt ?_ small
    calc x.magnitude * p.magnitude ≤ significand * (1 + 1 / 2 ^ 53) * (10 ^ k * (1 + 1 / 2 ^ 53)) :=
          mul_le_mul upper upper' p.magnitude_nonneg (by positivity)
      _ = significand * 10 ^ k * (1 + 1 / 2 ^ 53) ^ 2 := by ring
  obtain ⟨y, rounded⟩ := ofRat?_isSome (mul_nonneg x.magnitude_nonneg p.magnitude_nonneg) product
  exact ⟨fits, p, y, power, rounded⟩

/-- Where the power of ten is positive, what is read has to stay away from the end of the range. -/
theorem toFloat?_isSome (fits : (significand : Int) ≤ maxInteger)
    (small : exponent ≤ 0 ∨ significand * (10 : Rat) ^ exponent * (1 + 1 / 2 ^ 53) ^ 2 < overflow) :
    ∃ x, toFloat? significand exponent = some x := by
  have start : (significand : Rat) < overflow := by
    refine lt_of_le_of_lt ?_ (significand_lt fits)
    exact le_mul_of_one_le_right (Nat.cast_nonneg significand) (one_le_pow₀ (by norm_num))
  obtain ⟨x, read⟩ := ofRat?_isSome (Nat.cast_nonneg significand) start
  rw [toFloat?, read, Option.bind_eq_bind, Option.bind_some]
  by_cases down : exponent < 0
  · rw [if_pos down]
    exact scaleDown_isSome (ofRat?_finite (Nat.cast_nonneg significand) read) _
  rw [if_neg down]
  by_cases zero : x.isZero = true
  · rw [if_pos zero]
    exact ⟨x, rfl⟩
  have power : significand * (10 : Rat) ^ exponent.natAbs * (1 + 1 / 2 ^ 53) ^ 2 < overflow := by
    rcases small with low | small
    · obtain rfl : exponent = 0 := by omega
      rw [Int.natAbs_zero, pow_zero, mul_one]
      exact significand_lt fits
    · rwa [← zpow_natCast, Int.natAbs_of_nonneg (by omega)]
  obtain ⟨bounded, p, y, found, product⟩ := mul?_isSome read zero power
  rw [if_neg zero, if_pos bounded, found]
  exact ⟨y, product⟩

end Json.Numeral

end ThriftCatalog
