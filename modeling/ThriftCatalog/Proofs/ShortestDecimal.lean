import Mathlib.Data.Nat.Prime.Basic
import ThriftCatalog.Number.Shortest
import ThriftCatalog.Proofs.Rounding

/-! The shortest decimal of a binary64 number that is not zero has digits that mean something, and is rounded to the
number or is its exact value. -/
namespace ThriftCatalog

namespace Decimal

variable {d : Decimal}

theorem strip_value (d : Decimal) : d.strip.value = d.value := by
  induction d using strip.induct with
  | case1 d divisible ih =>
    rw [strip, dif_pos divisible, ih]
    have digits : ((d.digits / 10 : Nat) : Rat) * 10 = d.digits := by
      exact_mod_cast Nat.div_mul_cancel (Nat.dvd_of_mod_eq_zero divisible.2)
    rw [value, value, ← digits, zpow_add_one₀ (by norm_num)]
    ring
  | case2 d other => rw [strip, dif_neg other]

theorem strip_digits_pos (positive : 0 < d.digits) : 0 < d.strip.digits := by
  induction d using strip.induct with
  | case1 d divisible ih =>
    rw [strip, dif_pos divisible]
    apply ih
    have := divisible.2
    dsimp only
    omega
  | case2 d other => rwa [strip, dif_neg other]

end Decimal

namespace Binary64

variable {x : Binary64} {exponent : Int} {d : Decimal}

/-- A decimal that is found on a grid reads back to the number. -/
theorem onGrid?_eq_some (found : x.onGrid? exponent = some d) : 0 < d.digits ∧ x.NearestTo d.value := by
  unfold onGrid? at found
  dsimp only at found
  have kept {lower upper : Decimal} {even : Prop} [Decidable even]
      (either : (if even then some lower else some upper) = some d)
      (first : decide (0 < lower.digits ∧ x.NearestTo lower.value) = true)
      (second : decide (0 < upper.digits ∧ x.NearestTo upper.value) = true) : 0 < d.digits ∧ x.NearestTo d.value := by
    split at either
    · exact Option.some.inj either ▸ of_decide_eq_true first
    · exact Option.some.inj either ▸ of_decide_eq_true second
  split at found
  · next lower upper => exact kept found lower upper
  · next lower upper => exact Option.some.inj found ▸ of_decide_eq_true lower
  · next lower upper => exact Option.some.inj found ▸ of_decide_eq_true upper
  · contradiction

/-- The denominator of a number is a power of two. -/
theorem magnitude_den (x : Binary64) : 2 ^ x.magnitude.den.log2 = x.magnitude.den := by
  obtain ⟨numerator, n, same⟩ : ∃ (numerator : Int) (n : Nat), x.magnitude = Rat.divInt numerator (2 ^ n) := by
    rcases Int.eq_nat_or_neg x.exponent with ⟨n, up | down⟩
    · refine ⟨x.significand * 2 ^ n, 0, ?_⟩
      rw [magnitude, up, Rat.divInt_eq_div]
      push_cast
      simp
    · refine ⟨x.significand, n, ?_⟩
      rw [magnitude, down, Rat.divInt_eq_div]
      push_cast
      rw [zpow_neg, zpow_natCast, div_eq_mul_inv]
  have divides : x.magnitude.den ∣ 2 ^ n := by
    have := Rat.den_dvd numerator (2 ^ n)
    rw [← same] at this
    exact_mod_cast this
  obtain ⟨k, -, power⟩ := (Nat.dvd_prime_pow Nat.prime_two).mp divides
  rw [power, Nat.log2_two_pow]

theorem magnitude_pos (nonzero : ¬ x.isZero = true) : 0 < x.magnitude := by
  have significand : 0 < x.significand := Nat.pos_of_ne_zero fun zero => nonzero (decide_eq_true zero)
  unfold magnitude
  positivity

/-- The exact decimal, by moving the denominator into a power of ten. -/
theorem exact_value (x : Binary64) : (⟨x.magnitude.num.natAbs * Nat.pow 5 x.magnitude.den.log2,
    -(x.magnitude.den.log2 : Int)⟩ : Decimal).value = x.magnitude := by
  have denominator : (2 : Rat) ^ x.magnitude.den.log2 = x.magnitude.den := by exact_mod_cast x.magnitude_den
  have ten : (10 : Rat) ^ x.magnitude.den.log2 = 2 ^ x.magnitude.den.log2 * 5 ^ x.magnitude.den.log2 := by
    rw [← mul_pow]
    norm_num
  have five : (5 : Rat) ^ x.magnitude.den.log2 ≠ 0 := by positivity
  rw [Decimal.value, Nat.pow_eq, Nat.cast_mul, Nat.cast_pow, natAbs_num x.magnitude_nonneg, zpow_neg, zpow_natCast,
    ten, denominator]
  calc _ = (x.magnitude.num : Rat) / x.magnitude.den := by push_cast; field_simp
    _ = x.magnitude := Rat.num_div_den _

theorem shortest_spec (nonzero : ¬ x.isZero = true) :
    0 < x.shortest.digits ∧ (x.NearestTo x.shortest.value ∨ x.shortest.value = x.magnitude) := by
  rw [shortest, if_neg nonzero]
  dsimp only
  split
  · next d found =>
    obtain ⟨n, -, onGrid⟩ := List.exists_of_findSome?_eq_some found
    obtain ⟨positive, nearest⟩ := onGrid?_eq_some onGrid
    rw [d.strip_value]
    exact ⟨d.strip_digits_pos positive, .inl nearest⟩
  · refine ⟨Nat.mul_pos ?_ (Nat.pow_pos (by decide)), .inr x.exact_value⟩
    exact Int.natAbs_pos.mpr (Rat.num_pos.mpr (magnitude_pos nonzero)).ne'

end Binary64

end ThriftCatalog
