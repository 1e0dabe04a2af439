import Mathlib.Algebra.Order.Field.Power
import Mathlib.Data.Rat.Floor
import Mathlib.Tactic.Linarith
import Mathlib.Tactic.Positivity
import ThriftCatalog.Number.Binary64

/-! How far rounding to binary64 leads from a rational, and from which magnitude on it leads beyond the greatest finite
number. -/
namespace ThriftCatalog.Binary64

variable {a : Rat} {x : Binary64}

/-- Within the range of finite numbers; the significand need not be the greatest possible. -/
structure Finite (x : Binary64) : Prop where
  significand_lt : x.significand < 2 * leastNormal
  exponent_le : x.exponent ≤ maxExponent

theorem magnitude_nonneg (x : Binary64) : 0 ≤ x.magnitude := by
  unfold magnitude
  positivity

theorem nearestEven_le (a : Rat) : (nearestEven a : Rat) ≤ a + 1 / 2 := by
  have below := Rat.floor_le a
  unfold nearestEven
  dsimp only
  split
  · linarith
  · next far =>
    have half : ¬ a - a.floor < 1 / 2 := fun near => far (Bool.or_eq_true _ _ ▸ .inl (decide_eq_true near))
    push_cast
    linarith

theorem le_nearestEven (a : Rat) : a ≤ nearestEven a + 1 / 2 := by
  have above : a - 1 < a.floor := Rat.lt_floor
  unfold nearestEven
  dsimp only
  split
  · next near =>
    have half : a - a.floor ≤ 1 / 2 := by
      simp only [Bool.or_eq_true, Bool.and_eq_true, decide_eq_true_eq] at near
      rcases near with less | ⟨tie, -⟩ <;> linarith
    linarith
  · push_cast
    linarith

theorem floor_le_nearestEven (a : Rat) : a.floor ≤ nearestEven a := by
  unfold nearestEven
  dsimp only
  split <;> omega

theorem natAbs_num (nonneg : 0 ≤ a) : (a.num.natAbs : Rat) = a.num := by
  rw [← Int.cast_natCast, Int.natAbs_of_nonneg (Rat.num_nonneg.mpr nonneg)]

theorem two_zpow_mul (i j : Int) : (2 : Rat) ^ i * 2 ^ j = 2 ^ (i + j) := (zpow_add₀ two_ne_zero i j).symm

/-- The guess from the lengths of numerator and denominator is too high by one at most. -/
theorem floorLog_bounds (positive : 0 < a) : (2 : Rat) ^ floorLog a ≤ a ∧ a < 2 ^ (floorLog a + 1) := by
  have den : (0 : Rat) < a.den := by exact_mod_cast a.den_pos
  have num : a.num.natAbs ≠ 0 := by simpa using (Rat.num_pos.mpr positive).ne'
  have quotient : a * a.den = a.num.natAbs := by rw [Rat.mul_den_eq_num, natAbs_num positive.le]
  set p := a.num.natAbs.log2
  set q := a.den.log2
  set guess : Int := p - q with hguess
  have numLow : (2 : Rat) ^ p ≤ a.num.natAbs := by exact_mod_cast Nat.log2_self_le num
  have numHigh : (a.num.natAbs : Rat) < 2 ^ (p + 1) := by exact_mod_cast Nat.lt_log2_self
  have denLow : (2 : Rat) ^ q ≤ a.den := by exact_mod_cast Nat.log2_self_le a.den_nz
  have denHigh : (a.den : Rat) < 2 ^ (q + 1) := by exact_mod_cast Nat.lt_log2_self
  have above : a < 2 ^ (guess + 1) := by
    refine lt_of_mul_lt_mul_right ?_ den.le
    calc a * a.den < 2 ^ ((p : Int) + 1) := by rw [quotient]; exact_mod_cast numHigh
      _ = 2 ^ (guess + 1) * 2 ^ (q : Int) := by rw [two_zpow_mul]; congr 1; omega
      _ ≤ 2 ^ (guess + 1) * a.den := by gcongr; exact_mod_cast denLow
  have below : 2 ^ (guess - 1) ≤ a := by
    refine le_of_mul_le_mul_right ?_ den
    calc (2 : Rat) ^ (guess - 1) * a.den ≤ 2 ^ (guess - 1) * 2 ^ ((q : Int) + 1) := by
          gcongr; exact_mod_cast denHigh.le
      _ = 2 ^ (p : Int) := by rw [two_zpow_mul]; congr 1; omega
      _ ≤ a * a.den := by rw [quotient]; exact_mod_cast numLow
  unfold floorLog
  dsimp only
  split
  · next reached => exact ⟨reached, above⟩
  · next missed =>
    rw [sub_add_cancel]
    exact ⟨below, not_le.mp missed⟩

def gridExponent (a : Rat) : Int := max (floorLog a - 52) minExponent

def gridPoint (a : Rat) : Int := nearestEven (a * 2 ^ (-gridExponent a))

def rounded (a : Rat) : Binary64 :=
  if (gridPoint a).toNat = 2 * leastNormal then ⟨false, leastNormal, gridExponent a + 1⟩
  else ⟨false, (gridPoint a).toNat, gridExponent a⟩

theorem ofRat?_eq (positive : 0 < a) :
    ofRat? a = if (rounded a).exponent ≤ maxExponent then some (rounded a) else none := by
  rw [ofRat?, if_neg positive.ne']
  rfl

theorem scaled_mul (a : Rat) (i : Int) : a * 2 ^ (-i) * 2 ^ i = a := by
  rw [mul_assoc, two_zpow_mul, neg_add_cancel, zpow_zero, mul_one]

theorem scaled_lt (positive : 0 < a) : a * 2 ^ (-gridExponent a) < 2 * leastNormal := by
  have high : floorLog a + 1 ≤ gridExponent a + 53 := by
    unfold gridExponent
    omega
  have steps : (2 * leastNormal : Rat) = 2 ^ (53 : Int) := by norm_num [leastNormal]
  refine lt_of_mul_lt_mul_right ?_ (zpow_pos two_pos (gridExponent a)).le
  calc a * 2 ^ (-gridExponent a) * 2 ^ gridExponent a = a := scaled_mul a _
    _ < 2 ^ (floorLog a + 1) := (floorLog_bounds positive).2
    _ ≤ 2 ^ (gridExponent a + 53) := zpow_le_zpow_right₀ one_le_two high
    _ = 2 * leastNormal * 2 ^ gridExponent a := by rw [steps, two_zpow_mul, add_comm]

theorem gridPoint_nonneg (positive : 0 < a) : 0 ≤ gridPoint a := by
  have scaled : 0 ≤ a * 2 ^ (-gridExponent a) := (mul_pos positive (zpow_pos two_pos _)).le
  have floor : 0 ≤ (a * 2 ^ (-gridExponent a)).floor := Rat.le_floor_iff.mpr (by exact_mod_cast scaled)
  exact floor.trans (floor_le_nearestEven _)

theorem gridPoint_le (positive : 0 < a) : gridPoint a ≤ 2 * leastNormal := by
  have near := nearestEven_le (a * 2 ^ (-gridExponent a))
  have small := scaled_lt positive
  have less : (gridPoint a : Rat) < (2 * leastNormal + 1 : Int) := by
    push_cast
    unfold gridPoint
    linarith
  exact Int.lt_add_one_iff.mp (Int.cast_lt.mp less)

theorem rounded_significand_lt (positive : 0 < a) : (rounded a).significand < 2 * leastNormal := by
  have bound := gridPoint_le positive
  unfold rounded
  split
  · exact (by decide : leastNormal < 2 * leastNormal)
  · dsimp only
    omega

theorem rounded_magnitude (positive : 0 < a) : (rounded a).magnitude = gridPoint a * 2 ^ gridExponent a := by
  have cast : (((gridPoint a).toNat : Nat) : Rat) = gridPoint a := by
    exact_mod_cast Int.toNat_of_nonneg (gridPoint_nonneg positive)
  unfold rounded
  split
  · next top =>
    rw [← cast, top, magnitude, zpow_add_one₀ two_ne_zero]
    push_cast
    ring
  · rw [magnitude, cast]

/-- A rational is at most half a grid step above what it is rounded to. -/
theorem le_rounded (positive : 0 < a) : a ≤ ((rounded a).significand + 1 / 2) * 2 ^ (rounded a).exponent := by
  have cast : (((gridPoint a).toNat : Nat) : Rat) = gridPoint a := by
    exact_mod_cast Int.toNat_of_nonneg (gridPoint_nonneg positive)
  have near : a ≤ (gridPoint a + 1 / 2) * 2 ^ gridExponent a := by
    calc a = a * 2 ^ (-gridExponent a) * 2 ^ gridExponent a := (scaled_mul a _).symm
      _ ≤ (gridPoint a + 1 / 2) * 2 ^ gridExponent a := by
        gcongr
        exact le_nearestEven _
  refine near.trans ?_
  unfold rounded
  split
  · next top =>
    have step : (0 : Rat) < 2 ^ gridExponent a := zpow_pos two_pos _
    rw [← cast, top, zpow_add_one₀ two_ne_zero]
    push_cast
    linarith
  · rw [cast]

/-- From one on, a number is rounded up by a small part of itself only, and not below one. -/
theorem rounded_bounds (large : 1 ≤ a) : 1 ≤ (rounded a).magnitude ∧ (rounded a).magnitude ≤ a * (1 + 1 / 2 ^ 53) := by
  have positive : 0 < a := one_pos.trans_le large
  obtain ⟨low, high⟩ := floorLog_bounds positive
  have exponent : 0 ≤ floorLog a := by
    have less : (2 : Rat) ^ (0 : Int) < 2 ^ (floorLog a + 1) := by
      rw [zpow_zero]
      exact large.trans_lt high
    have := (zpow_lt_zpow_iff_right₀ one_lt_two).mp less
    omega
  have grid : gridExponent a = floorLog a - 52 := max_eq_left (by unfold minExponent; omega)
  have step : (0 : Rat) < 2 ^ gridExponent a := zpow_pos two_pos _
  have power : (2 : Rat) ^ floorLog a = 2 ^ 52 * 2 ^ gridExponent a := by
    have nat : (2 : Rat) ^ 52 = 2 ^ (52 : Int) := rfl
    rw [nat, two_zpow_mul, grid, add_sub_cancel]
  rw [rounded_magnitude positive]
  constructor
  · have point : (2 ^ 52 : Int) ≤ gridPoint a := by
      refine le_trans ?_ (floor_le_nearestEven _)
      refine Rat.le_floor_iff.mpr (le_of_mul_le_mul_right ?_ step)
      rw [scaled_mul, Int.cast_pow, Int.cast_ofNat, ← power]
      exact low
    calc (1 : Rat) ≤ 2 ^ floorLog a := one_le_zpow₀ one_le_two exponent
      _ = 2 ^ 52 * 2 ^ gridExponent a := power
      _ ≤ gridPoint a * 2 ^ gridExponent a := by
        gcongr
        exact_mod_cast point
  · have near : (gridPoint a : Rat) ≤ a * 2 ^ (-gridExponent a) + 1 / 2 := nearestEven_le _
    calc gridPoint a * 2 ^ gridExponent a ≤ (a * 2 ^ (-gridExponent a) + 1 / 2) * 2 ^ gridExponent a := by gcongr
      _ = a + 2 ^ gridExponent a / 2 := by rw [add_mul, scaled_mul]; ring
      _ ≤ a * (1 + 1 / 2 ^ 53) := by linarith

/-- From here on numbers are rounded beyond the greatest finite one. -/
def overflow : Rat := (2 * leastNormal - 1 / 2) * 2 ^ maxExponent

theorem rounded_exponent_le (positive : 0 < a) (small : a < overflow) : (rounded a).exponent ≤ maxExponent := by
  have steps : (2 * leastNormal : Rat) = 2 ^ (53 : Int) := by norm_num [leastNormal]
  have exponent : gridExponent a ≤ maxExponent := by
    have less : (2 : Rat) ^ floorLog a < 2 ^ (53 + maxExponent) := by
      calc (2 : Rat) ^ floorLog a ≤ a := (floorLog_bounds positive).1
        _ < overflow := small
        _ ≤ 2 * leastNormal * 2 ^ maxExponent := by
          unfold overflow
          gcongr
          linarith
        _ = 2 ^ (53 + maxExponent) := by rw [steps, two_zpow_mul]
    have := (zpow_lt_zpow_iff_right₀ one_lt_two).mp less
    unfold gridExponent maxExponent minExponent at *
    omega
  unfold rounded
  split
  · next top =>
    refine Int.add_one_le_iff.mpr (lt_of_le_of_ne exponent fun same => ?_)
    have near : (gridPoint a : Rat) ≤ a * 2 ^ (-gridExponent a) + 1 / 2 := nearestEven_le _
    have cast : (gridPoint a : Rat) = 2 * leastNormal := by
      have top : gridPoint a = (2 * leastNormal : Nat) := by
        rw [← top, Int.toNat_of_nonneg (gridPoint_nonneg positive)]
      rw [top]
      push_cast
      rfl
    have scaled : a * 2 ^ (-gridExponent a) < 2 * leastNormal - 1 / 2 := by
      refine lt_of_mul_lt_mul_right ?_ (zpow_pos two_pos (gridExponent a)).le
      rw [scaled_mul, same]
      exact small
    linarith
  · exact exponent

theorem ofRat?_isSome (nonneg : 0 ≤ a) (small : a < overflow) : ∃ x, ofRat? a = some x := by
  rcases nonneg.eq_or_lt with zero | positive
  · exact ⟨_, if_pos zero.symm⟩
  · rw [ofRat?_eq positive, if_pos (rounded_exponent_le positive small)]
    exact ⟨_, rfl⟩

theorem ofRat?_eq_some (positive : 0 < a) (found : ofRat? a = some x) :
    x = rounded a ∧ (rounded a).exponent ≤ maxExponent := by
  rw [ofRat?_eq positive] at found
  split at found
  · next fits => exact ⟨(Option.some.inj found).symm, fits⟩
  · contradiction

theorem ofRat?_finite (nonneg : 0 ≤ a) (found : ofRat? a = some x) : x.Finite := by
  rcases nonneg.eq_or_lt with rfl | positive
  · rw [ofRat?, if_pos rfl] at found
    obtain rfl := Option.some.inj found
    exact ⟨by decide, by decide⟩
  · obtain ⟨rfl, fits⟩ := ofRat?_eq_some positive found
    exact ⟨rounded_significand_lt positive, fits⟩

theorem le_of_ofRat? (nonneg : 0 ≤ a) (found : ofRat? a = some x) : a ≤ (x.significand + 1 / 2) * 2 ^ x.exponent := by
  rcases nonneg.eq_or_lt with rfl | positive
  · positivity
  · obtain ⟨rfl, -⟩ := ofRat?_eq_some positive found
    exact le_rounded positive

theorem ofRat?_bounds (large : 1 ≤ a) (found : ofRat? a = some x) :
    1 ≤ x.magnitude ∧ x.magnitude ≤ a * (1 + 1 / 2 ^ 53) := by
  obtain ⟨rfl, -⟩ := ofRat?_eq_some (one_pos.trans_le large) found
  exact rounded_bounds large

end ThriftCatalog.Binary64
