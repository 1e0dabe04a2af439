import ThriftCatalog.Proofs.FloatReading
import ThriftCatalog.Proofs.NumberText

/-! Numbers are read back from their texts: an integer as itself, a float as a float. -/
namespace ThriftCatalog.Json

open Binary64

/-- A number that JSON values can hold: an integer of at most 64 bits or a finite float. -/
def Number.Genuine : Number → Prop
  | .integer n => minInteger ≤ n ∧ n ≤ maxInteger
  | .float x => x.Finite

/-- The same number, up to the digits of a float. -/
inductive Number.Alike : Number → Number → Prop where
  | integer (n : Int) : Alike (.integer n) (.integer n)
  | float (x y : Binary64) : Alike (.float x) (.float y)

namespace Numeral

variable {ds : List Nat} {n : Nat}

/-- Further digits move the ones before them by a power of ten. -/
theorem foldl_eq (ds : List Nat) (n : Nat) :
    ds.foldl (fun n d => 10 * n + d) n = n * 10 ^ ds.length + valueOf ds := by
  induction ds generalizing n with
  | nil => simp [valueOf]
  | cons d ds ih =>
    rw [valueOf, List.foldl_cons, List.foldl_cons, ih, ih (10 * 0 + d), List.length_cons, Nat.pow_succ]
    ring

theorem valueOf_append (ds es : List Nat) : valueOf (ds ++ es) = es.foldl (fun n d => 10 * n + d) (valueOf ds) :=
  List.foldl_append

theorem valueOf_lt (small : ∀ d ∈ ds, d < 10) : valueOf ds < 10 ^ ds.length := by
  induction ds with
  | nil => decide
  | cons d ds ih =>
    obtain ⟨first, rest⟩ := List.forall_mem_cons.mp small
    have tail := ih rest
    rw [valueOf, List.foldl_cons, foldl_eq, List.length_cons, Nat.pow_succ]
    nlinarith

theorem valueOf_toDigits (n : Nat) : valueOf ((Nat.toDigits 10 n).map digit) = n := by
  rw [valueOf, List.foldl_map]
  exact Nat.ofDigitChars_eq_foldl.symm.trans Nat.ofDigitChars_ten_toDigits

/-- A significand takes up all digits if their number fits. -/
theorem absorb_fits (fits : (ds.foldl (fun n d => 10 * n + d) n : Nat) ≤ maxInteger) :
    absorb n ds = (ds.foldl (fun n d => 10 * n + d) n, []) := by
  induction ds generalizing n with
  | nil => rfl
  | cons d ds ih =>
    have least : 10 * n + d ≤ ds.foldl (fun n d => 10 * n + d) (10 * n + d) := by
      rw [foldl_eq]
      exact Nat.le_add_right_of_le (Nat.le_mul_of_pos_right _ (by positivity))
    have first : (10 * n + d : Nat) ≤ maxInteger := Int.le_trans (Int.ofNat_le.mpr least) fits
    rw [absorb, if_pos first]
    exact ih fits

/-- What a significand takes up is not more than all digits, those left out counting as zeros. -/
theorem absorb_le (fits : (n : Int) ≤ maxInteger) (ds : List Nat) : ((absorb n ds).1 : Int) ≤ maxInteger ∧
    (absorb n ds).2.length ≤ ds.length ∧
    (absorb n ds).1 * 10 ^ (absorb n ds).2.length ≤ ds.foldl (fun n d => 10 * n + d) n := by
  induction ds generalizing n with
  | nil => simpa [absorb] using fits
  | cons d ds ih =>
    rw [absorb]
    split
    · next first =>
      obtain ⟨bounded, shorter, less⟩ := ih first
      exact ⟨bounded, Nat.le_succ_of_le shorter, less⟩
    · refine ⟨fits, Nat.le_refl _, ?_⟩
      rw [foldl_eq]
      exact Nat.le_add_right _ _

def stated (n : Numeral) : Int :=
  match n.exponent with
  | none => 0
  | some (negative, ds) => if negative then -(valueOf ds : Int) else valueOf ds

def allDigits (n : Numeral) : List Nat := n.whole ++ n.fraction.getD []

/-- A numeral with a fraction or an exponent, where the whole number fits a significand, is read as a float. -/
theorem toNumber?_marked {n : Numeral} (marked : n.fraction.isSome = true ∨ n.exponent.isSome = true)
    (whole : (valueOf n.whole : Int) ≤ maxInteger) : ∃ (significand left : Nat),
      (significand : Int) ≤ maxInteger ∧ left ≤ (n.fraction.getD []).length ∧
      significand * 10 ^ left ≤ valueOf n.allDigits ∧
      n.toNumber? = (toFloat? significand (left - (n.fraction.getD []).length + n.stated)).map
        fun x => .float (x.withSign n.negative) := by
  obtain ⟨bounded, shorter, less⟩ := absorb_le whole (n.fraction.getD [])
  refine ⟨_, _, bounded, shorter, ?_, ?_⟩
  · rwa [allDigits, valueOf_append]
  · have taken : absorb 0 n.whole = (valueOf n.whole, []) := absorb_fits whole
    have inexact : (n.fraction.isNone && n.exponent.isNone) = false := by
      rcases marked with some | some <;> simp [← Option.not_isSome, some]
    have exponent : (([] : List Nat).length : Int) -
        ((n.fraction.getD []).length - (absorb (valueOf n.whole) (n.fraction.getD [])).2.length : Nat) + n.stated =
          (absorb (valueOf n.whole) (n.fraction.getD [])).2.length - (n.fraction.getD []).length + n.stated := by
      rw [List.length_nil]
      omega
    rw [← exponent, toNumber?, taken]
    simp only [inexact, Bool.false_and, Bool.false_eq_true, if_false]
    rfl

/-- Such a numeral is read if it has no positive exponent, or if it stays away from the end of the range. -/
theorem toNumber?_float {n : Numeral} (marked : n.fraction.isSome = true ∨ n.exponent.isSome = true)
    (whole : (valueOf n.whole : Int) ≤ maxInteger) (small : n.stated ≤ 0 ∨
      valueOf n.allDigits * (10 : Rat) ^ (n.stated - (n.fraction.getD []).length) * (1 + 1 / 2 ^ 53) ^ 2 < overflow) :
    ∃ m, n.toNumber? = some m := by
  obtain ⟨significand, left, bounded, shorter, less, read⟩ := toNumber?_marked marked whole
  have scaled : (left - (n.fraction.getD []).length + n.stated : Int) ≤ 0 ∨
      significand * (10 : Rat) ^ (left - (n.fraction.getD []).length + n.stated : Int) * (1 + 1 / 2 ^ 53) ^ 2 <
        overflow := by
    refine small.imp (fun _ => by omega) fun small => lt_of_le_of_lt ?_ small
    have digits : (significand : Rat) * 10 ^ left ≤ valueOf n.allDigits := by exact_mod_cast less
    gcongr ?_ * _
    calc significand * (10 : Rat) ^ (left - (n.fraction.getD []).length + n.stated : Int)
        = significand * 10 ^ left * 10 ^ (n.stated - (n.fraction.getD []).length : Int) := by
          rw [mul_assoc, ← zpow_natCast, ← zpow_add₀ (by norm_num)]
          congr 2
          ring
      _ ≤ valueOf n.allDigits * 10 ^ (n.stated - (n.fraction.getD []).length : Int) := by gcongr
  obtain ⟨x, made⟩ := toFloat?_isSome bounded scaled
  exact ⟨_, by rw [read, made, Option.map_some]⟩

namespace Written

variable {w : Written} {x : Binary64} {negative : Bool} {digits : List Char} {lead : Int}

theorem digit_lt {c : Char} (isDigit : c.isDigit = true) : digit c < 10 := by
  simp only [Char.isDigit, Bool.and_eq_true, decide_eq_true_eq] at isDigit
  have high := isDigit.2
  rw [UInt32.le_iff_toNat_le] at high
  have bound : c.toNat ≤ 57 := high
  unfold digit
  have zero : '0'.toNat = 48 := rfl
  omega

/-- A whole number of at most sixteen digits fits a significand. -/
theorem whole_fits (valid : w.Valid) (short : w.whole.length ≤ 16) : (valueOf w.numeral.whole : Int) ≤ maxInteger := by
  have less : valueOf w.numeral.whole < 10 ^ 16 := by
    have value : valueOf w.numeral.whole < 10 ^ w.numeral.whole.length := by
      apply valueOf_lt
      intro d mem
      obtain ⟨c, written, rfl⟩ := List.mem_map.mp mem
      exact digit_lt (valid.whole.digits c written)
    refine value.trans_le (Nat.pow_le_pow_right (by decide) ?_)
    rw [numeral, List.length_map]
    exact short
  unfold maxInteger
  omega

theorem positional_marks (small : lead < 16) : (positional negative digits lead).whole.length ≤ 16 ∧
    (positional negative digits lead).fraction.isSome = true ∧ (positional negative digits lead).exponent = none := by
  unfold positional
  split
  · exact ⟨(by decide : 1 ≤ 16), rfl, rfl⟩
  · dsimp only
    split
    · refine ⟨?_, rfl, rfl⟩
      rw [List.length_append, List.length_replicate]
      omega
    · refine ⟨?_, rfl, rfl⟩
      rw [List.length_take]
      omega

theorem scientific_marks (nonempty : digits ≠ []) : (scientific negative digits lead).whole.length = 1 ∧
    (scientific negative digits lead).numeral.exponent.isSome = true ∧
    (scientific negative digits lead).numeral.stated = lead ∧
    (scientific negative digits lead).numeral.allDigits = digits.map digit ∧
    ((scientific negative digits lead).numeral.fraction.getD []).length + 1 = digits.length := by
  have sign : (if lead < 0 then -(lead.natAbs : Int) else lead.natAbs) = lead := by
    split <;> omega
  match digits with
  | [d] => exact ⟨rfl, rfl, by simpa [scientific, numeral, stated, valueOf_toDigits] using sign, rfl, rfl⟩
  | d :: e :: rest =>
    refine ⟨rfl, rfl, by simpa [scientific, numeral, stated, valueOf_toDigits] using sign, rfl, ?_⟩
    simp [scientific, numeral]

/-- Only the three greatest numbers are so near to the end of the range that rounding might lead beyond it. -/
def Top (x : Binary64) : Prop := x.exponent = maxExponent ∧ 2 * leastNormal ≤ x.significand + 3

theorem shortest_lt (finite : x.Finite) (nonzero : ¬ x.isZero = true) (below : ¬ Top x) :
    x.shortest.value * (1 + 1 / 2 ^ 53) ^ 2 < overflow := by
  have near : x.shortest.value ≤ (x.significand + 1 / 2) * 2 ^ x.exponent := by
    obtain ⟨positive, nearest | exact⟩ := shortest_spec nonzero
    · have nonneg : 0 ≤ x.shortest.value := by
        unfold Decimal.value
        positivity
      exact le_of_ofRat? (x := x.withSign false) nonneg nearest
    · rw [exact, magnitude]
      gcongr
      linarith
  have scaled : (x.significand + 1 / 2) * (2 : Rat) ^ x.exponent ≤ (2 * leastNormal - 7 / 2) * 2 ^ maxExponent := by
    have significand : (x.significand : Rat) + 1 ≤ 2 * leastNormal := by exact_mod_cast finite.significand_lt
    by_cases last : x.exponent = maxExponent
    · have : (x.significand : Rat) + 4 ≤ 2 * leastNormal := by
        have less : x.significand + 4 ≤ 2 * leastNormal := by
          by_contra more
          exact below ⟨last, by omega⟩
        exact_mod_cast less
      rw [last]
      gcongr
      linarith
    · have lower : x.exponent ≤ maxExponent - 1 := by
        have := finite.exponent_le
        omega
      calc (x.significand + 1 / 2) * (2 : Rat) ^ x.exponent
          ≤ 2 * leastNormal * 2 ^ (maxExponent - 1) := by
            gcongr
            · linarith
            · exact one_le_two
        _ = leastNormal * 2 ^ maxExponent := by
            rw [zpow_sub_one₀ two_ne_zero]
            ring
        _ ≤ (2 * leastNormal - 7 / 2) * 2 ^ maxExponent := by
            gcongr
            norm_num [leastNormal]
  calc x.shortest.value * (1 + 1 / 2 ^ 53) ^ 2
      ≤ (2 * leastNormal - 7 / 2) * (2 : Rat) ^ maxExponent * (1 + 1 / 2 ^ 53) ^ 2 := by
        gcongr
        exact near.trans scaled
    _ = (2 * leastNormal - 7 / 2) * (1 + 1 / 2 ^ 53) ^ 2 * (2 : Rat) ^ maxExponent := by ring
    _ < overflow := by
        unfold overflow
        gcongr ?_ * _
        norm_num [leastNormal]

theorem top_reads : ∀ (negative : Bool), ∀ k ∈ [1, 2, 3],
    (ofFloat ⟨negative, 2 * leastNormal - k, maxExponent⟩).numeral.toNumber?.isSome = true := by decide +kernel

theorem Top.reads (finite : x.Finite) (top : Top x) : ∃ m, (ofFloat x).numeral.toNumber? = some m := by
  obtain ⟨negative, significand, exponent⟩ := x
  obtain ⟨rfl, high⟩ : exponent = maxExponent ∧ 2 * leastNormal ≤ significand + 3 := top
  have low : significand < 2 * leastNormal := finite.significand_lt
  have near : 2 * leastNormal - significand ∈ [1, 2, 3] := by
    simp only [List.mem_cons, List.not_mem_nil, or_false]
    omega
  have read := top_reads negative _ near
  rw [Nat.sub_sub_self low.le] at read
  exact Option.isSome_iff_exists.mp read

/-- A float is written without an exponent and with a short whole number, or in scientific notation. -/
theorem ofFloat_cases (x : Binary64) :
    ((ofFloat x).whole.length ≤ 16 ∧ (ofFloat x).fraction.isSome = true ∧ (ofFloat x).exponent = none) ∨
      ¬ x.isZero = true ∧ ofFloat x = scientific x.negative (Nat.toDigits 10 x.shortest.digits)
        ((Nat.toDigits 10 x.shortest.digits).length + x.shortest.exponent - 1) := by
  unfold ofFloat
  split
  · exact .inl ⟨(by decide : 1 ≤ 16), rfl, rfl⟩
  · next nonzero =>
    dsimp only
    split
    · next plain => exact .inl (positional_marks plain.2)
    · exact .inr ⟨nonzero, rfl⟩

/-- What is written for a float has a fraction or an exponent, so it is read as no integer. -/
theorem ofFloat_marked (x : Binary64) :
    ((ofFloat x).numeral.fraction.isSome = true ∨ (ofFloat x).numeral.exponent.isSome = true) ∧
      (valueOf (ofFloat x).numeral.whole : Int) ≤ maxInteger := by
  rcases ofFloat_cases x with ⟨short, fraction, -⟩ | ⟨-, form⟩
  · refine ⟨.inl ?_, whole_fits (ofFloat_valid x) short⟩
    rwa [numeral, Option.isSome_map]
  · obtain ⟨single, exponent, -⟩ := form ▸ scientific_marks Nat.toDigits_ne_nil
    exact ⟨.inr exponent, whole_fits (ofFloat_valid x) (by omega)⟩

/-- In scientific notation all digits together with the power of ten make the shortest decimal. -/
theorem ofFloat_small (finite : x.Finite) (below : ¬ Top x) : (ofFloat x).numeral.stated ≤ 0 ∨
    valueOf (ofFloat x).numeral.allDigits * (10 : Rat) ^ ((ofFloat x).numeral.stated -
      ((ofFloat x).numeral.fraction.getD []).length) * (1 + 1 / 2 ^ 53) ^ 2 < overflow := by
  rcases ofFloat_cases x with ⟨-, -, none⟩ | ⟨nonzero, form⟩
  · left
    rw [stated, numeral, none]
    exact Int.le_refl 0
  · right
    obtain ⟨-, -, lead, digits, length⟩ := form ▸ scientific_marks Nat.toDigits_ne_nil
    have exponent : (ofFloat x).numeral.stated - ((ofFloat x).numeral.fraction.getD []).length =
        x.shortest.exponent := by
      rw [lead]
      omega
    rw [exponent, digits, valueOf_toDigits]
    exact shortest_lt finite nonzero below

/-- The text of a finite float is read, and as a float. -/
theorem ofFloat_reads (finite : x.Finite) : ∃ y, (ofFloat x).numeral.toNumber? = some (.float y) := by
  obtain ⟨marked, whole⟩ := ofFloat_marked x
  obtain ⟨m, read⟩ : ∃ m, (ofFloat x).numeral.toNumber? = some m := by
    by_cases top : Top x
    · exact top.reads finite
    · exact toNumber?_float marked whole (ofFloat_small finite top)
  obtain ⟨significand, left, -, -, -, float⟩ := toNumber?_marked marked whole
  rw [float, Option.map_eq_some_iff] at read
  obtain ⟨y, made, -⟩ := read
  exact ⟨_, by rw [float, made, Option.map_some]⟩

theorem ofInt_reads {n : Int} (low : minInteger ≤ n) (high : n ≤ maxInteger) :
    (ofInt n).numeral.toNumber? = some (.integer n) := by
  have value : valueOf (ofInt n).numeral.whole = n.natAbs := valueOf_toDigits n.natAbs
  have taken : absorb 0 (ofInt n).numeral.whole = (n.natAbs, []) := by
    have fits : (valueOf (ofInt n).numeral.whole : Int) ≤ maxInteger := by
      rw [value]
      unfold maxInteger minInteger at *
      omega
    rw [← value]
    exact absorb_fits fits
  obtain ⟨k, same⟩ : ∃ k, n.natAbs = k := ⟨_, rfl⟩
  rw [toNumber?, taken, same]
  rcases lt_or_ge n 0 with negative | nonneg
  · have back : -(k : Int) = n := by omega
    have nonzero : k ≠ 0 := by omega
    have sign : (ofInt n).numeral.negative = true := decide_eq_true negative
    simp only [sign]
    simp [numeral, ofInt, absorb, nonzero, back, low]
  · have back : (k : Int) = n := by omega
    have sign : (ofInt n).numeral.negative = false := decide_eq_false (not_lt.mpr nonneg)
    simp only [sign]
    simp [numeral, ofInt, absorb, back]

end Written

end Numeral

/-- A number is read back from its text, up to the digits of a float. -/
theorem Number.reads {n : Number} (genuine : n.Genuine) :
    ∃ m, (Numeral.Written.ofNumber n).numeral.toNumber? = some m ∧ n.Alike m := by
  cases n with
  | integer n => exact ⟨_, Numeral.Written.ofInt_reads genuine.1 genuine.2, .integer n⟩
  | float x =>
    obtain ⟨y, read⟩ := Numeral.Written.ofFloat_reads genuine
    exact ⟨_, read, .float x y⟩

end ThriftCatalog.Json
