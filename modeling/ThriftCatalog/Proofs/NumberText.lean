import ThriftCatalog.Proofs.NumeralText
import ThriftCatalog.Proofs.ShortestDecimal

/-! Every number is written as a numeral: an integer without a fraction and an exponent, a float with one of them or
both. -/
namespace ThriftCatalog.Json

namespace Numeral.Written

variable {negative : Bool} {digits : List Char} {lead : Int}

def ofInt (n : Int) : Written := ⟨decide (n < 0), Nat.toDigits 10 n.natAbs, none, none⟩

/-- The parts of positional notation, with the digits of a number and the exponent of the first of them. -/
def positional (negative : Bool) (digits : List Char) (lead : Int) : Written :=
  if lead < 0 then ⟨negative, ['0'], some (List.replicate (lead.natAbs - 1) '0' ++ digits), none⟩
  else
    let whole := lead.toNat + 1
    if digits.length ≤ whole then
      ⟨negative, digits ++ List.replicate (whole - digits.length) '0', some ['0'], none⟩
    else ⟨negative, digits.take whole, some (digits.drop whole), none⟩

def scientific (negative : Bool) (digits : List Char) (lead : Int) : Written :=
  let exponent := (decide (lead < 0), Nat.toDigits 10 lead.natAbs)
  match digits with
  | d :: e :: rest => ⟨negative, [d], some (e :: rest), some exponent⟩
  | digits => ⟨negative, digits, none, some exponent⟩

def ofFloat (x : Binary64) : Written :=
  if x.isZero then ⟨x.negative, ['0'], some ['0'], none⟩
  else
    let digits := Nat.toDigits 10 x.shortest.digits
    let lead := (digits.length : Int) + x.shortest.exponent - 1
    if FloatNotation.standard.plainFrom ≤ lead ∧ lead < FloatNotation.standard.plainBelow then
      positional x.negative digits lead
    else scientific x.negative digits lead

def ofNumber : Number → Written
  | .integer n => ofInt n
  | .float x => ofFloat x

theorem toList_toString (n : Nat) : (toString n).toList = Nat.toDigits 10 n := Nat.toList_repr

theorem toList_toString_ofNat (n : Nat) : (toString (Int.ofNat n)).toList = Nat.toDigits 10 n := toList_toString n

theorem toList_toString_negSucc (n : Nat) : (toString (Int.negSucc n)).toList = '-' :: Nat.toDigits 10 (n + 1) := by
  have text : toString (Int.negSucc n) = "-" ++ toString (n + 1) := rfl
  rw [text, String.toList_append, toList_toString]
  rfl

theorem ofInt_chars (n : Int) : (ofInt n).chars = (toString n).toList := by
  cases n with
  | ofNat m =>
    rw [toList_toString_ofNat]
    simp [chars, signChars, fractionChars, exponentChars, ofInt]
  | negSucc m =>
    rw [toList_toString_negSucc]
    simp [chars, signChars, fractionChars, exponentChars, ofInt]

theorem ofInt_valid (n : Int) : (ofInt n).Valid where
  whole := toDigits_all _
  noLeadingZero := by
    intro zero
    have small : n.natAbs = 0 := by
      by_contra other
      exact toDigits_head_ne_zero _ (by omega) zero
    simp only [ofInt, small]
    rfl
  fraction := nofun
  exponent := nofun

theorem positional_chars : (positional negative digits lead).chars =
    (if negative then ['-'] else []) ++ FloatNotation.positional digits lead := by
  unfold positional FloatNotation.positional
  split
  · simp [chars, signChars, fractionChars, exponentChars]
  · dsimp only
    split <;> simp [chars, signChars, fractionChars, exponentChars]

theorem scientific_chars : (scientific negative digits lead).chars =
    (if negative then ['-'] else []) ++ FloatNotation.scientific digits lead := by
  unfold scientific FloatNotation.scientific
  dsimp only
  rw [toList_toString]
  split <;> simp [chars, signChars, fractionChars, exponentChars]

theorem replicate_zero_digits (n : Nat) : ∀ c ∈ List.replicate n '0', c.isDigit = true := by
  intro c mem
  rw [List.eq_of_mem_replicate mem]
  rfl

theorem allDigits_zero : AllDigits ['0'] := ⟨List.cons_ne_nil _ _, replicate_zero_digits 1⟩

theorem positional_valid (all : AllDigits digits) (first : digits.head? ≠ some '0') :
    (positional negative digits lead).Valid := by
  unfold positional
  split
  · refine ⟨allDigits_zero, fun _ => rfl, ?_, nofun⟩
    rintro _ ⟨⟩
    exact ⟨by simp [all.nonempty], List.forall_mem_append.mpr ⟨replicate_zero_digits _, all.digits⟩⟩
  · dsimp only
    split
    · refine ⟨⟨by simp [all.nonempty], List.forall_mem_append.mpr ⟨all.digits, replicate_zero_digits _⟩⟩, ?_, ?_, nofun⟩
      · intro zero
        rw [List.head?_append_of_ne_nil _ all.nonempty] at zero
        exact absurd zero first
      · rintro _ ⟨⟩
        exact allDigits_zero
    · next long =>
      refine ⟨⟨by simp [all.nonempty], fun c mem => all.digits c (List.mem_of_mem_take mem)⟩, ?_, ?_, nofun⟩
      · intro zero
        rw [List.head?_take, if_neg (Nat.succ_ne_zero _)] at zero
        exact absurd zero first
      · rintro _ ⟨⟩
        refine ⟨fun none => ?_, fun c mem => all.digits c (List.mem_of_mem_drop mem)⟩
        rw [List.drop_eq_nil_iff] at none
        omega

theorem scientific_valid (all : AllDigits digits) (first : digits.head? ≠ some '0') :
    (scientific negative digits lead).Valid := by
  have exponent : ∀ e ∈ some (decide (lead < 0), Nat.toDigits 10 lead.natAbs), AllDigits e.2 := by
    rintro _ ⟨⟩
    exact toDigits_all _
  obtain ⟨nonempty, digit⟩ := all
  unfold scientific
  dsimp only
  split
  · next d e rest =>
    obtain ⟨here, later⟩ := List.forall_mem_cons.mp digit
    refine ⟨⟨List.cons_ne_nil _ _, List.forall_mem_singleton.mpr here⟩, fun zero => absurd zero first, ?_, exponent⟩
    rintro _ ⟨⟩
    exact ⟨List.cons_ne_nil _ _, later⟩
  · exact ⟨⟨nonempty, digit⟩, fun zero => absurd zero first, nofun, exponent⟩

theorem ofFloat_chars (x : Binary64) : (ofFloat x).chars = FloatNotation.standard.chars x := by
  unfold ofFloat FloatNotation.chars
  dsimp only
  rw [toList_toString]
  split
  · rfl
  · split
    · exact positional_chars
    · exact scientific_chars

theorem ofFloat_valid (x : Binary64) : (ofFloat x).Valid := by
  unfold ofFloat
  split
  · refine ⟨allDigits_zero, fun _ => rfl, ?_, nofun⟩
    rintro _ ⟨⟩
    exact allDigits_zero
  · next nonzero =>
    have first := toDigits_head_ne_zero _ (Binary64.shortest_spec nonzero).1
    dsimp only
    split
    · exact positional_valid (toDigits_all _) first
    · exact scientific_valid (toDigits_all _) first

/-- The text of a number is its numeral as it is written. -/
theorem ofNumber_chars (n : Number) : (ofNumber n).chars = n.chars := by
  cases n with
  | integer n => exact ofInt_chars n
  | float x => exact ofFloat_chars x

theorem ofNumber_valid (n : Number) : (ofNumber n).Valid := by
  cases n with
  | integer n => exact ofInt_valid n
  | float x => exact ofFloat_valid x

end Numeral.Written

end ThriftCatalog.Json
