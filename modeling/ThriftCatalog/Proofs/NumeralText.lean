import Mathlib.Data.List.Basic
import ThriftCatalog.Json.Printer
import ThriftCatalog.Json.Token

/-! The texts of numerals: a sign or none, a whole number without leading zeros, digits after a point, and a signed
exponent. Scanning such a text finds its parts, as long as what follows does not run on. -/
namespace ThriftCatalog.Json.Numeral

/-- A text that no numeral runs on into. -/
def Ends (rest : List Char) : Prop :=
  ∀ c ∈ rest.head?, c.isDigit = false ∧ c ≠ '.' ∧ c ≠ 'e' ∧ c ≠ 'E'

theorem ends_nil : Ends [] := nofun

structure AllDigits (cs : List Char) : Prop where
  nonempty : cs ≠ []
  digits : ∀ c ∈ cs, c.isDigit = true

theorem toDigits_all (n : Nat) : AllDigits (Nat.toDigits 10 n) where
  nonempty := Nat.toDigits_ne_nil
  digits _ mem := Nat.isDigit_of_mem_toDigits (by decide) (by decide) mem

/-- No leading zeros are written. -/
theorem toDigits_head_ne_zero (n : Nat) (positive : 0 < n) : (Nat.toDigits 10 n).head? ≠ some '0' := by
  induction n using Nat.strongRecOn with
  | ind n ih =>
    by_cases small : n < 10
    · have digits : ∀ d < 10, 0 < d → d.digitChar ≠ '0' := by decide
      rw [Nat.toDigits_of_lt_base small, List.head?_cons, ne_eq, Option.some.injEq]
      exact digits n small positive
    · rw [Nat.toDigits_of_base_le (by decide) (by omega), List.head?_append_of_ne_nil _ Nat.toDigits_ne_nil]
      exact ih (n / 10) (by omega) (by omega)

structure Written where
  negative : Bool
  whole : List Char
  fraction : Option (List Char)
  exponent : Option (Bool × List Char)

namespace Written

def signChars (w : Written) : List Char := if w.negative then ['-'] else []

def fractionChars (w : Written) : List Char :=
  match w.fraction with
  | none => []
  | some ds => '.' :: ds

def exponentChars (w : Written) : List Char :=
  match w.exponent with
  | none => []
  | some (negative, ds) => 'e' :: (if negative then '-' else '+') :: ds

def chars (w : Written) : List Char := w.signChars ++ (w.whole ++ (w.fractionChars ++ w.exponentChars))

def numeral (w : Written) : Numeral where
  negative := w.negative
  whole := w.whole.map digit
  fraction := w.fraction.map fun ds => ds.map digit
  exponent := w.exponent.map fun e => (e.1, e.2.map digit)

structure Valid (w : Written) : Prop where
  whole : AllDigits w.whole
  noLeadingZero : w.whole.head? = some '0' → w.whole = ['0']
  fraction : ∀ ds ∈ w.fraction, AllDigits ds
  exponent : ∀ e ∈ w.exponent, AllDigits e.2

end Written

variable {cs rest : List Char} {w : Written}

theorem digits_append (all : ∀ c ∈ cs, c.isDigit = true) (stop : ∀ c ∈ rest.head?, c.isDigit = false) :
    digits (cs ++ rest) = (cs.map digit, rest) := by
  have none : rest.takeWhile Char.isDigit = [] ∧ rest.dropWhile Char.isDigit = rest := by
    cases rest with
    | nil => exact ⟨rfl, rfl⟩
    | cons c rest =>
      have other := stop c rfl
      simp [other]
  rw [digits, List.takeWhile_append_of_pos all, List.dropWhile_append_of_pos all, none.1, none.2, List.append_nil]

/-- A list of digits is not empty, so a scanner that wants at least one goes on. -/
theorem digits_cons (all : AllDigits cs) (stop : ∀ c ∈ rest.head?, c.isDigit = false) :
    ∃ d ds, digits (cs ++ rest) = (d :: ds, rest) ∧ cs.map digit = d :: ds := by
  obtain ⟨nonempty, digits⟩ := all
  cases cs with
  | nil => contradiction
  | cons c cs => exact ⟨digit c, cs.map digit, digits_append digits stop, rfl⟩

theorem scanWhole?_append (all : AllDigits cs) (leading : cs.head? = some '0' → cs = ['0'])
    (stop : ∀ c ∈ rest.head?, c.isDigit = false) : scanWhole? (cs ++ rest) = some (cs.map digit, rest) := by
  obtain ⟨d, ds, found, same⟩ := digits_cons all stop
  unfold scanWhole?
  split
  · next zeros starts =>
    have zero : cs = ['0'] := by
      apply leading
      cases cs with
      | nil => exact absurd rfl all.nonempty
      | cons c cs => rw [(List.cons.inj starts).1, List.head?_cons]
    subst zero
    cases starts
    rfl
  · rw [found, same]

theorem scanFraction?_some (all : AllDigits cs) (stop : ∀ c ∈ rest.head?, c.isDigit = false) :
    scanFraction? ('.' :: (cs ++ rest)) = some (some (cs.map digit), rest) := by
  obtain ⟨d, ds, found, same⟩ := digits_cons all stop
  simp only [scanFraction?, found, same]

theorem scanFraction?_none (stop : ∀ c ∈ rest.head?, c ≠ '.') : scanFraction? rest = some (none, rest) := by
  unfold scanFraction?
  split
  · exact absurd rfl (stop '.' rfl)
  · rfl

theorem scanExponent?_some (all : AllDigits cs) (stop : ∀ c ∈ rest.head?, c.isDigit = false) (negative : Bool) :
    scanExponent? ('e' :: (if negative then '-' else '+') :: (cs ++ rest)) =
      some (some (negative, cs.map digit), rest) := by
  obtain ⟨d, ds, found, same⟩ := digits_cons all stop
  cases negative <;> simp [scanExponent?, found, same]

theorem scanExponent?_none (stop : ∀ c ∈ rest.head?, c ≠ 'e' ∧ c ≠ 'E') : scanExponent? rest = some (none, rest) := by
  cases rest with
  | nil => rfl
  | cons c rest =>
    obtain ⟨lower, upper⟩ := stop c rfl
    exact if_neg (not_or.mpr ⟨lower, upper⟩)

theorem scanSign_signChars (digits : AllDigits w.whole) :
    scanSign (w.signChars ++ (w.whole ++ rest)) = (w.negative, w.whole ++ rest) := by
  unfold Written.signChars
  cases w.negative with
  | true => rfl
  | false =>
    unfold scanSign
    split
    · next starts =>
      cases written : w.whole with
      | nil => exact absurd written digits.nonempty
      | cons c cs =>
        have digit := digits.digits c (written ▸ List.mem_cons_self)
        rw [written] at starts
        cases starts
        contradiction
    · rfl

namespace Written

theorem exponentChars_stop (w : Written) (ends : Ends rest) :
    ∀ c ∈ (w.exponentChars ++ rest).head?, c.isDigit = false ∧ c ≠ '.' := by
  unfold exponentChars
  split
  · exact fun c mem => ⟨(ends c mem).1, (ends c mem).2.1⟩
  · rintro c ⟨⟩
    decide

/-- After the whole number comes no further digit. -/
theorem fractionChars_stop (w : Written) (ends : Ends rest) :
    ∀ c ∈ (w.fractionChars ++ (w.exponentChars ++ rest)).head?, c.isDigit = false := by
  unfold fractionChars
  split
  · exact fun c mem => (w.exponentChars_stop ends c mem).1
  · rintro c ⟨⟩
    decide

theorem scanFraction?_fractionChars (valid : w.Valid) (ends : Ends rest) :
    scanFraction? (w.fractionChars ++ (w.exponentChars ++ rest)) =
      some (w.numeral.fraction, w.exponentChars ++ rest) := by
  unfold fractionChars numeral
  split
  · next none =>
    rw [none, List.nil_append, scanFraction?_none fun c mem => (w.exponentChars_stop ends c mem).2]
    rfl
  · next ds some =>
    rw [List.cons_append, scanFraction?_some (valid.fraction ds some) fun c mem => (w.exponentChars_stop ends c mem).1,
      some]
    rfl

theorem scanExponent?_exponentChars (valid : w.Valid) (ends : Ends rest) :
    scanExponent? (w.exponentChars ++ rest) = some (w.numeral.exponent, rest) := by
  unfold exponentChars numeral
  split
  · next none =>
    rw [none, List.nil_append, scanExponent?_none fun c mem => (ends c mem).2.2]
    rfl
  · next negative ds some =>
    have found := scanExponent?_some (valid.exponent _ some) (fun c mem => (ends c mem).1) negative
    rw [List.cons_append, List.cons_append, found, some]
    rfl

/-- What is written is scanned as its numeral. -/
theorem scan?_chars (valid : w.Valid) (ends : Ends rest) : scan? (w.chars ++ rest) = some (w.numeral, rest) := by
  have whole := scanWhole?_append valid.whole valid.noLeadingZero (w.fractionChars_stop ends)
  simp only [scan?, chars, List.append_assoc, scanSign_signChars valid.whole, whole,
    scanFraction?_fractionChars valid ends, scanExponent?_exponentChars valid ends, Option.bind_eq_bind,
    Option.bind_some]
  rfl

/-- What is written begins with a minus or with a digit. -/
theorem chars_cons (valid : w.Valid) : ∃ c cs, w.chars = c :: cs ∧ (c = '-' ∨ c.isDigit = true) := by
  unfold chars signChars
  split
  · exact ⟨'-', _, rfl, .inl rfl⟩
  · obtain ⟨nonempty, digits⟩ := valid.whole
    cases written : w.whole with
    | nil => contradiction
    | cons c cs => exact ⟨c, _, rfl, .inr (digits c (written ▸ List.mem_cons_self))⟩

end Written

end ThriftCatalog.Json.Numeral
