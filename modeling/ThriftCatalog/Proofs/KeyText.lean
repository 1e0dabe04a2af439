import ThriftCatalog.Proofs.SamplePositions
import ThriftCatalog.Proofs.ValueReading

/-! Values as keys of maps. Whatever is a value of a type may be a key of it by its text, although keys are checked
apart from values: some by their text alone, the others by what is read from it. -/
namespace ThriftCatalog

/-- The text by which a value is a key: a string itself, the compact text of any other value. -/
def Json.keyText : Json → String
  | .string s => s
  | v => v.compact

namespace Sample

open Json.Numeral Json.Numeral.Written

variable {t : TypeInfo} {v w : Json}

theorem signed?_alike (alike : v.Alike w) : v.signed? = w.signed? := by
  cases alike with
  | number alike => cases alike <;> rfl
  | null | bool | string | array | object => rfl

theorem fits_alike {limit : Int} (alike : v.Alike w) : fits limit v = fits limit w := by
  rw [fits, fits, signed?_alike alike]

theorem enumConforms_alike {e : EnumInfo} (alike : v.Alike w) : enumConforms e v = enumConforms e w := by
  cases alike with
  | string => rfl
  | number alike => exact congrArg Option.isSome (signed?_alike (.number alike))
  | null | bool | array | object => rfl

/-- What is left of the members has the name and a like value of a member that was there. -/
theorem mem_alike {members members' : List (String × Json)} {m : String × Json}
    (alike : List.Forall₂ (Json.Named Json.Alike) members members') (mem : m ∈ (Table.ofList members').entries) :
    ∃ v, (m.1, v) ∈ members ∧ v.Alike m.2 := by
  obtain ⟨n, listed, named⟩ := Fallible.forall₂_source alike (Table.entries_ofList_subset members' mem)
  cases named with
  | intro name alike => exact ⟨_, listed, alike⟩

/-- The digits of floats do not decide whether a value is of a type. -/
theorem conforms_alike (alike : v.Alike w) (conforming : conforms t v = true) : conforms t w = true := by
  induction t using TypeInfo.part_induction generalizing v w with
  | step t ih =>
    cases t with
    | void | bool | double | string | binary => cases alike <;> trivial
    | i8 | i16 | i32 => exact (fits_alike alike).symm.trans conforming
    | i64 => exact (congrArg Option.isSome (signed?_alike alike)).symm.trans conforming
    | enum e => exact (enumConforms_alike alike).symm.trans conforming
    | unresolved => rfl
    | struct record | exception record =>
      obtain ⟨name, fields, doc⟩ := record
      cases alike with
      | object alike =>
        rw [conforms, List.all_eq_true] at conforming ⊢
        intro m mem
        obtain ⟨v, listed, like⟩ := mem_alike alike mem
        obtain ⟨field, found, right⟩ := memberConforms_iff.mp (conforming _ listed)
        have part : field ∈ fields := List.mem_of_find?_eq_some found
        exact memberConforms_iff.mpr ⟨field, found, ih field.type (by constructor; exact part) like right⟩
      | null | bool | number | string | array => exact absurd conforming (by simp [conforms])
    | list element | set element =>
      cases alike with
      | array alike =>
        rw [conforms, List.all_eq_true] at conforming ⊢
        intro w mem
        obtain ⟨v, listed, like⟩ := Fallible.forall₂_source alike mem
        exact ih element (by constructor) like (conforming v listed)
      | null | bool | number | string | object => exact absurd conforming (by simp [conforms])
    | map key value =>
      cases alike with
      | object alike =>
        simp only [conforms, List.all_eq_true, Bool.and_eq_true] at conforming ⊢
        intro m mem
        obtain ⟨v, listed, like⟩ := mem_alike alike mem
        obtain ⟨keyed, right⟩ := conforming _ listed
        exact ⟨keyed, ih value .mapValue like right⟩
      | null | bool | number | string | array => exact absurd conforming (by simp [conforms])

theorem digits_toDigits (n : Nat) : Digits (Nat.toDigits 10 n) n where
  nonempty := (toDigits_all n).nonempty
  digits := (toDigits_all n).digits
  number := Nat.ofDigitChars_ten_toDigits.symm

theorem decimal_toString (n : Int) : Decimal (toString n) n := by
  cases n with
  | ofNat m => exact .bare (toList_toString_ofNat m ▸ digits_toDigits m)
  | negSucc m => exact .minus (toList_toString_negSucc m) (digits_toDigits (m + 1))

/-- A key that is checked by what is read from it is right where the value is. -/
theorem readKey_compact (genuine : v.Genuine) (shallow : v.depth ≤ 127) (conforming : conforms t v = true) :
    (json? v.compact).any (fun k => conforms t k) = true := by
  obtain ⟨w, read, alike⟩ := Document.parse?_compact genuine shallow
  rw [json?, read]
  exact conforms_alike alike conforming

/-- A value of a type may be a key of that type by its text, if no more collections are nested than can be read. -/
theorem keyConforms_keyText (genuine : v.Genuine) (shallow : v.depth ≤ 127) (conforming : conforms t v = true) :
    keyConforms (fun k => conforms t k) t v.keyText = true := by
  have readKey := readKey_compact genuine shallow conforming
  cases t with
  | string | binary | unresolved => rfl
  | bool =>
    cases v with
    | bool b => cases b <;> decide
    | null | number | string | array | object => contradiction
  | enum e =>
    rw [keyConforms, Bool.or_eq_true, List.contains_iff_mem, isIntegerText_iff]
    rcases enumConforms_iff.mp conforming with ⟨s, listed, rfl⟩ | ⟨n, rfl, inside⟩
    · exact .inl listed
    · refine .inr ⟨n, ?_, inside⟩
      have text : Json.keyText (.number (.integer n)) = toString n := String.ofList_toList
      exact text ▸ decimal_toString n
  | void | i8 | i16 | i32 | i64 | double | struct | exception | list | set | map =>
    cases v with
    | string => exact absurd conforming (by simp [conforms, fits, Json.signed?, Json.isNull, Json.isNumber])
    | null | bool | number | array | object => exact readKey

/-- The keys of a map that is a key are texts within a text. -/
theorem keyConforms_map_text :
    keyConforms (fun k => conforms (.map (.list .i32) .double) k) (.map (.list .i32) .double)
      "\x7b\"[1,-2]\":1.5\x7d" = true := by
  let v : Json := .object [("[1,-2]", .number (.float ⟨false, 0x18000000000000, -52⟩))]
  have text : v.keyText = "\x7b\"[1,-2]\":1.5\x7d" := by decide +kernel
  have genuine : v.Genuine := .object (by
    intro m mem
    obtain rfl := List.mem_singleton.mp mem
    exact .number (by constructor <;> decide))
  have conforming : conforms (.map (.list .i32) .double) v = true := by decide +kernel
  exact text ▸ keyConforms_keyText genuine (by decide) conforming

end Sample

end ThriftCatalog
