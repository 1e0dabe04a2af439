import Mathlib.Algebra.Group.Int.Defs
import ThriftCatalog.Proofs.Fallible
import ThriftCatalog.Proofs.Occurrence
import ThriftCatalog.Sample.Encoder

/-! The positions in a sample request, at any depth, and which of them are well typed. A request is encoded exactly if
all of its positions are. -/
namespace ThriftCatalog.Sample

open Relation Fallible

/-- A place in a request: a value where a type is expected, or a text where the key of a map is expected. -/
inductive Position where
  | value (type : TypeInfo) (v : Json)
  | key (type : TypeInfo) (text : String)

/-- The types whose keys are texts of JSON values. -/
def ReadsKeys : TypeInfo → Prop
  | .string | .binary | .unresolved _ | .bool | .enum _ => False
  | _ => True

/-- The first position is directly inside the second. Nothing is inside of what was left unexpanded. -/
inductive Inside : Position → Position → Prop where
  | structMember {record : RecordInfo} {members : List (String × Json)} {name : String} {v : Json} {field : FieldInfo} :
      (name, v) ∈ members → record.fields.find? (·.name = name) = some field →
      Inside (.value field.type v) (.value (.struct record) (.object members))
  | exceptionMember {record : RecordInfo} {members : List (String × Json)} {name : String} {v : Json}
      {field : FieldInfo} : (name, v) ∈ members → record.fields.find? (·.name = name) = some field →
      Inside (.value field.type v) (.value (.exception record) (.object members))
  | listItem {element : TypeInfo} {items : List Json} {v : Json} : v ∈ items →
      Inside (.value element v) (.value (.list element) (.array items))
  | setItem {element : TypeInfo} {items : List Json} {v : Json} : v ∈ items →
      Inside (.value element v) (.value (.set element) (.array items))
  | mapKey {key value : TypeInfo} {members : List (String × Json)} {text : String} {v : Json} : (text, v) ∈ members →
      Inside (.key key text) (.value (.map key value) (.object members))
  | mapValue {key value : TypeInfo} {members : List (String × Json)} {text : String} {v : Json} : (text, v) ∈ members →
      Inside (.value value v) (.value (.map key value) (.object members))
  | keyText {type : TypeInfo} {text : String} {v : Json} : ReadsKeys type → json? text = some v →
      Inside (.value type v) (.key type text)

/-- Decimal digits, and the number that they write. -/
structure Digits (cs : List Char) (n : Nat) : Prop where
  nonempty : cs ≠ []
  digits : ∀ c ∈ cs, c.isDigit = true
  number : n = Nat.ofDigitChars 10 cs 0

/-- A text of decimal digits, with a sign before them or without. -/
inductive Decimal (text : String) : Int → Prop where
  | bare {n : Nat} : Digits text.toList n → Decimal text n
  | plus {cs : List Char} {n : Nat} : text.toList = '+' :: cs → Digits cs n → Decimal text n
  | minus {cs : List Char} {n : Nat} : text.toList = '-' :: cs → Digits cs n → Decimal text (-n)

def InRange (bits : Nat) (n : Int) : Prop := -2 ^ (bits - 1) ≤ n ∧ n < 2 ^ (bits - 1)

def IsInteger (bits : Nat) (v : Json) : Prop := ∃ n, v = .number (.integer n) ∧ InRange bits n

/-- The kind of the value is that of the type, whatever is inside. -/
def Matches : TypeInfo → Json → Prop
  | .void, v => v = .null
  | .bool, v => ∃ b, v = .bool b
  | .i8, v => IsInteger 8 v
  | .i16, v => IsInteger 16 v
  | .i32, v => IsInteger 32 v
  | .i64, v => IsInteger 64 v
  | .double, v => ∃ n, v = .number n
  | .string, v | .binary, v => ∃ s, v = .string s
  | .enum e, v => (∃ s ∈ e.constants, v = .string s) ∨ IsInteger 64 v
  | .struct record, v | .exception record, v =>
    ∃ members, v = .object members ∧ ∀ m ∈ members, ∃ field ∈ record.fields, field.name = m.1
  | .list _, v | .set _, v => ∃ items, v = .array items
  | .map _ _, v => ∃ members, v = .object members
  | .unresolved _, _ => True

def KeyMatches : TypeInfo → String → Prop
  | .string, _ | .binary, _ | .unresolved _, _ => True
  | .bool, text => text = "true" ∨ text = "false"
  | .enum e, text => text ∈ e.constants ∨ ∃ n, Decimal text n ∧ InRange 64 n
  | _, text => ∃ v, json? text = some v

def Position.WellTyped : Position → Prop
  | value type v => Matches type v
  | key type text => KeyMatches type text

/-- All positions inside are well typed, at every depth, and the position itself. -/
def Sound (p : Position) : Prop := ∀ q, ReflTransGen Inside q p → q.WellTyped

theorem sound_iff {p : Position} : Sound p ↔ p.WellTyped ∧ ∀ q, Inside q p → Sound q := by
  constructor
  · exact fun sound => ⟨sound p .refl, fun q inside r below => sound r (below.tail inside)⟩
  · rintro ⟨typed, parts⟩ q below
    cases below with
    | refl => exact typed
    | tail below inside => exact parts _ inside q below

variable {text : String} {v : Json} {n : Int} {limit : Int} {cs : List Char} {t : TypeInfo}

theorem signed?_eq_some : v.signed? = some n ↔ v = .number (.integer n) ∧ InRange 64 n := by
  have range {m : Int} : InRange 64 m ↔ Json.minInteger ≤ m ∧ m ≤ Json.maxSigned := by
    unfold InRange Json.minInteger Json.maxSigned
    omega
  constructor
  · intro found
    unfold Json.signed? at found
    split at found
    · split at found
      · next inside =>
        obtain rfl := Option.some.inj found
        exact ⟨rfl, range.mpr inside⟩
      · contradiction
    · contradiction
  · rintro ⟨rfl, inside⟩
    exact if_pos (range.mp inside)

theorem signed?_isSome_iff : v.signed?.isSome = true ↔ IsInteger 64 v := by
  rw [Option.isSome_iff_exists]
  exact exists_congr fun n => signed?_eq_some

theorem fits_iff (small : limit ≤ 2 ^ 63) :
    fits limit v = true ↔ ∃ n, v = .number (.integer n) ∧ -limit ≤ n ∧ n < limit := by
  rw [fits]
  constructor
  · intro fitting
    split at fitting
    · next n found =>
      obtain ⟨rfl, -⟩ := signed?_eq_some.mp found
      exact ⟨n, rfl, by simpa using fitting⟩
    · contradiction
  · rintro ⟨n, rfl, low, high⟩
    have found : (Json.number (.integer n)).signed? = some n := signed?_eq_some.mpr ⟨rfl, by unfold InRange; omega⟩
    rw [found]
    simp [low, high]

theorem natText?_eq_some {k : Nat} : natText? cs = some k ↔ Digits cs k := by
  rw [natText?]
  split
  · next wrong =>
    refine iff_of_false nofun fun digits => ?_
    rw [Bool.or_eq_true, Bool.not_eq_true', List.isEmpty_iff, List.all_eq_false] at wrong
    obtain none | ⟨c, mem, other⟩ := wrong
    · exact digits.nonempty none
    · exact other (digits.digits c mem)
  · next right =>
    rw [Bool.or_eq_true, not_or, Bool.not_eq_true', List.isEmpty_iff, Bool.not_eq_false, List.all_eq_true] at right
    rw [← Nat.ofDigitChars_eq_foldl, Option.some.injEq]
    exact ⟨fun same => ⟨right.1, right.2, same.symm⟩, fun digits => digits.number.symm⟩

theorem not_digits {c : Char} {k : Nat} (sign : c.isDigit = false) : ¬ Digits (c :: cs) k := by
  intro digits
  rw [digits.digits c List.mem_cons_self] at sign
  contradiction

theorem natText?_any {within : Nat → Bool} : (natText? cs).any within = true ↔ ∃ k, Digits cs k ∧ within k = true := by
  simp only [Option.any_eq_true, natText?_eq_some]

theorem isIntegerText_iff : isIntegerText text = true ↔ ∃ n, Decimal text n ∧ InRange 64 n := by
  have range {m : Int} : InRange 64 m ↔ -0x8000000000000000 ≤ m ∧ m < 0x8000000000000000 := Iff.rfl
  simp only [range]
  rw [isIntegerText]
  split
  · next cs written =>
    rw [natText?_any]
    constructor
    · rintro ⟨k, digits, small⟩
      exact ⟨-k, .minus written digits, by simp at small; omega⟩
    · rintro ⟨n, decimal, low, high⟩
      cases decimal with
      | bare digits => exact absurd (written ▸ digits) (not_digits rfl)
      | plus written' => cases written.symm.trans written'
      | minus written' digits =>
        cases written.symm.trans written'
        exact ⟨_, digits, by simp; omega⟩
  · next cs written =>
    rw [natText?_any]
    constructor
    · rintro ⟨k, digits, small⟩
      exact ⟨k, .plus written digits, by simp at small; omega⟩
    · rintro ⟨n, decimal, low, high⟩
      cases decimal with
      | bare digits => exact absurd (written ▸ digits) (not_digits rfl)
      | minus written' => cases written.symm.trans written'
      | plus written' digits =>
        cases written.symm.trans written'
        exact ⟨_, digits, by simp; omega⟩
  · next minus plus =>
    rw [natText?_any]
    constructor
    · rintro ⟨k, digits, small⟩
      exact ⟨k, .bare digits, by simp at small; omega⟩
    · rintro ⟨n, decimal, low, high⟩
      cases decimal with
      | bare digits => exact ⟨_, digits, by simp; omega⟩
      | minus written => exact absurd written (minus _)
      | plus written => exact absurd written (plus _)

theorem enumConforms_iff {e : EnumInfo} : enumConforms e v = true ↔ Matches (.enum e) v := by
  rw [Matches]
  by_cases word : ∃ s, v = .string s
  · obtain ⟨s, rfl⟩ := word
    have number : ¬ IsInteger 64 (.string s) := fun ⟨n, same, _⟩ => nomatch same
    rw [or_iff_left number]
    simp [enumConforms]
  · have other : ¬ ∃ s ∈ e.constants, v = .string s := fun ⟨s, _, same⟩ => word ⟨s, same⟩
    rw [or_iff_right other, ← signed?_isSome_iff, enumConforms]
    exact fun s same => word ⟨s, same⟩

/-- A position with nothing inside of it. -/
theorem sound_leaf {p : Position} (leaf : ∀ q, ¬ Inside q p) : Sound p ↔ p.WellTyped := by
  rw [sound_iff]
  exact and_iff_left fun q inside => absurd inside (leaf q)

theorem memberConforms_iff {fields : List FieldInfo} {name : String} : memberConforms fields name v = true ↔
    ∃ field, fields.find? (·.name = name) = some field ∧ conforms field.type v = true := by
  induction fields with
  | nil => simp [memberConforms]
  | cons field fields ih =>
    obtain ⟨n, requirement, t, doc⟩ := field
    rw [memberConforms]
    split
    · next here => rw [List.find?_cons_of_pos (by simpa using here)]; simp
    · next other => rw [List.find?_cons_of_neg (by simpa using other)]; exact ih

/-- A key that is read as JSON is right if it can be read and what is read is right. -/
theorem readKey_iff (reads : ReadsKeys t) (each : ∀ v, conforms t v = true ↔ Sound (.value t v)) :
    (json? text).any (fun k => conforms t k) = true ↔
      (∃ v, json? text = some v) ∧ ∀ q, Inside q (.key t text) → Sound q := by
  simp only [Option.any_eq_true, each]
  constructor
  · rintro ⟨v, read, sound⟩
    refine ⟨⟨v, read⟩, fun q inside => ?_⟩
    cases inside with
    | keyText _ read' =>
      cases read.symm.trans read'
      exact sound
  · rintro ⟨⟨v, read⟩, parts⟩
    exact ⟨v, read, parts _ (.keyText reads read)⟩

theorem keyConforms_iff (each : ∀ v, conforms t v = true ↔ Sound (.value t v)) :
    keyConforms (fun k => conforms t k) t text = true ↔ Sound (.key t text) := by
  cases t with
  | string | binary | unresolved =>
    rw [sound_leaf fun q inside => by cases inside; contradiction]
    exact iff_of_true rfl trivial
  | bool =>
    rw [sound_leaf fun q inside => by cases inside; contradiction]
    simp [keyConforms, Position.WellTyped, KeyMatches]
  | enum e =>
    rw [sound_leaf fun q inside => by cases inside; contradiction]
    simp [keyConforms, Position.WellTyped, KeyMatches, isIntegerText_iff]
  | void | i8 | i16 | i32 | i64 | double | struct | exception | list | set | map =>
    rw [sound_iff]
    exact readKey_iff trivial each

/-- The members of a record are right if each is declared and has a right value. -/
theorem members_iff {fields : List FieldInfo} {members : List (String × Json)}
    (each : ∀ field ∈ fields, ∀ v, conforms field.type v = true ↔ Sound (.value field.type v)) :
    (members.all fun m => memberConforms fields m.1 m.2) = true ↔
      (∀ m ∈ members, ∃ field ∈ fields, field.name = m.1) ∧
        ∀ m ∈ members, ∀ field, fields.find? (·.name = m.1) = some field → Sound (.value field.type m.2) := by
  simp only [List.all_eq_true, memberConforms_iff]
  constructor
  · intro right
    constructor
    · intro m mem
      obtain ⟨field, found, -⟩ := right m mem
      exact ⟨field, List.mem_of_find?_eq_some found, by simpa using List.find?_some found⟩
    · intro m mem field found
      obtain ⟨_, found', conforming⟩ := right m mem
      cases found.symm.trans found'
      exact (each field (List.mem_of_find?_eq_some found) m.2).mp conforming
  · rintro ⟨declared, sound⟩ m mem
    obtain ⟨field, listed, same⟩ := declared m mem
    obtain ⟨first, found⟩ : ∃ first, fields.find? (·.name = m.1) = some first :=
      Option.isSome_iff_exists.mp (List.find?_isSome.mpr ⟨field, listed, decide_eq_true same⟩)
    exact ⟨first, found, (each first (List.mem_of_find?_eq_some found) m.2).mpr (sound m mem first found)⟩

theorem not_sound (other : ¬ Matches t v) : ¬ Sound (.value t v) := fun sound => other (sound _ .refl)

theorem conforms_leaf (leaf : ∀ q, ¬ Inside q (.value t v)) (kind : conforms t v = true ↔ Matches t v) :
    conforms t v = true ↔ Sound (.value t v) := kind.trans (sound_leaf leaf).symm

/-- A value conforms to a type exactly if all positions in it are well typed. -/
theorem conforms_iff : conforms t v = true ↔ Sound (.value t v) := by
  -- What a key is read as is no part of the value, so the induction is on the type alone.
  induction t using TypeInfo.part_induction generalizing v with
  | step t ih =>
    cases t with
    | void | bool | double | string | binary =>
      refine conforms_leaf (fun _ inside => nomatch inside) ?_
      cases v <;> simp [conforms, Matches, Json.isNull, Json.isBool, Json.isNumber, Json.isString]
    | i8 | i16 | i32 => exact conforms_leaf (fun _ inside => nomatch inside) (fits_iff (by decide))
    | i64 => exact conforms_leaf (fun _ inside => nomatch inside) signed?_isSome_iff
    | enum e => exact conforms_leaf (fun _ inside => nomatch inside) enumConforms_iff
    | unresolved => exact conforms_leaf (fun _ inside => nomatch inside) (iff_of_true rfl trivial)
    | struct record | exception record =>
      obtain ⟨name, fields, doc⟩ := record
      have each : ∀ field ∈ fields, ∀ v, conforms field.type v = true ↔ Sound (.value field.type v) :=
        fun field mem v => ih field.type (by constructor; exact mem)
      cases v with
      | object members =>
        rw [sound_iff, conforms]
        refine (members_iff each).trans (and_congr (by simp [Position.WellTyped, Matches]) ?_)
        constructor
        · rintro sound q inside
          cases inside
          exact sound _ ‹_› _ ‹_›
        · intro sound m mem field found
          exact sound _ (by constructor <;> assumption)
      | null | bool | number | string | array =>
        exact iff_of_false (by simp [conforms]) (not_sound fun ⟨_, same, _⟩ => nomatch same)
    | list element | set element =>
      have each : ∀ v, conforms element v = true ↔ Sound (.value element v) := fun v => ih element (by constructor)
      cases v with
      | array items =>
        have whole : Matches (.list element) (.array items) := ⟨items, rfl⟩
        rw [sound_iff, conforms, List.all_eq_true]
        refine .trans ?_ (and_iff_right whole).symm
        constructor
        · rintro sound q inside
          cases inside
          exact (each _).mp (sound _ ‹_›)
        · intro sound v mem
          exact (each v).mpr (sound _ (by constructor; exact mem))
      | null | bool | number | string | object =>
        exact iff_of_false (by simp [conforms]) (not_sound fun ⟨_, same⟩ => nomatch same)
    | map key value =>
      have keys : ∀ v, conforms key v = true ↔ Sound (.value key v) := fun v => ih key .mapKey
      have values : ∀ v, conforms value v = true ↔ Sound (.value value v) := fun v => ih value .mapValue
      cases v with
      | object members =>
        have whole : Matches (.map key value) (.object members) := ⟨members, rfl⟩
        rw [sound_iff, conforms]
        refine .trans ?_ (and_iff_right whole).symm
        simp only [List.all_eq_true, Bool.and_eq_true, keyConforms_iff keys, values]
        constructor
        · rintro sound q inside
          cases inside with
          | mapKey mem => exact (sound _ mem).1
          | mapValue mem => exact (sound _ mem).2
        · exact fun sound m mem => ⟨sound _ (.mapKey mem), sound _ (.mapValue mem)⟩
      | null | bool | number | string | array =>
        exact iff_of_false (by simp [conforms]) (not_sound fun ⟨_, same⟩ => nomatch same)

theorem checkArgument_eq_ok {parameters : List FieldInfo} {name : String} :
    checkArgument parameters name v = .ok () ↔ ∃ p, parameter? parameters name = some p ∧ Sound (.value p.type v) := by
  rw [checkArgument]
  cases parameter? parameters name with
  | none => simp
  | some p => simp [← conforms_iff]

/-- A request is encoded exactly if it is an object, each member is named by a declared parameter, and all positions in
it are well typed, from the types of the parameters on. -/
theorem jsonEncoder_isOk_iff (function : String) (parameters : List FieldInfo) (v : Json) :
    (∃ text, jsonEncoder function parameters v = .ok text) ↔
      ∃ members, v = .object members ∧ ∀ name arg, (name, arg) ∈ members →
        ∃ p, parameter? parameters name = some p ∧
          ∀ position, ReflTransGen Inside position (.value p.type arg) → position.WellTyped := by
  have checked : (∃ text, jsonEncoder function parameters v = .ok text) ↔ check parameters v = .ok () := by
    rw [jsonEncoder]
    cases check parameters v <;> simp
  rw [checked]
  cases v with
  | object members =>
    rw [check, forM_eq_ok]
    simp only [checkArgument_eq_ok, Prod.forall]
    constructor
    · exact fun right => ⟨members, rfl, right⟩
    · rintro ⟨_, same, right⟩
      cases same
      exact right
  | null | bool | number | string | array =>
    refine iff_of_false (by simp [check]) ?_
    rintro ⟨_, same, -⟩
    cases same

end ThriftCatalog.Sample
