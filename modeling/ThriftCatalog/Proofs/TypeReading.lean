import Mathlib.Data.List.TakeWhile
import ThriftCatalog.Proofs.Addition
import ThriftCatalog.Proofs.TypeGrammar

/-! Reading type expressions. The reader accepts what the grammar derives, up to the deepest nesting allowed. -/
namespace ThriftCatalog.TypeExpr

open Fallible

variable {room : Nat} {c last : Cursor} {e : TypeExpr} {w rest : List Char} {mark : Char}

theorem ofWord?_eq_some {w : String} {b : BaseType} :
    BaseType.ofWord? w = some b ↔ w = b.word ∨ (w = "i8" ∧ b = .byte) := by
  constructor
  · intro found
    rw [BaseType.ofWord?] at found
    split at found
    · next short => exact .inr ⟨short, (Option.some.inj found).symm⟩
    · have same : b.word = w := by simpa using List.find?_some found
      exact .inl same.symm
  · rintro (rfl | ⟨rfl, rfl⟩)
    · exact BaseType.ofWord?_word b
    · rfl

/-- The words that the reader takes for base types are the keywords. -/
theorem ofWord?_eq_lookup (w : String) : BaseType.ofWord? w = keywords.lookup w := by
  apply Option.ext
  intro b
  rw [ofWord?_eq_some, ← Table.mem_lookup_of_nodup (by decide)]
  cases b <;> simp [keywords, BaseType.word]

theorem stops_dropWhile (p : Char → Bool) (cs : List Char) : Stops p (cs.dropWhile p) := by
  induction cs with
  | nil => exact nofun
  | cons c cs ih =>
    by_cases h : p c = true
    · rwa [List.dropWhile_cons_of_pos h]
    · rw [List.dropWhile_cons_of_neg h]
      exact fun _ first => Option.some.inj first ▸ Bool.eq_false_iff.mpr h

theorem takeWhile_all (p : Char → Bool) (cs : List Char) : ∀ c ∈ cs.takeWhile p, p c = true :=
  List.all_eq_true.mp List.all_takeWhile

namespace Cursor

/-- A word is read where the text goes on with white space and a word, and what follows is left. -/
theorem word_eq_ok : (∃ last, c.word = .ok (w, last) ∧ last.rest = rest) ↔
    ∃ gap, Blank gap ∧ IsWord w ∧ Stops isWordChar rest ∧ c.rest = gap ++ (w ++ rest) := by
  constructor
  · rintro ⟨last, found, rfl⟩
    have split := List.takeWhile_append_dropWhile (p := Text.isBlank) (l := c.rest)
    have split' := List.takeWhile_append_dropWhile (p := isWordChar) (l := c.rest.dropWhile Text.isBlank)
    simp only [word] at found
    split at found
    · contradiction
    · next taken =>
      split at found
      · next dotted =>
        cases found
        have word : IsWord (((c.skipWhile Text.isBlank).rest).takeWhile isWordChar) :=
          isWord_iff.mpr ⟨taken, takeWhile_all _ _, dotted⟩
        refine ⟨c.rest.takeWhile Text.isBlank, takeWhile_all _ _, word, stops_dropWhile _ _, ?_⟩
        rw [skipWhile, skipWhile, split', split]
      · contradiction
  · rintro ⟨gap, blank, word, stops, same⟩
    have after : (c.skipWhile Text.isBlank).rest = w ++ rest := by
      rw [skipWhile, same, dropWhile_append blank (stops_word word)]
    obtain ⟨some, chars, dotted⟩ := isWord_iff.mp word
    refine ⟨(c.skipWhile Text.isBlank).skipWhile isWordChar, ?_, ?_⟩
    · simp only [Cursor.word]
      rw [after, takeWhile_append chars stops]
      split
      · contradiction
      · rw [if_pos dotted]
    · rw [skipWhile, after, dropWhile_append chars stops]

/-- A mark is passed where the text goes on with white space and the mark, and what follows is left. -/
theorem expect_eq_ok (bare : Text.isBlank mark = false) : (∃ last, c.expect mark = .ok last ∧ last.rest = rest) ↔
    ∃ gap, Blank gap ∧ c.rest = gap ++ mark :: rest := by
  constructor
  · rintro ⟨last, found, rfl⟩
    have split := List.takeWhile_append_dropWhile (p := Text.isBlank) (l := c.rest)
    simp only [expect] at found
    split at found
    · next d ds next =>
      split at found
      · next here =>
        cases found
        subst here
        refine ⟨c.rest.takeWhile Text.isBlank, takeWhile_all _ _, ?_⟩
        rw [← next, skipWhile, split]
      · contradiction
    · contradiction
  · rintro ⟨gap, blank, same⟩
    have after : (c.skipWhile Text.isBlank).rest = mark :: rest := by
      have stops : Stops Text.isBlank (mark :: rest) := fun _ first => Option.some.inj first ▸ bare
      rw [skipWhile, same, dropWhile_append blank stops]
    simp only [expect]
    rw [after]
    exact ⟨_, if_pos rfl, rfl⟩

end Cursor

/-- What a word stands for that is not the word of a container. -/
def ofWord (w : List Char) : TypeExpr :=
  match keywords.lookup (String.ofList w) with
  | some b => .base b
  | none => .named (String.ofList w)

/-- With so much room the reader comes from one cursor to another and has read a type. -/
inductive Reads : Nat → Cursor → Cursor → TypeExpr → Prop where
  | word {room : Nat} {c last : Cursor} {w : List Char} : c.word = .ok (w, last) → String.ofList w ∉ containers →
      Reads room c last (ofWord w)
  | collection {room : Nat} {c opened inner closed last : Cursor} (kind : Collection) {element : TypeExpr} :
      c.word = .ok (kind.word, opened) → opened.expect '<' = .ok inner → Reads room inner closed element →
      closed.expect '>' = .ok last → Reads (room + 1) c last (kind.type element)
  | map {room : Nat} {c opened inner between second closed last : Cursor} {key value : TypeExpr} :
      c.word = .ok ("map".toList, opened) → opened.expect '<' = .ok inner → Reads room inner between key →
      between.expect ',' = .ok second → Reads room second closed value → closed.expect '>' = .ok last →
      Reads (room + 1) c last (.map key value)

theorem Reads.read (reads : Reads room c last e) : read room c = .ok (e, last) := by
  induction reads with
  | word found plain =>
    unfold TypeExpr.read
    refine bind_eq_ok.mpr ⟨_, found, ?_⟩
    dsimp only
    split
    case h_1 same | h_2 same | h_3 same => exact absurd (by rw [same]; decide) plain
    case h_4 =>
      rw [ofWord?_eq_lookup, ofWord]
      cases keywords.lookup _ <;> rfl
  | collection kind found opened _ closed element =>
    unfold TypeExpr.read
    refine bind_eq_ok.mpr ⟨_, found, ?_⟩
    cases kind <;> simp only [Collection.word, String.ofList_toList] <;>
      exact bind_eq_ok.mpr ⟨_, opened, bind_eq_ok.mpr ⟨_, element, bind_eq_ok.mpr ⟨_, closed, rfl⟩⟩⟩
  | map found opened _ comma _ closed key value =>
    unfold TypeExpr.read
    refine bind_eq_ok.mpr ⟨_, found, ?_⟩
    simp only [String.ofList_toList]
    exact bind_eq_ok.mpr ⟨_, opened, bind_eq_ok.mpr ⟨_, key, bind_eq_ok.mpr ⟨_, comma, bind_eq_ok.mpr ⟨_, value,
      bind_eq_ok.mpr ⟨_, closed, rfl⟩⟩⟩⟩⟩

/-- The room inside of a container is for the types in it. -/
theorem eq_ok_of_room {α : Type} {next : Nat → Except Fault α} {fault : Fault} {a : α}
    (h : (match room with
      | 0 => throw fault
      | room + 1 => next room) = .ok a) : ∃ less, room = less + 1 ∧ next less = .ok a := by
  cases room with
  | zero => exact absurd h throw_ne_ok
  | succ less => exact ⟨less, rfl, h⟩

theorem reads_of_word {opened : Cursor} (found : c.word = .ok (w, opened)) (plain : String.ofList w ∉ containers)
    (h : (match BaseType.ofWord? (String.ofList w) with
      | some b => pure (base b, opened)
      | none => pure (named (String.ofList w), opened) : Except Fault (TypeExpr × Cursor)) = .ok (e, last)) :
    Reads room c last e := by
  have same : (ofWord w, opened) = (e, last) := by
    rw [ofWord?_eq_lookup] at h
    rw [ofWord]
    cases sought : keywords.lookup (String.ofList w) <;> rw [sought] at h <;> exact pure_eq_ok.mp h
  cases same
  exact .word found plain

theorem reads_of_collection (kind : Collection) {opened : Cursor} (found : c.word = .ok (kind.word, opened))
    (inside : ∀ less < room, ∀ {c last e}, read less c = .ok (e, last) → Reads less c last e)
    (h : (do
      let c ← opened.expect '<'
      match room with
      | 0 => throw (c.fault .tooDeep)
      | room + 1 =>
        let (element, c) ← read room c
        let c ← c.expect '>'
        return (kind.type element, c)) = Except.ok (e, last)) : Reads room c last e := by
  obtain ⟨inner, opens, h⟩ := bind_eq_ok.mp h
  obtain ⟨less, rfl, h⟩ := eq_ok_of_room h
  obtain ⟨⟨element, closed⟩, within, h⟩ := bind_eq_ok.mp h
  obtain ⟨_, closes, h⟩ := bind_eq_ok.mp h
  cases pure_eq_ok.mp h
  exact .collection kind found opens (inside less (Nat.lt_succ_self less) within) closes

theorem reads_of_read (h : read room c = .ok (e, last)) : Reads room c last e := by
  induction room using Nat.strongRecOn generalizing c e last with
  | ind room ih =>
    unfold TypeExpr.read at h
    obtain ⟨⟨w, opened⟩, found, h⟩ := bind_eq_ok.mp h
    -- The program compares words as texts, and the grammar as characters.
    have word {name : String} (same : String.ofList w = name) : w = name.toList := by rw [← same, String.toList_ofList]
    dsimp only at h
    split at h
    case h_1 same =>
      obtain rfl := word same
      exact reads_of_collection .list found ih h
    case h_2 same =>
      obtain rfl := word same
      exact reads_of_collection .set found ih h
    case h_3 same =>
      obtain rfl := word same
      obtain ⟨inner, opens, h⟩ := bind_eq_ok.mp h
      obtain ⟨less, rfl, h⟩ := eq_ok_of_room h
      obtain ⟨⟨key, between⟩, first, h⟩ := bind_eq_ok.mp h
      obtain ⟨second, separates, h⟩ := bind_eq_ok.mp h
      obtain ⟨⟨value, closed⟩, later, h⟩ := bind_eq_ok.mp h
      obtain ⟨_, closes, h⟩ := bind_eq_ok.mp h
      cases pure_eq_ok.mp h
      have smaller := Nat.lt_succ_self less
      exact .map found opens (ih less smaller first) separates (ih less smaller later) closes
    case h_4 list set map =>
      have plain : String.ofList w ∉ containers := by
        simp only [containers, List.mem_cons, List.not_mem_nil, or_false, not_or]
        exact ⟨list, set, map⟩
      exact reads_of_word found plain h

theorem read_eq_ok : read room c = .ok (e, last) ↔ Reads room c last e := ⟨reads_of_read, Reads.read⟩

/-- What is read is spelled in the text. -/
theorem Reads.spelled (reads : Reads room c last e) :
    ∃ t : Spelling, t.Valid ∧ t.type = e ∧ c.rest = t.text ++ last.rest := by
  induction reads with
  | word found plain =>
    obtain ⟨gap, blank, word, -, same⟩ := Cursor.word_eq_ok.mp ⟨_, found, rfl⟩
    refine ⟨.word gap _, .word blank word plain, rfl, ?_⟩
    rw [same, Spelling.text_word, List.append_assoc]
  | collection kind found opened _ closed ih =>
    obtain ⟨gap, blank, -, -, same⟩ := Cursor.word_eq_ok.mp ⟨_, found, rfl⟩
    obtain ⟨opening, blank₁, same₁⟩ := (Cursor.expect_eq_ok rfl).mp ⟨_, opened, rfl⟩
    obtain ⟨t, valid, rfl, spells⟩ := ih
    obtain ⟨closing, blank₂, same₂⟩ := (Cursor.expect_eq_ok rfl).mp ⟨_, closed, rfl⟩
    refine ⟨.collection kind gap opening t closing, .collection blank blank₁ valid blank₂, rfl, ?_⟩
    rw [same, same₁, spells, same₂, Spelling.text_collection]
    simp
  | map found opened _ comma _ closed ihk ihv =>
    obtain ⟨gap, blank, -, -, same⟩ := Cursor.word_eq_ok.mp ⟨_, found, rfl⟩
    obtain ⟨opening, blank₁, same₁⟩ := (Cursor.expect_eq_ok rfl).mp ⟨_, opened, rfl⟩
    obtain ⟨t, valid, rfl, spells⟩ := ihk
    obtain ⟨between, blank₂, same₂⟩ := (Cursor.expect_eq_ok rfl).mp ⟨_, comma, rfl⟩
    obtain ⟨u, valid', rfl, spells'⟩ := ihv
    obtain ⟨closing, blank₃, same₃⟩ := (Cursor.expect_eq_ok rfl).mp ⟨_, closed, rfl⟩
    refine ⟨.map gap opening t between u closing, .map blank blank₁ valid blank₂ valid' blank₃, rfl, ?_⟩
    rw [same, same₁, spells, same₂, spells', same₃, Spelling.text_map]
    simp

theorem nesting_type (kind : Collection) (e : TypeExpr) : (kind.type e).nesting = e.nesting + 1 := by
  cases kind <;> rfl

/-- What is spelled is read, if there is room for it. -/
theorem reads_spelled {t : Spelling} (valid : t.Valid) (stops : Stops isWordChar rest)
    (spells : c.rest = t.text ++ rest) (deep : t.type.nesting ≤ room) :
    ∃ last, Reads room c last t.type ∧ last.rest = rest := by
  induction valid generalizing room c rest with
  | word blank word plain =>
    rw [Spelling.text_word, List.append_assoc] at spells
    obtain ⟨last, found, same⟩ := Cursor.word_eq_ok.mpr ⟨_, blank, word, stops, spells⟩
    exact ⟨last, .word found plain, same⟩
  | @collection kind _ _ _ element blank opening _ closing ih =>
    obtain ⟨name, mem, word⟩ := Spelling.collection_mem kind
    rw [Spelling.text_collection] at spells
    simp only [List.append_assoc, List.cons_append, List.nil_append] at spells
    obtain ⟨less, rfl, shallow⟩ : ∃ less, room = less + 1 ∧ element.type.nesting ≤ less := by
      rw [Spelling.type, nesting_type] at deep
      exact ⟨room - 1, by omega, by omega⟩
    obtain ⟨opened, found, opens⟩ := Cursor.word_eq_ok.mpr
      ⟨_, blank, word ▸ Spelling.isWord_container mem, Spelling.stops_mark opening rfl _, spells⟩
    obtain ⟨inner, enters, inside⟩ := (Cursor.expect_eq_ok rfl).mpr ⟨_, opening, opens⟩
    obtain ⟨closed, within, closes⟩ := ih (Spelling.stops_mark closing rfl _) inside shallow
    obtain ⟨last, leaves, same⟩ := (Cursor.expect_eq_ok rfl).mpr ⟨_, closing, closes⟩
    exact ⟨last, .collection kind found enters within leaves, same⟩
  | @map _ _ _ _ key value blank opening _ comma _ closing ihk ihv =>
    rw [Spelling.text_map] at spells
    simp only [List.append_assoc, List.cons_append, List.nil_append] at spells
    obtain ⟨less, rfl, deepKey, deepValue⟩ :
        ∃ less, room = less + 1 ∧ key.type.nesting ≤ less ∧ value.type.nesting ≤ less := by
      rw [Spelling.type, nesting] at deep
      exact ⟨room - 1, by omega, by omega, by omega⟩
    obtain ⟨opened, found, opens⟩ := Cursor.word_eq_ok.mpr
      ⟨_, blank, Spelling.isWord_container (by decide), Spelling.stops_mark opening rfl _, spells⟩
    obtain ⟨inner, enters, inside⟩ := (Cursor.expect_eq_ok rfl).mpr ⟨_, opening, opens⟩
    obtain ⟨between, first, separates⟩ := ihk (Spelling.stops_mark comma rfl _) inside deepKey
    obtain ⟨second, continues, beyond⟩ := (Cursor.expect_eq_ok rfl).mpr ⟨_, comma, separates⟩
    obtain ⟨closed, later, closes⟩ := ihv (Spelling.stops_mark closing rfl _) beyond deepValue
    obtain ⟨last, leaves, same⟩ := (Cursor.expect_eq_ok rfl).mpr ⟨_, closing, closes⟩
    exact ⟨last, .map found enters first continues later leaves, same⟩

/-- The reader takes a whole text for a type just when the text is derived with it and the type is not too deep. -/
theorem parse_iff {s : String} :
    parse s = .ok e ↔ (∃ d : Derivation s, d.spelling.type = e) ∧ e.nesting ≤ maxNesting := by
  constructor
  · intro h
    refine ⟨?_, parse_nesting h⟩
    obtain ⟨⟨_, last⟩, read, h⟩ := bind_eq_ok.mp h
    dsimp only at h
    split at h
    · next ends =>
      cases pure_eq_ok.mp h
      obtain ⟨t, valid, rfl, spells⟩ := (read_eq_ok.mp read).spelled
      have blank : Blank last.rest := List.dropWhile_eq_nil_iff.mp (List.isEmpty_iff.mp ends)
      exact ⟨⟨t, last.rest, valid, blank, spells.symm⟩, rfl⟩
    · exact absurd h throw_ne_ok
  · rintro ⟨⟨d, rfl⟩, deep⟩
    obtain ⟨last, read, same⟩ := reads_spelled (c := .ofString s) d.valid d.stops d.spells.symm deep
    refine bind_eq_ok.mpr ⟨_, read.read, ?_⟩
    have ends : (last.skipWhile Text.isBlank).rest = [] := by
      rw [Cursor.skipWhile, same, List.dropWhile_eq_nil_iff]
      exact d.blank
    dsimp only
    rw [ends]
    rfl

end ThriftCatalog.TypeExpr
