import Mathlib.Data.List.Chain
import Mathlib.Data.List.Infix
import ThriftCatalog.TypeExpr.Parser

/-! The grammar of type expressions, apart from the reader. A spelling is a type with all its words, marks and white
space. No text has two spellings, and the words of a spelling are the longest runs of word characters in the text. -/
namespace ThriftCatalog.TypeExpr

def keywords : List (String × BaseType) :=
  [("void", .void), ("bool", .bool), ("byte", .byte), ("i8", .byte), ("i16", .i16), ("i32", .i32), ("i64", .i64),
   ("double", .double), ("string", .string), ("binary", .binary)]

/-- The words that are followed by types in angle brackets. -/
def containers : List String := ["list", "set", "map"]

/-- Words have ASCII letters, digits and underscores, and dots one by one between them. -/
structure IsWord (w : List Char) : Prop where
  nonempty : w ≠ []
  chars : ∀ c ∈ w, c.isAlphanum = true ∨ c = '_' ∨ c = '.'
  head : w.head? ≠ some '.'
  last : w.getLast? ≠ some '.'
  dots : ¬ ['.', '.'] <:+: w

def Blank (cs : List Char) : Prop := ∀ c ∈ cs, Text.isBlank c = true

/-- The text does not begin with a character of the class. -/
def Stops (p : Char → Bool) (cs : List Char) : Prop := ∀ c ∈ cs.head?, p c = false

/-- A word or a mark, with the white space before it. -/
structure Token where
  gap : List Char
  body : List Char

namespace Token

def text (t : Token) : List Char := t.gap ++ t.body

def IsMark (t : Token) : Prop := t.body ∈ [['<'], [','], ['>']]

@[simp] theorem isMark_opening (gap : List Char) : IsMark ⟨gap, ['<']⟩ := by simp [IsMark]

@[simp] theorem isMark_comma (gap : List Char) : IsMark ⟨gap, [',']⟩ := by simp [IsMark]

@[simp] theorem isMark_closing (gap : List Char) : IsMark ⟨gap, ['>']⟩ := by simp [IsMark]

end Token

inductive Collection where
  | list | set

namespace Collection

def word : Collection → List Char
  | list => "list".toList
  | set => "set".toList

def type : Collection → TypeExpr → TypeExpr
  | list => .list
  | set => .set

end Collection

/-- A type as it stands in a text, with the white space before each of its words and marks. -/
inductive Spelling where
  | word (gap word : List Char)
  | collection (kind : Collection) (gap opening : List Char) (element : Spelling) (closing : List Char)
  | map (gap opening : List Char) (key : Spelling) (comma : List Char) (value : Spelling) (closing : List Char)

namespace Spelling

def tokens : Spelling → List Token
  | word gap w => [⟨gap, w⟩]
  | collection kind gap opening element closing =>
    ⟨gap, kind.word⟩ :: ⟨opening, ['<']⟩ :: (element.tokens ++ [⟨closing, ['>']⟩])
  | map gap opening key comma value closing =>
    ⟨gap, "map".toList⟩ :: ⟨opening, ['<']⟩ ::
      (key.tokens ++ ⟨comma, [',']⟩ :: (value.tokens ++ [⟨closing, ['>']⟩]))

def text (t : Spelling) : List Char := t.tokens.flatMap Token.text

/-- The tree that is spelled. A word is a base type if it is a keyword, and a name otherwise. -/
def type : Spelling → TypeExpr
  | word _ w =>
    match keywords.lookup (String.ofList w) with
    | some b => .base b
    | none => .named (String.ofList w)
  | collection kind _ _ element _ => kind.type element.type
  | map _ _ key _ value _ => .map key.type value.type

inductive Valid : Spelling → Prop where
  | word {gap w : List Char} : Blank gap → IsWord w → String.ofList w ∉ containers → Valid (word gap w)
  | collection {kind : Collection} {gap opening closing : List Char} {element : Spelling} : Blank gap → Blank opening →
      element.Valid → Blank closing → Valid (collection kind gap opening element closing)
  | map {gap opening comma closing : List Char} {key value : Spelling} : Blank gap → Blank opening → key.Valid →
      Blank comma → value.Valid → Blank closing → Valid (map gap opening key comma value closing)

end Spelling

/-- A derivation of a text: the spelling of a type, and the white space after it. -/
structure Derivation (s : String) where
  spelling : Spelling
  after : List Char
  valid : spelling.Valid
  blank : Blank after
  spells : spelling.text ++ after = s.toList

/-- A word with no word character next to it on either side. -/
structure IsRun (before w after : List Char) : Prop where
  before : ∀ c ∈ before.getLast?, isWordChar c = false
  word : IsWord w
  after : Stops isWordChar after

variable {p : Char → Bool} {c : Char} {w xs ys xs' ys' rest rest' : List Char}

theorem isWordChar_iff : isWordChar c = true ↔ c.isAlphanum = true ∨ c = '_' ∨ c = '.' := by
  simp [isWordChar, or_assoc]

/-- The codes of ASCII letters and digits. -/
theorem code_of_isAlphanum (h : c.isAlphanum = true) :
    (65 ≤ c.toNat ∧ c.toNat ≤ 90) ∨ (97 ≤ c.toNat ∧ c.toNat ≤ 122) ∨ (48 ≤ c.toNat ∧ c.toNat ≤ 57) := by
  have upper : c.isUpper = true ↔ 65 ≤ c.toNat ∧ c.toNat ≤ 90 := decide_eq_true_iff
  have lower : c.isLower = true ↔ 97 ≤ c.toNat ∧ c.toNat ≤ 122 :=
    (Bool.and_eq_true _ _).to_iff.trans (and_congr decide_eq_true_iff decide_eq_true_iff)
  rcases (Bool.or_eq_true _ _).mp h with letter | digit
  · rcases (Bool.or_eq_true _ _).mp letter with letter | letter
    · exact .inl (upper.mp letter)
    · exact .inr (.inl (lower.mp letter))
  · exact .inr (.inr (Char.isDigit_iff_toNat.mp digit))

/-- No character of words is white space. -/
theorem isBlank_of_isWordChar (h : isWordChar c = true) : Text.isBlank c = false := by
  rcases isWordChar_iff.mp h with h | rfl | rfl
  · have code := code_of_isAlphanum h
    simp only [Text.isBlank, Text.blankRanges, List.any_eq_false, List.mem_cons, List.not_mem_nil, or_false,
      Bool.and_eq_true, decide_eq_true_eq]
    rintro range (rfl | rfl | rfl | rfl | rfl | rfl | rfl | rfl | rfl | rfl) <;> omega
  · rfl
  · rfl

theorem hasDoubleDot_iff : hasDoubleDot w = true ↔ ['.', '.'] <:+: w := by
  fun_induction hasDoubleDot w with
  | case1 cs => exact iff_of_true rfl (List.prefix_append ['.', '.'] cs).isInfix
  | case2 c cs other ih =>
    have apart : ¬ ['.', '.'] <+: c :: cs := by
      rintro ⟨tail, same⟩
      simp only [List.cons_append, List.nil_append, List.cons.injEq] at same
      exact other tail same.1.symm same.2.symm
    rw [ih, List.infix_cons_iff, or_iff_right apart]
  | case3 => simp

/-- The words that the reader accepts are those of the grammar. -/
theorem isWord_iff : IsWord w ↔ w ≠ [] ∧ (∀ c ∈ w, isWordChar c = true) ∧ wellDotted w = true := by
  simp only [wellDotted, Bool.and_eq_true, bne_iff_ne, Bool.not_eq_true', ← Bool.not_eq_true, hasDoubleDot_iff,
    isWordChar_iff]
  exact ⟨fun h => ⟨h.nonempty, h.chars, ⟨h.head, h.last⟩, h.dots⟩, fun ⟨a, b, ⟨c, d⟩, e⟩ => ⟨a, b, c, d, e⟩⟩

theorem isWord_iff_bool : IsWord w ↔ (!w.isEmpty && w.all isWordChar && wellDotted w) = true := by
  rw [isWord_iff, Bool.and_eq_true, Bool.and_eq_true, Bool.not_eq_true', List.isEmpty_eq_false_iff, List.all_eq_true,
    and_assoc]

theorem takeWhile_append (all : ∀ c ∈ xs, p c = true) (stops : Stops p ys) : (xs ++ ys).takeWhile p = xs := by
  rw [List.takeWhile_append_of_pos all]
  cases ys with
  | nil => simp
  | cons y ys => simp [stops y rfl]

theorem dropWhile_append (all : ∀ c ∈ xs, p c = true) (stops : Stops p ys) : (xs ++ ys).dropWhile p = ys := by
  rw [List.dropWhile_append_of_pos all]
  cases ys with
  | nil => rfl
  | cons y ys => simp [stops y rfl]

/-- A run of characters of one class ends in one place. -/
theorem append_unique (all : ∀ c ∈ xs, p c = true) (stops : Stops p ys) (all' : ∀ c ∈ xs', p c = true)
    (stops' : Stops p ys') (same : xs ++ ys = xs' ++ ys') : xs = xs' ∧ ys = ys' := by
  constructor
  · rw [← takeWhile_append all stops, same, takeWhile_append all' stops']
  · rw [← dropWhile_append all stops, same, dropWhile_append all' stops']

theorem stops_blank (blank : Blank xs) (stops : Stops isWordChar ys) : Stops isWordChar (xs ++ ys) := by
  cases xs with
  | nil => exact stops
  | cons x xs =>
    have white : Text.isBlank x = true := blank x List.mem_cons_self
    refine fun c first => Bool.eq_false_iff.mpr fun wordChar => ?_
    cases Option.some.inj first
    rw [isBlank_of_isWordChar wordChar] at white
    contradiction

theorem stops_word (word : IsWord w) : Stops Text.isBlank (w ++ rest) := by
  cases w with
  | nil => exact absurd rfl word.nonempty
  | cons d w =>
    intro c first
    cases Option.some.inj first
    exact isBlank_of_isWordChar (isWordChar_iff.mpr (word.chars _ List.mem_cons_self))

/-- The white space before a mark, and what follows the mark, are determined by the text. -/
theorem mark_unique (blank : Blank xs) (blank' : Blank xs') (mark : Text.isBlank c = false)
    (same : xs ++ c :: ys = xs' ++ c :: ys') : xs = xs' ∧ ys = ys' := by
  have stops (zs : List Char) : Stops Text.isBlank (c :: zs) := fun d first => Option.some.inj first ▸ mark
  obtain ⟨gaps, rests⟩ := append_unique blank (stops ys) blank' (stops ys') same
  exact ⟨gaps, List.tail_eq_of_cons_eq rests⟩

namespace Spelling

variable {t t' : Spelling}

theorem text_word (gap w : List Char) : (word gap w).text = gap ++ w := by
  simp [text, tokens, Token.text]

theorem text_collection (kind : Collection) (gap opening : List Char) (element : Spelling) (closing : List Char) :
    (collection kind gap opening element closing).text =
      gap ++ (kind.word ++ (opening ++ '<' :: (element.text ++ (closing ++ ['>'])))) := by
  simp [text, tokens, Token.text]

theorem text_map (gap opening : List Char) (key : Spelling) (comma : List Char) (value : Spelling)
    (closing : List Char) : (map gap opening key comma value closing).text = gap ++ ("map".toList ++ (opening ++ '<' ::
      (key.text ++ (comma ++ ',' :: (value.text ++ (closing ++ ['>'])))))) := by
  simp [text, tokens, Token.text]

/-- What a spelling begins with: white space and a word, then all of it that stands after the word. -/
def gap : Spelling → List Char
  | word gap _ | collection _ gap _ _ _ | map gap _ _ _ _ _ => gap

def head : Spelling → List Char
  | word _ w => w
  | collection kind _ _ _ _ => kind.word
  | map _ _ _ _ _ _ => "map".toList

def tail : Spelling → List Char
  | word _ _ => []
  | collection _ _ opening element closing =>
    opening ++ '<' :: (element.text ++ (closing ++ ['>']))
  | map _ opening key comma value closing =>
    opening ++ '<' :: (key.text ++ (comma ++ ',' :: (value.text ++ (closing ++ ['>']))))

theorem text_eq (t : Spelling) : t.text = t.gap ++ (t.head ++ t.tail) := by
  cases t with
  | word => rw [text_word, gap, head, tail, List.append_nil]
  | collection => exact text_collection ..
  | map => exact text_map ..

theorem isWord_container {name : String} (mem : name ∈ containers) : IsWord name.toList := by
  rw [isWord_iff_bool]
  revert name
  decide

theorem collection_mem (kind : Collection) : ∃ name ∈ containers, name.toList = kind.word := by
  cases kind with
  | list => exact ⟨"list", by decide, rfl⟩
  | set => exact ⟨"set", by decide, rfl⟩

theorem Valid.gap (valid : t.Valid) : Blank t.gap := by
  cases valid <;> assumption

theorem Valid.head (valid : t.Valid) : IsWord t.head := by
  cases valid with
  | word _ word => exact word
  | @collection kind =>
    obtain ⟨name, mem, same⟩ := collection_mem kind
    rw [Spelling.head, ← same]
    exact isWord_container mem
  | map => exact isWord_container (by decide : "map" ∈ containers)

theorem stops_mark {gap : List Char} (blank : Blank gap) (mark : isWordChar c = false) (ys : List Char) :
    Stops isWordChar (gap ++ c :: ys) :=
  stops_blank blank fun _ first => Option.some.inj first ▸ mark

theorem Valid.tail (valid : t.Valid) (stops : Stops isWordChar rest) : Stops isWordChar (t.tail ++ rest) := by
  cases valid with
  | word => exact stops
  | collection _ opening | map _ opening =>
    rw [Spelling.tail, List.append_assoc, List.cons_append]
    exact stops_mark opening rfl _

/-- The first word of a spelling is determined by the text. -/
theorem Valid.split_unique (valid : t.Valid) (valid' : t'.Valid) (stops : Stops isWordChar rest)
    (stops' : Stops isWordChar rest') (same : t.text ++ rest = t'.text ++ rest') :
    t.gap = t'.gap ∧ t.head = t'.head ∧ t.tail ++ rest = t'.tail ++ rest' := by
  have chars {w : List Char} (word : IsWord w) : ∀ c ∈ w, isWordChar c = true :=
    fun c mem => isWordChar_iff.mpr (word.chars c mem)
  rw [text_eq, text_eq, List.append_assoc, List.append_assoc, List.append_assoc, List.append_assoc] at same
  obtain ⟨gaps, same⟩ := append_unique valid.gap (stops_word valid.head) valid'.gap (stops_word valid'.head) same
  obtain ⟨heads, tails⟩ := append_unique (chars valid.head) (valid.tail stops) (chars valid'.head)
    (valid'.tail stops') same
  exact ⟨gaps, heads, tails⟩

/-- A text that begins with this spelling, not ending within a word, begins with no other. -/
def Determined (t : Spelling) : Prop := ∀ {t' : Spelling} {rest rest' : List Char}, t'.Valid →
  Stops isWordChar rest → Stops isWordChar rest' → t.text ++ rest = t'.text ++ rest' → t = t' ∧ rest = rest'

theorem Determined.argument {closing closing' : List Char} (determined : t.Determined) (valid : t'.Valid)
    (blank : Blank closing) (blank' : Blank closing') (bare : Text.isBlank c = false) (mark : isWordChar c = false)
    (same : t.text ++ (closing ++ c :: rest) = t'.text ++ (closing' ++ c :: rest')) :
    t = t' ∧ closing = closing' ∧ rest = rest' := by
  obtain ⟨types, rests⟩ := determined valid (stops_mark blank mark _) (stops_mark blank' mark _) same
  exact ⟨types, mark_unique blank blank' bare rests⟩

/-- The word of a container tells which one it is. -/
theorem word_ne_map {w : List Char} (plain : String.ofList w ∉ containers) : "map".toList ≠ w := by
  rintro rfl
  exact plain (by decide)

theorem word_ne_collection {w : List Char} (plain : String.ofList w ∉ containers) (kind : Collection) :
    kind.word ≠ w := by
  rintro rfl
  cases kind <;> exact plain (by decide)

theorem map_ne_collection (kind : Collection) : "map".toList ≠ kind.word := by
  cases kind <;> decide

theorem Collection.word_injective {kind kind' : Collection} (same : kind.word = kind'.word) : kind = kind' := by
  cases kind <;> cases kind' <;> first | rfl | exact absurd same (by decide)

/-- A text begins with one spelling at most that does not end within a word. -/
theorem Valid.determined (valid : t.Valid) : t.Determined := by
  -- The first word tells the shape, and then the marks tell where each part ends.
  induction valid with
  | word blank word plain =>
    intro t' rest rest' valid' stops stops' same
    obtain ⟨rfl, heads, tails⟩ := (Valid.word blank word plain).split_unique valid' stops stops' same
    cases valid' with
    | word =>
      cases heads
      exact ⟨rfl, tails⟩
    | collection => exact absurd heads.symm (word_ne_collection plain _)
    | map => exact absurd heads.symm (word_ne_map plain)
  | collection blank opening element closing ih =>
    intro t' rest rest' valid' stops stops' same
    obtain ⟨rfl, heads, tails⟩ := (Valid.collection blank opening element closing).split_unique valid' stops stops' same
    cases valid' with
    | word _ _ plain => exact absurd heads (word_ne_collection plain _)
    | map => exact absurd heads.symm (map_ne_collection _)
    | collection blank' opening' element' closing' =>
      obtain rfl := Collection.word_injective heads
      simp only [Spelling.tail, List.append_assoc, List.cons_append, List.nil_append] at tails
      obtain ⟨rfl, inner⟩ := mark_unique opening opening' rfl tails
      obtain ⟨rfl, rfl, rfl⟩ := ih.argument element' closing closing' rfl rfl inner
      exact ⟨rfl, rfl⟩
  | map blank opening key comma value closing ihk ihv =>
    intro t' rest rest' valid' stops stops' same
    obtain ⟨rfl, heads, tails⟩ :=
      (Valid.map blank opening key comma value closing).split_unique valid' stops stops' same
    cases valid' with
    | word _ _ plain => exact absurd heads (word_ne_map plain)
    | collection => exact absurd heads (map_ne_collection _)
    | map blank' opening' key' comma' value' closing' =>
      simp only [Spelling.tail, List.append_assoc, List.cons_append, List.nil_append] at tails
      obtain ⟨rfl, keys⟩ := mark_unique opening opening' rfl tails
      obtain ⟨rfl, rfl, values⟩ := ihk.argument key' comma comma' rfl rfl keys
      obtain ⟨rfl, rfl, rfl⟩ := ihv.argument value' closing closing' rfl rfl values
      exact ⟨rfl, rfl⟩

theorem Valid.tokens (valid : t.Valid) :
    ∀ token ∈ t.tokens, Blank token.gap ∧ (token.IsMark ∨ IsWord token.body) := by
  induction valid with
  | word blank word => simpa [Spelling.tokens] using ⟨blank, .inr word⟩
  | @collection kind _ _ _ _ blank opening _ closing ih =>
    obtain ⟨name, mem, same⟩ := collection_mem kind
    have word : IsWord kind.word := same ▸ isWord_container mem
    simp only [Spelling.tokens, List.forall_mem_cons, List.forall_mem_append]
    exact ⟨⟨blank, .inr word⟩, ⟨opening, .inl (by simp)⟩, ih, ⟨closing, .inl (by simp)⟩, nofun⟩
  | map blank opening _ comma _ closing ihk ihv =>
    have word : IsWord "map".toList := isWord_container (by decide)
    simp only [Spelling.tokens, List.forall_mem_cons, List.forall_mem_append]
    exact ⟨⟨blank, .inr word⟩, ⟨opening, .inl (by simp)⟩, ihk, ⟨comma, .inl (by simp)⟩, ihv,
      ⟨closing, .inl (by simp)⟩, nofun⟩

/-- Of two tokens next to one another one is a mark. -/
theorem tokens_apart (t : Spelling) : t.tokens.IsChain fun a b => a.IsMark ∨ b.IsMark := by
  induction t with
  | word => simp [tokens]
  | collection _ _ _ _ _ ih => simp [tokens, List.isChain_append, List.isChain_cons, ih]
  | map _ _ _ _ _ _ ihk ihv => simp [tokens, List.isChain_append, List.isChain_cons, ihk, ihv]

theorem not_wordChar_of_isMark {token : Token} (mark : token.IsMark) :
    ∃ c, token.body = [c] ∧ isWordChar c = false := by
  simp only [Token.IsMark, List.mem_cons, List.not_mem_nil, or_false] at mark
  rcases mark with same | same | same <;> exact ⟨_, same, rfl⟩

/-- The words of a spelling are the runs of word characters in its text. -/
theorem Valid.isRun (valid : t.Valid) (stops : Stops isWordChar rest) {before after : List Token} {token : Token}
    (split : t.tokens = before ++ token :: after) (word : ¬ token.IsMark) :
    IsRun (before.flatMap Token.text ++ token.gap) token.body (after.flatMap Token.text ++ rest) := by
  have tokens := valid.tokens
  have apart := t.tokens_apart
  rw [split] at tokens apart
  simp only [List.isChain_append, List.isChain_cons, List.head?_cons, Option.mem_some_iff, forall_eq', word,
    or_false, false_or] at apart
  obtain ⟨blank, body⟩ := tokens token (by simp)
  -- Next to a word there are white space, marks and the ends of the text.
  constructor
  case word => exact body.resolve_left word
  case before =>
    have ends : Stops isWordChar (before.flatMap Token.text).reverse := by
      cases before using List.reverseRecOn with
      | nil => exact nofun
      | append_singleton before last =>
        obtain ⟨c, single, other⟩ := not_wordChar_of_isMark (apart.2.2 last (by simp))
        simp only [List.flatMap_append, List.flatMap_singleton, Token.text, single, List.reverse_append,
          List.reverse_singleton, List.singleton_append]
        exact fun _ first => Option.some.inj first ▸ other
    have blank : Blank token.gap.reverse := fun c mem => blank c (List.mem_reverse.mp mem)
    rw [← List.head?_reverse, List.reverse_append]
    exact stops_blank blank ends
  case after =>
    cases after with
    | nil => exact stops
    | cons next after =>
      obtain ⟨c, single, other⟩ := not_wordChar_of_isMark (apart.2.1.1 next rfl)
      obtain ⟨blank, -⟩ := tokens next (by simp)
      simp only [List.flatMap_cons, Token.text, single, List.append_assoc, List.singleton_append]
      exact stops_mark blank other _

end Spelling

namespace Derivation

variable {s : String}

theorem stops (d : Derivation s) : Stops isWordChar d.after := by
  rw [← List.append_nil d.after]
  exact stops_blank d.blank nofun

theorem unique (d d' : Derivation s) : d = d' := by
  obtain ⟨spellings, afters⟩ := d.valid.determined d'.valid d.stops d'.stops (d.spells.trans d'.spells.symm)
  cases d
  cases d'
  cases spellings
  cases afters
  rfl

/-- Each token of a text is a mark or a run of word characters. -/
theorem isMark_or_isRun (d : Derivation s) {before after : List Token} {token : Token}
    (split : d.spelling.tokens = before ++ token :: after) : token.IsMark ∨
      s.toList = before.flatMap Token.text ++ token.gap ++ token.body ++ (after.flatMap Token.text ++ d.after) ∧
        IsRun (before.flatMap Token.text ++ token.gap) token.body (after.flatMap Token.text ++ d.after) := by
  refine or_iff_not_imp_left.mpr fun word => ⟨?_, d.valid.isRun d.stops split word⟩
  rw [← d.spells, Spelling.text, split]
  simp [Token.text]

end Derivation

end ThriftCatalog.TypeExpr
