import ThriftCatalog.Proofs.TypeReading

/-! Reading type expressions by byte offsets. A text is cut at an offset, which is possible only where no character is
cut through. The reader over offsets never asks for another cut, and reads what the reader over characters reads. -/
namespace ThriftCatalog.TypeExpr

/-- The place so many bytes after the start of a text, if no character is cut there. -/
def place? (s : String) (offset : Nat) : Option s.Pos :=
  if h : String.Pos.Raw.IsValid s ⟨offset⟩ then some ⟨⟨offset⟩, h⟩ else none

/-- A reading that is nothing at all once a text is cut within a character. -/
abbrev Slicing (α : Type) := ExceptT Fault Option α

namespace Slicing

def sliceFrom (s : String) (offset : Nat) : Slicing String :=
  ExceptT.lift ((place? s offset).map fun p => (s.sliceFrom p).copy)

def sliceTo (s : String) (offset : Nat) : Slicing String :=
  ExceptT.lift ((place? s offset).map fun p => (s.sliceTo p).copy)

def skipBlank (s : String) (offset : Nat) : Slicing Nat := do
  let rest ← sliceFrom s offset
  return offset + (rest.utf8ByteSize - Text.byteLength (rest.toList.dropWhile Text.isBlank))

/-- Reads the longest word after any white space. -/
def word (s : String) (offset : Nat) : Slicing (List Char × Nat) := do
  let offset ← skipBlank s offset
  let rest ← sliceFrom s offset
  let length := Text.byteLength (rest.toList.takeWhile isWordChar)
  if length = 0 then throw ⟨.expectedName, offset⟩ else
    let w ← sliceTo rest length
    if wellDotted w.toList then return (w.toList, offset + length) else throw ⟨.malformedName, offset⟩

def expect (s : String) (offset : Nat) (mark : Char) : Slicing Nat := do
  let offset ← skipBlank s offset
  let rest ← sliceFrom s offset
  if rest.toList.head? = some mark then return offset + mark.utf8Size else throw ⟨.expected mark, offset⟩

/-- Reads one type. Types in angle brackets are read by `inner`, which is missing where they nest too deep. -/
def readWith (s : String) (inner : Option (Nat → Slicing (TypeExpr × Nat))) (offset : Nat) :
    Slicing (TypeExpr × Nat) := do
  let (w, offset) ← word s offset
  let name := String.ofList w
  if name = "list" then
    let offset ← expect s offset '<'
    let some argument := inner | throw ⟨.tooDeep, offset⟩
    let (element, offset) ← argument offset
    let offset ← expect s offset '>'
    return (list element, offset)
  else if name = "set" then
    let offset ← expect s offset '<'
    let some argument := inner | throw ⟨.tooDeep, offset⟩
    let (element, offset) ← argument offset
    let offset ← expect s offset '>'
    return (set element, offset)
  else if name = "map" then
    let offset ← expect s offset '<'
    let some argument := inner | throw ⟨.tooDeep, offset⟩
    let (key, offset) ← argument offset
    let offset ← expect s offset ','
    let (value, offset) ← argument offset
    let offset ← expect s offset '>'
    return (map key value, offset)
  else
    match BaseType.ofWord? name with
    | some b => return (base b, offset)
    | none => return (named name, offset)

/-- Reads one type that nests at most `room` containers. -/
def read (s : String) : Nat → Nat → Slicing (TypeExpr × Nat)
  | 0 => readWith s none
  | room + 1 => readWith s (some (read s room))

def parse (s : String) : Slicing TypeExpr := do
  let (e, offset) ← read s maxNesting 0
  let offset ← skipBlank s offset
  if offset = s.utf8ByteSize then return e else throw ⟨.trailing, offset⟩

end Slicing

/-- The offset is that of the cursor, and the characters that the cursor has passed take so many bytes. -/
structure At (s : String) (c : Cursor) (offset : Nat) : Prop where
  same : c.offset = offset
  passed : ∃ passed, s.toList = passed ++ c.rest ∧ offset = Text.byteLength passed

/-- Both readings fail with one fault, or both have results, which are related. -/
inductive Meets {α β : Type} (R : α → β → Prop) : Except Fault α → Slicing β → Prop where
  | error {fault : Fault} {x : Slicing β} : x.run = some (.error fault) → Meets R (.error fault) x
  | ok {a : α} {b : β} {x : Slicing β} : x.run = some (.ok b) → R a b → Meets R (.ok a) x

theorem Slicing.run_bind {β β' : Type} {y : Slicing β} {b : β} (g : β → Slicing β') (h : y.run = some (.ok b)) :
    (y >>= g).run = (g b).run := by
  rw [ExceptT.run_bind, h]
  rfl

namespace Meets

variable {α β α' β' : Type} {R : α → β → Prop} {R' : α' → β' → Prop}

theorem pure {a : α} {b : β} (h : R a b) : Meets R (.ok a) (Pure.pure b) := .ok rfl h

theorem throw {fault : Fault} : Meets R (.error fault) (MonadExcept.throw fault) := .error rfl

theorem of_run {x : Except Fault α} {y z : Slicing β} (same : y.run = z.run) (h : Meets R x z) : Meets R x y := by
  cases h with
  | error run => exact .error (same.trans run)
  | ok run related => exact .ok (same.trans run) related

theorem bind {x : Except Fault α} {y : Slicing β} {f : α → Except Fault α'} {g : β → Slicing β'} (h : Meets R x y)
    (next : ∀ a b, R a b → Meets R' (f a) (g b)) : Meets R' (x >>= f) (y >>= g) := by
  cases h with
  | error run =>
    refine .error ?_
    rw [ExceptT.run_bind, run]
    rfl
  | @ok a b _ run related =>
    exact (next a b related).of_run (Slicing.run_bind g run)

end Meets

variable {s : String} {c : Cursor} {offset : Nat}

theorem At.pass {front back : List Char} (h : At s c offset) (split : c.rest = front ++ back) :
    At s ⟨back, c.offset + Text.byteLength front⟩ (offset + Text.byteLength front) := by
  obtain ⟨same, passed, whole, bytes⟩ := h
  refine ⟨by rw [same], passed ++ front, ?_, ?_⟩
  · rw [whole, split, List.append_assoc]
  · rw [bytes, Text.byteLength_append]

theorem utf8ByteSize_eq (s : String) : s.utf8ByteSize = Text.byteLength s.toList := by
  obtain ⟨cs, rfl⟩ := s.exists_eq_ofList
  rw [String.toList_ofList]
  induction cs with
  | nil => rfl
  | cons c cs ih => rw [String.ofList_cons, String.utf8ByteSize_append, ih, Text.byteLength_cons]; simp

theorem place?_eq {passed rest : List Char} (h : s.toList = passed ++ rest) :
    ∃ p : s.Pos, place? s (Text.byteLength passed) = some p ∧ p.Splits (String.ofList passed) (String.ofList rest) := by
  have same : s = String.ofList passed ++ String.ofList rest := by
    rw [← String.ofList_append, ← h, String.ofList_toList]
  have bytes : (String.ofList passed).rawEndPos = ⟨Text.byteLength passed⟩ := by
    rw [String.rawEndPos, utf8ByteSize_eq, String.toList_ofList]
  have valid : String.Pos.Raw.IsValid s ⟨Text.byteLength passed⟩ :=
    String.Pos.Raw.isValid_iff_exists_append.mpr ⟨_, _, same, bytes.symm⟩
  exact ⟨_, dif_pos valid, same, bytes.symm⟩

namespace Slicing

theorem sliceFrom_eq (h : At s c offset) : (sliceFrom s offset).run = some (.ok (String.ofList c.rest)) := by
  obtain ⟨-, passed, split, rfl⟩ := h
  obtain ⟨p, place, splits⟩ := place?_eq split
  rw [sliceFrom, place, Option.map_some, splits.copy_sliceFrom_eq]
  rfl

theorem sliceTo_eq (front back : List Char) :
    (sliceTo (String.ofList (front ++ back)) (Text.byteLength front)).run = some (.ok (String.ofList front)) := by
  obtain ⟨p, place, splits⟩ := place?_eq (String.toList_ofList (l := front ++ back))
  rw [sliceTo, place, Option.map_some, splits.copy_sliceTo_eq]
  rfl

theorem skipBlank_run (h : At s c offset) :
    (skipBlank s offset).run = some (.ok (c.skipWhile Text.isBlank).offset) := by
  have split := List.takeWhile_append_dropWhile (p := Text.isBlank) (l := c.rest)
  have bytes : (String.ofList c.rest).utf8ByteSize - Text.byteLength (c.rest.dropWhile Text.isBlank) =
      Text.byteLength (c.rest.takeWhile Text.isBlank) := by
    rw [utf8ByteSize_eq, String.toList_ofList]
    nth_rewrite 1 [← split]
    rw [Text.byteLength_append, Nat.add_sub_cancel]
  rw [skipBlank, run_bind _ (sliceFrom_eq h), String.toList_ofList, bytes, ← h.same]
  rfl

/-- After white space there is a place to cut. -/
theorem skipWhile_at (h : At s c offset) (p : Char → Bool) : At s (c.skipWhile p) (c.skipWhile p).offset := by
  obtain rfl := h.same
  exact h.pass (List.takeWhile_append_dropWhile (p := p) (l := c.rest)).symm

theorem word_meets (h : At s c offset) :
    Meets (fun r r' => r.1 = r'.1 ∧ At s r.2 r'.2) c.word (word s offset) := by
  have skipped := skipWhile_at h Text.isBlank
  refine .of_run (run_bind _ (skipBlank_run h)) (.of_run (run_bind _ (sliceFrom_eq skipped)) ?_)
  rw [Cursor.word]
  -- Both readers stand after the white space now, and have the same text before them.
  generalize c.skipWhile Text.isBlank = c at skipped ⊢
  have ends := skipWhile_at skipped isWordChar
  have split := List.takeWhile_append_dropWhile (p := isWordChar) (l := c.rest)
  dsimp only
  rw [String.toList_ofList]
  unfold Cursor.skipWhile at ends ⊢
  split
  · next none =>
    rw [none, if_pos Text.byteLength_nil]
    exact .throw
  · next w some =>
    have long : Text.byteLength (c.rest.takeWhile isWordChar) ≠ 0 := by
      cases taken : c.rest.takeWhile isWordChar with
      | nil => exact absurd taken some
      | cons d ds => exact (Nat.add_pos_left d.utf8Size_pos _).ne'
    have cut := sliceTo_eq (c.rest.takeWhile isWordChar) (c.rest.dropWhile isWordChar)
    rw [split] at cut
    rw [if_neg long]
    refine .of_run (run_bind _ cut) ?_
    rw [String.toList_ofList]
    split
    · exact .pure ⟨rfl, ends⟩
    · exact .throw

theorem expect_meets (h : At s c offset) (mark : Char) : Meets (At s) (c.expect mark) (expect s offset mark) := by
  have skipped := skipWhile_at h Text.isBlank
  refine .of_run (run_bind _ (skipBlank_run h)) (.of_run (run_bind _ (sliceFrom_eq skipped)) ?_)
  rw [Cursor.expect]
  generalize c.skipWhile Text.isBlank = c at skipped ⊢
  rw [String.toList_ofList]
  split
  · next d rest next =>
    rw [next, List.head?_cons]
    split
    · next same =>
      rw [if_pos (congrArg some same), same]
      have split : c.rest = [mark] ++ rest := by rw [next, same, List.singleton_append]
      exact .pure (skipped.pass split)
    · next other =>
      rw [if_neg (by simpa using other)]
      exact .throw
  · next none =>
    rw [none, List.head?_nil, if_neg (Option.some_ne_none mark).symm]
    exact .throw

theorem read_meets (h : At s c offset) (room : Nat) :
    Meets (fun r r' => r.1 = r'.1 ∧ At s r.2 r'.2) (TypeExpr.read room c) (read s room offset) := by
  induction room generalizing c offset with
  | zero =>
    unfold TypeExpr.read Slicing.read readWith
    refine (word_meets h).bind ?_
    rintro ⟨w, c⟩ ⟨_, offset⟩ ⟨rfl, h⟩
    dsimp only
    generalize String.ofList w = name
    split
    case h_1 | h_2 | h_3 =>
      refine (expect_meets h '<').bind fun c offset h => ?_
      obtain rfl := h.same
      exact .throw
    case h_4 list set map =>
      rw [if_neg list, if_neg set, if_neg map]
      cases BaseType.ofWord? name <;> exact .pure ⟨rfl, h⟩
  | succ room ih =>
    unfold TypeExpr.read Slicing.read readWith
    refine (word_meets h).bind ?_
    rintro ⟨w, c⟩ ⟨_, offset⟩ ⟨rfl, h⟩
    dsimp only
    generalize String.ofList w = name
    split
    case h_1 | h_2 =>
      refine (expect_meets h '<').bind fun c offset h => (ih h).bind ?_
      rintro ⟨element, c⟩ ⟨_, offset⟩ ⟨rfl, h⟩
      exact (expect_meets h '>').bind fun c offset h => .pure ⟨rfl, h⟩
    case h_3 =>
      refine (expect_meets h '<').bind fun c offset h => (ih h).bind ?_
      rintro ⟨key, c⟩ ⟨_, offset⟩ ⟨rfl, h⟩
      refine (expect_meets h ',').bind fun c offset h => (ih h).bind ?_
      rintro ⟨value, c⟩ ⟨_, offset⟩ ⟨rfl, h⟩
      exact (expect_meets h '>').bind fun c offset h => .pure ⟨rfl, h⟩
    case h_4 list set map =>
      rw [if_neg list, if_neg set, if_neg map]
      cases BaseType.ofWord? name <;> exact .pure ⟨rfl, h⟩

theorem parse_eq (s : String) : (parse s).run = some (TypeExpr.parse s) := by
  have start : At s (.ofString s) 0 := ⟨rfl, [], rfl, rfl⟩
  have meets : Meets Eq (TypeExpr.parse s) (parse s) := by
    refine (read_meets start maxNesting).bind ?_
    rintro ⟨e, c⟩ ⟨_, offset⟩ ⟨rfl, h⟩
    refine .of_run (run_bind _ (skipBlank_run h)) ?_
    have skipped := skipWhile_at h Text.isBlank
    dsimp only
    generalize c.skipWhile Text.isBlank = c at skipped ⊢
    obtain ⟨-, passed, whole, bytes⟩ := skipped
    have ends : c.rest.isEmpty = true ↔ c.offset = s.utf8ByteSize := by
      rw [utf8ByteSize_eq, whole, bytes, Text.byteLength_append]
      cases c.rest with
      | nil => simp
      | cons d ds => simp [d.utf8Size_pos.ne']
    by_cases done : c.offset = s.utf8ByteSize
    · rw [if_pos (ends.mpr done), if_pos done]
      exact .pure rfl
    · rw [if_neg (mt ends.mp done), if_neg done]
      exact .throw
  generalize TypeExpr.parse s = result at meets
  cases meets with
  | error run => exact run
  | ok run same => exact same ▸ run

end Slicing

/-- The texts that are read as types are those that the grammar derives, with the tree that it derives, down to the
deepest nesting. A text is derived in one way only, its words are the longest runs of their characters, and it is never
cut within a character. -/
theorem parse_exact (s : String) :
    (∀ e, parse s = .ok e ↔ (∃ d : Derivation s, d.spelling.type = e) ∧ e.nesting ≤ 64) ∧
    (∀ d d' : Derivation s, d = d') ∧
    (∀ (d : Derivation s) (before after : List Token) (token : Token),
      d.spelling.tokens = before ++ token :: after → token.IsMark ∨
        s.toList = before.flatMap Token.text ++ token.gap ++ token.body ++ (after.flatMap Token.text ++ d.after) ∧
          IsRun (before.flatMap Token.text ++ token.gap) token.body (after.flatMap Token.text ++ d.after)) ∧
    (Slicing.parse s).run = some (parse s) :=
  ⟨fun _ => parse_iff, Derivation.unique, fun d _ _ _ split => d.isMark_or_isRun split, Slicing.parse_eq s⟩

end ThriftCatalog.TypeExpr
