import ThriftCatalog.Json.Parser
import ThriftCatalog.Proofs.NumberText

/-! The compact text of a JSON value is read as the tree of the value. The text is spelled as tokens, and from these the
parser builds the tree. -/
namespace ThriftCatalog.Json

open Document (Node)

def Numeral.ofNat (n : Nat) : Numeral := ⟨false, (Nat.toDigits 10 n).map digit, none, none⟩

/-- The numeral that the text of a number begins with. -/
def Number.numeral (n : Number) : Numeral := ((Numeral.scan? n.chars).map Prod.fst).getD (.ofNat 0)

/-- The text of a number is one numeral. -/
theorem Number.scan?_chars (n : Number) {rest : List Char} (ends : Numeral.Ends rest) :
    Numeral.scan? (n.chars ++ rest) = some ((Numeral.Written.ofNumber n).numeral, rest) := by
  rw [← Numeral.Written.ofNumber_chars]
  exact Numeral.Written.scan?_chars (Numeral.Written.ofNumber_valid n) ends

theorem Number.numeral_eq (n : Number) : n.numeral = (Numeral.Written.ofNumber n).numeral := by
  have scanned := n.scan?_chars Numeral.ends_nil
  rw [List.append_nil] at scanned
  rw [numeral, scanned]
  rfl

/-- What holds of a value as soon as it holds of the values directly inside holds of every value. -/
@[elab_as_elim]
theorem inside_induction {motive : Json → Prop} (null : motive .null) (bool : ∀ b, motive (.bool b))
    (number : ∀ n, motive (.number n)) (string : ∀ s, motive (.string s))
    (array : ∀ items, (∀ v ∈ items, motive v) → motive (.array items))
    (object : ∀ members, (∀ m ∈ members, motive m.2) → motive (.object members)) : ∀ v, motive v
  | .null => null
  | .bool b => bool b
  | .number n => number n
  | .string s => string s
  | .array items => array items fun v _ => inside_induction null bool number string array object v
  | .object members => object members fun m _ => inside_induction null bool number string array object m.2
termination_by v => sizeOf v
decreasing_by
  · have := List.sizeOf_lt_of_mem ‹_›
    simp only [Json.array.sizeOf_spec]
    omega
  · have := List.sizeOf_lt_of_mem ‹_›
    obtain ⟨k, v⟩ := m
    simp only [Json.object.sizeOf_spec, Prod.mk.sizeOf_spec] at this ⊢
    omega

mutual

def tokens : Json → List Token
  | null => [.null]
  | bool b => [.bool b]
  | number n => [.number n.numeral]
  | string s => [.string (some s)]
  | array items => .openArray :: (itemTokens items ++ [.closeArray])
  | object members => .openObject :: (memberTokens members ++ [.closeObject])

def itemTokens : List Json → List Token
  | [] => []
  | [v] => tokens v
  | v :: vs => tokens v ++ .comma :: itemTokens vs

def memberTokens : List (String × Json) → List Token
  | [] => []
  | [(k, v)] => .string (some k) :: .colon :: tokens v
  | (k, v) :: ms => .string (some k) :: .colon :: (tokens v ++ .comma :: memberTokens ms)

end

mutual

def toNode : Json → Node
  | null => .null
  | bool b => .bool b
  | number n => .number n.numeral
  | string s => .string (some s)
  | array items => .list none (itemNodes items)
  | object members => .map none (memberNodes members)

def itemNodes : List Json → List Node
  | [] => []
  | v :: vs => toNode v :: itemNodes vs

def memberNodes : List (String × Json) → List (Node × Node)
  | [] => []
  | (k, v) :: ms => (.string (some k), toNode v) :: memberNodes ms

end

namespace Token

/-- Whatever text follows that cannot run on a numeral, the text begins with these tokens. -/
def Spelled (text : List Char) (ts : List Token) : Prop :=
  ∀ rest, Numeral.Ends rest → ofChars? (text ++ rest) = (ofChars? rest).map (ts ++ ·)

theorem ofChars?_cons {c : Char} {cs tail : List Char} {t : Token} (dark : c.isWhitespace = false)
    (read : next? (c :: cs) = some (t, tail)) (shorter : tail.length ≤ cs.length) :
    ofChars? (c :: cs) = (ofChars? tail).map (t :: ·) := by
  rw [ofChars?]
  simp only [dark, read, shorter, Bool.false_eq_true, if_false, dif_pos]

/-- A character that is a token by itself. -/
structure Mark (c : Char) (t : Token) : Prop where
  dark : c.isWhitespace = false
  read : ∀ cs, next? (c :: cs) = some (t, cs)
  ends : ∀ cs, Numeral.Ends (c :: cs)

theorem mark_openArray : Mark '[' .openArray := ⟨by decide, fun _ => rfl, by simp [Numeral.Ends]⟩
theorem mark_closeArray : Mark ']' .closeArray := ⟨by decide, fun _ => rfl, by simp [Numeral.Ends]⟩
theorem mark_openObject : Mark '{' .openObject := ⟨by decide, fun _ => rfl, by simp [Numeral.Ends]⟩
theorem mark_closeObject : Mark '}' .closeObject := ⟨by decide, fun _ => rfl, by simp [Numeral.Ends]⟩
theorem mark_colon : Mark ':' .colon := ⟨by decide, fun _ => rfl, by simp [Numeral.Ends]⟩
theorem mark_comma : Mark ',' .comma := ⟨by decide, fun _ => rfl, by simp [Numeral.Ends]⟩

theorem hexDigit?_hexDigit : ∀ n < 16, hexDigit? (hexDigit n) = some n := by decide

theorem unescape?_letter {c letter : Char} (escaped : escapeLetter? c = some letter) :
    unescape? letter = some c ∧ letter ≠ 'u' := by
  unfold escapeLetter? at escaped
  split at escaped <;> cases escaped <;> decide

/-- The scanner reads an escaped character as one unit, the number of the character. -/
theorem scanUnits?_escape (c : Char) (cs : List Char) :
    scanUnits? (escape c ++ cs) = do
      let (units, rest) ← scanUnits? cs
      return (c.toNat :: units, rest) := by
  unfold escape
  split
  · next letter escaped =>
    obtain ⟨read, other⟩ := unescape?_letter escaped
    simp [scanUnits?, other, read]
  · next plain =>
    split
    · next control =>
      have high : hexDigit? (hexDigit (c.toNat / 16)) = some (c.toNat / 16) := hexDigit?_hexDigit _ (by omega)
      have low : hexDigit? (hexDigit (c.toNat % 16)) = some (c.toNat % 16) := hexDigit?_hexDigit _ (by omega)
      have unit : 4096 * 0 + 256 * 0 + 16 * (c.toNat / 16) + c.toNat % 16 = c.toNat := by omega
      have zero : hexDigit? '0' = some 0 := by decide
      simp only [List.cons_append, List.nil_append, scanUnits?, high, low, zero, Option.bind_eq_bind, Option.bind_some,
        unit]
    · next visible =>
      have quote : c ≠ '"' := by
        rintro rfl
        contradiction
      have backslash : c ≠ '\\' := by
        rintro rfl
        contradiction
      rw [List.singleton_append, scanUnits?.eq_def]
      split
      · contradiction
      · next starts => exact absurd (List.cons.inj starts).1 quote
      · next starts => exact absurd (List.cons.inj starts).1 backslash
      · next starts => exact absurd (List.cons.inj starts).1 backslash
      · next starts =>
        cases starts
        rw [if_neg visible]

theorem scanUnits?_escaped (cs rest : List Char) :
    scanUnits? (cs.flatMap escape ++ '"' :: rest) = some (cs.map Char.toNat, rest) := by
  induction cs with
  | nil => rfl
  | cons c cs ih => rw [List.flatMap_cons, List.append_assoc, scanUnits?_escape, ih]; rfl

/-- No character is half a surrogate pair. -/
theorem decodeUnits?_toNat (cs : List Char) : decodeUnits? (cs.map Char.toNat) = some cs := by
  induction cs with
  | nil => rfl
  | cons c cs ih =>
    have scalar : c.toNat < 0xD800 ∨ 0xDFFF < c.toNat := by
      rcases c.valid with low | ⟨high, -⟩
      · exact .inl low
      · exact .inr high
    rw [List.map_cons, decodeUnits?.eq_def]
    dsimp only
    rw [if_neg (by omega), if_neg (by omega), ih, Char.ofNat_toNat]
    rfl

theorem quoted_spelled (s : String) : Spelled (quoted s) [.string (some s)] := by
  intro rest _
  have read : next? (quoted s ++ rest) = some (.string (some s), rest) := by
    rw [quoted, List.cons_append, List.append_assoc, List.singleton_append]
    simp only [next?, scanUnits?_escaped, decodeUnits?_toNat, Option.bind_eq_bind, Option.bind_some, Option.map_some,
      String.ofList_toList]
    rfl
  exact ofChars?_cons (by decide) read (by simp; omega)

/-- A numeral comes where a minus or a digit begins. -/
theorem next?_numeral {c : Char} (begins : c = '-' ∨ c.isDigit = true) (cs : List Char) : next? (c :: cs) = do
    let (n, rest) ← Numeral.scan? (c :: cs)
    return (.number n, rest) := by
  rw [next?.eq_def]
  split
  case h_11 => rfl
  all_goals
    next starts =>
      cases starts
      rcases begins with minus | digit <;> contradiction

theorem numeral_dark {c : Char} (begins : c = '-' ∨ c.isDigit = true) : c.isWhitespace = false := by
  rw [Bool.eq_false_iff]
  intro blank
  simp only [Char.isWhitespace, Bool.or_eq_true, decide_eq_true_eq] at blank
  rcases blank with ((rfl | rfl) | rfl) | rfl <;> rcases begins with minus | digit <;> contradiction

theorem number_spelled (n : Number) : Spelled n.chars [.number n.numeral] := by
  intro rest ends
  have scanned := n.scan?_chars ends
  obtain ⟨c, cs, written, begins⟩ := Numeral.Written.chars_cons (Numeral.Written.ofNumber_valid n)
  rw [Numeral.Written.ofNumber_chars] at written
  rw [written, List.cons_append] at scanned ⊢
  rw [Number.numeral_eq]
  have read : next? (c :: (cs ++ rest)) = some (.number (Numeral.Written.ofNumber n).numeral, rest) := by
    rw [next?_numeral begins, scanned]
    rfl
  exact ofChars?_cons (numeral_dark begins) read (by simp)

namespace Spelled

variable {text more : List Char} {ts us : List Token} {c : Char} {t : Token}

theorem append (first : Spelled text ts) (second : Spelled more us)
    (ends : ∀ rest, Numeral.Ends rest → Numeral.Ends (more ++ rest)) : Spelled (text ++ more) (ts ++ us) := by
  intro rest after
  rw [List.append_assoc, first _ (ends rest after), second rest after, Option.map_map]
  congr 1
  funext found
  exact (List.append_assoc ts us found).symm

theorem mark (mark : Mark c t) (next : Spelled more us) : Spelled (c :: more) (t :: us) := by
  intro rest after
  rw [List.cons_append, ofChars?_cons mark.dark (mark.read _) (Nat.le_refl _), next rest after, Option.map_map]
  rfl

theorem nil : Spelled [] [] := by
  intro rest _
  rw [List.nil_append]
  cases ofChars? rest <;> rfl

end Spelled

/-- Every text that begins with a mark ends a numeral. -/
theorem Mark.ends_append {c : Char} {t : Token} (mark : Mark c t) (more : List Char) :
    ∀ rest, Numeral.Ends rest → Numeral.Ends (c :: more ++ rest) := fun rest _ => mark.ends (more ++ rest)

theorem itemChars_spelled {items : List Json} (each : ∀ v ∈ items, Spelled v.chars v.tokens) :
    Spelled (itemChars items ++ [']']) (itemTokens items ++ [.closeArray]) := by
  have close : Spelled [']'] [.closeArray] := .mark mark_closeArray .nil
  induction items with
  | nil => exact close
  | cons v vs ih =>
    have first := each v List.mem_cons_self
    have rest := ih fun w mem => each w (List.mem_cons_of_mem _ mem)
    cases vs with
    | nil => exact first.append close (mark_closeArray.ends_append [])
    | cons w ws =>
      have more := first.append (.mark mark_comma rest) (mark_comma.ends_append _)
      simpa only [itemChars, itemTokens, List.append_assoc, List.cons_append] using more

theorem member_spelled {k : String} {text : List Char} {ts : List Token} (value : Spelled text ts) :
    Spelled (quoted k ++ ':' :: text) (.string (some k) :: .colon :: ts) :=
  (quoted_spelled k).append (.mark mark_colon value) (mark_colon.ends_append _)

theorem memberChars_spelled {members : List (String × Json)} (each : ∀ m ∈ members, Spelled m.2.chars m.2.tokens) :
    Spelled (memberChars members ++ ['}']) (memberTokens members ++ [.closeObject]) := by
  have close : Spelled ['}'] [.closeObject] := .mark mark_closeObject .nil
  induction members with
  | nil => exact close
  | cons m ms ih =>
    obtain ⟨k, v⟩ := m
    have first : Spelled v.chars v.tokens := each (k, v) List.mem_cons_self
    have rest := ih fun w mem => each w (List.mem_cons_of_mem _ mem)
    cases ms with
    | nil =>
      have last := member_spelled (k := k) (first.append close (mark_closeObject.ends_append []))
      simpa only [memberChars, memberTokens, List.append_assoc, List.cons_append] using last
    | cons n ns =>
      have more := member_spelled (k := k) (first.append (.mark mark_comma rest) (mark_comma.ends_append _))
      simpa only [memberChars, memberTokens, List.append_assoc, List.cons_append] using more

end Token

open Token in
/-- The compact text of a value is spelled as its tokens. -/
theorem spelled (j : Json) : Spelled j.chars j.tokens := by
  induction j using inside_induction with
  | null => exact fun rest _ => ofChars?_cons (by decide) rfl (by simp; omega)
  | bool b =>
    intro rest _
    cases b
    · exact ofChars?_cons (by decide) rfl (by simp; omega)
    · exact ofChars?_cons (by decide) rfl (by simp; omega)
  | number n => exact number_spelled n
  | string s => exact quoted_spelled s
  | array items ih => exact .mark mark_openArray (itemChars_spelled ih)
  | object members ih => exact .mark mark_openObject (memberChars_spelled ih)

/-- A value may come next, at the beginning of an array just opened or elsewhere. -/
def Phase.Open (phase : Phase) : Prop := phase = .value ∨ phase = .item

/-- Wherever a value may come, the parser builds it from the tokens. -/
def Built (ts : List Token) (v : Node) : Prop := ∀ stack phase more, phase.Open →
  parseTokens? stack phase (ts ++ more) = parseTokens? stack (.done v) more

theorem parseTokens?_cons {stack stack' : List Frame} {phase phase' : Phase} {t : Token} {ts : List Token}
    (step : phase.step? stack t = some (stack', phase')) :
    parseTokens? stack phase (t :: ts) = parseTokens? stack' phase' ts := by
  rw [parseTokens?, step]
  rfl

theorem leaf_built {t : Token} {v : Node} (leaf : t.leaf? = some v) : Built [t] v := by
  intro stack phase more opens
  refine parseTokens?_cons ?_
  rcases opens with rfl | rfl <;> cases t <;> first | contradiction | (cases leaf; rfl)

/-- The items still to come are added to those that came before. -/
theorem items_built {items : List Json} (each : ∀ v ∈ items, Built v.tokens v.toNode) (nonempty : items ≠ [])
    (stack : List Frame) (before : List Node) (phase : Phase) (more : List Token) (opens : phase.Open) :
    parseTokens? (.array before :: stack) phase (itemTokens items ++ .closeArray :: more) =
      parseTokens? stack (.done (.list none (before.reverse ++ itemNodes items))) more := by
  induction items generalizing before phase with
  | nil => contradiction
  | cons v vs ih =>
    have first := each v List.mem_cons_self
    cases vs with
    | nil =>
      rw [itemTokens, first _ _ _ opens, parseTokens?_cons rfl, List.reverse_cons]
      rfl
    | cons w ws =>
      have rest := ih (fun u mem => each u (List.mem_cons_of_mem _ mem)) nofun (v.toNode :: before) .value (.inl rfl)
      rw [itemTokens, List.append_assoc, List.cons_append, first _ _ _ opens, parseTokens?_cons rfl, rest,
        List.reverse_cons, List.append_assoc]
      · rfl
      · nofun

/-- A key and a value become a member, which waits for what follows. -/
theorem member_built {v : Json} (value : Built v.tokens v.toNode) (stack : List Frame) (before : List (Node × Node))
    (closable : Bool) (k : String) (more : List Token) :
    parseTokens? stack (.key before closable) (.string (some k) :: .colon :: (v.tokens ++ more)) =
      parseTokens? (.member before (.string (some k)) :: stack) (.done v.toNode) more := by
  rw [parseTokens?_cons (by cases closable <;> rfl), parseTokens?_cons rfl]
  exact value _ _ _ (.inl rfl)

theorem members_built {members : List (String × Json)} (each : ∀ m ∈ members, Built m.2.tokens m.2.toNode)
    (nonempty : members ≠ []) (stack : List Frame) (before : List (Node × Node)) (closable : Bool) (more : List Token) :
    parseTokens? stack (.key before closable) (memberTokens members ++ .closeObject :: more) =
      parseTokens? stack (.done (.map none (before.reverse ++ memberNodes members))) more := by
  induction members generalizing before closable with
  | nil => contradiction
  | cons m ms ih =>
    obtain ⟨k, v⟩ := m
    have first : Built v.tokens v.toNode := each (k, v) List.mem_cons_self
    cases ms with
    | nil =>
      rw [memberTokens, List.cons_append, List.cons_append, member_built first, parseTokens?_cons rfl,
        List.reverse_cons]
      rfl
    | cons n ns =>
      have rest := ih (fun u mem => each u (List.mem_cons_of_mem _ mem)) nofun
        ((.string (some k), v.toNode) :: before) false
      rw [memberTokens, List.cons_append, List.cons_append, List.append_assoc, List.cons_append, member_built first,
        parseTokens?_cons rfl, rest, List.reverse_cons, List.append_assoc]
      · rfl
      · nofun

theorem built (j : Json) : Built j.tokens j.toNode := by
  induction j using inside_induction with
  | null | bool | number | string => exact leaf_built rfl
  | array items ih =>
    intro stack phase more opens
    have opened : phase.step? stack .openArray = some (.array [] :: stack, .item) := by
      rcases opens with rfl | rfl <;> rfl
    rw [tokens, List.cons_append, List.append_assoc, parseTokens?_cons opened]
    cases items with
    | nil => exact parseTokens?_cons rfl
    | cons v vs => exact items_built ih nofun stack [] .item more (.inr rfl)
  | object members ih =>
    intro stack phase more opens
    have opened : phase.step? stack .openObject = some (stack, .key [] true) := by
      rcases opens with rfl | rfl <;> rfl
    rw [tokens, List.cons_append, List.append_assoc, parseTokens?_cons opened]
    cases members with
    | nil => exact parseTokens?_cons rfl
    | cons m ms => exact members_built ih nofun stack [] true more

/-- The compact text of a value is read as the tree of the value. -/
theorem ofJson?_compact (j : Json) : Node.ofJson? j.compact = some j.toNode := by
  have spelled := j.spelled [] Numeral.ends_nil
  have built := j.built [] .value [] (.inl rfl)
  simp only [List.append_nil, Token.ofChars?, Option.map_some] at spelled built
  rw [Node.ofJson?, compact, String.toList_ofList, spelled]
  exact built

end ThriftCatalog.Json
