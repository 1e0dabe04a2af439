import ThriftCatalog.Number.Binary64

/-! The core schema of YAML: which plain scalars are null, booleans, integers or floats. -/
namespace ThriftCatalog.Yaml

def isNullWord (s : String) : Bool :=
  s = "null" || s = "Null" || s = "NULL" || s = "~"

def bool? (s : String) : Option Bool :=
  if s = "true" || s = "True" || s = "TRUE" then some true
  else if s = "false" || s = "False" || s = "FALSE" then some false
  else none

def digitIn? (base : Nat) (c : Char) : Option Nat :=
  let value? :=
    if c.isDigit then some (c.toNat - '0'.toNat)
    else if 'a' ≤ c ∧ c ≤ 'z' then some (c.toNat - 'a'.toNat + 10)
    else if 'A' ≤ c ∧ c ≤ 'Z' then some (c.toNat - 'A'.toNat + 10)
    else none
  value?.filter (· < base)

def digitsIn? (base : Nat) (cs : List Char) : Option Nat :=
  if cs.isEmpty then none
  else cs.foldlM (fun n c => (digitIn? base c).map (base * n + ·)) 0

def withoutPlus : List Char → List Char
  | '+' :: cs => cs
  | cs => cs

def withoutSign : List Char → List Char
  | '+' :: cs | '-' :: cs => cs
  | cs => cs

/-- Digits that begin with a superfluous zero are no number. -/
def isZeroPadded (cs : List Char) : Bool :=
  match withoutSign cs with
  | '0' :: c :: cs => (c :: cs).all Char.isDigit
  | _ => false

/-- Digits after the mark of their base; decimal digits have none. -/
def magnitude? : List Char → Option Nat
  | '0' :: 'x' :: cs => digitsIn? 16 cs
  | '0' :: 'o' :: cs => digitsIn? 8 cs
  | '0' :: 'b' :: cs => digitsIn? 2 cs
  | cs => if isZeroPadded cs then none else digitsIn? 10 cs

def unsigned? (max : Nat) (cs : List Char) : Option Nat :=
  (magnitude? (withoutPlus cs)).filter (· ≤ max)

def negated? (max : Nat) : List Char → Option Nat
  | '-' :: cs => (magnitude? cs).filter (· ≤ max)
  | _ => none

/-- The exponent of a float: nothing, or its mark with digits that may have a sign. -/
def floatExponent? : List Char → Option Int
  | [] => some 0
  | c :: cs =>
    if c = 'e' ∨ c = 'E' then
      match cs with
      | '-' :: cs => (digitsIn? 10 cs).map fun n => -(n : Int)
      | cs => (digitsIn? 10 (withoutPlus cs)).map Int.ofNat
    else none

/-- A float without a sign: digits with a point anywhere among them or none, at least one digit. -/
def unsignedFloat? (cs : List Char) : Option Binary64 :=
  let whole := cs.takeWhile Char.isDigit
  let rest := cs.dropWhile Char.isDigit
  let (fraction, rest) :=
    match rest with
    | '.' :: rest => (rest.takeWhile Char.isDigit, rest.dropWhile Char.isDigit)
    | rest => ([], rest)
  do
    let m ← digitsIn? 10 (whole ++ fraction)
    let e ← floatExponent? rest
    Binary64.ofDecimal? m (e - fraction.length)

/-- A finite float, or `none` within for the infinities and the number that is none. -/
def float? (cs : List Char) : Option (Option Binary64) :=
  let infinities := [".inf", ".Inf", ".INF"].map String.toList
  let body := withoutPlus cs
  if infinities.contains body then some none
  else
    match body with
    | '-' :: rest =>
      if cs = body ∧ infinities.contains rest then some none
      else if cs = body then (unsignedFloat? rest).map fun x => some (x.withSign true)
      else none
    | _ =>
      if [".nan", ".NaN", ".NAN"].any (·.toList = cs) then some none
      else (unsignedFloat? body).map some

/-- What a plain scalar is. -/
inductive Plain where
  | null
  | bool (b : Bool)
  | integer (n : Int)
  /-- An integer beyond 64 bits that fits twice as many. -/
  | wideInteger
  | float (x : Option Binary64)
  | text

/-- An integer of any width that plain scalars may have. -/
def integer? (s : String) : Option Plain :=
  let cs := s.toList
  match unsigned? 0xFFFFFFFFFFFFFFFF cs, negated? 0x8000000000000000 cs with
  | some n, _ => some (.integer n)
  | none, some n => some (.integer (-(n : Int)))
  | none, none =>
    if (unsigned? 0xFFFFFFFFFFFFFFFFFFFFFFFFFFFFFFFF cs).isSome ||
        (negated? 0x80000000000000000000000000000000 cs).isSome then some .wideInteger
    else none

def plain (s : String) : Plain :=
  if s.isEmpty || isNullWord s then .null
  else
    match bool? s with
    | some b => .bool b
    | none =>
      match integer? s with
      | some p => p
      | none =>
        if isZeroPadded s.toList then .text
        else
          match float? s.toList with
          | some x => .float x
          | none => .text

end ThriftCatalog.Yaml
