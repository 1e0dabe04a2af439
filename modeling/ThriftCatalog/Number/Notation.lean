import ThriftCatalog.Number.Shortest

/-! How floats are laid out in text. -/
namespace ThriftCatalog

/-- Positional notation is for numbers whose leading digit has an exponent of at least `plainFrom` and below
`plainBelow`. -/
structure FloatNotation where
  plainFrom : Int
  plainBelow : Int

/-- Digits in positional notation up to sixteen places before the point and four zeros after it. -/
def FloatNotation.standard : FloatNotation := ⟨-5, 16⟩

namespace FloatNotation

/-- A decimal that is not zero, by its digits and the exponent of the first of them: whole numbers keep one zero
after the point. -/
def positional (digits : List Char) (lead : Int) : List Char :=
  if lead < 0 then
    '0' :: '.' :: (List.replicate (lead.natAbs - 1) '0' ++ digits)
  else
    let whole := lead.toNat + 1
    if digits.length ≤ whole then
      digits ++ List.replicate (whole - digits.length) '0' ++ ['.', '0']
    else digits.take whole ++ '.' :: digits.drop whole

/-- One digit before the point, none after it if there is no other; the exponent has a sign. -/
def scientific (digits : List Char) (lead : Int) : List Char :=
  let mantissa :=
    match digits with
    | d :: e :: rest => d :: '.' :: e :: rest
    | digits => digits
  mantissa ++ 'e' :: (if lead < 0 then '-' else '+') :: (toString lead.natAbs).toList

def chars (f : FloatNotation) (x : Binary64) : List Char :=
  let sign := if x.negative then ['-'] else []
  if x.isZero then sign ++ ['0', '.', '0']
  else
    let d := x.shortest
    let digits := (toString d.digits).toList
    let lead := (digits.length : Int) + d.exponent - 1
    sign ++
      if f.plainFrom ≤ lead ∧ lead < f.plainBelow then positional digits lead
      else scientific digits lead

end FloatNotation

end ThriftCatalog
