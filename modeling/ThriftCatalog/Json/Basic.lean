import ThriftCatalog.Number.Binary64

/-! JSON values. A number is an integer of at most 64 bits or a finite float, and the two are never equal. -/
namespace ThriftCatalog

inductive Json.Number where
  | integer (n : Int)
  | float (x : Binary64)
deriving DecidableEq, Repr

inductive Json where
  | null
  | bool (b : Bool)
  | number (n : Json.Number)
  | string (s : String)
  | array (items : List Json)
  /-- Members in the order in which their names first came. -/
  | object (members : List (String × Json))
deriving Repr

namespace Json

/-- The least and the greatest integer that a number can hold. -/
def minInteger : Int := -0x8000000000000000
def maxInteger : Int := 0xFFFFFFFFFFFFFFFF

/-- The greatest integer with a sign bit. -/
def maxSigned : Int := 0x7FFFFFFFFFFFFFFF

def ofNat (n : Nat) : Json := number (.integer n)

/-- The value as an integer that fits 64 bits with a sign. -/
def signed? : Json → Option Int
  | number (.integer n) => if minInteger ≤ n ∧ n ≤ maxSigned then some n else none
  | _ => none

def isNull : Json → Bool
  | null => true
  | _ => false

def isBool : Json → Bool
  | bool _ => true
  | _ => false

def isString : Json → Bool
  | string _ => true
  | _ => false

def isNumber : Json → Bool
  | number _ => true
  | _ => false

end Json

end ThriftCatalog
