import ThriftCatalog.Document.Text
import ThriftCatalog.Model.TypeInfo

/-! Which JSON values are values of a type, and which texts may be keys of a map.

The keys of a JSON object are texts, so a key that is no string by its type is checked by its text. Behind a name that
was left unexpanded anything is allowed. -/
namespace ThriftCatalog.Sample

def json? (text : String) : Option Json :=
  Document.parse? .json Document.Reader.free text

/-- An integer below a limit and not below its negation. -/
def fits (limit : Int) (v : Json) : Bool :=
  match v.signed? with
  | some n => -limit ≤ n && n < limit
  | none => false

/-- Decimal digits and nothing else, at least one. -/
def natText? (cs : List Char) : Option Nat :=
  if cs.isEmpty || !cs.all Char.isDigit then none
  else some (cs.foldl (fun n c => 10 * n + (c.toNat - '0'.toNat)) 0)

/-- Whether a text is an integer that fits 64 bits with a sign. Either sign may be written. -/
def isIntegerText (text : String) : Bool :=
  match text.toList with
  | '-' :: cs => (natText? cs).any (· ≤ 0x8000000000000000)
  | '+' :: cs => (natText? cs).any (· < 0x8000000000000000)
  | cs => (natText? cs).any (· < 0x8000000000000000)

/-- An enum value is one of the constants by name, or any integer. -/
def enumConforms (e : EnumInfo) : Json → Bool
  | .string s => e.constants.contains s
  | v => v.signed?.isSome

/-- Whether a text may be a key; `conforms` says which values are of the key type. -/
def keyConforms (conforms : Json → Bool) (type : TypeInfo) (key : String) : Bool :=
  match type with
  | .string | .binary | .unresolved _ => true
  | .bool => key = "true" || key = "false"
  | .enum e => e.constants.contains key || isIntegerText key
  | _ => (json? key).any conforms

mutual

def conforms : TypeInfo → Json → Bool
  | .void, v => v.isNull
  | .bool, v => v.isBool
  | .i8, v => fits 0x80 v
  | .i16, v => fits 0x8000 v
  | .i32, v => fits 0x80000000 v
  | .i64, v => v.signed?.isSome
  | .double, v => v.isNumber
  | .string, v | .binary, v => v.isString
  | .enum e, v => enumConforms e v
  | .struct ⟨_, fields, _⟩, v | .exception ⟨_, fields, _⟩, v =>
    match v with
    | .object members => members.all fun m => memberConforms fields m.1 m.2
    | _ => false
  | .list element, v | .set element, v =>
    match v with
    | .array items => items.all fun item => conforms element item
    | _ => false
  | .map key value, v =>
    match v with
    | .object members =>
      members.all fun m => keyConforms (fun k => conforms key k) key m.1 && conforms value m.2
    | _ => false
  | .unresolved _, _ => true

/-- Whether a member is a value of the first field with its name. -/
def memberConforms : List (FieldOf TypeInfo) → String → Json → Bool
  | [], _, _ => false
  | ⟨n, _, t, _⟩ :: fields, name, v =>
    if n = name then conforms t v else memberConforms fields name v

end

end ThriftCatalog.Sample
