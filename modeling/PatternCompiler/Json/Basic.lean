import PatternCompiler.Decimal.Shortest

/-!
JSON values. Objects keep their fields in order, since the order shows in serialised text; whole
numbers are kept apart from numbers with a fraction or an exponent.
-/

set_option autoImplicit false
set_option relaxedAutoImplicit false

namespace PatternCompiler

inductive Json
  | null
  | bool (b : Bool)
  | int (n : Int)
  | real (d : Decimal)
  | str (s : String)
  | arr (elements : List Json)
  | obj (fields : List (String × Json))

namespace Json

def nat (n : Nat) : Json :=
  .int n

def strOrNull : Option String → Json
  | some s => .str s
  | none => .null

def optionalField {α : Type} (name : String) (encode : α → Json) : Option α → List (String × Json)
  | some value => [(name, encode value)]
  | none => []

def lookup {α : Type} (name : String) (fields : List (String × α)) : Option α :=
  (fields.find? fun field => field.1 == name).map Prod.snd

def asString? : Json → Option String
  | .str s => some s
  | _ => none

def asBool? : Json → Option Bool
  | .bool b => some b
  | _ => none

def asChar? : Json → Option Char
  | .str s =>
      match s.toList with
      | [c] => some c
      | _ => none
  | _ => none

def asCount? : Json → Option UInt32
  | .int n => if h : n.toNat < UInt32.size ∧ 0 ≤ n then some (UInt32.ofNatLT n.toNat h.1) else none
  | _ => none

def asList? {α : Type} (decode : Json → Option α) : Json → Option (List α)
  | .arr elements => elements.mapM decode
  | _ => none

/-- The fields of a record that has the given field names: those of an object, or the elements of
an array that lists the fields in order. -/
def asRecord? (names : List String) : Json → Option (List (String × Json))
  | .obj fields => some fields
  | .arr elements => if elements.length ≤ names.length then some (names.zip elements) else none
  | _ => none

def required {α : Type} (name : String) (decode : Json → Option α)
    (fields : List (String × Json)) : Option α :=
  (lookup name fields).bind decode

def optional {α : Type} (name : String) (decode : Json → Option α)
    (fields : List (String × Json)) : Option (Option α) :=
  match lookup name fields with
  | none => some none
  | some .null => some none
  | some value => (decode value).map some

def defaulted {α : Type} (name : String) (default : α) (decode : Json → Option α)
    (fields : List (String × Json)) : Option α :=
  match lookup name fields with
  | none => some default
  | some value => decode value

end Json

end PatternCompiler
