import PatternCompiler.Json.Basic

/-!
Reading JSON text. The depth of the recursion is bounded by the length of the text.
-/

set_option autoImplicit false
set_option relaxedAutoImplicit false

namespace PatternCompiler.Json

def isSpace (c : Char) : Bool :=
  c == ' ' || c == '\t' || c == '\n' || c == '\r'

def skipSpace (text : List Char) : List Char :=
  text.dropWhile isSpace

def hexDigit? (c : Char) : Option Nat :=
  if c.isDigit then some (c.toNat - '0'.toNat)
  else if 'a' ≤ c && c ≤ 'f' then some (c.toNat - 'a'.toNat + 10)
  else if 'A' ≤ c && c ≤ 'F' then some (c.toNat - 'A'.toNat + 10)
  else none

def fourDigits? (a b c d : Char) : Option Nat := do
  return (((← hexDigit? a) * 16 + (← hexDigit? b)) * 16 + (← hexDigit? c)) * 16 + (← hexDigit? d)

def escapedChar? : Char → Option Char
  | '"' => some '"'
  | '\\' => some '\\'
  | '/' => some '/'
  | 'b' => some '\x08'
  | 'f' => some '\x0c'
  | 'n' => some '\n'
  | 'r' => some '\r'
  | 't' => some '\t'
  | _ => none

/-- The rest of a string whose opening quote is read, `done` being its characters so far in reverse.
Characters beyond the basic plane are written as a pair of surrogates. -/
def readString (done : List Char) : List Char → Option (String × List Char)
  | '"' :: rest => some (String.ofList done.reverse, rest)
  | '\\' :: 'u' :: a :: b :: c :: d :: '\\' :: 'u' :: e :: f :: g :: h :: rest => do
      let first ← fourDigits? a b c d
      if 0xD800 ≤ first ∧ first < 0xDC00 then
        let second ← fourDigits? e f g h
        if 0xDC00 ≤ second ∧ second < 0xE000 then
          let code := 0x10000 + (first - 0xD800) * 0x400 + (second - 0xDC00)
          readString (Char.ofNat code :: done) rest
        else none
      else if 0xDC00 ≤ first ∧ first < 0xE000 then none
      else readString (Char.ofNat first :: done) ('\\' :: 'u' :: e :: f :: g :: h :: rest)
  | '\\' :: 'u' :: a :: b :: c :: d :: rest => do
      let code ← fourDigits? a b c d
      if 0xD800 ≤ code ∧ code < 0xE000 then none
      else readString (Char.ofNat code :: done) rest
  | '\\' :: letter :: rest => do
      readString ((← escapedChar? letter) :: done) rest
  | c :: rest => if c.toNat < 0x20 then none else readString (c :: done) rest
  | [] => none

def readFraction : List Char → Option (Option (List Char) × List Char)
  | '.' :: rest =>
      match rest.takeWhile Char.isDigit with
      | [] => none
      | digits => some (some digits, rest.dropWhile Char.isDigit)
  | rest => some (none, rest)

def readExponentDigits (negative : Bool) (text : List Char) : Option (Int × List Char) :=
  match text.takeWhile Char.isDigit with
  | [] => none
  | digits =>
      let size : Int := Nat.ofDigitChars 10 digits 0
      some (if negative then -size else size, text.dropWhile Char.isDigit)

def readExponent : List Char → Option (Option Int × List Char)
  | c :: rest =>
      if c = 'e' || c = 'E' then do
        let (exponent, rest) ←
          match rest with
          | '+' :: digits => readExponentDigits false digits
          | '-' :: digits => readExponentDigits true digits
          | digits => readExponentDigits false digits
        return (some exponent, rest)
      else some (none, c :: rest)
  | [] => some (none, [])

/-- A number from its written parts. A whole number that fits neither a signed nor an unsigned
64-bit word, and a negative zero, count as numbers with a fraction. -/
def numberOf (negative : Bool) (whole : List Char) (fraction : Option (List Char))
    (exponent : Option Int) : Json :=
  let digits := fraction.getD []
  let mantissa := Nat.ofDigitChars 10 (whole ++ digits) 0
  let value : Int := if negative then -mantissa else mantissa
  if fraction.isNone && exponent.isNone && decide (-Int.pow 2 63 ≤ value) &&
      decide (value < Int.pow 2 64) && !(negative && mantissa == 0) then
    .int value
  else .real ⟨negative, mantissa, exponent.getD 0 - digits.length⟩

def readUnsigned (negative : Bool) (text : List Char) : Option (Json × List Char) := do
  let whole := text.takeWhile Char.isDigit
  if whole.isEmpty || (whole.head? == some '0' && decide (1 < whole.length)) then none
  else
    let (fraction, rest) ← readFraction (text.dropWhile Char.isDigit)
    let (exponent, rest) ← readExponent rest
    return (numberOf negative whole fraction exponent, rest)

def readNumber : List Char → Option (Json × List Char)
  | '-' :: rest => readUnsigned true rest
  | text => readUnsigned false text

def insertField (fields : List (String × Json)) (name : String) (value : Json) :
    List (String × Json) :=
  (fields.filter fun field => field.1 != name) ++ [(name, value)]

mutual

def readValue : (fuel : Nat) → List Char → Option (Json × List Char)
  | 0, _ => none
  | fuel + 1, text =>
      match skipSpace text with
      | 'n' :: 'u' :: 'l' :: 'l' :: rest => some (.null, rest)
      | 't' :: 'r' :: 'u' :: 'e' :: rest => some (.bool true, rest)
      | 'f' :: 'a' :: 'l' :: 's' :: 'e' :: rest => some (.bool false, rest)
      | '"' :: rest => (readString [] rest).map fun (s, rest) => (.str s, rest)
      | '[' :: rest =>
          match skipSpace rest with
          | ']' :: rest => some (.arr [], rest)
          | _ => readElements fuel [] rest
      | '{' :: rest =>
          match skipSpace rest with
          | '}' :: rest => some (.obj [], rest)
          | _ => readFields fuel [] rest
      | text => readNumber text

def readElements : (fuel : Nat) → List Json → List Char → Option (Json × List Char)
  | 0, _, _ => none
  | fuel + 1, done, text => do
      let (value, rest) ← readValue fuel text
      match skipSpace rest with
      | ',' :: rest => readElements fuel (value :: done) rest
      | ']' :: rest => some (.arr (value :: done).reverse, rest)
      | _ => none

def readFields : (fuel : Nat) → List (String × Json) → List Char → Option (Json × List Char)
  | 0, _, _ => none
  | fuel + 1, done, text =>
      match skipSpace text with
      | '"' :: rest => do
          let (name, rest) ← readString [] rest
          match skipSpace rest with
          | ':' :: rest => do
              let (value, rest) ← readValue fuel rest
              match skipSpace rest with
              | ',' :: rest => readFields fuel (insertField done name value) rest
              | '}' :: rest => some (.obj (insertField done name value), rest)
              | _ => none
          | _ => none
      | _ => none

end

def parse (text : List Char) : Option Json := do
  let (value, rest) ← readValue (2 * text.length + 2) text
  if (skipSpace rest).isEmpty then some value else none

end PatternCompiler.Json
