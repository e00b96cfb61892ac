import PatternCompiler.Reading.Captures
import PatternCompiler.Reading.Scan

/-!
Escapes: numeric escapes, control escapes, class escapes with their property names, anchors and
backreferences.
-/

set_option autoImplicit false
set_option relaxedAutoImplicit false

namespace PatternCompiler.Reading

open Scan

def isHexDigit (c : Char) : Bool :=
  c.isDigit || ('a' ≤ c && c ≤ 'f') || ('A' ≤ c && c ≤ 'F')

def hexDigitValue (c : Char) : Nat :=
  if c.isDigit then c.toNat - '0'.toNat
  else if 'a' ≤ c then c.toNat - 'a'.toNat + 10
  else c.toNat - 'A'.toNat + 10

def hexValue (digits : List Char) : Nat :=
  digits.foldl (fun value c => 16 * value + hexDigitValue c) 0

/-- The character with a given code point, unless it is a surrogate or too large. -/
def scalar? (n : Nat) : Option Char :=
  if h : n.isValidChar then some (Char.ofNatAux n h) else none

def namedChar? (digits : List Char) : Option Char :=
  if digits.isEmpty then none else scalar? (hexValue digits)

/-- The character that hexadecimal digits name, or a fault at the escape's start. -/
def codePoint (digits : List Char) (start : Nat) : Scan Char :=
  match namedChar? digits with
  | some c => pure c
  | none => fail .invalidCodePoint start

def bracedCodePoint (unterminated : Fault) (start : Nat) : Scan Char := do
  let digits ← takeWhile isHexDigit
  if ← eat '}' then codePoint digits start else fail unterminated start

def fixedCodePoint (count : Nat) (invalid : Fault) (start : Nat) : Scan Char := do
  let digits := ((← rest).take count).takeWhile isHexDigit
  pass digits.length
  if digits.length = count then codePoint digits start else fail invalid start

def numericEscape? (start : Nat) : Char → Option (Scan Char)
  | 'x' => some do
      if ← eat '{' then bracedCodePoint .unterminatedHexEscape start
      else fixedCodePoint 2 .invalidHexEscape start
  | 'u' => some do
      if ← eat '{' then bracedCodePoint .unterminatedUnicodeEscape start
      else fixedCodePoint 4 .invalidUnicodeEscape start
  | 'U' => some (fixedCodePoint 8 .invalidLongUnicodeEscape start)
  | _ => none

def controlChar? : Char → Option Char
  | 'n' => some '\n'
  | 't' => some '\t'
  | 'r' => some '\r'
  | 'f' => some '\x0c'
  | 'v' => some '\x0b'
  | _ => none

def anchorOfLetter? : Char → Option Anchor
  | 'b' => some .wordBoundary
  | 'B' => some .notWordBoundary
  | 'A' => some .absoluteStart
  | 'Z' => some .endBeforeFinalNewline
  | 'z' => some .absoluteEnd
  | _ => none

def propertyName : Scan String := do
  let brace ← index
  if ← eat '{' then
    let name ← takeWhile (· != '}')
    if ← eat '}' then pure (String.ofList name) else fail .unterminatedProperty brace
  else fail .noPropertyName brace

/-- The property name after the letter of a class escape, for the escapes that have one. -/
def shorthandProperty (kind : Shorthand) : Scan (Option String) :=
  if kind.isProperty then some <$> propertyName else pure none

def count? (digits : List Char) : Option UInt32 :=
  let n := Nat.ofDigitChars 10 digits 0
  if h : n < UInt32.size then some (UInt32.ofNatLT n h) else none

def numberedReference (captures : Captures) (start : Nat) : Scan Pattern := do
  let digits ← takeWhile Char.isDigit
  match count? digits with
  | some n =>
      if n ≤ captures.counter then pure (.backreference (some n) none)
      else fail (.undefinedNumber (String.ofList digits)) start
  | none => fail (.undefinedNumber (String.ofList digits)) start

/-- A backreference by name; a group of that name must have been opened. -/
def namedReference (captures : Captures) (start : Nat) : Scan Pattern := do
  if ← eat '<' then
    let name ← String.ofList <$> takeWhile (· != '>')
    if ← eat '>' then
      if name ∈ captures.names then pure (.backreference none (some name))
      else fail (.undefinedName name) start
    else fail .unterminatedReference start
  else fail .noReferenceName start

/-- The character of an escape that stands for one, `letter` being taken. A letter without a
meaning is a fault; any other character stands for itself. -/
def charEscape (letter : Char) (start : Nat) : Scan Char :=
  if letter = '0' then pure '\x00'
  else
    match numericEscape? start letter with
    | some scan => scan
    | none =>
        match controlChar? letter with
        | some c => pure c
        | none => if letter.isAlpha then fail (.unknownEscape letter) start else pure letter

def letterEscape (captures : Captures) (letter : Char) (start : Nat) : Scan Pattern :=
  match Shorthand.ofLetter? letter with
  | some kind => Pattern.ofShorthand kind <$> shorthandProperty kind
  | none =>
      match anchorOfLetter? letter with
      | some place => pure (.anchor place)
      | none =>
          if letter = 'k' then namedReference captures start
          else (fun c => .literal (String.singleton c)) <$> charEscape letter start

def escape (captures : Captures) (start : Nat) : Scan Pattern := do
  match ← rest with
  | [] => fail .incompleteEscape start
  | letter :: _ =>
      if letter.isDigit && letter != '0' then numberedReference captures start
      else do
        pass 1
        letterEscape captures letter start

theorem forward_codePoint (digits : List Char) (start : Nat) : Forward (codePoint digits start) := by
  unfold codePoint
  split
  · exact forward_pure _
  · exact forward_fail _ _

theorem forward_bracedCodePoint (fault : Fault) (start : Nat) :
    Forward (bracedCodePoint fault start) := by
  refine forward_bind (forward_takeWhile _) fun digits => forward_bind (forward_eat _) fun closed => ?_
  split
  · exact forward_codePoint _ _
  · exact forward_fail _ _

theorem forward_fixedCodePoint (count : Nat) (fault : Fault) (start : Nat) :
    Forward (fixedCodePoint count fault start) := by
  refine forward_bind forward_rest fun text => forward_bind (forward_pass _) fun _ => ?_
  split
  · exact forward_codePoint _ _
  · exact forward_fail _ _

theorem forward_numericEscape {start : Nat} {letter : Char} {scan : Scan Char}
    (h : numericEscape? start letter = some scan) : Forward scan := by
  unfold numericEscape? at h
  split at h
  · cases h
    refine forward_bind (forward_eat _) fun braced => ?_
    split
    · exact forward_bracedCodePoint _ _
    · exact forward_fixedCodePoint _ _ _
  · cases h
    refine forward_bind (forward_eat _) fun braced => ?_
    split
    · exact forward_bracedCodePoint _ _
    · exact forward_fixedCodePoint _ _ _
  · cases h
    exact forward_fixedCodePoint _ _ _
  · cases h

theorem forward_propertyName : Forward propertyName := by
  refine forward_bind forward_index fun brace => forward_bind (forward_eat _) fun opened => ?_
  split
  · refine forward_bind (forward_takeWhile _) fun name => forward_bind (forward_eat _) fun closed => ?_
    split
    · exact forward_pure _
    · exact forward_fail _ _
  · exact forward_fail _ _

theorem forward_shorthandProperty (kind : Shorthand) : Forward (shorthandProperty kind) := by
  unfold shorthandProperty
  split
  · exact forward_map forward_propertyName
  · exact forward_pure _

theorem forward_numberedReference (captures : Captures) (start : Nat) :
    Forward (numberedReference captures start) := by
  refine forward_bind (forward_takeWhile _) fun digits => ?_
  split
  · split
    · exact forward_pure _
    · exact forward_fail _ _
  · exact forward_fail _ _

theorem forward_namedReference (captures : Captures) (start : Nat) :
    Forward (namedReference captures start) := by
  refine forward_bind (forward_eat _) fun opened => ?_
  split
  · refine forward_bind (forward_map (forward_takeWhile _)) fun name =>
      forward_bind (forward_eat _) fun closed => ?_
    split
    · split
      · exact forward_pure _
      · exact forward_fail _ _
    · exact forward_fail _ _
  · exact forward_fail _ _

theorem forward_charEscape (letter : Char) (start : Nat) : Forward (charEscape letter start) := by
  unfold charEscape
  split
  · exact forward_pure _
  · split
    · next scan h => exact forward_numericEscape h
    · split
      · exact forward_pure _
      · split
        · exact forward_fail _ _
        · exact forward_pure _

theorem forward_letterEscape (captures : Captures) (letter : Char) (start : Nat) :
    Forward (letterEscape captures letter start) := by
  unfold letterEscape
  split
  · exact forward_map (forward_shorthandProperty _)
  · split
    · exact forward_pure _
    · split
      · exact forward_namedReference _ _
      · exact forward_map (forward_charEscape _ _)

theorem forward_escape (captures : Captures) (start : Nat) : Forward (escape captures start) := by
  refine forward_bind forward_rest fun text => ?_
  split
  · exact forward_fail _ _
  · split
    · exact forward_numberedReference _ _
    · exact forward_bind (forward_pass _) fun _ => forward_letterEscape _ _ _

end PatternCompiler.Reading
