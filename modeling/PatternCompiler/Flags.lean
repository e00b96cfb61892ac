import PatternCompiler.Text.Blank

/-!
Matching flags and the letters that set them.
-/

set_option autoImplicit false
set_option relaxedAutoImplicit false

namespace PatternCompiler

/-- The flags that a pattern may set for its whole extent. -/
structure Flags where
  ignoreCase : Bool := false
  multiline : Bool := false
  dotAll : Bool := false
  unicode : Bool := false
  extended : Bool := false
  deriving DecidableEq

namespace Flags

def ofLetter? : Char → Option Flags
  | 'i' => some { ignoreCase := true }
  | 'm' => some { multiline := true }
  | 's' => some { dotAll := true }
  | 'u' => some { unicode := true }
  | 'x' => some { extended := true }
  | _ => none

def union (a b : Flags) : Flags where
  ignoreCase := a.ignoreCase || b.ignoreCase
  multiline := a.multiline || b.multiline
  dotAll := a.dotAll || b.dotAll
  unicode := a.unicode || b.unicode
  extended := a.extended || b.extended

def isSeparator (c : Char) : Bool :=
  c == ',' || c == '[' || c == ']' || Text.isBlank c

/-- A character that is neither a flag letter nor a separator, and where it stands. -/
structure UnknownLetter where
  char : Char
  index : Nat
  deriving DecidableEq

/-- Reads flag letters from `index` on, adding them to the flags read so far. -/
def readLetters (index : Nat) (flags : Flags) : List Char → Except UnknownLetter Flags
  | [] => .ok flags
  | c :: rest =>
      match ofLetter? c with
      | some flag => readLetters (index + 1) (flags.union flag) rest
      | none =>
          if isSeparator c then readLetters (index + 1) flags rest
          else .error ⟨c, index⟩

def ofLetters (letters : List Char) : Except UnknownLetter Flags :=
  readLetters 0 {} letters

def letters (flags : Flags) : List Char :=
  (if flags.ignoreCase then ['i'] else []) ++ (if flags.multiline then ['m'] else []) ++
    (if flags.dotAll then ['s'] else []) ++ (if flags.unicode then ['u'] else []) ++
    (if flags.extended then ['x'] else [])

def isEmpty (flags : Flags) : Bool :=
  flags == {}

end Flags

end PatternCompiler
