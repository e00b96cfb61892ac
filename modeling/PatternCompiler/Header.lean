import PatternCompiler.Fault
import PatternCompiler.Flags
import PatternCompiler.Text.Lines

/-!
The header of a source text: leading lines that are blank, comments or directives. `%flags` lines
set flags, other directives are passed over, and the first other line starts the pattern's body.
-/

set_option autoImplicit false
set_option relaxedAutoImplicit false

namespace PatternCompiler

/-- What a line of a source text is, as long as no body line has come. -/
inductive HeaderLine
  | blank
  | flags (lead : Nat) (letters : List Char)
  | unknown (directive : List Char)
  | body
  deriving DecidableEq

namespace Header

def flagsWord : List Char :=
  ['%', 'f', 'l', 'a', 'g', 's']

def leadLength (line : List Char) : Nat :=
  (line.takeWhile Text.isBlank).length

def classify (line : List Char) : HeaderLine :=
  let content := Text.trim line
  match content with
  | [] => .blank
  | '#' :: _ => .blank
  | '%' :: _ =>
      if flagsWord.isPrefixOf content then
        .flags (leadLength line) (content.drop flagsWord.length)
      else .unknown content
  | _ => .body

/-- The flags of a header, its length in characters, and the lines of the body. -/
structure Ending where
  flags : Flags
  length : Nat
  body : List (List Char)

/-- What reading a header has led to, and the unknown directives passed on the way. -/
structure Outcome where
  unknown : List (List Char)
  result : Except Violation Ending

def readLines (offset : Nat) (flags : Flags) : List (List Char) → Outcome
  | [] => ⟨[], .ok ⟨flags, offset, []⟩⟩
  | line :: rest =>
      match classify line with
      | .blank => readLines (offset + line.length) flags rest
      | .unknown directive =>
          let later := readLines (offset + line.length) flags rest
          { later with unknown := directive :: later.unknown }
      | .flags lead letters =>
          match Flags.ofLetters letters with
          | .ok more => readLines (offset + line.length) (flags.union more) rest
          | .error letter =>
              ⟨[], .error ⟨.invalidFlag letter.char,
                offset + lead + flagsWord.length + letter.index⟩⟩
      | .body => ⟨[], .ok ⟨flags, offset, line :: rest⟩⟩

def read (text : List Char) : Outcome :=
  readLines 0 {} (Text.rawLines text)

/-- The position of the first flags directive among body lines that start at `offset`. -/
def lateDirective? (offset : Nat) : List (List Char) → Option Nat
  | [] => none
  | line :: rest =>
      if flagsWord.isPrefixOf (Text.trimStart line) then some (offset + leadLength line)
      else lateDirective? (offset + line.length) rest

end Header

end PatternCompiler
