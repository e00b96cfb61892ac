import PatternCompiler.Fault
import PatternCompiler.Hint
import PatternCompiler.Text.Lines

/-!
Diagnostics: a message about a position of a source text, its hint, the line and column of the
position, the code of the message, and the text shown to a reader.
-/

set_option autoImplicit false
set_option relaxedAutoImplicit false

namespace PatternCompiler

/-- A message about a character position of a text. A diagnostic without a text is bare. -/
structure Diagnostic where
  message : String
  pos : Nat
  text : String := ""
  hint : Option String := none
  deriving DecidableEq

/-- A line of a text and a column in it: the line counts from one, the column from zero. -/
structure Location where
  line : Nat
  column : Nat
  content : List Char
  deriving DecidableEq

namespace Location

/-- Looks for a position among the lines that start at `start`, the first of which has number
`line`. A position past the last line is at that line's end, `last`. -/
def search (pos line start : Nat) (last : Location) : List (List Char) → Location
  | [] => last
  | content :: rest =>
      if pos < start + content.length + 1 then ⟨line, pos - start, content⟩
      else
        search pos (line + 1) (start + content.length + 1) ⟨line, content.length, content⟩ rest

/-- The location of a position of a text. Each line counts one character for its ending. -/
def ofPos (text : List Char) (pos : Nat) : Location :=
  search pos 1 0 ⟨1, 0, []⟩ (Text.lines text)

end Location

namespace Diagnostic

/-- The diagnostic for a violation found in a text, with the hint for its message. -/
def ofViolation (text : String) (v : Violation) : Diagnostic where
  message := v.fault.message
  pos := v.pos
  text := text
  hint := Hint.find? v.fault.message text v.pos

def withContext (d : Diagnostic) (text : String) : Diagnostic :=
  { d with text := text, hint := Hint.find? d.message text d.pos }

def withHint (d : Diagnostic) (hint : String) : Diagnostic :=
  { d with hint := some hint }

def withoutHint (d : Diagnostic) : Diagnostic :=
  { d with hint := none }

def location (d : Diagnostic) : Location :=
  Location.ofPos d.text.toList d.pos

/-- The diagnostic as shown to a reader: the message, the line with a caret, and the hint. -/
def format (d : Diagnostic) : String :=
  if d.text = "" then d.message ++ " at position " ++ Nat.repr d.pos
  else
    let location := d.location
    "STRling Parse Error: " ++ d.message ++ "\n\n> " ++ Nat.repr location.line ++ " | " ++
      String.ofList location.content ++ "\n>   | " ++
      String.ofList (List.replicate location.column ' ') ++ "^" ++
      match d.hint with
      | some hint => "\n\nHint: " ++ hint
      | none => ""

/-- The characters of a code: letters and digits in lower case, anything else as an underscore. An
underscore is written only if none was written just before. -/
def codeChars (afterUnderscore : Bool) : List Char → List Char
  | [] => []
  | c :: rest =>
      if c.isAlphanum then c.toLower :: codeChars false rest
      else if afterUnderscore then codeChars true rest
      else '_' :: codeChars true rest

def trimUnderscores (text : List Char) : List Char :=
  ((text.dropWhile (· == '_')).reverse.dropWhile (· == '_')).reverse

def codeOf (message : String) : String :=
  String.ofList (trimUnderscores (codeChars false message.toList))

def code (d : Diagnostic) : String :=
  codeOf d.message

def fullMessage (d : Diagnostic) : String :=
  match d.hint with
  | some hint => d.message ++ "\n\nHint: " ++ hint
  | none => d.message

end Diagnostic

end PatternCompiler
