/-!
Lines of a text. `rawLines` cuts a text after each line feed and loses nothing; `lines` drops the
line endings.
-/

set_option autoImplicit false
set_option relaxedAutoImplicit false

namespace PatternCompiler.Text

def rawLines : List Char → List (List Char)
  | [] => []
  | c :: rest =>
      if c = '\n' then [c] :: rawLines rest
      else
        match rawLines rest with
        | [] => [[c]]
        | line :: more => (c :: line) :: more

/-- A raw line without its line feed, nor the carriage return just before that. -/
def dropLineEnd : List Char → List Char
  | [] => []
  | ['\n'] => []
  | ['\r', '\n'] => []
  | c :: rest => c :: dropLineEnd rest

/-- The lines of a text without their endings; a final line feed starts no further line. -/
def lines (text : List Char) : List (List Char) :=
  (rawLines text).map dropLineEnd

end PatternCompiler.Text
