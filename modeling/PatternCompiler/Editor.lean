import PatternCompiler.Diagnostic
import PatternCompiler.Json.Basic

/-!
Diagnostics in the form that editors exchange: a range of one character, a severity, a code, and
the message with its hint.
-/

set_option autoImplicit false
set_option relaxedAutoImplicit false

namespace PatternCompiler.Diagnostic

/-- A place in a document, lines and characters counting from zero. Editors exchange both in 32
bits, so a document is taken to be shorter than that. -/
def editorPlace (line character : Nat) : Json :=
  .obj [("line", .nat line), ("character", .nat character)]

def toEditor (d : Diagnostic) : Json :=
  let place := d.location
  .obj [
    ("range", .obj [
      ("start", editorPlace (place.line - 1) place.column),
      ("end", editorPlace (place.line - 1) (place.column + 1))]),
    ("severity", .nat 1),
    ("code", .str d.code),
    ("source", .str "STRling"),
    ("message", .str d.fullMessage)]

end PatternCompiler.Diagnostic
