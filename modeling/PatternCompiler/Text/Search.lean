import PatternCompiler.Text.Blank

/-!
Searching a text: whether a piece occurs in it, and the fragments that hints quote from a
message.
-/

set_option autoImplicit false
set_option relaxedAutoImplicit false

namespace PatternCompiler.Text

def occurs (piece : List Char) : List Char → Bool
  | [] => piece.isEmpty
  | c :: rest => piece.isPrefixOf (c :: rest) || occurs piece rest

def quoted : List Char → Option (List Char)
  | [] => none
  | c :: rest =>
      if c = '\'' then
        match rest.takeWhile (· != '\''), rest.dropWhile (· != '\'') with
        | fragment@(_ :: _), _ :: _ => some fragment
        | _, _ => quoted rest
      else quoted rest

/-- The character after the first backslash that a character other than a line feed follows. -/
def escaped : List Char → Option Char
  | '\\' :: c :: rest => if c = '\n' then escaped (c :: rest) else some c
  | _ :: rest => escaped rest
  | [] => none

def bracketedRange : List Char → Option (Char × Char)
  | [] => none
  | c :: rest =>
      match c, rest with
      | '[', a :: '-' :: b :: ']' :: _ =>
          if a = '\n' || b = '\n' then bracketedRange rest else some (a, b)
      | _, _ => bracketedRange rest

/-- The run of characters without white space that ends a text, if there is one. -/
def trailingWord (text : List Char) : Option (List Char) :=
  match (text.reverse.takeWhile fun c => !isBlank c).reverse with
  | [] => none
  | word => some word

end PatternCompiler.Text
