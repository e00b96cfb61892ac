import PatternCompiler.Json.Basic

/-!
JSON text, compact or with an indent of two spaces per level.
-/

set_option autoImplicit false
set_option relaxedAutoImplicit false

namespace PatternCompiler.Json

def hexDigit (n : Nat) : Char :=
  Nat.digitChar (n % 16)

/-- One character of a JSON string: quotes, backslashes and control characters are escaped. -/
def stringChar (c : Char) : List Char :=
  if c = '"' then ['\\', '"']
  else if c = '\\' then ['\\', '\\']
  else if c = '\x08' then ['\\', 'b']
  else if c = '\x0c' then ['\\', 'f']
  else if c = '\n' then ['\\', 'n']
  else if c = '\r' then ['\\', 'r']
  else if c = '\t' then ['\\', 't']
  else if c.toNat < 0x20 then
    ['\\', 'u', '0', '0', hexDigit (c.toNat / 16), hexDigit c.toNat]
  else [c]

def stringText (s : String) : String :=
  String.ofList ('"' :: s.toList.flatMap stringChar ++ ['"'])

def scalarText : Json → String
  | .null => "null"
  | .bool true => "true"
  | .bool false => "false"
  | .int n => toString n
  | .real d => String.ofList d.positional
  | .str s => stringText s
  | .arr _ => "[]"
  | .obj _ => "\x7b\x7d"

mutual

def compact : Json → String
  | .arr elements => "[" ++ String.intercalate "," (compactAll elements) ++ "]"
  | .obj fields => "\x7b" ++ String.intercalate "," (compactFields fields) ++ "\x7d"
  | .null => scalarText .null
  | .bool b => scalarText (.bool b)
  | .int n => scalarText (.int n)
  | .real d => scalarText (.real d)
  | .str s => scalarText (.str s)

def compactAll : List Json → List String
  | [] => []
  | j :: js => compact j :: compactAll js

def compactFields : List (String × Json) → List String
  | [] => []
  | (name, j) :: fields => (stringText name ++ ":" ++ compact j) :: compactFields fields

end

def indent (level : Nat) : String :=
  String.ofList (List.replicate (2 * level) ' ')

/-- The lines of an array or object whose closing bracket stands at `level`. -/
def block (opening closing : String) (level : Nat) : List String → String
  | [] => opening ++ closing
  | items =>
      opening ++ "\n" ++
        String.intercalate ",\n" (items.map fun item => indent (level + 1) ++ item) ++
        "\n" ++ indent level ++ closing

mutual

def prettyAt (level : Nat) : Json → String
  | .arr elements => block "[" "]" level (prettyAll (level + 1) elements)
  | .obj fields => block "\x7b" "\x7d" level (prettyFields (level + 1) fields)
  | .null => scalarText .null
  | .bool b => scalarText (.bool b)
  | .int n => scalarText (.int n)
  | .real d => scalarText (.real d)
  | .str s => scalarText (.str s)

def prettyAll (level : Nat) : List Json → List String
  | [] => []
  | j :: js => prettyAt level j :: prettyAll level js

def prettyFields (level : Nat) : List (String × Json) → List String
  | [] => []
  | (name, j) :: fields => (stringText name ++ ": " ++ prettyAt level j) :: prettyFields level fields

end

def render (pretty : Bool) (j : Json) : String :=
  if pretty then prettyAt 0 j else compact j

end PatternCompiler.Json
