import PatternCompiler.Flags
import PatternCompiler.Pattern.Basic

/-!
The PCRE2 spelling of a pattern tree. A non-capturing group is inserted only where the spelling
would otherwise be read differently: around the body of a repetition that is not a single atom,
around an alternation inside a sequence, and around a numbered backreference before a digit.
-/

set_option autoImplicit false
set_option relaxedAutoImplicit false

namespace PatternCompiler.Pcre2

def isLiteralMeta (c : Char) : Bool :=
  c ∈ ['.', '^', '$', '|', '(', ')', '?', '*', '+', '{', '}', '[', ']', '\\']

def isClassMeta (c : Char) : Bool :=
  c ∈ [']', '-', '\\', '^']

def spaceEscape (c : Char) : List Char :=
  if c = '\n' then ['\\', 'n']
  else if c = '\t' then ['\\', 't']
  else if c = '\r' then ['\\', 'r']
  else if c = '\x0c' then ['\\', 'f']
  else if c = '\x0b' then ['\\', 'x', '{', 'b', '}']
  else ['\\', c]

/-- One character of a literal; in free spacing, white space and `#` are escaped as well. -/
def literalChar (extended : Bool) (c : Char) : List Char :=
  if isLiteralMeta c then ['\\', c]
  else if extended && (Text.isBlank c || c == '#') then spaceEscape c
  else [c]

def classChar (c : Char) : List Char :=
  if isClassMeta c then ['\\', c] else [c]

def anchorText : Anchor → List Char
  | .lineStart => ['^']
  | .lineEnd => ['$']
  | .wordBoundary => ['\\', 'b']
  | .notWordBoundary => ['\\', 'B']
  | .absoluteStart => ['\\', 'A']
  | .endBeforeFinalNewline => ['\\', 'Z']
  | .absoluteEnd => ['\\', 'z']

def bracedName (name : String) : List Char :=
  '{' :: name.toList ++ ['}']

def classItemText : ClassItem → List Char
  | .char c => classChar c
  | .range first last => classChar first ++ '-' :: classChar last
  | .shorthand kind property =>
      '\\' :: kind.letter ::
        match property with
        | some name => if kind.isProperty then bracedName name else []
        | none => []

/-- A single class escape written without brackets, the negation folded into its letter. A property
escape needs a name for this. -/
def bareShorthand (kind : Shorthand) (property : Option String) : Option (List Char) :=
  if kind.isProperty then
    match property with
    | some name => if name = "" then none else some ('\\' :: kind.letter :: bracedName name)
    | none => none
  else some ['\\', kind.letter]

def bracketText (negated : Bool) (items : List ClassItem) : List Char :=
  '[' :: (if negated then ['^'] else []) ++ items.flatMap classItemText ++ [']']

def classText (negated : Bool) (items : List ClassItem) : List Char :=
  match items with
  | [.shorthand kind property] =>
      match bareShorthand (if negated then kind.negate else kind) property with
      | some text => text
      | none => bracketText negated items
  | _ => bracketText negated items

def decimal (n : UInt32) : List Char :=
  Nat.toDigits 10 n.toNat

def boundsText (least : UInt32) (most : Bound) : List Char :=
  match most with
  | .unbounded =>
      if least = 0 then ['*']
      else if least = 1 then ['+']
      else '{' :: decimal least ++ [',', '}']
  | .finite count =>
      if least = 0 ∧ count = 1 then ['?']
      else if least = count then '{' :: decimal least ++ ['}']
      else '{' :: decimal least ++ ',' :: decimal count ++ ['}']

def greedText : Greed → List Char
  | .greedy => []
  | .lazy => ['?']
  | .possessive => ['+']

def groupOpening (capturing : Bool) (name : Option String) (atomic : Bool) : List Char :=
  if atomic then ['(', '?', '>']
  else if capturing then
    match name with
    | some name => '(' :: '?' :: '<' :: name.toList ++ ['>']
    | none => ['(']
  else ['(', '?', ':']

def lookOpening : Direction → Bool → List Char
  | .ahead, false => ['(', '?', '=']
  | .ahead, true => ['(', '?', '!']
  | .behind, false => ['(', '?', '<', '=']
  | .behind, true => ['(', '?', '<', '!']

def backreferenceText : Option UInt32 → Option String → List Char
  | _, some name => '\\' :: 'k' :: '<' :: name.toList ++ ['>']
  | some index, none => '\\' :: decimal index
  | none, none => []

def wrapped (wrap : Bool) (text : List Char) : List Char :=
  if wrap then ['(', '?', ':'] ++ text ++ [')'] else text

/-- Whether a repeated tree must be wrapped to keep the repetition on all of it. -/
def needsGroup : Pattern → Bool
  | .literal text => text.length != 1
  | .sequence _ | .alternation _ | .look .. | .repetition .. => true
  | .charClass .. | .anyChar | .group .. | .backreference .. | .anchor _ => false

def isNumbered : Pattern → Bool
  | .backreference (some _) none => true
  | _ => false

/-- The spelling of one part of a sequence, and whether it ends in a backreference's number. -/
structure Piece where
  numbered : Bool
  text : List Char

def startsWithDigit : List Char → Bool
  | c :: _ => c.isDigit
  | [] => false

/-- The pieces of a sequence one after the other. A number directly before a digit is wrapped, since
the digit would be read as its continuation. -/
def joinPieces : List Piece → List Char
  | [] => []
  | [piece] => piece.text
  | piece :: next :: rest =>
      wrapped (piece.numbered && startsWithDigit next.text) piece.text ++ joinPieces (next :: rest)

mutual

/-- The spelling of a tree, `inSequence` telling whether it is a part of a sequence. -/
def spell (extended inSequence : Bool) : Pattern → List Char
  | .literal text => text.toList.flatMap (literalChar extended)
  | .anyChar => ['.']
  | .anchor place => anchorText place
  | .backreference index name => backreferenceText index name
  | .charClass negated items => classText negated items
  | .sequence parts => joinPieces (spellParts extended parts)
  | .alternation branches =>
      wrapped inSequence (List.intercalate ['|'] (spellBranches extended branches))
  | .repetition body least most greed =>
      wrapped (needsGroup body) (spell extended false body) ++ boundsText least most ++
        greedText greed
  | .group capturing body name atomic =>
      groupOpening capturing name atomic ++ spell extended false body ++ [')']
  | .look direction negative body =>
      lookOpening direction negative ++ spell extended false body ++ [')']

def spellParts (extended : Bool) : List Pattern → List Piece
  | [] => []
  | p :: ps => ⟨isNumbered p, spell extended true p⟩ :: spellParts extended ps

def spellBranches (extended : Bool) : List Pattern → List (List Char)
  | [] => []
  | p :: ps => spell extended false p :: spellBranches extended ps

end

def flagsPrefix (flags : Flags) : List Char :=
  if flags.letters.isEmpty then [] else '(' :: '?' :: flags.letters ++ [')']

/-- The PCRE2 text of a tree under some flags, with or without the leading flags group. -/
def emit (withFlags : Bool) (flags : Flags) (p : Pattern) : List Char :=
  (if withFlags then flagsPrefix flags else []) ++ spell flags.extended false p

end PatternCompiler.Pcre2
