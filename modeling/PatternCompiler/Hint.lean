import PatternCompiler.Text.Search
import PatternCompiler.Text.Uppercase

/-!
Hints: short explanations of how to mend a fault, found by the message. The rules are tried in
order, and the first whose pattern occurs in the message applies, so a pattern that contains
another one stands before it. Several hints quote the offending token from the message.
-/

set_option autoImplicit false
set_option relaxedAutoImplicit false

namespace PatternCompiler

/-- What a hint may draw on: the message, the source text and the position in it. -/
structure HintContext where
  message : List Char
  text : List Char
  pos : Nat

structure HintRule where
  pattern : String
  explain : HintContext → String

namespace HintContext

def quoted? (c : HintContext) : Option String :=
  (Text.quoted c.message).map String.ofList

def lastWord? (c : HintContext) : Option String :=
  (Text.trailingWord c.message).map String.ofList

def lastName? (c : HintContext) : Option String :=
  (Text.trailingWord c.message).map fun word =>
    String.ofList ((word.dropWhile (· == '<')).reverse.dropWhile (· == '>')).reverse

end HintContext

namespace Hint

/-- The hint for an unknown escape, which depends on the case of the letter. -/
def unknownEscape (c : HintContext) : String :=
  match Text.escaped c.message with
  | none => "This is not a recognized escape sequence."
  | some letter =>
      let shown := letter.toString
      "'\\" ++ shown ++ "' is not a recognized escape sequence. To match literal '" ++ shown ++
        "', use '" ++ shown ++
        if Text.isUppercase letter then "' without the backslash."
        else "' or escape special characters with '\\'."

def descendingRange (c : HintContext) : String :=
  match Text.bracketedRange c.message with
  | some (first, last) =>
      "Character ranges must be in ascending order. Use [" ++ last.toString ++ "-" ++
        first.toString ++ "] instead of [" ++ first.toString ++ "-" ++ last.toString ++ "]."
  | none =>
      "Character ranges must be in ascending order. " ++
        "For example, use [a-z] instead of [z-a], or [0-9] instead of [9-0]."

def invalidFlag (c : HintContext) : String :=
  (match c.quoted? with
    | some flag => "'" ++ flag ++ "' is not a known flag."
    | none => "Unknown flag.") ++
    " Valid flags are: i (case-insensitive), m (multiline), s (dotAll), " ++
    "u (unicode), x (extended/free-spacing)."

def trailingInput (c : HintContext) : String :=
  "There is unexpected content " ++
    (match c.text[c.pos]? with
    | some char => "starting at '" ++ char.toString ++ "' "
    | none => "") ++
    "after the pattern ended. Check for unmatched parentheses or extra characters."

def nothingToRepeat (c : HintContext) : String :=
  "The quantifier '" ++ c.quoted?.getD "*" ++
    "' cannot be at the start of a pattern or group. " ++
    "It must follow a character or group it can quantify."

def quantifiedNamedGroup (c : HintContext) : String :=
  "Group names must be unique, so the group '" ++ c.lastName?.getD "name" ++
    "' cannot be repeated. Move the quantifier inside the group, or use an unnamed group (...) " ++
    "if the name is not needed."

def undefinedReference (c : HintContext) : String :=
  c.lastWord?.getD "the group" ++ " refers to a group that has not been captured yet. " ++
    "Backreferences refer to previously captured groups. " ++
    "Make sure the group is defined before referencing it. " ++
    "STRling does not support forward references."

def duplicateGroupName (c : HintContext) : String :=
  "The name '" ++ c.lastName?.getD "name" ++ "' is already used by another group. " ++
    "Each named group must have a unique name. " ++
    "Use different names for different groups, or use unnamed groups ()."

def unknownGroup (c : HintContext) : String :=
  "'" ++ String.ofList ((c.text.drop c.pos).take 3) ++
    "' does not start a known group. Supported forms are (?:...), (?<name>...), " ++
    "(?>...), (?=...), (?!...), (?<=...) and (?<!...)."

def always (hint : String) : HintContext → String :=
  fun _ => hint

def unterminatedBounds : HintContext → String :=
  always ("Brace quantifiers use the syntax \x7bm,n\x7d or \x7bn\x7d. " ++
    "Make sure to close the quantifier with '\x7d'.")

def unterminatedRules : List HintRule :=
  [⟨"Unterminated group name", always ("Named groups use the syntax (?<name>...). " ++
      "Make sure to close the '<name>' with '>' before the group content.")⟩,
    ⟨"Unterminated group", always ("This group was opened with '(' but never closed. " ++
      "Add a matching ')' to close the group.")⟩,
    ⟨"Unterminated character class",
      always ("This character class was opened with '[' but never closed. " ++
        "Add a matching ']' to close the character class.")⟩,
    ⟨"Unterminated named backref", always ("Named backreferences use the syntax \\k<name>. " ++
      "Make sure to close the '<name>' with '>'.")⟩,
    ⟨"Unterminated lookahead",
      always ("This lookahead was opened with '(?=' or '(?!' but never closed. " ++
        "Add a matching ')' to close the lookahead.")⟩,
    ⟨"Unterminated lookbehind",
      always ("This lookbehind was opened with '(?<=' or '(?<!' but never closed. " ++
        "Add a matching ')' to close the lookbehind.")⟩,
    ⟨"Unterminated atomic group",
      always ("This atomic group was opened with '(?>' but never closed. " ++
        "Add a matching ')' to close the atomic group.")⟩,
    ⟨"Unterminated \x7bm,n\x7d", unterminatedBounds⟩,
    ⟨"Unterminated \x7bn\x7d", unterminatedBounds⟩,
    ⟨"Unterminated \\x\x7b...\x7d",
      always ("Variable-length hex escapes use the syntax \\x\x7b...\x7d. " ++
        "Make sure to close the escape with '\x7d'.")⟩,
    ⟨"Unterminated \\u\x7b...\x7d",
      always ("Variable-length unicode escapes use the syntax \\u\x7b...\x7d. " ++
        "Make sure to close the escape with '\x7d'.")⟩,
    ⟨"Unterminated \\p\x7b...\x7d",
      always ("Unicode property escapes use the syntax \\p\x7bProperty\x7d or \\P\x7bProperty\x7d. " ++
        "Make sure to close the property name with '\x7d'.")⟩]

def tokenRules : List HintRule :=
  [⟨"Invalid quantifier range", always ("Quantifier range \x7bm,n\x7d must have m ≤ n. " ++
      "Check that the minimum value is not greater than the maximum value.")⟩,
    ⟨"Invalid quantifier", nothingToRepeat⟩,
    ⟨"Quantifier bound too large",
      always ("Quantifier bounds must fit in 4294967295 repetitions. " ++
        "Use '*' or '+' (or \x7bm,\x7d) for an unbounded repeat.")⟩,
    ⟨"Invalid character range", descendingRange⟩,
    ⟨"Invalid flag", invalidFlag⟩,
    ⟨"Directive after pattern content",
      always ("Directives like %flags must appear at the start of the pattern, " ++
        "before any regex content.")⟩,
    ⟨"Unknown escape sequence", unknownEscape⟩,
    ⟨"Incomplete escape", always ("A backslash must be followed by the character it escapes. " ++
      "Use '\\\\' to match a literal backslash.")⟩,
    ⟨"Unmatched ')'", always ("This ')' character does not have a matching opening '('. " ++
      "Did you mean to escape it with '\\)'?")⟩,
    ⟨"Unexpected trailing input", trailingInput⟩,
    ⟨"Cannot quantify anchor",
      always ("Anchors like ^, $, \\b, \\B match positions, not characters, " ++
        "so they cannot be quantified with *, +, ?, or \x7b\x7d.")⟩,
    ⟨"Cannot quantify named group", quantifiedNamedGroup⟩]

def structureRules : List HintRule :=
  [⟨"Backreference to undefined group", undefinedReference⟩,
    ⟨"Duplicate group name", duplicateGroupName⟩,
    ⟨"Invalid group name",
      always ("Group names must follow the IDENTIFIER rule: start with a letter or " ++
        "underscore, followed by letters, digits, or underscores. " ++
        "Use (?<name>...) with a valid identifier.")⟩,
    ⟨"Empty alternation branch",
      always ("Empty alternation branch detected (consecutive '|' operators). " ++
        "Use 'a|b' instead of 'a||b', or '(a|)b' if you want to match optional 'a'.")⟩,
    ⟨"Alternation lacks left-hand side",
      always ("The alternation operator '|' requires an expression on the left side. " ++
        "Use 'a|b' to match either 'a' or 'b'.")⟩,
    ⟨"Alternation lacks right-hand side",
      always ("The alternation operator '|' requires an expression on the right side. " ++
        "Use 'a|b' to match either 'a' or 'b'.")⟩,
    ⟨"Expected '<' after \\k", always ("Named backreferences use the syntax \\k<name>. " ++
      "The '<' is required after \\k, like \\k<groupname>.")⟩,
    ⟨"Inline modifiers",
      always ("STRling does not support inline modifiers like (?i) for case-insensitivity. " ++
        "Instead, use the %flags directive at the start of your pattern: '%flags i'")⟩,
    ⟨"Unrecognized group syntax", unknownGroup⟩,
    ⟨"Invalid \\xHH escape", always ("Hex escapes must use valid hexadecimal digits (0-9, A-F). " ++
      "Use \\xHH for 2-digit hex codes (e.g., \\x41 for 'A').")⟩,
    ⟨"Invalid \\uHHHH", always ("Unicode escapes must use valid hexadecimal digits (0-9, A-F). " ++
      "Use \\uHHHH for 4-digit codes or \\u\x7b...\x7d for variable-length codes.")⟩,
    ⟨"Invalid \\UHHHHHHHH",
      always ("\\U escapes take exactly 8 hexadecimal digits, like \\U0001F600. " ++
        "Use \\u\x7b...\x7d for variable-length codes.")⟩,
    ⟨"Invalid code point",
      always ("Escaped code points must be valid Unicode scalar values: at most 10FFFF " ++
        "and outside the surrogate range D800-DFFF.")⟩,
    ⟨"Expected \x7b after \\p/\\P",
      always ("Unicode property escapes require braces: \\p\x7bLetter\x7d or \\P\x7bLetter\x7d. " ++
        "Use \\p\x7bL\x7d for letters, \\p\x7bN\x7d for numbers, etc.")⟩]

def rules : List HintRule :=
  unterminatedRules ++ tokenRules ++ structureRules

def rule? (message : String) : Option HintRule :=
  rules.find? fun rule => Text.occurs rule.pattern.toList message.toList

/-- The hint for a message about a position of a text, if a rule knows the message. -/
def find? (message text : String) (pos : Nat) : Option String :=
  (rule? message).map fun rule => rule.explain ⟨message.toList, text.toList, pos⟩

end Hint

end PatternCompiler
