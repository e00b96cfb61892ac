/-!
The ways in which a source text can be wrong, and the message for each.
-/

set_option autoImplicit false
set_option relaxedAutoImplicit false

namespace PatternCompiler

/-- The bracketed constructs that a closing parenthesis ends. -/
inductive Bracket
  | group | atomicGroup | lookahead | lookbehind
  deriving DecidableEq

inductive Fault
  | invalidFlag (letter : Char)
  | lateDirective
  | unmatchedParenthesis
  | trailingInput
  | noLeftBranch
  | noRightBranch
  | emptyBranch
  | quantifiedAnchor
  | quantifiedNamedGroup (name : String)
  | unterminatedCount
  | unterminatedRange
  | descendingBounds
  | boundTooLarge
  | unexpectedEnd
  | nothingToRepeat (quantifier : Char)
  | incompleteEscape
  | undefinedNumber (digits : String)
  | undefinedName (name : String)
  | unknownEscape (letter : Char)
  | noReferenceName
  | unterminatedReference
  | noPropertyName
  | unterminatedProperty
  | unterminatedHexEscape
  | unterminatedUnicodeEscape
  | invalidHexEscape
  | invalidUnicodeEscape
  | invalidLongUnicodeEscape
  | invalidCodePoint
  | unterminatedClass
  | descendingRange (first last : Char)
  | inlineModifiers
  | unknownGroup
  | unterminatedGroupName
  | invalidGroupName (name : String)
  | duplicateGroupName (name : String)
  | unterminated (bracket : Bracket)
  deriving DecidableEq

def Bracket.label : Bracket → String
  | .group => "group"
  | .atomicGroup => "atomic group"
  | .lookahead => "lookahead"
  | .lookbehind => "lookbehind"

def Fault.message : Fault → String
  | .invalidFlag letter => "Invalid flag '" ++ letter.toString ++ "'"
  | .lateDirective => "Directive after pattern content"
  | .unmatchedParenthesis => "Unmatched ')'"
  | .trailingInput => "Unexpected trailing input"
  | .noLeftBranch => "Alternation lacks left-hand side"
  | .noRightBranch => "Alternation lacks right-hand side"
  | .emptyBranch => "Empty alternation branch"
  | .quantifiedAnchor => "Cannot quantify anchor"
  | .quantifiedNamedGroup name => "Cannot quantify named group <" ++ name ++ ">"
  | .unterminatedCount => "Unterminated \x7bn\x7d"
  | .unterminatedRange => "Unterminated \x7bm,n\x7d"
  | .descendingBounds => "Invalid quantifier range"
  | .boundTooLarge => "Quantifier bound too large"
  | .unexpectedEnd => "Unexpected end of pattern"
  | .nothingToRepeat quantifier => "Invalid quantifier '" ++ quantifier.toString ++ "'"
  | .incompleteEscape => "Incomplete escape at end of pattern"
  | .undefinedNumber digits => "Backreference to undefined group \\" ++ digits
  | .undefinedName name => "Backreference to undefined group <" ++ name ++ ">"
  | .unknownEscape letter => "Unknown escape sequence \\" ++ letter.toString
  | .noReferenceName => "Expected '<' after \\k"
  | .unterminatedReference => "Unterminated named backref"
  | .noPropertyName => "Expected \x7b after \\p/\\P"
  | .unterminatedProperty => "Unterminated \\p\x7b...\x7d"
  | .unterminatedHexEscape => "Unterminated \\x\x7b...\x7d"
  | .unterminatedUnicodeEscape => "Unterminated \\u\x7b...\x7d"
  | .invalidHexEscape => "Invalid \\xHH escape"
  | .invalidUnicodeEscape => "Invalid \\uHHHH"
  | .invalidLongUnicodeEscape => "Invalid \\UHHHHHHHH"
  | .invalidCodePoint => "Invalid code point"
  | .unterminatedClass => "Unterminated character class"
  | .descendingRange first last =>
      "Invalid character range [" ++ first.toString ++ "-" ++ last.toString ++ "]"
  | .inlineModifiers => "Inline modifiers `(?imsx)` are not supported"
  | .unknownGroup => "Unrecognized group syntax"
  | .unterminatedGroupName => "Unterminated group name"
  | .invalidGroupName name => "Invalid group name <" ++ name ++ ">"
  | .duplicateGroupName name => "Duplicate group name <" ++ name ++ ">"
  | .unterminated bracket => "Unterminated " ++ bracket.label

/-- A fault and the character position that it is blamed on. -/
structure Violation where
  fault : Fault
  pos : Nat
  deriving DecidableEq

end PatternCompiler
