import Mathlib.Logic.Function.Basic
import PatternCompiler.Fault

/-!
Messages tell faults apart. A `Wording` is how a message begins, together with the fault that the
text behind it tells. Reading a message back by its wording yields the fault that it is about, so
that no two faults share a message.
-/

set_option autoImplicit false
set_option relaxedAutoImplicit false

namespace PatternCompiler

/-- The words at the start of a message and their letters, and the fault of a message that goes on
with a given text. -/
structure Wording where
  words : String
  letters : List Char
  spelled : String.ofList letters = words
  fault : List Char → Fault

namespace Wording

def whole (fault : Fault) {letters : List Char} (spelled : String.ofList letters = fault.message) :
    Wording :=
  ⟨fault.message, letters, spelled, fun _ => fault⟩

def all : List Wording :=
  [⟨"Invalid flag '", _, rfl, fun tail => .invalidFlag (tail.headD ' ')⟩,
    whole .lateDirective rfl,
    whole .unmatchedParenthesis rfl,
    whole .trailingInput rfl,
    whole .noLeftBranch rfl,
    whole .noRightBranch rfl,
    whole .emptyBranch rfl,
    whole .quantifiedAnchor rfl,
    ⟨"Cannot quantify named group <", _, rfl,
      fun tail => .quantifiedNamedGroup (.ofList tail.dropLast)⟩,
    whole .unterminatedCount rfl,
    whole .unterminatedRange rfl,
    whole .descendingBounds rfl,
    whole .boundTooLarge rfl,
    whole .unexpectedEnd rfl,
    ⟨"Invalid quantifier '", _, rfl, fun tail => .nothingToRepeat (tail.headD ' ')⟩,
    whole .incompleteEscape rfl,
    ⟨"Backreference to undefined group \\", _, rfl, fun tail => .undefinedNumber (.ofList tail)⟩,
    ⟨"Backreference to undefined group <", _, rfl,
      fun tail => .undefinedName (.ofList tail.dropLast)⟩,
    ⟨"Unknown escape sequence \\", _, rfl, fun tail => .unknownEscape (tail.headD ' ')⟩,
    whole .noReferenceName rfl,
    whole .unterminatedReference rfl,
    whole .noPropertyName rfl,
    whole .unterminatedProperty rfl,
    whole .unterminatedHexEscape rfl,
    whole .unterminatedUnicodeEscape rfl,
    whole .invalidHexEscape rfl,
    whole .invalidUnicodeEscape rfl,
    whole .invalidLongUnicodeEscape rfl,
    whole .invalidCodePoint rfl,
    whole .unterminatedClass rfl,
    ⟨"Invalid character range [", _, rfl,
      fun tail => .descendingRange (tail.headD ' ') ((tail.drop 2).headD ' ')⟩,
    whole .inlineModifiers rfl,
    whole .unknownGroup rfl,
    whole .unterminatedGroupName rfl,
    ⟨"Invalid group name <", _, rfl, fun tail => .invalidGroupName (.ofList tail.dropLast)⟩,
    ⟨"Duplicate group name <", _, rfl, fun tail => .duplicateGroupName (.ofList tail.dropLast)⟩,
    ⟨"Unterminated group", _, rfl, fun _ => .unterminated .group⟩,
    ⟨"Unterminated atomic group", _, rfl, fun _ => .unterminated .atomicGroup⟩,
    ⟨"Unterminated lookahead", _, rfl, fun _ => .unterminated .lookahead⟩,
    ⟨"Unterminated lookbehind", _, rfl, fun _ => .unterminated .lookbehind⟩]

def read (message : List Char) : Option Fault :=
  (all.find? fun w => w.letters.isPrefixOf message).map fun w =>
    w.fault (message.drop w.letters.length)

variable {fault : Fault} {letters : List Char}

private theorem read_whole (spelled : String.ofList letters = fault.message)
    (found : read letters = some fault) : read fault.message.toList = some fault := by
  rw [← spelled, String.toList_ofList]
  exact found

private theorem read_quoting {quoted : String}
    (spelled : String.ofList letters ++ quoted = fault.message)
    (found : read (letters ++ quoted.toList) = some fault) :
    read fault.message.toList = some fault := by
  rw [← spelled, String.toList_append, String.toList_ofList]
  exact found

private theorem read_enclosing {quoted : String} {closing : List Char}
    (spelled : String.ofList letters ++ quoted ++ String.ofList closing = fault.message)
    (found : read (letters ++ (quoted.toList ++ closing)) = some fault) :
    read fault.message.toList = some fault := by
  rw [← spelled, String.append_assoc, String.toList_append, String.toList_append,
    String.toList_ofList, String.toList_ofList]
  exact found

private theorem read_naming {about : String → Fault} {name : String}
    (spelled : String.ofList letters ++ name ++ String.ofList ['>'] = (about name).message)
    (found : read (letters ++ (name.toList ++ ['>'])) =
      some (about (.ofList (name.toList ++ ['>']).dropLast))) :
    read (about name).message.toList = some (about name) := by
  apply read_enclosing spelled
  rw [found, List.dropLast_concat, String.ofList_toList]

private theorem read_bracket (bracket : Bracket) :
    read (Fault.unterminated bracket).message.toList = some (.unterminated bracket) := by
  apply read_quoting rfl
  cases bracket with
  | group => rw [Bracket.label, String.toList_ofList]; rfl
  | atomicGroup => rw [Bracket.label, String.toList_ofList]; rfl
  | lookahead => rw [Bracket.label, String.toList_ofList]; rfl
  | lookbehind => rw [Bracket.label, String.toList_ofList]; rfl

private theorem read_range (first last : Char) :
    read (Fault.descendingRange first last).message.toList =
      some (.descendingRange first last) := by
  have spelled :
      "Invalid character range [" ++ (first.toString ++ ("-" ++ (last.toString ++ "]"))) =
        (Fault.descendingRange first last).message := by
    simp only [← String.append_assoc]
    rfl
  apply read_quoting spelled
  simp only [String.toList_append, Char.toString, String.toList_singleton]
  rfl

/-- Reading a message yields the fault that it is about. -/
theorem read_message (fault : Fault) : read fault.message.toList = some fault := by
  cases fault
  case unterminated bracket => exact read_bracket bracket
  case descendingRange first last => exact read_range first last
  case invalidFlag char | nothingToRepeat char =>
    apply read_enclosing rfl
    rw [Char.toString, String.toList_singleton]
    rfl
  case unknownEscape letter =>
    apply read_quoting rfl
    rw [Char.toString, String.toList_singleton]
    rfl
  case undefinedNumber digits =>
    apply read_quoting rfl
    change some (Fault.undefinedNumber (.ofList digits.toList)) = _
    rw [String.ofList_toList]
  case quantifiedNamedGroup name => exact read_naming rfl rfl
  case undefinedName name => exact read_naming rfl rfl
  case invalidGroupName name => exact read_naming rfl rfl
  case duplicateGroupName name => exact read_naming rfl rfl
  all_goals exact read_whole rfl rfl

theorem exists_begins (fault : Fault) :
    ∃ w ∈ all, w.letters <+: fault.message.toList ∧ ∃ tail, w.fault tail = fault := by
  obtain ⟨w, found, told⟩ := Option.map_eq_some_iff.mp (read_message fault)
  have begins := List.find?_some found
  exact ⟨w, List.mem_of_find?_eq_some found, List.isPrefixOf_iff_prefix.mp begins, _, told⟩

theorem exists_nested (begins : letters <+: fault.message.toList) :
    ∃ w ∈ all.filter fun w => w.letters.isPrefixOf letters || letters.isPrefixOf w.letters,
      ∃ tail, w.fault tail = fault := by
  obtain ⟨w, mem, words, told⟩ := exists_begins fault
  have nested := List.prefix_or_prefix_of_prefix words begins
  refine ⟨w, List.mem_filter.mpr ⟨mem, ?_⟩, told⟩
  rwa [Bool.or_eq_true, List.isPrefixOf_iff_prefix, List.isPrefixOf_iff_prefix]

end Wording

theorem Fault.message_injective : Function.Injective Fault.message := by
  intro f g same
  have told := Wording.read_message f
  rw [same, Wording.read_message g] at told
  exact (Option.some.inj told).symm

end PatternCompiler
