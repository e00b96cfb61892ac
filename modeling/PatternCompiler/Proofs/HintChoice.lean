import Mathlib.Data.List.Nodup
import PatternCompiler.Proofs.Hints

/-!
Which hint an error is given. A rule fits a message if its pattern is the longest one that begins
the message. The words of every message are kept apart from the patterns of all rules before the one
that fits, so that such a pattern can only occur in the text that the message quotes. The rule that
is chosen is the one that fits exactly if no earlier pattern stands in that text.
-/

set_option autoImplicit false
set_option relaxedAutoImplicit false

namespace PatternCompiler

/-- Whether a piece neither stands in a text nor begins in it and may go on behind it. -/
def Text.apart (piece : List Char) : List Char → Bool
  | [] => true
  | c :: rest =>
      !piece.isPrefixOf (c :: rest) && !(c :: rest).isPrefixOf piece && apart piece rest

private theorem Text.infix_of_apart {piece front back : List Char}
    (clear : apart piece front = true) (found : piece <:+: front ++ back) : piece <:+: back := by
  induction front with
  | nil => exact found
  | cons c rest ih =>
      simp only [apart, Bool.and_eq_true, Bool.not_eq_true', ← Bool.not_eq_true,
        List.isPrefixOf_iff_prefix] at clear
      obtain ⟨⟨whole, part⟩, clear⟩ := clear
      rcases List.infix_cons_iff.mp found with first | later
      · rcases List.prefix_or_prefix_of_prefix first (List.prefix_append (c :: rest) back) with
          shorter | longer
        · exact absurd shorter whole
        · exact absurd longer part
      · exact ih clear later

private theorem Text.infix_of_getLast?_ne {piece front : List Char} {closing : Option Char}
    (other : piece.getLast? ≠ closing) (found : piece <:+: front ++ closing.toList) :
    piece <:+: front := by
  cases closing with
  | none => simpa using found
  | some last =>
      rcases List.infix_concat_iff.mp found with ending | inside
      · rcases List.suffix_concat_iff.mp ending with rfl | ⟨body, rfl, _⟩
        · exact List.nil_infix
        · exact absurd (by simp) other
      · exact inside

/-- The text of the user that the message of a fault quotes. -/
def Fault.quoted : Fault → List Char
  | .invalidFlag char | .nothingToRepeat char | .unknownEscape char => [char]
  | .quantifiedNamedGroup name | .undefinedName name | .invalidGroupName name
  | .duplicateGroupName name => name.toList
  | .undefinedNumber digits => digits.toList
  | .descendingRange first last => [first, '-', last]
  | _ => []

namespace Hint

/-- A rule fits a message if its pattern begins the message and no longer pattern does. -/
structure Fits (message : String) (rule : HintRule) : Prop where
  listed : rule ∈ rules
  begins : rule.pattern.toList <+: message.toList
  longest : ∀ other ∈ rules, other.pattern.toList <+: message.toList →
    other.pattern.length ≤ rule.pattern.length

/-- A message is settled up to a quotation: the longest pattern that begins it stands in the table
behind patterns that occur in it exactly if they occur in the quotation. -/
def Settled (message quoted : List Char) : Prop :=
  ∃ before pattern after, spelling.letters = before ++ pattern :: after ∧ pattern <+: message ∧
    (∀ other ∈ spelling.letters, other <+: message → other.length ≤ pattern.length) ∧
    ∀ earlier ∈ before, earlier <:+: message ↔ earlier <:+: quoted

/-- Whether the first pattern that occurs in a message is the longest one that begins it. -/
def settlesWhole (message : List Char) : Bool :=
  (spelling.letters.find? (Text.occurs · message)).any fun pattern =>
    pattern.isPrefixOf message && spelling.letters.all fun other =>
      !other.isPrefixOf message || other.length ≤ pattern.length

/-- Whether the longest pattern that can begin a message with the given words is the first that does
so, and patterns before it are apart from the words and do not end like the message. -/
def settlesWords (words : List Char) (closing : Option Char) : Bool :=
  (spelling.letters.find? fun pattern => pattern.isPrefixOf words ||
      !(Text.apart pattern words && pattern.getLast? != closing)).any fun pattern =>
    pattern.isPrefixOf words && spelling.letters.all fun other =>
      !(other.isPrefixOf words || words.isPrefixOf other) || other.length ≤ pattern.length

private theorem settled_whole {message : List Char} (checked : settlesWhole message = true) :
    Settled message [] := by
  obtain ⟨pattern, found, checked⟩ := (Option.any_eq_true _ _).mp checked
  obtain ⟨_, before, after, split, none⟩ := List.find?_eq_some_iff_append.mp found
  rw [Bool.and_eq_true, List.isPrefixOf_iff_prefix, List.all_eq_true] at checked
  refine ⟨before, pattern, after, split, checked.1, fun other listed begins => ?_,
    fun earlier mem => ⟨fun stands => ?_, fun stands => stands.trans List.nil_infix⟩⟩
  · have short := checked.2 other listed
    simpa [List.isPrefixOf_iff_prefix.mpr begins] using short
  · have never := none earlier mem
    simp [Text.occurs_iff_infix.mpr stands] at never

private theorem settled_words {words : List Char} {closing : Option Char}
    (checked : settlesWords words closing = true) (quoted : List Char) :
    Settled (words ++ (quoted ++ closing.toList)) quoted := by
  obtain ⟨pattern, found, checked⟩ := (Option.any_eq_true _ _).mp checked
  obtain ⟨_, before, after, split, none⟩ := List.find?_eq_some_iff_append.mp found
  rw [Bool.and_eq_true, List.isPrefixOf_iff_prefix, List.all_eq_true] at checked
  refine ⟨before, pattern, after, split, checked.1.trans (List.prefix_append _ _),
    fun other listed begins => ?_, fun earlier mem => ⟨fun stands => ?_, fun stands => ?_⟩⟩
  · have short := checked.2 other listed
    have nested := List.prefix_or_prefix_of_prefix begins (List.prefix_append words _)
    rw [← List.isPrefixOf_iff_prefix, ← List.isPrefixOf_iff_prefix, ← Bool.or_eq_true] at nested
    simpa [nested] using short
  · have clear := none earlier mem
    simp only [Bool.not_or, Bool.not_not, Bool.and_eq_true, bne_iff_ne] at clear
    exact Text.infix_of_getLast?_ne clear.2.2 (Text.infix_of_apart clear.2.1 stands)
  · exact stands.trans ⟨words, closing.toList, List.append_assoc _ _ _⟩

variable {fault : Fault} {letters : List Char}

private theorem settled_of_whole (spelled : String.ofList letters = fault.message)
    (checked : settlesWhole letters = true) (nothing : fault.quoted = []) :
    Settled fault.message.toList fault.quoted := by
  rw [← spelled, String.toList_ofList, nothing]
  exact settled_whole checked

private theorem settled_of_quoting {quoted : String}
    (spelled : String.ofList letters ++ quoted = fault.message)
    (checked : settlesWords letters none = true) (same : quoted.toList = fault.quoted) :
    Settled fault.message.toList fault.quoted := by
  have settled := settled_words checked fault.quoted
  rw [Option.toList_none, List.append_nil] at settled
  rwa [← spelled, String.toList_append, String.toList_ofList, same]

private theorem settled_of_enclosing {quoted : String} {last : Char}
    (spelled : String.ofList letters ++ quoted ++ String.ofList [last] = fault.message)
    (checked : settlesWords letters (some last) = true) (same : quoted.toList = fault.quoted) :
    Settled fault.message.toList fault.quoted := by
  have settled := settled_words checked fault.quoted
  rwa [← spelled, String.append_assoc, String.toList_append, String.toList_append,
    String.toList_ofList, String.toList_ofList, same]

private theorem settled_bracket (bracket : Bracket) :
    Settled (Fault.unterminated bracket).message.toList (Fault.unterminated bracket).quoted := by
  have spelled {words label : List Char}
      (same : String.ofList words ++ String.ofList label = (Fault.unterminated bracket).message) :
      String.ofList (words ++ label) = (Fault.unterminated bracket).message := by
    rw [String.ofList_append, same]
  cases bracket with
  | group => exact settled_of_whole (spelled rfl) (by decide +kernel) rfl
  | atomicGroup => exact settled_of_whole (spelled rfl) (by decide +kernel) rfl
  | lookahead => exact settled_of_whole (spelled rfl) (by decide +kernel) rfl
  | lookbehind => exact settled_of_whole (spelled rfl) (by decide +kernel) rfl

private theorem settled_range (first last : Char) :
    Settled (Fault.descendingRange first last).message.toList [first, '-', last] := by
  have spelled : "Invalid character range [" ++ (first.toString ++ ("-" ++ last.toString)) ++ "]" =
      (Fault.descendingRange first last).message := by
    simp only [← String.append_assoc]
    rfl
  have quoted : (first.toString ++ ("-" ++ last.toString)).toList = [first, '-', last] := by
    simp only [String.toList_append, Char.toString, String.toList_singleton]
    rfl
  exact settled_of_enclosing spelled (by decide +kernel) quoted

/-- Every message that a text can cause is settled up to what it quotes. -/
theorem settled_message (other : fault ≠ .unexpectedEnd) :
    Settled fault.message.toList fault.quoted := by
  cases fault
  case unexpectedEnd => exact absurd rfl other
  case unterminated bracket => exact settled_bracket bracket
  case descendingRange first last => exact settled_range first last
  case invalidFlag char | nothingToRepeat char =>
    exact settled_of_enclosing rfl (by decide +kernel) (String.toList_singleton _)
  case unknownEscape letter =>
    exact settled_of_quoting rfl (by decide +kernel) (String.toList_singleton _)
  case undefinedNumber digits => exact settled_of_quoting rfl (by decide +kernel) rfl
  case quantifiedNamedGroup name => exact settled_of_enclosing rfl (by decide +kernel) rfl
  case undefinedName name => exact settled_of_enclosing rfl (by decide +kernel) rfl
  case invalidGroupName name => exact settled_of_enclosing rfl (by decide +kernel) rfl
  case duplicateGroupName name => exact settled_of_enclosing rfl (by decide +kernel) rfl
  all_goals exact settled_of_whole rfl (by decide +kernel) rfl

theorem mem_letters {rule : HintRule} (listed : rule ∈ rules) :
    rule.pattern.toList ∈ spelling.letters := by
  rw [← spelling.letters_eq]
  exact List.mem_map_of_mem listed

private theorem nodup_patterns : (rules.map fun rule => rule.pattern.toList).Nodup := by
  rw [spelling.letters_eq]
  decide +kernel

theorem eq_of_pattern {rule other : HintRule} (listed : rule ∈ rules) (listed' : other ∈ rules)
    (same : rule.pattern.toList = other.pattern.toList) : rule = other :=
  List.inj_on_of_nodup_map nodup_patterns listed listed' same

theorem space_mem_pattern {rule : HintRule} (listed : rule ∈ rules) : ' ' ∈ rule.pattern.toList := by
  have spaced : ∀ pattern ∈ spelling.letters, ' ' ∈ pattern := by decide +kernel
  exact spaced _ (mem_letters listed)

private theorem rule?_eq_some_iff {before after : List HintRule} {rule : HintRule}
    {message : String} (split : rules = before ++ rule :: after)
    (stands : rule.pattern.toList <:+: message.toList) :
    rule? message = some rule ↔
      ∀ earlier ∈ before, ¬ earlier.pattern.toList <:+: message.toList := by
  have fresh : rule ∉ before := by
    have distinct : rules.Nodup := .of_map _ nodup_patterns
    rw [split, List.nodup_middle, List.nodup_cons] at distinct
    exact fun mem => distinct.1 (List.mem_append_left _ mem)
  have here : ((rule :: after).find? fun rule =>
      Text.occurs rule.pattern.toList message.toList) = some rule :=
    List.find?_cons_of_pos (Text.occurs_iff_infix.mpr stands)
  rw [rule?, split, List.find?_append, here]
  constructor
  · intro chosen earlier mem occurs
    cases found : before.find? fun rule => Text.occurs rule.pattern.toList message.toList with
    | none =>
        have never := List.find?_eq_none.mp found earlier mem
        exact never (Text.occurs_iff_infix.mpr occurs)
    | some first =>
        rw [found, Option.some_or, Option.some.injEq] at chosen
        exact fresh (chosen ▸ List.mem_of_find?_eq_some found)
  · intro never
    have none : (before.find? fun rule =>
        Text.occurs rule.pattern.toList message.toList) = none :=
      List.find?_eq_none.mpr fun earlier mem occurs =>
        never earlier mem (Text.occurs_iff_infix.mp occurs)
    rw [none, Option.none_or]

/-- One rule fits a message that a text can cause, and is chosen unless the pattern of an earlier
rule stands in what the message quotes. -/
theorem exists_fits (other : fault ≠ .unexpectedEnd) :
    ∃ before rule after, rules = before ++ rule :: after ∧ Fits fault.message rule ∧
      (rule? fault.message = some rule ↔
        ∀ earlier ∈ before, ¬ earlier.pattern.toList <:+: fault.quoted) := by
  obtain ⟨fronts, pattern, backs, split, begins, longest, within⟩ := settled_message other
  rw [← spelling.letters_eq] at split longest
  obtain ⟨before, rest, table, rfl, others⟩ := List.map_eq_append_iff.mp split
  obtain ⟨rule, after, rfl, rfl, rfl⟩ := List.map_eq_cons_iff.mp others
  refine ⟨before, rule, after, table, ⟨by simp [table], begins, fun other listed start => ?_⟩, ?_⟩
  · have short := longest _ (List.mem_map_of_mem listed) start
    rwa [String.length_toList, String.length_toList] at short
  · rw [rule?_eq_some_iff table begins.isInfix]
    exact forall₂_congr fun earlier mem => not_congr (within _ (List.mem_map_of_mem mem))

end Hint

/-- For every error of a parse one rule of the hint table fits the message. It is the one that is
chosen, and its hint the one that is shown, exactly if no pattern of an earlier rule stands in the
text that the message quotes. A text without spaces cannot mislead. -/
theorem parse_error_rule_iff (text : String) (d : Diagnostic) (failed : parse text = .error d) :
    ∃ fault : Fault, d.message = fault.message ∧
      ∃ before rule after, Hint.rules = before ++ rule :: after ∧ Hint.Fits d.message rule ∧
        (Hint.rule? d.message = some rule ↔
          ∀ earlier ∈ before, ¬ earlier.pattern.toList <:+: fault.quoted) ∧
        (' ' ∉ fault.quoted → Hint.rule? d.message = some rule) ∧
        (Hint.rule? d.message = some rule →
          d.hint = some (rule.explain ⟨d.message.toList, d.text.toList, d.pos⟩)) := by
  obtain ⟨header, body, split⟩ := Header.exists_splits text.toList
  obtain ⟨v, _, ended, _, cause⟩ := violation_of_parse_error split failed
  obtain ⟨about, rfl⟩ : ∃ about, d = Diagnostic.ofViolation about v := by
    rcases cause with ⟨_, same⟩ | ⟨_, same⟩
    · exact ⟨_, same⟩
    · exact ⟨_, same⟩
  obtain ⟨before, rule, after, table, fits, chosen⟩ := Hint.exists_fits ended
  refine ⟨v.fault, rfl, before, rule, after, table, fits, chosen, fun solid => ?_, fun found => ?_⟩
  · refine chosen.mpr fun earlier mem stands => solid (stands.subset ?_)
    exact Hint.space_mem_pattern (table ▸ List.mem_append_left _ mem)
  · change Hint.find? v.fault.message about v.pos = _
    rw [Hint.find?]
    exact congrArg (Option.map _) found

/-- A reference whose name holds the pattern of a later rule. -/
theorem parse_error_rule_iff_reference :
    ∃ d before rule after, parse "(a)\\k<Invalid group name>" = .error d ∧
      Hint.rules = before ++ rule :: after ∧ Hint.Fits d.message rule ∧
      rule.pattern = "Backreference to undefined group" ∧ Hint.rule? d.message = some rule ∧
      ∀ earlier ∈ before, ¬ earlier.pattern.toList <:+: "Invalid group name".toList := by
  let source : Source := ⟨{}, "(a)\\k<Invalid group name>"⟩
  let v : Violation := ⟨.undefinedName "Invalid group name", 3⟩
  have taken : Source.ofText source.body = .ok source := by decide +kernel
  have read : (Parser.ofSource source).read.result = .error v := by decide +kernel
  have failed : parse source.body = .error (Diagnostic.ofViolation source.body v) :=
    parse_eq_error taken read
  obtain ⟨fault, same, before, rule, after, table, fits, chosen, _, _⟩ :=
    parse_error_rule_iff source.body _ failed
  obtain rfl : v.fault = fault := Fault.message_injective same
  have only : ∀ letters ∈ Hint.spelling.letters, letters.isPrefixOf v.fault.message.toList →
      String.ofList letters = "Backreference to undefined group" := by
    decide +kernel
  have pattern : rule.pattern = "Backreference to undefined group" := by
    have begins := List.isPrefixOf_iff_prefix.mpr fits.begins
    simpa using only _ (Hint.mem_letters fits.listed) begins
  have first : (Hint.rule? v.fault.message).map HintRule.pattern =
      some "Backreference to undefined group" := by
    decide +kernel
  obtain ⟨selected, found, pattern'⟩ := Option.map_eq_some_iff.mp first
  obtain rfl : selected = rule :=
    Hint.eq_of_pattern (List.mem_of_find?_eq_some found) fits.listed (by rw [pattern', pattern])
  exact ⟨_, before, _, after, failed, table, fits, pattern, found, chosen.mp found⟩

/-- The name of a group can bring up the hint of another error. -/
theorem parse_error_rule_misled :
    ∃ d rule, parse "(?<Invalid flag>a)" = .error d ∧
      d.message = "Invalid group name <Invalid flag>" ∧ Hint.rule? d.message = some rule ∧
      rule.pattern = "Invalid flag" ∧ ¬ Hint.Fits d.message rule := by
  let source : Source := ⟨{}, "(?<Invalid flag>a)"⟩
  let v : Violation := ⟨.invalidGroupName "Invalid flag", 3⟩
  have taken : Source.ofText source.body = .ok source := by decide +kernel
  have read : (Parser.ofSource source).read.result = .error v := by decide +kernel
  have found : (Hint.rule? v.fault.message).map HintRule.pattern = some "Invalid flag" := by
    decide +kernel
  obtain ⟨rule, chosen, pattern⟩ := Option.map_eq_some_iff.mp found
  refine ⟨_, rule, parse_eq_error taken read, by decide +kernel, chosen, pattern, fun fits => ?_⟩
  have begins := fits.begins
  rw [pattern] at begins
  exact absurd begins (by decide +kernel)

end PatternCompiler
