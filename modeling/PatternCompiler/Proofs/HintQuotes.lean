import PatternCompiler.Proofs.Emission
import PatternCompiler.Proofs.HintChoice

/-!
Tokens in hints. The messages that quote a token end in it, behind a space, and the hint for such a
message looks for the token there. It finds the token unless that has white space, is the quote that
encloses a flag, or is a range with a line feed at one end; and then it shows something else.
-/

set_option autoImplicit false
set_option relaxedAutoImplicit false

namespace PatternCompiler

namespace Text

variable {front rest word : List Char}

private theorem trailingWord_append {blank : Char} (space : isBlank blank = true)
    (some_char : word ≠ []) (solid : ∀ c ∈ word, isBlank c = false) :
    trailingWord (front ++ blank :: word) = some word := by
  have run : (front ++ blank :: word).reverse.takeWhile (fun c => !isBlank c) = word.reverse := by
    have back : ∀ c ∈ word.reverse, (!isBlank c) = true := by
      intro c mem
      rw [solid c (List.mem_reverse.mp mem)]
      rfl
    rw [List.reverse_append, List.reverse_cons, List.append_assoc,
      List.takeWhile_append_of_pos back, List.singleton_append,
      List.takeWhile_cons_of_neg (by simp [space]), List.append_nil]
  rw [trailingWord, run, List.reverse_reverse]
  cases word with
  | nil => exact absurd rfl some_char
  | cons c word => rfl

private theorem quoted_append (none : '\'' ∉ front) : quoted (front ++ rest) = quoted rest := by
  induction front with
  | nil => rfl
  | cons c front ih =>
      have other := List.ne_of_not_mem_cons none
      rw [List.cons_append, quoted, if_neg other.symm, ih (List.not_mem_of_not_mem_cons none)]

private theorem escaped_append (none : '\\' ∉ front) : escaped (front ++ rest) = escaped rest := by
  induction front with
  | nil => rfl
  | cons c front ih =>
      have other := List.ne_of_not_mem_cons none
      rw [List.cons_append, escaped, ih (List.not_mem_of_not_mem_cons none)]
      rintro _ _ rfl _
      exact other rfl

private theorem bracketedRange_cons {c : Char} (other : '[' ≠ c) :
    bracketedRange (c :: rest) = bracketedRange rest := by
  rw [bracketedRange]
  rintro _ _ _ rfl _
  exact other rfl

private theorem bracketedRange_append (none : '[' ∉ front) :
    bracketedRange (front ++ rest) = bracketedRange rest := by
  induction front with
  | nil => rfl
  | cons c front ih =>
      have other := List.ne_of_not_mem_cons none
      rw [List.cons_append, bracketedRange_cons other, ih (List.not_mem_of_not_mem_cons none)]

private theorem bracketedRange_of_length (short : rest.length ≤ 4) :
    bracketedRange rest = none := by
  induction rest with
  | nil => rfl
  | cons c rest ih =>
      rw [List.length_cons] at short
      rw [bracketedRange]
      · exact ih (by omega)
      · rintro a b tail _ rfl
        simp only [List.length_cons] at short
        omega

end Text

namespace Hint

/-- A hint that shows the token of a fault as its message has it. -/
def Quotes (hint : String) : Fault → Prop
  | .undefinedNumber digits => ("\\" ++ digits ++ " refers to a group").toList <+: hint.toList
  | .undefinedName name => ("<" ++ name ++ "> refers to a group").toList <+: hint.toList
  | .duplicateGroupName name | .quantifiedNamedGroup name =>
      ("'" ++ name ++ "'").toList <:+: hint.toList
  | .invalidFlag flag => ("'" ++ flag.toString ++ "' is not a known flag").toList <+: hint.toList
  | .unknownEscape letter => ("'\\" ++ letter.toString ++ "' is not").toList <+: hint.toList
  | .descendingRange first last =>
      ("[" ++ last.toString ++ "-" ++ first.toString ++ "] instead of [" ++ first.toString ++ "-" ++
        last.toString ++ "]").toList <:+: hint.toList
  | _ => True

end Hint

/-- A token that is found again in the message. -/
def Fault.Quotable : Fault → Prop
  | .undefinedName name => ∀ c ∈ name.toList, Text.isBlank c = false
  | .invalidFlag flag => flag ≠ '\''
  | .descendingRange first last => first ≠ '\n' ∧ last ≠ '\n'
  | _ => True

namespace Hint

variable {fault : Fault} {rule : HintRule} {token : List Char} {about : String} {pos : Nat}

section Rules

private theorem length_pattern {rule : HintRule} (listed : rule ∈ rules) :
    3 < rule.pattern.toList.length := by
  have long : ∀ letters ∈ spelling.letters, 3 < letters.length := by decide +kernel
  exact long _ (mem_letters listed)

/-- Whether no other pattern of the table goes on where a given one ends. -/
def isFinal (pattern : List Char) : Bool :=
  spelling.letters.all fun other => !pattern.isPrefixOf other || other == pattern

/-- A rule of the table whose pattern no other one continues. -/
structure Final (rule : HintRule) : Prop where
  listed : rule ∈ rules
  alone : isFinal rule.pattern.toList = true

def quotingRules : List HintRule :=
  [⟨"Invalid character range", descendingRange⟩, ⟨"Invalid flag", invalidFlag⟩,
    ⟨"Unknown escape sequence", unknownEscape⟩,
    ⟨"Cannot quantify named group", quantifiedNamedGroup⟩,
    ⟨"Backreference to undefined group", undefinedReference⟩,
    ⟨"Duplicate group name", duplicateGroupName⟩]

def quotingSpelling : Spelling quotingRules := by
  constructor
  repeat
    apply Spells.cons
    · rfl
  exact .nil

private theorem quotingRules_sublist : quotingRules.Sublist rules := by
  repeat first
    | exact List.nil_sublist _
    | apply List.Sublist.cons_cons
    | apply List.Sublist.cons

private theorem final_of_quoting (quoting : rule ∈ quotingRules) : Final rule := by
  have alone : quotingSpelling.letters.all isFinal = true := by decide +kernel
  rw [← quotingSpelling.letters_eq, List.all_map, List.all_eq_true] at alone
  exact ⟨quotingRules_sublist.subset quoting, alone rule quoting⟩

/-- A message that begins with the pattern of a final rule is met by that rule, if what the message
quotes can hold no pattern. -/
theorem rule?_of_final (other : fault ≠ .unexpectedEnd) (final : Final rule)
    (begins : rule.pattern.toList <+: fault.message.toList)
    (harmless : ' ' ∉ fault.quoted ∨ fault.quoted.length ≤ 3) :
    rule? fault.message = some rule := by
  obtain ⟨before, fitting, after, table, fits, chosen⟩ := exists_fits other
  have same : fitting = rule := by
    have longer := fits.longest rule final.listed begins
    have nested : rule.pattern.toList <+: fitting.pattern.toList := by
      refine List.prefix_of_prefix_length_le begins fits.begins ?_
      rwa [String.length_toList, String.length_toList]
    have alone := List.all_eq_true.mp final.alone _ (mem_letters fits.listed)
    rw [List.isPrefixOf_iff_prefix.mpr nested] at alone
    exact eq_of_pattern fits.listed final.listed (by simpa using alone)
  subst same
  refine chosen.mpr fun earlier mem stands => ?_
  have listed : earlier ∈ rules := table ▸ List.mem_append_left _ mem
  rcases harmless with solid | short
  · exact solid (stands.subset (space_mem_pattern listed))
  · have length := stands.length_le
    have long := length_pattern listed
    omega

private theorem find?_eq (found : rule? fault.message = some rule) :
    find? fault.message about pos =
      some (rule.explain ⟨fault.message.toList, about.toList, pos⟩) := by
  rw [find?, found, Option.map_some]

private theorem find?_of_final {post : String → Prop} (other : fault ≠ .unexpectedEnd)
    (final : Final rule) (split : fault.message.toList = rule.pattern.toList ++ token)
    (harmless : ' ' ∉ fault.quoted ∨ fault.quoted.length ≤ 3)
    (shows : ∀ c : HintContext, c.message = rule.pattern.toList ++ token → post (rule.explain c)) :
    ∃ hint, find? fault.message about pos = some hint ∧ post hint := by
  have found := rule?_of_final other final ⟨_, split.symm⟩ harmless
  exact ⟨_, find?_eq found, shows _ split⟩

end Rules

section Messages

variable {letters : List Char} {pattern opening quoted : String}

private theorem message_quoting (lead : List Char) (message : opening ++ quoted = fault.message)
    (spelled : String.ofList letters = pattern)
    (opened : String.ofList (letters ++ lead) = opening) :
    fault.message.toList = pattern.toList ++ (lead ++ quoted.toList) := by
  rw [← message, ← spelled, ← opened, String.toList_append, String.toList_ofList,
    String.toList_ofList, List.append_assoc]

private theorem message_enclosing (lead closing : List Char)
    (message : opening ++ quoted ++ String.ofList closing = fault.message)
    (spelled : String.ofList letters = pattern)
    (opened : String.ofList (letters ++ lead) = opening) :
    fault.message.toList = pattern.toList ++ (lead ++ (quoted.toList ++ closing)) := by
  rw [← message, ← spelled, ← opened, String.toList_append, String.toList_append,
    String.toList_ofList, String.toList_ofList, String.toList_ofList, List.append_assoc,
    List.append_assoc]

private theorem message_undefinedNumber (digits : String) :
    (Fault.undefinedNumber digits).message.toList =
      "Backreference to undefined group".toList ++ ([' ', '\\'] ++ digits.toList) :=
  message_quoting [' ', '\\'] rfl rfl rfl

private theorem message_undefinedName (name : String) :
    (Fault.undefinedName name).message.toList =
      "Backreference to undefined group".toList ++ ([' ', '<'] ++ (name.toList ++ ['>'])) :=
  message_enclosing [' ', '<'] ['>'] rfl rfl rfl

end Messages

section References

variable {c : HintContext}

def referenceRule : HintRule :=
  ⟨"Backreference to undefined group", undefinedReference⟩

private theorem final_referenceRule : Final referenceRule :=
  final_of_quoting (by simp [quotingRules, referenceRule])

private theorem not_mem_of_spelled {letters : List Char} {text : String} {x : Char}
    (spelled : String.ofList letters = text) (none : letters.all (· != x) = true) :
    x ∉ text.toList := by
  rw [← spelled, String.toList_ofList]
  intro mem
  simpa using List.all_eq_true.mp none x mem

private theorem solid_closed {text : List Char} (solid : ∀ c ∈ text, Text.isBlank c = false) :
    ∀ c ∈ text ++ ['>'], Text.isBlank c = false :=
  List.forall_mem_append.mpr ⟨solid, List.forall_mem_singleton.mpr (by decide)⟩

private theorem solid_angled {text : List Char} (solid : ∀ c ∈ text, Text.isBlank c = false) :
    ∀ c ∈ '<' :: (text ++ ['>']), Text.isBlank c = false :=
  List.forall_mem_cons.mpr ⟨by decide, solid_closed solid⟩

private theorem toList_undefinedReference {word : List Char}
    (found : Text.trailingWord c.message = some word) :
    ∃ tail, (undefinedReference c).toList = word ++ (" refers to a group".toList ++ tail) ∧
      '>' ∉ " refers to a group".toList ++ tail := by
  let more := " that has not been captured yet. " ++
    "Backreferences refer to previously captured groups. " ++
    "Make sure the group is defined before referencing it. " ++
    "STRling does not support forward references."
  have split : " refers to a group that has not been captured yet. " =
      " refers to a group" ++ " that has not been captured yet. " := by decide
  refine ⟨more.toList, ?_, ?_⟩
  · have text : undefinedReference c = String.ofList word ++ (" refers to a group" ++ more) := by
      simp only [undefinedReference, HintContext.lastWord?, found, Option.map_some,
        Option.getD_some, split, more, String.append_assoc]
    rw [text, String.toList_append, String.toList_append, String.toList_ofList]
  · simp only [more, String.toList_append, List.mem_append, not_or]
    exact ⟨not_mem_of_spelled rfl (by decide),
      ⟨⟨not_mem_of_spelled rfl (by decide), not_mem_of_spelled rfl (by decide)⟩,
        not_mem_of_spelled rfl (by decide)⟩, not_mem_of_spelled rfl (by decide)⟩

private theorem quotes_reference (front : List Char) {blank : Char} (other : fault ≠ .unexpectedEnd)
    (split : fault.message.toList = referenceRule.pattern.toList ++ (front ++ blank :: token))
    (space : Text.isBlank blank = true) (some_char : token ≠ [])
    (solid : ∀ c ∈ token, Text.isBlank c = false)
    (harmless : ' ' ∉ fault.quoted ∨ fault.quoted.length ≤ 3) :
    ∃ hint, find? fault.message about pos = some hint ∧
      token ++ " refers to a group".toList <+: hint.toList := by
  refine find?_of_final other final_referenceRule split harmless fun c message => ?_
  have word : Text.trailingWord c.message = some token := by
    rw [message, ← List.append_assoc]
    exact Text.trailingWord_append space some_char solid
  obtain ⟨tail, text, -⟩ := toList_undefinedReference word
  refine ⟨tail, ?_⟩
  change _ = (undefinedReference c).toList
  rw [text, List.append_assoc]

private theorem not_prefix_undefinedReference {before after : List Char} {blank : Char}
    (space : Text.isBlank blank = true) (solid : ∀ c ∈ after, Text.isBlank c = false)
    (split : c.message = referenceRule.pattern.toList ++
      ' ' :: '<' :: (before ++ blank :: after ++ ['>'])) :
    ¬ '<' :: (before ++ blank :: after ++ ['>']) ++ " refers to a group".toList <+:
      (undefinedReference c).toList := by
  have word : Text.trailingWord c.message = some (after ++ ['>']) := by
    have whole : c.message =
        (referenceRule.pattern.toList ++ ' ' :: '<' :: before) ++ blank :: (after ++ ['>']) := by
      rw [split]
      simp
    rw [whole]
    exact Text.trailingWord_append space (by simp) (solid_closed solid)
  obtain ⟨tail, text, none⟩ := toList_undefinedReference word
  rintro ⟨more, same⟩
  rw [text] at same
  generalize " refers to a group".toList = words at same none
  let front := '<' :: (before ++ blank :: after)
  have length : front.length = before.length + after.length + 2 := by
    simp only [front, List.length_cons, List.length_append]
    omega
  have left : '<' :: (before ++ blank :: after ++ ['>']) ++ words ++ more =
      front ++ '>' :: (words ++ more) := by simp [front]
  have bracket : (front ++ '>' :: (words ++ more))[front.length]? = some '>' := by simp
  rw [← left, same, List.getElem?_append_right (by simp [length]; omega)] at bracket
  exact none (List.mem_of_getElem? bracket)

private theorem quotes_undefinedNumber {digits : String}
    (all : ∀ c ∈ digits.toList, c.isDigit = true) :
    ∃ hint, find? (Fault.undefinedNumber digits).message about pos = some hint ∧
      Quotes hint (.undefinedNumber digits) := by
  have token : ∀ c ∈ '\\' :: digits.toList, Text.isBlank c = false := by
    refine List.forall_mem_cons.mpr ⟨by decide, fun c mem => ?_⟩
    rw [Bool.eq_false_iff]
    intro blank
    exact absurd (all c mem) (by simp [(Pcre2.not_alpha_of_isBlank blank).2])
  have quiet : ' ' ∉ digits.toList := by
    intro mem
    exact absurd (all ' ' mem) (by decide)
  have split := message_undefinedNumber digits
  obtain ⟨hint, found, quotes⟩ :
      ∃ hint, find? (Fault.undefinedNumber digits).message about pos = some hint ∧
        '\\' :: digits.toList ++ " refers to a group".toList <+: hint.toList :=
    quotes_reference [] (by simp) split (by decide) (by simp) token (.inl quiet)
  have backslash : "\\".toList = ['\\'] := rfl
  have text : ("\\" ++ digits ++ " refers to a group").toList =
      '\\' :: digits.toList ++ " refers to a group".toList := by
    simp only [String.toList_append, backslash, List.singleton_append]
  rw [← text] at quotes
  exact ⟨hint, found, quotes⟩

end References

section Heads

def Starts (first : Char) (text : String) : Prop :=
  text.toList.head? = some first

variable {first : Char} {letters : List Char} {text more : String}

private theorem starts_of_spelled (spelled : String.ofList (first :: letters) = text) :
    Starts first text := by
  rw [Starts, ← spelled, String.toList_ofList, List.head?_cons]

theorem starts_append (starts : Starts first text) : Starts first (text ++ more) := by
  have head : text.toList.head? = some first := starts
  rw [Starts, String.toList_append, List.head?_append, head, Option.some_or]

private theorem not_prefix_of_starts {x : Char} {piece : List Char} (head : piece.head? = some x)
    (starts : Starts first text) (other : x ≠ first) : ¬ piece <+: text.toList := by
  rintro ⟨back, same⟩
  rw [Starts, ← same, List.head?_append, head] at starts
  exact other (Option.some.inj starts)

def Upright (rule : HintRule) : Prop :=
  ∀ c, ∃ first, first ≠ '<' ∧ Starts first (rule.explain c)

private theorem upright_always {pattern : String} (starts : Starts first text)
    (other : first ≠ '<') :
    Upright ⟨pattern, always text⟩ :=
  fun _ => ⟨first, other, starts⟩

private theorem upright_unterminatedRules : ∀ rule ∈ unterminatedRules, Upright rule := by
  simp only [unterminatedRules, List.forall_mem_cons]
  refine ⟨?_, ?_, ?_, ?_, ?_, ?_, ?_, ?_, ?_, ?_, ?_, ?_, by simp⟩
  all_goals exact upright_always (starts_append (starts_of_spelled rfl)) (by decide)

private theorem upright_nothingToRepeat {pattern : String} :
    Upright ⟨pattern, nothingToRepeat⟩ := by
  intro c
  refine ⟨'T', by decide, ?_⟩
  exact starts_append (starts_append (starts_append (starts_of_spelled rfl)))

private theorem upright_descendingRange {pattern : String} :
    Upright ⟨pattern, descendingRange⟩ := by
  intro c
  refine ⟨'C', by decide, ?_⟩
  simp only [descendingRange]
  split
  · iterate 8 apply starts_append
    exact starts_of_spelled rfl
  · exact starts_append (starts_of_spelled rfl)

private theorem upright_invalidFlag {pattern : String} : Upright ⟨pattern, invalidFlag⟩ := by
  intro c
  simp only [invalidFlag]
  split
  · refine ⟨'\'', by decide, starts_append (starts_append ?_)⟩
    exact starts_append (starts_append (starts_of_spelled rfl))
  · exact ⟨'U', by decide, starts_append (starts_append (starts_of_spelled rfl))⟩

private theorem upright_unknownEscape {pattern : String} : Upright ⟨pattern, unknownEscape⟩ := by
  intro c
  simp only [unknownEscape]
  split
  · exact ⟨'T', by decide, starts_of_spelled rfl⟩
  · refine ⟨'\'', by decide, ?_⟩
    iterate 6 apply starts_append
    exact starts_of_spelled rfl

private theorem upright_tokenRules : ∀ rule ∈ tokenRules, Upright rule := by
  simp only [tokenRules, List.forall_mem_cons]
  refine ⟨?_, upright_nothingToRepeat, ?_, upright_descendingRange, upright_invalidFlag, ?_,
    upright_unknownEscape, ?_, ?_, ?_, ?_, ?_, by simp⟩
  · exact upright_always (starts_append (starts_of_spelled rfl)) (by decide)
  · exact upright_always (starts_append (starts_of_spelled rfl)) (by decide)
  · exact upright_always (starts_append (starts_of_spelled rfl)) (by decide)
  · exact upright_always (starts_append (starts_of_spelled rfl)) (by decide)
  · exact upright_always (starts_append (starts_of_spelled rfl)) (by decide)
  · exact fun c => ⟨'T', by decide, starts_append (starts_append (starts_of_spelled rfl))⟩
  · exact upright_always (starts_append (starts_of_spelled rfl)) (by decide)
  · exact fun c => ⟨'G', by decide,
      starts_append (starts_append (starts_append (starts_of_spelled rfl)))⟩

private theorem rule_of_reference (begins : referenceRule.pattern.toList <+: fault.message.toList)
    (found : rule? fault.message = some rule) : rule = referenceRule ∨ Upright rule := by
  have here : structureRules.find? (fun rule =>
      Text.occurs rule.pattern.toList fault.message.toList) = some referenceRule :=
    List.find?_cons_of_pos (Text.occurs_iff_infix.mpr begins.isInfix)
  rw [rule?, rules, List.find?_append, here] at found
  cases earlier : (unterminatedRules ++ tokenRules).find? fun rule =>
      Text.occurs rule.pattern.toList fault.message.toList with
  | none =>
      rw [earlier, Option.none_or] at found
      exact .inl (Option.some.inj found).symm
  | some first =>
      rw [earlier, Option.some_or] at found
      obtain rfl := Option.some.inj found
      rcases List.mem_append.mp (List.mem_of_find?_eq_some earlier) with mem | mem
      · exact .inr (upright_unterminatedRules first mem)
      · exact .inr (upright_tokenRules first mem)

end Heads

section Names

private theorem toList_angled (name : String) :
    ("<" ++ name ++ "> refers to a group").toList =
      '<' :: (name.toList ++ ['>']) ++ " refers to a group".toList := by
  have split : "> refers to a group" = ">" ++ " refers to a group" := by decide
  have left : "<".toList = ['<'] := rfl
  have right : ">".toList = ['>'] := rfl
  simp only [split, String.toList_append, left, right, List.nil_append, List.cons_append,
    List.append_assoc]

private theorem exists_last {test : Char → Bool} {text : List Char}
    (some_char : ∃ c ∈ text, test c = true) :
    ∃ before c after, text = before ++ c :: after ∧ test c = true ∧
      ∀ d ∈ after, test d = false := by
  induction text with
  | nil => simp at some_char
  | cons x rest ih =>
      by_cases later : ∃ c ∈ rest, test c = true
      · obtain ⟨before, c, after, rfl, holds, none⟩ := ih later
        exact ⟨x :: before, c, after, rfl, holds, none⟩
      · have none : ∀ d ∈ rest, test d = false := by simpa using later
        obtain ⟨c, mem, holds⟩ := some_char
        rcases List.mem_cons.mp mem with rfl | mem
        · exact ⟨[], c, rest, rfl, holds, none⟩
        · exact absurd ⟨c, mem, holds⟩ later

private theorem quotes_undefinedName_iff (name : String) :
    ∃ hint, find? (Fault.undefinedName name).message about pos = some hint ∧
      (Quotes hint (.undefinedName name) ↔ (Fault.undefinedName name).Quotable) := by
  have split := message_undefinedName name
  simp only [Quotes, toList_angled]
  by_cases solid : ∀ c ∈ name.toList, Text.isBlank c = false
  · have quiet : ' ' ∉ name.toList := by
      intro mem
      exact absurd (solid ' ' mem) (by decide)
    obtain ⟨hint, found, quotes⟩ :=
      quotes_reference [] (by simp) split (by decide) (by simp) (solid_angled solid) (.inl quiet)
    exact ⟨hint, found, fun _ => solid, fun _ => quotes⟩
  · obtain ⟨rule, found⟩ : ∃ rule, rule? (Fault.undefinedName name).message = some rule :=
      Option.isSome_iff_exists.mp (rule?_message (by simp))
    refine ⟨_, find?_eq found, fun quotes => absurd quotes ?_,
      fun quotable => absurd quotable solid⟩
    rcases rule_of_reference ⟨_, split.symm⟩ found with rfl | upright
    · obtain ⟨before, blank, after, parts, space, none⟩ :
          ∃ before blank after, name.toList = before ++ blank :: after ∧
            Text.isBlank blank = true ∧ ∀ c ∈ after, Text.isBlank c = false :=
        exists_last (by simpa using solid)
      rw [parts] at split ⊢
      exact not_prefix_undefinedReference space none split
    · obtain ⟨first, other, starts⟩ :=
        upright ⟨(Fault.undefinedName name).message.toList, about.toList, pos⟩
      exact not_prefix_of_starts rfl starts other.symm

end Names

section NamedGroups

variable {c : HintContext} {name : String}

private theorem not_isBlank_of_isIdentifier {text : List Char}
    (identifier : Grammar.Identifier text) :
    ∀ c ∈ text, Text.isBlank c = false := by
  intro c mem
  have word := identifier.mem mem
  rw [Bool.eq_false_iff]
  intro blank
  obtain ⟨alpha, digit⟩ := Pcre2.not_alpha_of_isBlank blank
  obtain rfl : c = '_' := by simpa [Char.isAlphanum, alpha, digit] using word
  exact absurd blank (by decide)

private theorem dropWhile_of_none {test : Char → Bool} {text : List Char}
    (none : ∀ c ∈ text, test c = false) : text.dropWhile test = text := by
  cases text with
  | nil => rfl
  | cons c text => rw [List.dropWhile_cons_of_neg (by simp [none c List.mem_cons_self])]

private theorem lastName?_eq {front : List Char} (identifier : Grammar.Identifier name.toList)
    (split : c.message = front ++ ' ' :: '<' :: (name.toList ++ ['>'])) :
    c.lastName? = some name := by
  have solid := not_isBlank_of_isIdentifier identifier
  have word : Text.trailingWord c.message = some ('<' :: (name.toList ++ ['>'])) := by
    rw [split]
    exact Text.trailingWord_append (by decide) (by simp) (solid_angled solid)
  have plain (mark : Char) (other : (mark.isAlphanum || mark == '_') = false) :
      ∀ c ∈ name.toList, (c == mark) = false := by
    intro c mem
    rw [beq_eq_false_iff_ne]
    rintro rfl
    exact absurd (identifier.mem mem) (by simp [other])
  have opened : ('<' :: (name.toList ++ ['>'])).dropWhile (· == '<') = name.toList ++ ['>'] := by
    rw [List.dropWhile_cons_of_pos (by rfl)]
    refine dropWhile_of_none (List.forall_mem_append.mpr ⟨plain '<' (by decide), by simp⟩)
  have closed : (name.toList ++ ['>']).reverse.dropWhile (· == '>') = name.toList.reverse := by
    rw [List.reverse_append, List.reverse_singleton, List.singleton_append,
      List.dropWhile_cons_of_pos (by rfl)]
    exact dropWhile_of_none fun c mem => plain '>' (by decide) c (List.mem_reverse.mp mem)
  rw [HintContext.lastName?, word, Option.map_some, opened, closed, List.reverse_reverse,
    String.ofList_toList]

private theorem infix_append {piece : List Char} {text more : String}
    (within : piece <:+: text.toList) :
    piece <:+: (text ++ more).toList := by
  rw [String.toList_append]
  exact within.trans (List.prefix_append _ _).isInfix

private theorem infix_of_quotes {opening closing : String}
    (opened : opening.toList.getLast? = some '\'') (closed : Starts '\'' closing) :
    ("'" ++ name ++ "'").toList <:+: (opening ++ name ++ closing).toList := by
  obtain ⟨front, ends⟩ := List.getLast?_eq_some_iff.mp opened
  obtain ⟨back, begins⟩ := List.head?_eq_some_iff.mp closed
  have quote : "'".toList = ['\''] := rfl
  refine ⟨front, back, ?_⟩
  simp only [String.toList_append, ends, begins, quote, List.append_assoc, List.cons_append,
    List.nil_append]

private theorem quotes_named (other : fault ≠ .unexpectedEnd) (final : Final rule)
    (split : fault.message.toList = rule.pattern.toList ++ ' ' :: '<' :: (name.toList ++ ['>']))
    (identifier : Grammar.Identifier name.toList) (same : fault.quoted = name.toList)
    (shows : ∀ c : HintContext,
      ("'" ++ c.lastName?.getD "name" ++ "'").toList <:+: (rule.explain c).toList) :
    ∃ hint, find? fault.message about pos = some hint ∧
      ("'" ++ name ++ "'").toList <:+: hint.toList := by
  have quiet : ' ' ∉ fault.quoted := by
    rw [same]
    intro mem
    exact absurd (not_isBlank_of_isIdentifier identifier ' ' mem) (by decide)
  refine find?_of_final other final split (.inl quiet) fun c message => ?_
  have shown := shows c
  rwa [lastName?_eq identifier message] at shown

private theorem quotes_duplicateGroupName (identifier : Grammar.Identifier name.toList) :
    ∃ hint, find? (Fault.duplicateGroupName name).message about pos = some hint ∧
      Quotes hint (.duplicateGroupName name) := by
  have final : Final ⟨"Duplicate group name", duplicateGroupName⟩ :=
    final_of_quoting (by simp [quotingRules])
  have split : (Fault.duplicateGroupName name).message.toList =
      "Duplicate group name".toList ++ ([' ', '<'] ++ (name.toList ++ ['>'])) :=
    message_enclosing [' ', '<'] ['>'] rfl rfl rfl
  have opening : "The name '".toList.getLast? = some '\'' := by
    rw [String.toList_ofList]
    rfl
  exact quotes_named (by simp) final split identifier rfl fun c =>
    infix_append (infix_append (infix_of_quotes opening (starts_of_spelled rfl)))

private theorem quotes_quantifiedNamedGroup (identifier : Grammar.Identifier name.toList) :
    ∃ hint, find? (Fault.quantifiedNamedGroup name).message about pos = some hint ∧
      Quotes hint (.quantifiedNamedGroup name) := by
  have final : Final ⟨"Cannot quantify named group", quantifiedNamedGroup⟩ :=
    final_of_quoting (by simp [quotingRules])
  have split : (Fault.quantifiedNamedGroup name).message.toList =
      "Cannot quantify named group".toList ++ ([' ', '<'] ++ (name.toList ++ ['>'])) :=
    message_enclosing [' ', '<'] ['>'] rfl rfl rfl
  have opening : "Group names must be unique, so the group '".toList.getLast? = some '\'' := by
    rw [String.toList_ofList]
    rfl
  exact quotes_named (by simp) final split identifier rfl fun c =>
    infix_append (infix_of_quotes opening (starts_of_spelled rfl))

end NamedGroups

section Characters

variable {c : HintContext} {short long text more : String}

theorem prefix_append {piece : List Char} (begins : piece <+: text.toList) :
    piece <+: (text ++ more).toList := by
  rw [String.toList_append]
  exact begins.trans (List.prefix_append _ _)

private theorem prefix_of_spelled {letters letters' : List Char}
    (spelled : String.ofList letters = short)
    (spelled' : String.ofList letters' = long) (checked : letters.isPrefixOf letters' = true) :
    (text ++ short).toList <+: (text ++ long).toList := by
  rw [String.toList_append, String.toList_append, ← spelled, ← spelled', String.toList_ofList,
    String.toList_ofList]
  exact (List.prefix_append_right_inj _).mpr (List.isPrefixOf_iff_prefix.mp checked)

private theorem quotes_of_quoted {flag : Char} (found : c.quoted? = some flag.toString) :
    Quotes (invalidFlag c) (.invalidFlag flag) := by
  unfold invalidFlag
  split
  · next shown same =>
      obtain rfl : flag.toString = shown := Option.some.inj (found.symm.trans same)
      exact prefix_append (prefix_append (prefix_of_spelled rfl rfl (by decide)))
  · next none =>
      rw [found] at none
      cases none

private theorem starts_of_unquoted (none : c.quoted? = none) : Starts 'U' (invalidFlag c) := by
  unfold invalidFlag
  rw [none]
  exact starts_append (starts_append (starts_of_spelled rfl))

private theorem quotes_invalidFlag_of {flag : Char}
    (message : c.message = "Invalid flag".toList ++ [' ', '\'', flag, '\'']) :
    Quotes (invalidFlag c) (.invalidFlag flag) ↔ flag ≠ '\'' := by
  have words : '\'' ∉ "Invalid flag".toList := not_mem_of_spelled rfl (by decide)
  have space : '\'' ∉ [' '] := by decide
  have quoted : Text.quoted c.message = Text.quoted ['\'', flag, '\''] := by
    rw [message, Text.quoted_append words]
    exact Text.quoted_append space
  by_cases quote : flag = '\''
  · have none : c.quoted? = none := by
      rw [HintContext.quoted?, quoted, quote]
      rfl
    have starts : Starts '\'' ("'" ++ flag.toString ++ "' is not a known flag") :=
      starts_append (starts_append (starts_of_spelled rfl))
    have unshown := not_prefix_of_starts starts (starts_of_unquoted none) (by decide)
    exact iff_of_false unshown (fun other => other quote)
  · have shown : c.quoted? = some flag.toString := by
      rw [HintContext.quoted?, quoted]
      simp [Text.quoted, quote, Char.toString]
    exact iff_of_true (quotes_of_quoted shown) quote

private theorem quotes_invalidFlag_iff (flag : Char) :
    ∃ hint, find? (Fault.invalidFlag flag).message about pos = some hint ∧
      (Quotes hint (.invalidFlag flag) ↔ (Fault.invalidFlag flag).Quotable) := by
  have final : Final ⟨"Invalid flag", invalidFlag⟩ :=
    final_of_quoting (by simp [quotingRules])
  have split : (Fault.invalidFlag flag).message.toList =
      "Invalid flag".toList ++ ([' ', '\''] ++ (flag.toString.toList ++ ['\''])) :=
    message_enclosing [' ', '\''] ['\''] rfl rfl rfl
  rw [Char.toString, String.toList_singleton] at split
  exact find?_of_final (by simp) final split (.inr (by simp [Fault.quoted]))
    fun c message => quotes_invalidFlag_of message

private theorem quotes_of_escaped {letter : Char} (found : Text.escaped c.message = some letter) :
    Quotes (unknownEscape c) (.unknownEscape letter) := by
  unfold unknownEscape
  split
  · next none =>
      rw [found] at none
      cases none
  · next shown same =>
      obtain rfl : letter = shown := Option.some.inj (found.symm.trans same)
      iterate 4 apply prefix_append
      exact prefix_of_spelled rfl rfl (by decide)

private theorem quotes_unknownEscape {letter : Char} (alpha : letter.isAlpha = true) :
    ∃ hint, find? (Fault.unknownEscape letter).message about pos = some hint ∧
      Quotes hint (.unknownEscape letter) := by
  have final : Final ⟨"Unknown escape sequence", unknownEscape⟩ :=
    final_of_quoting (by simp [quotingRules])
  have split : (Fault.unknownEscape letter).message.toList =
      "Unknown escape sequence".toList ++ ([' ', '\\'] ++ letter.toString.toList) :=
    message_quoting [' ', '\\'] rfl rfl rfl
  rw [Char.toString, String.toList_singleton] at split
  refine find?_of_final (by simp) final split (.inr (by simp [Fault.quoted])) fun c message => ?_
  have words : '\\' ∉ "Unknown escape sequence".toList := not_mem_of_spelled rfl (by decide)
  have space : '\\' ∉ [' '] := by decide
  have other : letter ≠ '\n' := by
    rintro rfl
    exact absurd alpha (by decide)
  have here : Text.escaped ['\\', letter] = some letter := by simp [Text.escaped, other]
  refine quotes_of_escaped ?_
  rw [message, Text.escaped_append words]
  exact (Text.escaped_append space).trans here

end Characters

section Ranges

variable {c : HintContext} {first last : Char}

private theorem message_descendingRange (first last : Char) :
    (Fault.descendingRange first last).message.toList =
      "Invalid character range".toList ++ ([' ', '['] ++ ([first, '-', last] ++ [']'])) := by
  have spelled : "Invalid character range [" ++ (first.toString ++ ("-" ++ last.toString)) ++ "]" =
      (Fault.descendingRange first last).message := by
    simp only [← String.append_assoc]
    rfl
  have quoted : (first.toString ++ ("-" ++ last.toString)).toList = [first, '-', last] := by
    simp only [String.toList_append, Char.toString, String.toList_singleton]
    rfl
  rw [← quoted]
  exact message_enclosing [' ', '['] [']'] spelled rfl rfl

private theorem quotes_of_bracketed (found : Text.bracketedRange c.message = some (first, last)) :
    Quotes (descendingRange c) (.descendingRange first last) := by
  have opening : "Character ranges must be in ascending order. Use [".toList.getLast? =
      some '[' := by
    rw [String.toList_ofList]
    rfl
  obtain ⟨front, ends⟩ := List.getLast?_eq_some_iff.mp opening
  unfold descendingRange
  split
  · next a b same =>
      obtain ⟨rfl, rfl⟩ : first = a ∧ last = b := by
        simpa using found.symm.trans same
      have bracket : "[".toList = ['['] := rfl
      have bracket' : "]".toList = [']'] := rfl
      have stop : "].".toList = [']', '.'] := rfl
      refine ⟨front, ['.'], ?_⟩
      simp only [String.toList_append, ends, bracket, bracket', stop, List.append_assoc,
        List.cons_append, List.nil_append]
  · next none =>
      rw [found] at none
      cases none

private theorem unshown_of_unbracketed (none : Text.bracketedRange c.message = none) :
    '\n' ∉ (descendingRange c).toList := by
  unfold descendingRange
  rw [none, String.toList_append, List.mem_append, not_or]
  exact ⟨not_mem_of_spelled rfl (by decide), not_mem_of_spelled rfl (by decide)⟩

private theorem quotes_descendingRange_of
    (message : c.message =
      "Invalid character range".toList ++ ([' ', '['] ++ ([first, '-', last] ++ [']']))) :
    Quotes (descendingRange c) (.descendingRange first last) ↔ first ≠ '\n' ∧ last ≠ '\n' := by
  have words : '[' ∉ "Invalid character range".toList := not_mem_of_spelled rfl (by decide)
  have bracketed : Text.bracketedRange c.message =
      Text.bracketedRange ['[', first, '-', last, ']'] := by
    rw [message, Text.bracketedRange_append words]
    exact Text.bracketedRange_cons (by decide)
  by_cases broken : first = '\n' ∨ last = '\n'
  · have short : Text.bracketedRange [first, '-', last, ']'] = none :=
      Text.bracketedRange_of_length (by simp)
    have none : Text.bracketedRange c.message = none := by
      rw [bracketed, Text.bracketedRange, if_pos (by simpa using broken), short]
    have feed : '\n' ∈ ("[" ++ last.toString ++ "-" ++ first.toString ++ "] instead of [" ++
        first.toString ++ "-" ++ last.toString ++ "]").toList := by
      simp only [String.toList_append, Char.toString, String.toList_singleton, List.mem_append,
        List.mem_singleton]
      rcases broken with rfl | rfl
      · simp
      · simp
    refine iff_of_false (fun quotes => ?_) fun quotable => absurd broken (not_or.mpr quotable)
    exact absurd (quotes.subset feed) (unshown_of_unbracketed none)
  · have shown : Text.bracketedRange c.message = some (first, last) := by
      rw [bracketed, Text.bracketedRange, if_neg (by simpa using broken)]
    exact iff_of_true (quotes_of_bracketed shown) (not_or.mp broken)

private theorem quotes_descendingRange_iff (first last : Char) :
    ∃ hint, find? (Fault.descendingRange first last).message about pos = some hint ∧
      (Quotes hint (.descendingRange first last) ↔
        (Fault.descendingRange first last).Quotable) := by
  have final : Final ⟨"Invalid character range", descendingRange⟩ :=
    final_of_quoting (by simp [quotingRules])
  exact find?_of_final (by simp) final (message_descendingRange first last)
    (.inr (by simp [Fault.quoted])) fun c message => quotes_descendingRange_of message

end Ranges

/-- The hint for a fault that a text can cause shows the token of the fault exactly if that is
quotable. -/
theorem quotes_iff (other : fault ≠ .unexpectedEnd) (known : fault.WellQuoted) :
    ∃ hint, find? fault.message about pos = some hint ∧ (Quotes hint fault ↔ fault.Quotable) := by
  cases fault
  case undefinedName name => exact quotes_undefinedName_iff name
  case invalidFlag flag => exact quotes_invalidFlag_iff flag
  case descendingRange first last => exact quotes_descendingRange_iff first last
  case undefinedNumber digits =>
    obtain ⟨hint, found, quotes⟩ := quotes_undefinedNumber known
    exact ⟨hint, found, iff_of_true quotes trivial⟩
  case duplicateGroupName name =>
    obtain ⟨hint, found, quotes⟩ := quotes_duplicateGroupName known
    exact ⟨hint, found, iff_of_true quotes trivial⟩
  case quantifiedNamedGroup name =>
    obtain ⟨hint, found, quotes⟩ := quotes_quantifiedNamedGroup known
    exact ⟨hint, found, iff_of_true quotes trivial⟩
  case unknownEscape letter =>
    obtain ⟨hint, found, quotes⟩ := quotes_unknownEscape known
    exact ⟨hint, found, iff_of_true quotes trivial⟩
  all_goals
    obtain ⟨rule, found⟩ := Option.isSome_iff_exists.mp (rule?_message other)
    exact ⟨_, find?_eq found, Iff.rfl⟩

end Hint

/-- For every text whose parse fails, the message tells the fault, and the hint shows the token of
the fault as the message has it unless that is a name with white space, the quote as a flag, or a
range that begins or ends with a line feed. Of these no hint shows the token. -/
theorem parse_error_hint_quotes_iff (text : String) (d : Diagnostic)
    (failed : parse text = .error d) :
    (∃ fault : Fault, d.message = fault.message) ∧
      ∀ fault : Fault, d.message = fault.message →
        ∃ hint, d.hint = some hint ∧ (Hint.Quotes hint fault ↔ fault.Quotable) := by
  obtain ⟨header, body, split⟩ := Header.exists_splits text.toList
  obtain ⟨v, _, ended, known, cause⟩ := violation_of_parse_error split failed
  obtain ⟨about, rfl⟩ : ∃ about, d = Diagnostic.ofViolation about v := by
    rcases cause with ⟨_, same⟩ | ⟨_, same⟩
    · exact ⟨_, same⟩
    · exact ⟨_, same⟩
  refine ⟨⟨v.fault, rfl⟩, fun fault message => ?_⟩
  obtain rfl : v.fault = fault := Fault.message_injective message
  exact Hint.quotes_iff ended known

/-- A reference by a name that looks like the tokens of other messages. -/
theorem parse_error_hint_quotes_iff_reference :
    ∃ d hint, parse "(?<a>a)\\k<'[z-a]'\\q<a>" = .error d ∧ d.hint = some hint ∧
      ("<'[z-a]'\\q<a> refers to a group").toList <+: hint.toList := by
  let source : Source := ⟨{}, "(?<a>a)\\k<'[z-a]'\\q<a>"⟩
  let v : Violation := ⟨.undefinedName "'[z-a]'\\q<a", 7⟩
  have taken : Source.ofText source.body = .ok source := by decide +kernel
  have read : (Parser.ofSource source).read.result = .error v := by decide +kernel
  have failed : parse source.body = .error (Diagnostic.ofViolation source.body v) :=
    parse_eq_error taken read
  obtain ⟨_, shows⟩ := parse_error_hint_quotes_iff source.body _ failed
  obtain ⟨hint, found, quotes⟩ := shows v.fault rfl
  have solid : ("'[z-a]'\\q<a".toList.all fun c => !Text.isBlank c) = true := by decide +kernel
  have quotable : v.fault.Quotable := by
    intro c mem
    simpa using List.all_eq_true.mp solid c mem
  exact ⟨_, hint, failed, found, quotes.mpr quotable⟩

/-- Of a name with a space the hint shows only what comes after the space. -/
theorem parse_error_hint_cuts_name :
    ∃ d hint, parse "\\k<a b>" = .error d ∧
      d.message = "Backreference to undefined group <a b>" ∧ d.hint = some hint ∧
      "b> refers to a group".toList <+: hint.toList ∧
      ¬ "<a b> refers to a group".toList <+: hint.toList := by
  let source : Source := ⟨{}, "\\k<a b>"⟩
  let v : Violation := ⟨.undefinedName "a b", 0⟩
  have taken : Source.ofText source.body = .ok source := by decide +kernel
  have read : (Parser.ofSource source).read.result = .error v := by decide +kernel
  have failed : parse source.body = .error (Diagnostic.ofViolation source.body v) :=
    parse_eq_error taken read
  obtain ⟨hint, found, starts⟩ :
      ∃ hint, (Diagnostic.ofViolation source.body v).hint = some hint ∧
        ['b', '>'] ++ " refers to a group".toList <+: hint.toList :=
    Hint.quotes_reference [' ', '<', 'a'] (by simp [v]) (Hint.message_undefinedName "a b")
      (by decide) (by simp) (by simp; decide) (.inr (by decide))
  refine ⟨_, hint, failed, by decide +kernel, found, starts, fun whole => ?_⟩
  have same := List.prefix_of_prefix_length_le starts whole (by decide +kernel)
  exact absurd same (by decide +kernel)

end PatternCompiler
