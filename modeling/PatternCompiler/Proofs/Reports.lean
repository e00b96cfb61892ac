import PatternCompiler.Reading.Machine
import PatternCompiler.Proofs.Failing
import PatternCompiler.Proofs.Quantifiers

/-!
What the scans report. `Fault.Blames` says for each fault what stands in the text at the position
that is reported with it: the sign that is wrong, the start of the escape that is, the place right
behind an opening, or the end of the text where something is missing. `Fault.WellQuoted` says what
the text is that a fault quotes. Both are shown of every scan at once, going through it one time.
-/

set_option autoImplicit false
set_option relaxedAutoImplicit false

namespace PatternCompiler

def StandsBefore (text : List Char) (pos : Nat) (s : List Char) : Prop :=
  pos ≤ text.length ∧ s <:+ text.take pos

/-- What a text has to show at the position that a fault is reported for. -/
def Fault.Blames (text : List Char) (pos : Nat) : Fault → Prop
  | .unmatchedParenthesis => text[pos]? = some ')'
  | .noLeftBranch | .noRightBranch | .emptyBranch => text[pos]? = some '|'
  | .quantifiedAnchor | .quantifiedNamedGroup _ =>
      ∃ mark ∈ ['*', '+', '?', '{'], text[pos]? = some mark
  | .nothingToRepeat quantifier => text[pos]? = some quantifier
  | .descendingBounds => text[pos]? = some '{'
  | .boundTooLarge => ∃ digit, digit.isDigit = true ∧ text[pos]? = some digit
  | .unterminatedCount =>
      ∃ least, (∀ x ∈ least, x.isDigit = true) ∧ StandsBefore text pos ('{' :: least) ∧
        text[pos]? ≠ some ',' ∧ text[pos]? ≠ some '}'
  | .unterminatedRange =>
      ∃ least most, (∀ x ∈ least ++ most, x.isDigit = true) ∧
        StandsBefore text pos ('{' :: (least ++ ',' :: most)) ∧ text[pos]? ≠ some '}'
  | .descendingRange _ _ => text[pos]? = some '-'
  | .duplicateGroupName _ | .unknownGroup => text[pos]? = some '('
  | .inlineModifiers => StandsBefore text pos ['('] ∧ text[pos]? = some '?'
  | .invalidGroupName _ => StandsBefore text pos ['(', '?', '<']
  | .noPropertyName | .unterminatedProperty => ∃ p ∈ ['p', 'P'], StandsBefore text pos ['\\', p]
  | .incompleteEscape | .unknownEscape _ | .undefinedNumber _ | .undefinedName _
  | .noReferenceName | .unterminatedReference
  | .unterminatedHexEscape | .unterminatedUnicodeEscape | .invalidHexEscape
  | .invalidUnicodeEscape | .invalidLongUnicodeEscape | .invalidCodePoint =>
      text[pos]? = some '\\'
  | .unterminated _ | .unterminatedClass | .unterminatedGroupName => pos = text.length
  | .invalidFlag _ | .lateDirective | .trailingInput | .unexpectedEnd => False

/-- What the text that a fault quotes is known to be where the fault is found. -/
def Fault.WellQuoted : Fault → Prop
  | .undefinedNumber digits => ∀ c ∈ digits.toList, c.isDigit = true
  | .unknownEscape letter => letter.isAlpha = true
  | .duplicateGroupName name | .quantifiedNamedGroup name => Grammar.Identifier name.toList
  | _ => True

def Opening.Identified : Opening → Prop
  | .named name => Grammar.Identifier name.toList
  | _ => True

/-- The faults that lie within one token. The others are about flags or about how the tokens are
arranged. -/
def Fault.isLexical : Fault → Bool
  | .invalidFlag _ | .lateDirective | .unmatchedParenthesis | .trailingInput
  | .noLeftBranch | .noRightBranch | .emptyBranch | .unterminated _ => false
  | _ => true

/-- A violation within a token: reported where its fault shows, and quoting what it should if the
names around it are identifiers. -/
structure Violation.InToken (text : List Char) (named : Prop) (v : Violation) : Prop where
  lexical : v.fault.isLexical = true
  blamed : v.fault.Blames text v.pos
  quoted : named → v.fault.WellQuoted

private theorem Cursor.Within.standsBefore {text s : List Char} {c c' : Cursor} (h : c.Within text)
    (passed : c.Passes s c') : StandsBefore text c'.index s :=
  ⟨(h.passes passed).index_le, h.suffix_take passed⟩

namespace Reading

open Scan Grammar

variable {text : List Char} {named : Prop} {c c' : Cursor} {start : Nat}

private theorem failsWith_token {α : Type} {fault : Fault} {pos : Nat}
    (lexical : fault.isLexical = true) (blames : fault.Blames text pos)
    (quoted : fault.WellQuoted) :
    FailsWith (Violation.InToken text named) (fail fault pos : Scan α) c :=
  failsWith_fail ⟨lexical, blames, fun _ => quoted⟩

section Escapes

private theorem reports_codePoint {digits : List Char} (slash : text[start]? = some '\\') :
    FailsWith (Violation.InToken text named) (codePoint digits start) c := by
  unfold codePoint
  split
  · exact failsWith_pure
  · exact failsWith_token rfl slash trivial

private theorem reports_bracedCodePoint {fault : Fault} (slash : text[start]? = some '\\')
    (unclosed : Violation.InToken text named ⟨fault, start⟩) :
    FailsWith (Violation.InToken text named) (bracedCodePoint fault start) c := by
  refine failsWith_taking fun digits d _ _ _ => failsWith_eating ?_ ?_
  · exact fun _ _ => reports_codePoint slash
  · exact fun _ => failsWith_fail unclosed

private theorem reports_fixedCodePoint {count : Nat} {fault : Fault}
    (slash : text[start]? = some '\\') (invalid : Violation.InToken text named ⟨fault, start⟩) :
    FailsWith (Violation.InToken text named) (fixedCodePoint count fault start) c := by
  refine failsWith_rest (failsWith_bind failsWith_pass fun _ d _ => ?_)
  split
  · exact reports_codePoint slash
  · exact failsWith_fail invalid

private theorem reports_numericEscape {letter : Char} {scan : Scan Char}
    (slash : text[start]? = some '\\') (found : numericEscape? start letter = some scan) :
    FailsWith (Violation.InToken text named) scan c := by
  unfold numericEscape? at found
  split at found
  · cases found
    refine failsWith_eating ?_ ?_
    · exact fun _ _ => reports_bracedCodePoint slash ⟨rfl, slash, fun _ => trivial⟩
    · exact fun _ => reports_fixedCodePoint slash ⟨rfl, slash, fun _ => trivial⟩
  · cases found
    refine failsWith_eating ?_ ?_
    · exact fun _ _ => reports_bracedCodePoint slash ⟨rfl, slash, fun _ => trivial⟩
    · exact fun _ => reports_fixedCodePoint slash ⟨rfl, slash, fun _ => trivial⟩
  · cases found
    exact reports_fixedCodePoint slash ⟨rfl, slash, fun _ => trivial⟩
  · cases found

private theorem reports_propertyName
    (behind : ∃ p ∈ ['p', 'P'], StandsBefore text c.index ['\\', p]) :
    FailsWith (Violation.InToken text named) propertyName c := by
  refine failsWith_index (failsWith_eating ?_ ?_)
  · intro d _
    refine failsWith_taking fun name d' _ _ _ => failsWith_eating ?_ ?_
    · exact fun _ _ => failsWith_pure
    · exact fun _ => failsWith_token rfl behind trivial
  · exact fun _ => failsWith_token rfl behind trivial

private theorem letter_of_isProperty {letter : Char} {kind : Shorthand}
    (found : Shorthand.ofLetter? letter = some kind) (property : kind.isProperty = true) :
    letter ∈ ['p', 'P'] := by
  unfold Shorthand.ofLetter? at found
  split at found
  case h_7 | h_8 => simp
  case h_9 => cases found
  all_goals
    cases found
    exact absurd property (by decide)

private theorem reports_shorthandProperty {letter : Char} {kind : Shorthand}
    (found : Shorthand.ofLetter? letter = some kind)
    (behind : StandsBefore text c.index ['\\', letter]) :
    FailsWith (Violation.InToken text named) (shorthandProperty kind) c := by
  unfold shorthandProperty
  split
  · next property =>
    exact failsWith_map (reports_propertyName ⟨letter, letter_of_isProperty found property, behind⟩)
  · exact failsWith_pure

private theorem reports_numberedReference {captures : Captures} (slash : text[start]? = some '\\') :
    FailsWith (Violation.InToken text named) (numberedReference captures start) c := by
  refine failsWith_taking fun digits d _ all _ => ?_
  have quoted : (Fault.undefinedNumber (String.ofList digits)).WellQuoted := by
    intro x mem
    rw [String.toList_ofList] at mem
    exact all x mem
  split
  · split
    · exact failsWith_pure
    · exact failsWith_token rfl slash quoted
  · exact failsWith_token rfl slash quoted

private theorem reports_namedReference {captures : Captures} (slash : text[start]? = some '\\') :
    FailsWith (Violation.InToken text named) (namedReference captures start) c := by
  refine failsWith_eating ?_ ?_
  · intro d _
    refine failsWith_bind (failsWith_map failsWith_takeWhile) fun name d' _ => ?_
    refine failsWith_eating ?_ ?_
    · intro d'' _
      split
      · exact failsWith_pure
      · exact failsWith_token rfl slash trivial
    · exact fun _ => failsWith_token rfl slash trivial
  · exact fun _ => failsWith_token rfl slash trivial

private theorem reports_charEscape {letter : Char} (slash : text[start]? = some '\\') :
    FailsWith (Violation.InToken text named) (charEscape letter start) c := by
  unfold charEscape
  split
  · exact failsWith_pure
  · split
    · next found => exact reports_numericEscape slash found
    · split
      · exact failsWith_pure
      · split
        · next alpha => exact failsWith_token rfl slash alpha
        · exact failsWith_pure

private theorem reports_letterEscape {captures : Captures} {letter : Char}
    (slash : text[start]? = some '\\') (behind : StandsBefore text c.index ['\\', letter]) :
    FailsWith (Violation.InToken text named) (letterEscape captures letter start) c := by
  unfold letterEscape
  split
  · next found => exact failsWith_map (reports_shorthandProperty found behind)
  · split
    · exact failsWith_pure
    · split
      · exact reports_namedReference slash
      · exact failsWith_map (reports_charEscape slash)

private theorem reports_escape {captures : Captures} (within : c.Within text)
    (slash : c.Passes ['\\'] c') :
    FailsWith (Violation.InToken text named) (escape captures c.index) c' := by
  have here := within.getElem_of_rest slash.1
  refine failsWith_rest ?_
  split
  · exact failsWith_token rfl here trivial
  · next letter after next =>
    split
    · exact reports_numberedReference here
    · refine failsWith_passing (s := [letter]) next fun d passed => ?_
      exact reports_letterEscape here (within.standsBefore (slash.append passed))

end Escapes

section Classes

private theorem reports_letterItem {letter : Char} (slash : text[start]? = some '\\')
    (behind : StandsBefore text c.index ['\\', letter]) :
    FailsWith (Violation.InToken text named) (letterItem letter start) c := by
  unfold letterItem
  split
  · next found => exact failsWith_map (reports_shorthandProperty found behind)
  · split
    · next found => exact failsWith_map (reports_numericEscape slash found)
    · split
      · exact failsWith_pure
      · split
        · exact failsWith_pure
        · split
          · exact failsWith_pure
          · exact failsWith_pure

private theorem reports_classItem (within : c.Within text) :
    FailsWith (Violation.InToken text named) classItem c := by
  refine failsWith_index (failsWith_rest ?_)
  unfold itemOf
  split
  · next done => exact failsWith_token rfl (within.index_eq_length done) trivial
  · next slash =>
    refine failsWith_passing (s := ['\\']) slash fun d passed => failsWith_token rfl ?_ trivial
    have ended := (within.passes passed).index_eq_length (passed.rest_eq slash)
    rwa [passed.index_eq] at ended
  · next letter after slash =>
    refine failsWith_passing (s := ['\\', letter]) slash fun d passed => ?_
    exact reports_letterItem (within.getElem_of_rest slash) (within.standsBefore passed)
  · exact failsWith_pass_pure

private theorem reports_joinRange {before : List ClassItem} {first : Char} {item : ClassItem}
    {v : Violation} (dash : text[start]? = some '-')
    (failed : joinRange before first start item = .error v) : v.InToken text named := by
  unfold joinRange at failed
  split at failed
  · split at failed
    · cases failed
    · cases failed
      exact ⟨rfl, dash, fun _ => trivial⟩
  · cases failed

private theorem reports_classItemStep {d : ClassDraft} (within : d.cursor.Within text)
    {v : Violation} (halted : classItemStep d = .halt (.error v c)) : v.InToken text named := by
  unfold classItemStep at halted
  split at halted
  · next first before next _ dash =>
    split at halted
    · cases halted
    · have passed : d.cursor.Passes ['-'] (d.cursor.advance 1) := .of_rest dash
      split at halted
      · next failed =>
        cases halted
        exact reports_classItem (within.passes passed) _ _ failed
      · split at halted
        · cases halted
        · next failed =>
          cases halted
          exact reports_joinRange (within.getElem_of_rest dash) failed
  · split at halted
    · cases halted
    · next failed =>
      cases halted
      exact reports_classItem within _ _ failed

private theorem reports_classStep {first : Nat} {d : ClassDraft} (within : d.cursor.Within text)
    {v : Violation} (halted : classStep first d = .halt (.error v c)) : v.InToken text named := by
  unfold classStep at halted
  split at halted
  · next done =>
    cases halted
    exact ⟨rfl, within.index_eq_length done, fun _ => trivial⟩
  · split at halted
    · cases halted
    · exact reports_classItemStep within halted
  · exact reports_classItemStep within halted

private theorem reports_classItems (within : c.Within text) :
    FailsWith (Violation.InToken text named) classItems c := by
  refine Step.run_induct (fun d : ClassDraft => d.cursor.Within text)
    (fun answer : ClassAnswer => ∀ v c', answer = .error v c' → v.InToken text named)
    ?_ ?_ ⟨c, []⟩ within
  · intro d d' inside taken
    have moved := classStep_moves c.index d
    rw [taken] at moved
    exact inside.reaches moved.1
  · rintro d _ inside halted v c' rfl
    exact reports_classStep inside halted

private theorem reports_charClass (within : c.Within text) :
    FailsWith (Violation.InToken text named) charClass c := by
  refine failsWith_inClass (failsWith_bind failsWith_eat fun negated d taken => failsWith_map ?_)
  exact reports_classItems (within.inside_class.reaches ((forward_eat '^').reaches_of_ok taken))

end Classes

section Quantifiers

private theorem reports_bound (within : c.Within text) :
    FailsWith (Violation.InToken text named) bound c := by
  refine failsWith_index (failsWith_taking fun digits d passed all _ => ?_)
  split
  · exact failsWith_pure
  · next tooLarge =>
    cases digits with
    | nil => exact absurd tooLarge (by decide)
    | cons digit others =>
        exact failsWith_token rfl ⟨digit, all digit (by simp), within.getElem_of_rest passed.1⟩
          trivial

private theorem reports_upperBound (within : c.Within text) :
    FailsWith (Violation.InToken text named) upperBound c := by
  refine failsWith_rest ?_
  split
  · split
    · exact failsWith_map (reports_bound within)
    · exact failsWith_pure
  · exact failsWith_pure

private theorem reports_bracedBounds (within : c.Within text) (brace : c.Passes ['{'] c')
    (digit : DigitAhead c'.rest) :
    FailsWith (Violation.InToken text named) (bracedBounds c.index) c' := by
  refine failsWith_bind (reports_bound (within.passes brace)) fun least d read => ?_
  obtain ⟨low, passed, ⟨_, digits, _⟩, _⟩ := (bound_ok digit).mp read
  have behind := brace.append passed
  refine failsWith_eating (fun d₁ comma => ?_) fun noComma =>
    failsWith_eating (fun _ _ => failsWith_pure) fun unclosed => ?_
  · have behind := behind.append comma
    refine failsWith_bind (reports_upperBound (within.passes behind)) fun most d₂ read => ?_
    obtain ⟨high, passed', digits'⟩ :
        ∃ high, d₁.Passes high d₂ ∧ ∀ x ∈ high, x.isDigit = true := by
      rcases upperBound_ok.mp read with ⟨high, _, passed', ⟨_, digits', _⟩, _⟩ | ⟨_, _, rfl⟩
      · exact ⟨high, passed', digits'⟩
      · exact ⟨[], by simp, by simp⟩
    have behind := behind.append passed'
    refine failsWith_eating (fun d₃ closed => ?_) fun unclosed => ?_
    · split
      · exact failsWith_pure
      · split
        · exact failsWith_pure
        · exact failsWith_token rfl (within.getElem_of_rest brace.1) trivial
    · refine failsWith_index (failsWith_token rfl ⟨low, high, ?_, ?_, ?_⟩ trivial)
      · intro x mem
        rcases List.mem_append.mp mem with mem | mem
        · exact digits x mem
        · exact digits' x mem
      · simpa using within.standsBefore behind
      · rwa [← (within.passes behind).head_rest]
  · have inside := within.passes behind
    rw [inside.head_rest] at noComma unclosed
    exact failsWith_index
      (failsWith_token rfl ⟨low, digits, within.standsBefore behind, noComma, unclosed⟩ trivial)

private theorem reports_boundsAfter {first : Char} (within : c.Within text)
    (passed : c.Passes [first] c') (begins : startsQuantifier (first :: c'.rest) = true) :
    FailsWith (Violation.InToken text named) (boundsAfter c.index first) c' := by
  rcases startsQuantifier_iff.mp begins with rfl | rfl | rfl | ⟨rfl, digit⟩
  · exact failsWith_pure
  · exact failsWith_pure
  · exact failsWith_pure
  · exact reports_bracedBounds within passed digit

private theorem reports_greed : FailsWith (Violation.InToken text named) greed c := by
  refine failsWith_eating (fun _ _ => failsWith_pure) fun _ => failsWith_eating ?_ ?_
  · exact fun _ _ => failsWith_pure
  · exact fun _ => failsWith_pure

private theorem mem_marks_of_startsQuantifier {first : Char} {after : List Char}
    (begins : startsQuantifier (first :: after) = true) : first ∈ ['*', '+', '?', '{'] := by
  rcases startsQuantifier_iff.mp begins with rfl | rfl | rfl | ⟨rfl, _⟩
  all_goals decide

/-- A quantifier that may not stand behind a named group is reported with the name of that group. -/
theorem reports_quantify (atom : Pattern) (within : c.Within text) :
    FailsWith
      (Violation.InToken text (∀ name, atom.groupName? = some name → Identifier name.toList))
      (quantify atom) c := by
  refine failsWith_index (failsWith_rest ?_)
  cases next : c.rest with
  | nil => exact failsWith_pure
  | cons first after =>
      simp only [quantifyWith]
      split
      · next begins =>
        have here := within.getElem_of_rest next
        have mark := mem_marks_of_startsQuantifier begins
        split
        · exact failsWith_token rfl ⟨first, mark, here⟩ trivial
        · split
          · next name found =>
            exact failsWith_fail ⟨rfl, ⟨first, mark, here⟩, fun identifiers =>
              identifiers name found⟩
          · refine failsWith_passing (s := [first]) next fun d passed => ?_
            rw [← passed.rest_eq next] at begins
            refine failsWith_bind (reports_boundsAfter within passed begins) fun _ d' _ => ?_
            exact failsWith_map reports_greed
      · exact failsWith_pure

end Quantifiers

section Groups

private theorem reports_namedOpening {captures : Captures} (within : c.Within text)
    (opened : c.Passes ['(', '?', '<'] c') :
    FailsWith (Violation.InToken text named) (namedOpening captures c.index) c' := by
  refine failsWith_index (failsWith_taking fun name d passed _ stops => failsWith_eating ?_ ?_)
  · intro d' _
    split
    · next identifier =>
      split
      · refine failsWith_token rfl (within.getElem_of_rest opened.1) ?_
        change Identifier (String.ofList name).toList
        rw [String.toList_ofList]
        exact isIdentifier_iff.mp identifier
      · exact failsWith_pure
    · exact failsWith_token rfl (within.standsBefore opened) trivial
  · -- The name stops at a `>` or at the end, and here it has not stopped at a `>`.
    intro unclosed
    have done : d.rest = [] := by
      cases next : d.rest with
      | nil => rfl
      | cons x after =>
          have stop : x = '>' := by simpa using stops x (by rw [next]; rfl)
          rw [next, stop] at unclosed
          exact absurd rfl unclosed
    exact failsWith_index
      (failsWith_token rfl (((within.passes opened).passes passed).index_eq_length done) trivial)

theorem reports_opening {captures : Captures} (within : c.Within text)
    (parenthesis : c.Passes ['('] c') :
    FailsWith (Violation.InToken text True) (opening captures c.index) c' := by
  have here := within.getElem_of_rest parenthesis.1
  refine failsWith_rest ?_
  unfold openingOf
  split
  · exact failsWith_pass_pure
  · exact failsWith_pass_pure
  · exact failsWith_pass_pure
  · next after _ _ next =>
    refine failsWith_passing (s := ['?', '<']) next fun d passed => ?_
    exact reports_namedOpening within (parenthesis.append passed)
  · exact failsWith_pass_pure
  · exact failsWith_pass_pure
  · exact failsWith_pass_pure
  · next next =>
    split
    · refine failsWith_token rfl ⟨?_, ?_⟩ trivial
      · have behind := within.standsBefore parenthesis
        rwa [parenthesis.index_eq] at behind
      · have mark := (within.passes parenthesis).getElem_of_rest next
        rwa [parenthesis.index_eq] at mark
    · exact failsWith_token rfl here trivial
  · exact failsWith_token rfl here trivial
  · exact failsWith_pure

end Groups

private theorem reports_atomFrom {captures : Captures} {first : Char} {after : List Char}
    (within : c.Within text) (next : c.rest = first :: after) :
    FailsWith (Violation.InToken text named) (atomFrom captures c.index first after) c := by
  unfold atomFrom
  split
  · exact failsWith_pass_pure
  · exact failsWith_pass_pure
  · exact failsWith_pass_pure
  · exact failsWith_passing (s := ['[']) next fun d passed =>
      reports_charClass (within.passes passed)
  · exact failsWith_passing (s := ['\\']) next fun d passed => reports_escape within passed
  · split
    · exact failsWith_token rfl (within.getElem_of_rest next) trivial
    · exact failsWith_pass_pure

theorem reports_atom {captures : Captures} (within : c.Within text) (some_left : c.rest ≠ []) :
    FailsWith (Violation.InToken text True) (atom captures c.index c.rest) c := by
  obtain ⟨first, after, next⟩ := List.exists_cons_of_ne_nil some_left
  rw [next]
  exact reports_atomFrom within next

end Reading

end PatternCompiler
