import PatternCompiler.Proofs.Blame
import PatternCompiler.Proofs.Classes
import PatternCompiler.Proofs.Openings
import PatternCompiler.Proofs.Settling

/-!
Errors are eager. Every reader settles: what it answers within a text it answers in every longer
text, unless it has come to the end. Hence a reading goes through the same steps in both texts until
one of them ends the shorter text, and no eager fault is found from there on.
-/

set_option autoImplicit false
set_option relaxedAutoImplicit false

namespace PatternCompiler

namespace Reading

open Scan Grammar

/-- A text that does not go on with what stands before it: it begins neither with a digit nor with
a quantifier. -/
def Breaks (more : List Char) : Prop :=
  ∀ x, more.head? = some x → x.isDigit = false ∧ x ∉ ['*', '+', '?', '{']

/-- The places from where a longer text may be read in another way: the end of the text and a brace
there, unless the text that follows breaks off. -/
def spentBefore (more : List Char) (d : Cursor) : Prop :=
  (d.rest = [] ∨ d.rest = ['{']) ∧ ¬ Breaks more

variable {more : List Char} {c : Cursor} {start : Nat} {captures : Captures}

private theorem spentBefore_end {x : Char} (last : c.rest = []) (head : more.head? = some x)
    (joins : x.isDigit = true ∨ x ∈ ['*', '+', '?', '{']) : spentBefore more c := by
  refine ⟨.inl last, fun breaks => ?_⟩
  obtain ⟨noDigit, noMark⟩ := breaks x head
  rcases joins with digit | mark
  · simp [noDigit] at digit
  · exact noMark mark

section Escapes

private theorem settles_codePoint {digits : List Char} :
    Settles nowhere more (codePoint digits start) c := by
  unfold codePoint
  split
  · exact settles_pure
  · exact settles_fail

private theorem settles_bracedCodePoint {fault : Fault} (mended : fault.isEager = false) :
    Settles nowhere more (bracedCodePoint fault start) c :=
  settles_closing settles_takeWhile (fun _ _ => settles_codePoint) fun _ _ => mended

private theorem pends_fixedCodePoint {count : Nat} {fault : Fault} (mended : fault.isEager = false)
    (short : ((c.rest.take count).takeWhile isHexDigit).length ≠ count) :
    Pends nowhere (fixedCodePoint count fault start) c := by
  unfold Pends fixedCodePoint
  rw [bind_of_ok (rest_ok.mpr ⟨rfl, rfl⟩)]
  simp only [if_neg short]
  exact mended

private theorem settles_fixedCodePoint {count : Nat} {fault : Fault}
    (mended : fault.isEager = false) :
    Settles nowhere more (fixedCodePoint count fault start) c := by
  by_cases complete : ((c.rest.take count).takeWhile isHexDigit).length = count
  · have begins := List.takeWhile_prefix isHexDigit (l := c.rest.take count)
    have enough : count ≤ c.rest.length := by
      have length := begins.length_le
      rw [List.length_take] at length
      omega
    obtain ⟨after, text⟩ := begins.trans (List.take_prefix count c.rest)
    refine settles_rest ?_
    simp only [List.take_append_of_le_length enough, if_pos complete]
    exact settles_passing text.symm fun d _ => settles_codePoint
  · exact .inr (pends_fixedCodePoint mended complete)

private theorem settles_numericEscape {letter : Char} {scan : Scan Char}
    (found : numericEscape? start letter = some scan) : Settles nowhere more scan c := by
  have short {count : Nat} (last : c.rest = []) :
      ((c.rest.take (count + 1)).takeWhile isHexDigit).length ≠ count + 1 := by
    simp [last]
  unfold numericEscape? at found
  split at found
  · cases found
    exact settles_eating (fun _ _ => settles_bracedCodePoint rfl)
      (fun _ => settles_fixedCodePoint rfl) fun last _ => pends_fixedCodePoint rfl (short last)
  · cases found
    exact settles_eating (fun _ _ => settles_bracedCodePoint rfl)
      (fun _ => settles_fixedCodePoint rfl) fun last _ => pends_fixedCodePoint rfl (short last)
  · cases found
    exact settles_fixedCodePoint rfl
  · cases found

private theorem settles_propertyName : Settles nowhere more propertyName c := by
  refine settles_index (settles_eating (fun d _ => ?_) (fun _ => settles_fail) fun _ _ => rfl)
  exact settles_closing settles_takeWhile (fun _ _ => settles_pure) fun _ _ => rfl

private theorem settles_shorthandProperty {kind : Shorthand} :
    Settles nowhere more (shorthandProperty kind) c := by
  unfold shorthandProperty
  split
  · exact settles_map settles_propertyName
  · exact settles_pure

private theorem settles_numberedReference :
    Settles (spentBefore more) more (numberedReference captures start) c := by
  refine settles_taking (fun digits d _ => ?_) fun digits d _ last digit => ?_
  · split
    · split
      · exact settles_pure
      · exact settles_fail
    · exact settles_fail
  · obtain ⟨x, head, isDigit⟩ := digit
    have spent : spentBefore more d := spentBefore_end last head (.inl isDigit)
    split
    · split
      · exact spent
      · exact rfl
    · exact rfl

private theorem settles_namedReference :
    Settles nowhere more (namedReference captures start) c := by
  refine settles_eating (fun d _ => ?_) (fun _ => settles_fail) fun _ _ => rfl
  refine settles_closing (settles_map settles_takeWhile) (fun name d' => ?_) fun _ _ => rfl
  split
  · exact settles_pure
  · exact settles_fail

private theorem settles_charEscape {letter : Char} :
    Settles nowhere more (charEscape letter start) c := by
  unfold charEscape
  split
  · exact settles_pure
  · split
    · next found => exact settles_numericEscape found
    · split
      · exact settles_pure
      · split
        · exact settles_fail
        · exact settles_pure

private theorem settles_letterEscape {letter : Char} :
    Settles nowhere more (letterEscape captures letter start) c := by
  unfold letterEscape
  split
  · exact settles_map settles_shorthandProperty
  · split
    · exact settles_pure
    · split
      · exact settles_namedReference
      · exact settles_map settles_charEscape

private theorem settles_escape : Settles (spentBefore more) more (escape captures start) c := by
  refine settles_rest ?_
  cases text : c.rest with
  | nil => exact .inr rfl
  | cons letter after =>
      change Settles _ _ (ite _ _ _) c
      split
      · exact settles_numberedReference
      · exact settles_passing (s := [letter]) text fun d _ => settles_letterEscape.firm

end Escapes

section Classes

private theorem settles_letterItem {letter : Char} :
    Settles nowhere more (letterItem letter start) c := by
  unfold letterItem
  split
  · exact settles_map settles_shorthandProperty
  · split
    · next found => exact settles_map (settles_numericEscape found)
    · split
      · exact settles_pure
      · split
        · exact settles_pure
        · split
          · exact settles_pure
          · exact settles_pure

private theorem settles_classItem : Settles nowhere more classItem c := by
  refine settles_index (settles_rest ?_)
  cases text : c.rest with
  | nil => exact .inr rfl
  | cons x after =>
      by_cases escaped : x = '\\'
      · subst escaped
        cases after with
        | nil => exact .inr rfl
        | cons letter after =>
            exact settles_passing (s := ['\\', letter]) text fun d _ => settles_letterItem
      · rw [List.cons_append, itemOf_raw escaped, itemOf_raw escaped]
        exact settles_passing (s := [x]) text fun d _ => settles_pure

def ClassDraft.extend (d : ClassDraft) (more : List Char) : ClassDraft :=
  { d with cursor := d.cursor.extend more }

def ClassStepSettles (more : List Char) (taken later : Step ClassDraft ClassAnswer) : Prop :=
  match taken with
  | .next d => later = .next (d.extend more)
  | .halt answer =>
      (∃ answer', later = .halt answer' ∧ Repeats more answer answer') ∨ Unsettled nowhere answer

private theorem classStepSettles_item {k : ClassItem → Cursor → Step ClassDraft ClassAnswer}
    (h : ∀ item d, ClassStepSettles more (k item d) (k item (d.extend more))) :
    ClassStepSettles more
      (match classItem c with
        | .ok item d => k item d
        | .error v d => .halt (.error v d))
      (match classItem (c.extend more) with
        | .ok item d => k item d
        | .error v d => .halt (.error v d)) := by
  have settles : Settles nowhere more classItem c := settles_classItem
  rcases SettlesAs.answers settles with ⟨item, d, taken, again | none⟩ | ⟨v, d, failed, again⟩
  · rw [taken, again]
    exact h item d
  · exact none.elim
  · rw [failed]
    cases eager : v.fault.isEager with
    | false => exact .inr eager
    | true =>
        obtain ⟨d', later⟩ := again eager
        rw [later]
        exact .inl ⟨_, rfl, d', rfl⟩

private theorem classStepSettles_joinRange {before : List ClassItem} {first : Char}
    {item : ClassItem} :
    ClassStepSettles more
      (match joinRange before first start item with
        | .ok items => .next ⟨c, items⟩
        | .error v => .halt (.error v c))
      (match joinRange before first start item with
        | .ok items => .next ⟨c.extend more, items⟩
        | .error v => .halt (.error v (c.extend more))) := by
  cases joinRange before first start item with
  | ok items => rfl
  | error v => exact .inl ⟨_, rfl, _, rfl⟩

section

variable {d : ClassDraft} {first : Char} {before : List ClassItem} {after : List Char}

theorem classItemStep_item
    (plain : ∀ first before next, d.items = .char first :: before → d.cursor.rest ≠ '-' :: next) :
    classItemStep d =
      match classItem d.cursor with
      | .ok item c => .next ⟨c, item :: d.items⟩
      | .error v c => .halt (.error v c) := by
  unfold classItemStep
  split
  · next first before next literal dash => exact absurd dash (plain first before next literal)
  · rfl

private theorem classItemStep_closing (literal : d.items = .char first :: before)
    (dash : d.cursor.rest = '-' :: ']' :: after) :
    classItemStep d = .next ⟨d.cursor.advance 1, .char '-' :: .char first :: before⟩ := by
  simp [classItemStep, literal, dash]

theorem classItemStep_range (literal : d.items = .char first :: before)
    (dash : d.cursor.rest = '-' :: after) (inside : after.head? ≠ some ']') :
    classItemStep d =
      match classItem (d.cursor.advance 1) with
      | .ok item c =>
          match joinRange before first d.cursor.index item with
          | .ok items => .next ⟨c, items⟩
          | .error v => .halt (.error v c)
      | .error v c => .halt (.error v c) := by
  simp only [classItemStep, literal, dash, if_neg inside]
  cases classItem (d.cursor.advance 1) with
  | ok item c => rfl
  | error v c => rfl

private theorem classItem_end (last : c.rest = []) :
    classItem c = .error ⟨.unterminatedClass, c.index⟩ c := by
  change itemOf c.index c.rest c = _
  rw [last]
  rfl

theorem ClassDraft.rest_extend {x : Char} (text : d.cursor.rest = x :: after) :
    (d.extend more).cursor.rest = x :: (after ++ more) := by
  change d.cursor.rest ++ more = _
  rw [text, List.cons_append]

private theorem classStepSettles_dash (literal : d.items = .char first :: before)
    (dash : d.cursor.rest = '-' :: after) :
    ClassStepSettles more (classItemStep d) (classItemStep (d.extend more)) := by
  have longer : (d.extend more).cursor.rest = '-' :: (after ++ more) :=
    ClassDraft.rest_extend dash
  have advanced : (d.extend more).cursor.advance 1 = (d.cursor.advance 1).extend more :=
    Cursor.extend_advance (by simp [dash])
  cases after with
  | nil =>
      rw [classItemStep_range literal dash (by simp), classItem_end (by simp [dash])]
      exact .inr rfl
  | cons y after =>
      by_cases closing : y = ']'
      · subst closing
        rw [classItemStep_closing literal dash,
          classItemStep_closing (d := d.extend more) literal longer, advanced]
        rfl
      · have inside (tail : List Char) : (y :: tail).head? ≠ some ']' := by simpa using closing
        rw [classItemStep_range literal dash (inside _),
          classItemStep_range (d := d.extend more) literal longer (inside _), advanced]
        exact classStepSettles_item fun item e => classStepSettles_joinRange

end

private theorem classStepSettles_itemStep (more : List Char) (d : ClassDraft)
    (some_left : d.cursor.rest ≠ []) :
    ClassStepSettles more (classItemStep d) (classItemStep (d.extend more)) := by
  obtain ⟨x, after, text⟩ := List.exists_cons_of_ne_nil some_left
  by_cases dash : x = '-' ∧ ∃ first before, d.items = .char first :: before
  · obtain ⟨rfl, first, before, literal⟩ := dash
    exact classStepSettles_dash literal text
  · have plain : ∀ first before next, d.items = .char first :: before →
        ∀ tail, x :: tail ≠ '-' :: next := by
      intro first before next literal tail same
      exact dash ⟨(List.cons.inj same).1, first, before, literal⟩
    rw [classItemStep_item fun first before next literal =>
        text ▸ plain first before next literal _,
      classItemStep_item fun first before next literal =>
        ClassDraft.rest_extend text ▸ plain first before next literal _]
    exact classStepSettles_item fun item e => rfl

theorem classStep_item {first : Nat} {d : ClassDraft} (some_left : d.cursor.rest ≠ [])
    (inside : d.cursor.rest.head? ≠ some ']') : classStep first d = classItemStep d := by
  unfold classStep
  split
  · next done => exact absurd done some_left
  · next closing => simp [closing] at inside
  · rfl

private theorem classStepSettles_step (more : List Char) (first : Nat) (d : ClassDraft) :
    ClassStepSettles more (classStep first d) (classStep first (d.extend more)) := by
  cases text : d.cursor.rest with
  | nil =>
      unfold classStep
      simp only [text]
      exact .inr rfl
  | cons x after =>
      have longer : (d.extend more).cursor.rest = x :: (after ++ more) :=
        ClassDraft.rest_extend text
      have reads := classStepSettles_itemStep more d (by simp [text])
      by_cases closing : x = ']'
      · subst closing
        unfold classStep
        simp only [text, longer]
        change ClassStepSettles more _ (ite (first < d.cursor.index) _ _)
        split
        · refine .inl ⟨_, rfl, ?_⟩
          change _ = EStateM.Result.ok _ _
          rw [← Cursor.extend_advance (by simp [text])]
          rfl
        · exact reads
      · rw [classStep_item (by simp [text]) (by simpa [text] using closing),
          classStep_item (by simp [longer]) (by simpa [longer] using closing)]
        exact reads

private theorem settles_classItems : Settles nowhere more classItems c := by
  refine Step.run_settles (fun d => ClassDraft.extend d more) (fun _ => False) (Repeats more)
    (Unsettled nowhere) ?_ ?_ ?_ ?_ ⟨c, []⟩
  · intro d d' taken
    have settles := classStepSettles_step more c.index d
    rw [taken] at settles
    exact .inl settles
  · intro d answer taken
    have settles := classStepSettles_step more c.index d
    rw [taken] at settles
    rcases settles with ⟨answer', later, again⟩ | unsettled
    · rw [Step.run_halt later]
      exact .inl again
    · exact .inr unsettled
  · exact fun _ _ none _ => none
  · exact fun _ _ none _ => none.elim

private theorem settles_classBody : Settles nowhere more classBody c := by
  refine settles_bind settles_eat (fun negated d _ => settles_map settles_classItems) ?_
  rintro negated d _ ⟨rfl, last, _⟩
  have halted :
      classStep d.index ⟨d, []⟩ = .halt (.error ⟨.unterminatedClass, d.index⟩ d) := by
    simp [classStep, last]
  have pends : Pends nowhere classItems d := by
    unfold Pends classItems
    rw [Step.run_halt halted]
    rfl
  exact pends_bind pends fun _ _ _ none => none.elim

private theorem settles_charClass : Settles nowhere more charClass c :=
  settles_inClass settles_classBody

end Classes

section Quantifiers

private theorem count?_eq_none_iff {digits : List Char} :
    count? digits = none ↔ UInt32.size ≤ Nat.ofDigitChars 10 digits 0 := by
  simp [count?]

private theorem count?_append {digits others : List Char} (tooLarge : count? digits = none) :
    count? (digits ++ others) = none := by
  rw [count?_eq_none_iff] at tooLarge ⊢
  rw [Nat.ofDigitChars_append, Nat.ofDigitChars_eq_ofDigitChars_zero]
  have grows := Nat.le_mul_of_pos_left (Nat.ofDigitChars 10 digits 0)
    (Nat.pow_pos (n := others.length) (show 0 < 10 by decide))
  omega

private theorem bound_tooLarge (tooLarge : count? (c.takeWhile Char.isDigit).1 = none) :
    ∃ d, bound c = .error ⟨.boundTooLarge, c.index⟩ d := by
  have taken : takeWhile Char.isDigit c =
      .ok (c.takeWhile Char.isDigit).1 (c.takeWhile Char.isDigit).2 := rfl
  refine ⟨(c.takeWhile Char.isDigit).2, ?_⟩
  unfold bound
  rw [bind_of_ok (index_ok.mpr ⟨rfl, rfl⟩), bind_of_ok taken, tooLarge]
  rfl

private theorem settles_bound : Settles exhausted more bound c := by
  cases value : count? (c.takeWhile Char.isDigit).1 with
  | some n =>
      refine settles_index (settles_taking (fun digits d _ => ?_) fun digits d taken last _ => ?_)
      · split
        · exact settles_pure
        · exact settles_fail
      · cases taken
        rw [value]
        exact last
  | none =>
      -- This fault is eager, so it has to be found again: more digits make the bound larger still.
      have longer : count? ((c.extend more).takeWhile Char.isDigit).1 = none := by
        change count? ((c.rest ++ more).takeWhile Char.isDigit) = none
        rw [List.takeWhile_append]
        split
        · next whole =>
          rw [← (List.takeWhile_prefix Char.isDigit).eq_of_length whole]
          exact count?_append value
        · exact value
      obtain ⟨d, failed⟩ := bound_tooLarge value
      refine .inl ?_
      rw [failed]
      exact bound_tooLarge longer

private theorem settles_upperBound : Settles exhausted more upperBound c := by
  refine settles_rest ?_
  cases text : c.rest with
  | nil => exact .inr text
  | cons x after =>
      change Settles _ _ (ite _ _ _) c
      split
      · exact settles_map settles_bound
      · exact settles_pure

private theorem settles_bracedBounds : Settles nowhere more (bracedBounds start) c := by
  refine settles_bind settles_bound (fun least d _ => ?_) fun least d _ last => ?_
  · refine settles_eating (fun d' _ => ?_) (fun _ => ?_) fun last _ => ?_
    · refine settles_closing settles_upperBound (fun most d'' => ?_) fun _ _ => rfl
      split
      · exact settles_pure
      · split
        · exact settles_pure
        · exact settles_fail
    · exact settles_eating (fun _ _ => settles_pure) (fun _ => .inr rfl) fun _ _ => rfl
    · exact pends_eating last rfl
  · exact pends_eating last (pends_eating last rfl)

private theorem settles_boundsAfter {first : Char} :
    Settles nowhere more (boundsAfter start first) c := by
  unfold boundsAfter
  split
  · exact settles_pure
  · exact settles_pure
  · exact settles_pure
  · exact settles_bracedBounds

private theorem settles_greed : Settles (spentBefore more) more greed c := by
  refine settles_eating (fun _ _ => settles_pure) (fun _ => ?_) fun last head => ?_
  · exact settles_eating (fun _ _ => settles_pure) (fun _ => settles_pure) fun last head =>
      spentBefore_end last head (.inr (by simp))
  · exact pends_eating last (spentBefore_end last head (.inr (by simp)))

private theorem startsQuantifier_of_spentBefore (spent : spentBefore more c) :
    startsQuantifier c.rest = false := by
  rcases spent.1 with last | brace
  · rw [last]
    rfl
  · rw [brace]
    rfl

private theorem starts_unbraced {first : Char} (other : first ≠ '{') (after after' : List Char) :
    startsQuantifier (first :: after) = startsQuantifier (first :: after') ∧
      startsLooseBrace (first :: after) = startsLooseBrace (first :: after') := by
  refine ⟨Bool.eq_iff_iff.mpr ?_, ?_⟩
  · simp [startsQuantifier_iff, other]
  · simp [startsLooseBrace, other]

theorem starts_append (firm : ¬ spentBefore more c) :
    startsQuantifier (c.rest ++ more) = startsQuantifier c.rest ∧
      startsLooseBrace (c.rest ++ more) = startsLooseBrace c.rest := by
  have breaks (last : c.rest = [] ∨ c.rest = ['{']) : Breaks more := by
    by_contra joins
    exact firm ⟨last, joins⟩
  cases text : c.rest with
  | nil =>
      cases more with
      | nil => exact ⟨rfl, rfl⟩
      | cons x others =>
          obtain ⟨_, noMark⟩ := breaks (.inl text) x rfl
          simp only [List.mem_cons, not_or] at noMark
          refine ⟨Bool.eq_false_iff.mpr fun begins => ?_, ?_⟩
          · simp_all [startsQuantifier_iff]
          · simp [startsLooseBrace, noMark]
  | cons first after =>
      by_cases brace : first = '{'
      · subst brace
        cases after with
        | nil =>
            cases more with
            | nil => exact ⟨rfl, rfl⟩
            | cons x others =>
                obtain ⟨noDigit, _⟩ := breaks (.inr text) x rfl
                simp [startsQuantifier, startsLooseBrace, noDigit]
        | cons x after => exact ⟨rfl, rfl⟩
      · exact starts_unbraced brace _ _

private theorem quantify_unquantified {atom : Pattern}
    (none_left : startsQuantifier c.rest = false) :
    quantify atom c = .ok atom c := by
  change quantifyWith atom c.index c.rest c = _
  cases text : c.rest with
  | nil => rfl
  | cons first after =>
      rw [text] at none_left
      simp only [quantifyWith, none_left]
      rfl

private theorem settles_quantify {atom : Pattern} :
    Settles (spentBefore more) more (quantify atom) c := by
  by_cases spent : spentBefore more c
  · refine .inr ?_
    unfold Pends
    rw [quantify_unquantified (startsQuantifier_of_spentBefore spent)]
    exact spent
  · have same := (starts_append spent).1
    cases begins : startsQuantifier c.rest with
    | false =>
        refine .inl ?_
        rw [quantify_unquantified begins]
        exact quantify_unquantified (by rw [Cursor.rest_extend, same, begins])
    | true =>
        refine settles_index (settles_rest ?_)
        cases text : c.rest with
        | nil => simp [text, startsQuantifier] at begins
        | cons first after =>
            rw [text] at begins same
            rw [List.cons_append] at same ⊢
            simp only [quantifyWith, same, begins, if_true]
            split
            · exact settles_fail
            · split
              · exact settles_fail
              · exact settles_passing (s := [first]) text fun d _ =>
                  settles_bind_firm settles_boundsAfter fun _ _ _ => settles_map settles_greed

end Quantifiers

section Groups

private theorem settles_namedOpening : Settles nowhere more (namedOpening captures start) c := by
  refine settles_index (settles_closing settles_takeWhile (fun name d => ?_) fun _ _ => rfl)
  split
  · split
    · exact settles_fail
    · exact settles_pure
  · exact settles_fail

private theorem pends_namedOpening (last : c.rest = []) :
    Pends (spentBefore more) (namedOpening captures start) c := by
  have started : Pends exhausted index c := last
  refine pends_bind started fun nameStart d _ last => ?_
  have named : Pends exhausted (takeWhile (· != '>')) d := by
    change (d.advance _).rest = []
    simp [last]
  exact pends_bind named fun name d' _ last => pends_eating last rfl

private theorem settles_fixedOpening {s after : List Char} {o : Opening}
    (text : c.rest = s ++ after) :
    Settles (spentBefore more) more (do pass s.length; pure o : Scan Opening) c :=
  settles_passing text fun _ _ => settles_pure

private theorem settles_opening : Settles (spentBefore more) more (opening captures start) c := by
  refine settles_rest ?_
  generalize text : c.rest = rest
  fun_cases openingOf captures start rest with
  | case1 after => exact settles_fixedOpening (s := ['?', ':']) text
  | case2 after => exact settles_fixedOpening (s := ['?', '<', '=']) text
  | case3 after => exact settles_fixedOpening (s := ['?', '<', '!']) text
  | case4 after behind notBehind =>
      cases after with
      | nil =>
          have passed : Pends exhausted (pass 2) c := by
            change (c.advance _).rest = []
            simp [text]
          exact .inr (pends_bind passed fun _ _ _ last => pends_namedOpening last)
      | cons x after =>
          rw [List.cons_append, List.cons_append, List.cons_append, openingOf.eq_4]
          · exact settles_passing (s := ['?', '<']) text fun _ _ => settles_namedOpening.firm
          · exact fun t same => behind after (by rw [(List.cons.inj same).1])
          · exact fun t same => notBehind after (by rw [(List.cons.inj same).1])
  | case5 after => exact settles_fixedOpening (s := ['?', '>']) text
  | case6 after => exact settles_fixedOpening (s := ['?', '=']) text
  | case7 after => exact settles_fixedOpening (s := ['?', '!']) text
  | case8 x after plain behind notBehind named atomic ahead notAhead modifier =>
      rw [List.cons_append, List.cons_append,
        openingOf.eq_8 _ _ _ _ plain (fun _ same _ => named same) (fun _ same _ => named same) named
          atomic ahead notAhead,
        if_pos modifier]
      exact settles_fail
  | case9 => exact .inr rfl
  | case10 => exact .inr rfl
  | case11 _ _ _ _ _ _ _ _ marked alone =>
      by_cases spent : spentBefore more c
      · exact .inr spent
      · have unmarked : (rest ++ more).head? ≠ some '?' := by
          intro head
          rcases rest with _ | ⟨y, _ | ⟨x, after⟩⟩
          · exact spent (spentBefore_end text head (.inr (by simp)))
          · exact alone (by simpa using head)
          · exact marked x after (by simpa using head)
        rw [openingOf_capture unmarked]
        exact settles_pure

end Groups

private theorem atomFrom_congr {first : Char} {after after' : List Char}
    (same : startsQuantifier (first :: after) = startsQuantifier (first :: after')) :
    atomFrom captures start first after = atomFrom captures start first after' := by
  unfold atomFrom
  rw [same]

private theorem settles_atomFrom {first : Char} {after : List Char}
    (text : c.rest = first :: after) :
    SettlesAs (spentBefore more) more (atomFrom captures start first after)
      (atomFrom captures start first (after ++ more)) c := by
  by_cases spent : spentBefore more c
  · obtain ⟨rfl, rfl⟩ : first = '{' ∧ after = [] := by
      simpa [text] using spent.1
    refine .inr (?_ : spentBefore more (c.advance (c.rest.take 1).length))
    exact ⟨.inl (by simp [text]), spent.2⟩
  · have same := (starts_append spent).1
    rw [text, List.cons_append] at same
    rw [atomFrom_congr same]
    change Settles _ _ _ _
    unfold atomFrom
    split
    · exact settles_passing (s := ['.']) text fun _ _ => settles_pure
    · exact settles_passing (s := ['^']) text fun _ _ => settles_pure
    · exact settles_passing (s := ['$']) text fun _ _ => settles_pure
    · exact settles_passing (s := ['[']) text fun _ _ => settles_charClass.firm
    · exact settles_passing (s := ['\\']) text fun _ _ => settles_escape
    · split
      · exact settles_fail
      · exact settles_passing (s := [first]) text fun _ _ => settles_pure

section Steps

def extend (r : Reading) (more : List Char) : Reading :=
  { r with cursor := r.cursor.extend more }

/-- A step is taken in the longer text too, unless it has come to a spent place, or to a fault that
is not eager, or to the end. -/
def StepSettles (more : List Char) (taken later : Step Reading Outcome) : Prop :=
  match taken with
  | .next r => later = .next (r.extend more) ∨ spentBefore more r.cursor
  | .halt outcome => ∀ v, outcome.result = .error v → v.fault.isEager = true →
      ∃ outcome', later = .halt outcome' ∧ outcome'.result = .error v

variable {r : Reading} {later : Step Reading Outcome}

private theorem stepSettles_next : StepSettles more (.next r) (.next (r.extend more)) :=
  .inl rfl

private theorem stepSettles_stop {v : Violation} {d : Cursor}
    (again : v.fault.isEager = true → ∃ r' d', later = stop r' v d') :
    StepSettles more (r.stop v d) later := by
  intro v' same eager
  cases same
  obtain ⟨r', d', rfl⟩ := again eager
  exact ⟨_, rfl, rfl⟩

private theorem stepSettles_mended {v : Violation} {d : Cursor} (mended : v.fault.isEager = false) :
    StepSettles more (r.stop v d) later :=
  stepSettles_stop fun eager => absurd (eager.symm.trans mended) (by decide)

private theorem stepSettles_failed {α : Type} {y : Scan α} {v : Violation} {d : Cursor}
    (again : v.fault.isEager = true → ∃ d', y (c.extend more) = .error v d')
    (stops : ∀ d', y (c.extend more) = .error v d' → later = (r.extend more).stop v d') :
    StepSettles more (r.stop v d) later := by
  refine stepSettles_stop fun eager => ?_
  obtain ⟨d', failed⟩ := again eager
  exact ⟨_, d', stops d' failed⟩

private theorem addTerm_spent {p : Pattern} (spent : spentBefore more r.cursor) :
    ∃ r', r.addTerm p = .next r' ∧ r'.cursor = r.cursor := by
  unfold addTerm
  rw [quantify_unquantified (startsQuantifier_of_spentBefore spent)]
  exact ⟨_, rfl, rfl⟩

private theorem stepSettles_spent {p : Pattern} (spent : spentBefore more r.cursor) :
    StepSettles more (r.addTerm p) later := by
  obtain ⟨r', taken, place⟩ := addTerm_spent (p := p) spent
  rw [taken]
  exact .inr (place ▸ spent)

private theorem stepSettles_addTerm {p : Pattern} :
    StepSettles more (r.addTerm p) ((r.extend more).addTerm p) := by
  -- Where the cursor is spent, more text may also decide whether a brace there is loose.
  by_cases spent : spentBefore more r.cursor
  · exact stepSettles_spent spent
  · have loose : startsLooseBrace (r.extend more).cursor.rest = startsLooseBrace r.cursor.rest :=
      (starts_append spent).2
    unfold addTerm
    have settles : Settles (spentBefore more) more (quantify p) r.cursor := settles_quantify
    rcases SettlesAs.answers settles with
      ⟨term, d, taken, again | spent⟩ | ⟨v, d, failed, again⟩
    · have later : quantify p (r.extend more).cursor = .ok term (d.extend more) := again
      rw [taken, later, loose]
      exact stepSettles_next
    · rw [taken]
      exact .inr spent
    · rw [failed]
      refine stepSettles_failed again fun d' later => ?_
      rw [show quantify p (r.extend more).cursor = .error v d' from later]

private theorem stepSettles_readTerm {first : Char} {after : List Char}
    (text : r.cursor.rest = first :: after) :
    StepSettles more r.readTerm (r.extend more).readTerm := by
  have longer : (r.extend more).cursor.rest = first :: (after ++ more) := by
    change r.cursor.rest ++ more = _
    rw [text, List.cons_append]
  unfold readTerm
  rw [text, longer]
  have settles : SettlesAs (spentBefore more) more (atomFrom r.captures r.cursor.index first after)
      (atomFrom r.captures r.cursor.index first (after ++ more)) r.cursor := settles_atomFrom text
  simp only [atom]
  rcases settles.answers with ⟨p, d, taken, again | spent⟩ | ⟨v, d, failed, again⟩
  · have later : atomFrom (r.extend more).captures (r.extend more).cursor.index first
        (after ++ more) (r.extend more).cursor = .ok p (d.extend more) := again
    rw [taken, later]
    exact stepSettles_addTerm (r := { r with cursor := d })
  · rw [taken]
    exact stepSettles_spent spent
  · rw [failed]
    refine stepSettles_failed again fun d' later => ?_
    rw [show atomFrom (r.extend more).captures (r.extend more).cursor.index first (after ++ more)
      (r.extend more).cursor = .error v d' from later]

private theorem advance_extend {x : Char} {after : List Char} (text : r.cursor.rest = x :: after) :
    (r.extend more).cursor.advance 1 = (r.cursor.advance 1).extend more :=
  Cursor.extend_advance (by simp [text])

private theorem stepSettles_readBar {after : List Char} (text : r.cursor.rest = '|' :: after) :
    StepSettles more r.readBar (r.extend more).readBar := by
  unfold readBar
  rw [advance_extend text]
  by_cases empty : r.draft.isEmpty = true
  · rw [if_pos empty, if_pos (show (r.extend more).draft.isEmpty = true from empty)]
    exact stepSettles_stop fun _ => ⟨_, _, rfl⟩
  · rw [if_neg empty, if_neg (show ¬ (r.extend more).draft.isEmpty = true from empty)]
    cases right : (r.cursor.advance 1).skip.rest with
    | nil =>
        simp only [right]
        exact stepSettles_mended rfl
    | cons x others =>
        rw [Cursor.skip_extend (by simp [right])]
        simp only [Cursor.rest_extend, right, List.cons_append]
        split
        · next done => cases done
        · exact stepSettles_mended rfl
        · next bar =>
          cases bar
          exact stepSettles_stop fun _ => ⟨_, _, rfl⟩
        · next _ notClosing notBar =>
          split
          · next done => cases done
          · next closing =>
            cases closing
            exact absurd rfl (notClosing _)
          · next bar =>
            cases bar
            exact absurd rfl (notBar _)
          · exact stepSettles_next

private theorem stepSettles_readOpening {after : List Char} (text : r.cursor.rest = '(' :: after) :
    StepSettles more r.readOpening (r.extend more).readOpening := by
  unfold readOpening
  rw [advance_extend text]
  have settles : Settles (spentBefore more) more (opening r.captures r.cursor.index)
      (r.cursor.advance 1) := settles_opening
  rcases SettlesAs.answers settles with ⟨o, d, taken, again | spent⟩ | ⟨v, d, failed, again⟩
  · have later : opening (r.extend more).captures (r.extend more).cursor.index
        ((r.cursor.advance 1).extend more) = .ok o (d.extend more) := again
    rw [taken, later]
    exact stepSettles_next
  · rw [taken]
    exact .inr spent
  · rw [failed]
    refine stepSettles_failed again fun d' later => ?_
    rw [show opening (r.extend more).captures (r.extend more).cursor.index
      ((r.cursor.advance 1).extend more) = .error v d' from later]

private theorem stepSettles_readClosing {after : List Char} (text : r.cursor.rest = ')' :: after) :
    StepSettles more r.readClosing (r.extend more).readClosing := by
  unfold readClosing
  rw [advance_extend text, show (r.extend more).frames = r.frames from rfl]
  cases grouped : r.frames with
  | nil =>
      have longer : (r.extend more).cursor.rest = ')' :: (after ++ more) := by
        change r.cursor.rest ++ more = _
        rw [text, List.cons_append]
      have outermost : (r.extend more).frames = [] := grouped
      simp only [finish, grouped, text, outermost, longer]
      exact stepSettles_stop fun _ => ⟨_, _, rfl⟩
  | cons frame frames =>
      exact stepSettles_addTerm
        (r := { r with cursor := r.cursor.advance 1, draft := frame.outer, frames := frames })

private theorem stepSettles_finish (done : r.cursor.rest = []) :
    StepSettles more r.finish later := by
  unfold finish
  rw [done]
  cases r.frames with
  | nil =>
      intro v failed
      cases failed
  | cons frame frames => exact stepSettles_mended rfl

private theorem stepSettles_dispatch (some_left : r.cursor.rest ≠ []) :
    StepSettles more r.dispatch (r.extend more).dispatch := by
  obtain ⟨x, after, text⟩ := List.exists_cons_of_ne_nil some_left
  have longer : (r.extend more).cursor.rest = x :: (after ++ more) := by
    change r.cursor.rest ++ more = _
    rw [text, List.cons_append]
  unfold dispatch
  rw [text, longer]
  split
  · next done => cases done
  · next bar =>
    cases bar
    exact stepSettles_readBar text
  · next closing =>
    cases closing
    exact stepSettles_readClosing text
  · next parenthesis =>
    cases parenthesis
    exact stepSettles_readOpening text
  · next notBar notClosing notOpening =>
    split
    · next done => cases done
    · next bar =>
      cases bar
      exact (notBar _ rfl).elim
    · next closing =>
      cases closing
      exact (notClosing _ rfl).elim
    · next parenthesis =>
      cases parenthesis
      exact (notOpening _ rfl).elim
    · exact stepSettles_readTerm text

private theorem stepSettles_step (more : List Char) (r : Reading) :
    StepSettles more r.step (r.extend more).step := by
  by_cases done : r.cursor.skip.rest = []
  · unfold step dispatch
    rw [show Reading.cursor { r with cursor := r.cursor.skip } = r.cursor.skip from rfl, done]
    exact stepSettles_finish (r := { r with cursor := r.cursor.skip }) done
  · have skipped : (r.cursor.extend more).skip = r.cursor.skip.extend more :=
      Cursor.skip_extend done
    unfold step
    change StepSettles more _ (dispatch { r with cursor := (r.cursor.extend more).skip })
    rw [skipped]
    exact stepSettles_dispatch (r := { r with cursor := r.cursor.skip }) done

end Steps

section Runs

/-- An outcome that a longer text may change: a success before a text that joins on, or a fault that
is not eager. -/
def Mendable (more : List Char) (outcome : Outcome) : Prop :=
  match outcome.result with
  | .ok _ => ¬ Breaks more
  | .error v => v.fault.isEager = false

/-- The outcome in the longer text: the same violation, or what is read on from where the text
ended. -/
def Carries (more : List Char) (outcome later : Outcome) : Prop :=
  match outcome.result with
  | .ok _ => ∃ last : Reading, last.step = .halt outcome ∧ later = (last.extend more).run
  | .error v => later.result = .error v

variable {r r' : Reading} {outcome : Outcome}

private theorem step_of_spent (spent : spentBefore more r.cursor) : r.step = r.dispatch := by
  have solid : r.cursor.skip = r.cursor := by
    rcases spent.1 with last | brace
    · simp [Cursor.skip, Cursor.spacingLength, last]
    · simp [Cursor.skip, Cursor.spacingLength, Cursor.isSpacing, brace]
  unfold step
  rw [solid]

private theorem step_spent (spent : spentBefore more r.cursor) :
    (∃ outcome, r.step = .halt outcome ∧ Mendable more outcome) ∨
      ∃ r', r.step = .next r' ∧ spentBefore more r'.cursor := by
  rw [step_of_spent spent]
  obtain ⟨last | brace, joins⟩ := spent
  · have ends : r.dispatch = r.finish := by
      unfold dispatch
      rw [last]
    rw [ends, finish, last]
    refine .inl ?_
    cases r.frames with
    | nil => exact ⟨_, rfl, joins⟩
    | cons frame frames => exact ⟨_, rfl, rfl⟩
  · have reads : r.dispatch = r.readTerm := by
      unfold dispatch
      rw [brace]
      rfl
    have behind : spentBefore more (r.cursor.advance 1) := ⟨.inl (by simp [brace]), joins⟩
    have literal : atom r.captures r.cursor.index ['{'] r.cursor =
        .ok (.literal (.singleton '{')) (r.cursor.advance 1) := by
      change EStateM.Result.ok _ (r.cursor.advance (r.cursor.rest.take 1).length) = _
      rw [brace]
      rfl
    obtain ⟨r', taken, place⟩ := addTerm_spent (r := { r with cursor := r.cursor.advance 1 })
      (p := .literal (.singleton '{')) behind
    rw [reads, readTerm, brace, literal]
    exact .inr ⟨r', taken, place ▸ behind⟩

/-- A reading in the longer text leads to what the reading in the shorter one has led to. -/
theorem run_extend (more : List Char) (r : Reading) :
    Carries more r.run (r.extend more).run ∨ Mendable more r.run := by
  refine Step.run_settles (fun s => extend s more) (fun s => spentBefore more s.cursor)
    (Carries more) (Mendable more) ?_ ?_ ?_ ?_ r
  · intro s s' taken
    have settles := stepSettles_step more s
    rw [taken] at settles
    exact settles
  · intro s outcome taken
    have settles := stepSettles_step more s
    rw [taken] at settles
    unfold Carries Mendable
    split
    · exact .inl ⟨s, taken, rfl⟩
    · next v failed =>
      cases eager : v.fault.isEager with
      | false => exact .inr rfl
      | true =>
          obtain ⟨outcome', later, same⟩ := settles v failed eager
          rw [Step.run_halt later]
          exact .inl same
  · intro s s' spent taken
    rcases step_spent spent with ⟨_, halted, _⟩ | ⟨s₁, next, stays⟩
    · cases taken.symm.trans halted
    · cases taken.symm.trans next
      exact stays
  · intro s outcome spent taken
    rcases step_spent spent with ⟨_, halted, mends⟩ | ⟨s₁, next, _⟩
    · cases taken.symm.trans halted
      exact mends
    · cases taken.symm.trans next

end Runs

end Reading

namespace Source

/-- The source whose body goes on with `more`. -/
def append (source : Source) (more : String) : Source :=
  { source with body := source.body ++ more }

/-- The body is rejected for a fault at a position. -/
def FailsAt (source : Source) (fault : Fault) (pos : Nat) : Prop :=
  ∃ d, source.parse = .error d ∧ d.message = fault.message ∧ d.pos = pos

variable {source : Source} {fault : Fault} {pos : Nat}

theorem failsAt_iff :
    source.FailsAt fault pos ↔ (Parser.ofSource source).read.result = .error ⟨fault, pos⟩ := by
  constructor
  · rintro ⟨d, failed, same, rfl⟩
    obtain ⟨v, read, rfl⟩ := Parser.parse_eq_error_iff_read.mp failed
    obtain rfl := Fault.message_injective same
    exact read
  · intro read
    exact ⟨_, Parser.parse_eq_error_iff_read.mpr ⟨_, read, rfl⟩, rfl, rfl⟩

/-- The reading of a source, before its first step. -/
def start (source : Source) : Reading :=
  { cursor := (Parser.ofSource source).cursor }

theorem start_append (source : Source) (more : String) :
    (source.append more).start = source.start.extend more.toList := by
  change Reading.mk (Cursor.ofText (source.body ++ more).toList _) _ _ _ _ = _
  rw [String.toList_append, Cursor.extend_ofText]
  rfl

/-- An eager fault is found, at the same position, whatever text comes behind the body. -/
theorem failsAt_append (source : Source) (fault : Fault) (pos : Nat) (eager : fault.isEager = true)
    (failed : source.FailsAt fault pos) (more : String) :
    (source.append more).FailsAt fault pos := by
  have read : source.start.run.result = .error ⟨fault, pos⟩ := failsAt_iff.mp failed
  refine failsAt_iff.mpr ?_
  change (source.append more).start.run.result = _
  rw [start_append]
  have carried := Reading.run_extend more.toList source.start
  unfold Reading.Carries Reading.Mendable at carried
  rw [read] at carried
  exact carried.resolve_right fun mended => absurd (eager.symm.trans mended) (by decide)

/-- A range that descends, in a class and a group that the text leaves open. -/
theorem failsAt_append_range :
    let source : Source := ⟨{ extended := true }, "( x # y\n| [z-a"⟩
    source.FailsAt (.descendingRange 'z' 'a') 12 ∧
      (source.append "\\d])").FailsAt (.descendingRange 'z' 'a') 12 := by
  intro source
  have failed : source.FailsAt (.descendingRange 'z' 'a') 12 := failsAt_iff.mpr (by decide +kernel)
  exact ⟨failed, failsAt_append source _ _ rfl failed "\\d])"⟩

end Source

end PatternCompiler
