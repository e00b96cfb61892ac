import PatternCompiler.Proofs.Continuation

/-!
Numeric escapes. Their digits denote a number by the places they stand in, in either case and with
any number of leading zeros. If that number is a Unicode scalar value the escape stands for the
character with that code point, as a pattern of its own and as an item of a class alike, and
otherwise it is a fault at its backslash.
-/

set_option autoImplicit false
set_option relaxedAutoImplicit false

namespace PatternCompiler

namespace Grammar

def IsScalar (n : Nat) : Prop :=
  n ≤ 0x10FFFF ∧ ¬ (0xD800 ≤ n ∧ n ≤ 0xDFFF)

/-- A numeric escape and its digits, whether or not they name a character. -/
inductive NumericSpelling : List Char → List Char → Prop
  | braced {letter : Char} {digits : List Char} :
      letter ∈ ['x', 'u'] → NumericSpelling ('\\' :: letter :: '{' :: (digits ++ ['}'])) digits
  | fixed {letter : Char} {digits : List Char} :
      (letter, digits.length) ∈ [('x', 2), ('u', 4), ('U', 8)] →
      NumericSpelling ('\\' :: letter :: digits) digits

private theorem NumericSpelling.exists_letter {s digits : List Char}
    (spelled : NumericSpelling s digits) :
    ∃ letter tail, s = '\\' :: letter :: tail ∧ letter ∈ ['x', 'u', 'U'] := by
  cases spelled with
  | @braced letter _ begins =>
      refine ⟨letter, _, rfl, ?_⟩
      simp only [List.mem_cons, List.not_mem_nil, or_false] at begins ⊢
      exact begins.elim .inl fun second => .inr (.inl second)
  | @fixed letter _ counted =>
      refine ⟨letter, _, rfl, ?_⟩
      simp only [List.mem_cons, Prod.mk.injEq, List.not_mem_nil, or_false] at counted ⊢
      exact counted.imp And.left (Or.imp And.left And.left)

private theorem Extends.congr_head {items items' : List ClassItem} {s after after' : List Char}
    (h : Extends items s after items') (same : after.head? = after'.head?) :
    Extends items s after' items' := by
  cases h with
  | item spelled closing =>
      exact .item spelled fun dash literal => same.symm.trans (closing dash literal)
  | range spelled inside ascending => exact .range spelled inside ascending
  | dash spelled => exact .dash spelled

private theorem Items.congr_head {s after after' : List Char} {items : List ClassItem}
    (h : Items s after items) (same : after.head? = after'.head?) : Items s after' items := by
  induction h generalizing after' with
  | nil => exact .nil
  | @snoc s s' after items items' _ extended front ih =>
      refine .snoc (ih ?_) (extended.congr_head same) front
      rw [List.head?_append, List.head?_append, same]

/-- What the digits of a numeric escape decide: `named` holds of the character whose code point they
denote, and `invalid` holds if there are no digits or no such character. -/
structure Decodes (digits : List Char) (named : Char → Prop) (invalid : Prop) : Prop where
  of_scalar : digits ≠ [] → IsScalar (placeValue digits) →
    ∃ c, c.toNat = placeValue digits ∧ named c
  of_not_scalar : digits = [] ∨ ¬ IsScalar (placeValue digits) → invalid

def caret : Bool → List Char
  | true => ['^']
  | false => []

end Grammar

namespace Reading

open Scan Grammar

section Digits

variable {d : Char} {digits : List Char}

private theorem isValidChar_iff {n : Nat} : n.isValidChar ↔ IsScalar n := by
  unfold Nat.isValidChar IsScalar
  omega

private theorem decodes_of_namedChar {named : Char → Prop} {invalid : Prop}
    (hex : ∀ d ∈ digits, isHexDigit d = true)
    (found : ∀ c, namedChar? digits = some c → named c)
    (missing : namedChar? digits = none → invalid) : Decodes digits named invalid := by
  have value := hexValue_eq hex
  constructor
  · intro some_digits scalar
    have valid : (placeValue digits).isValidChar := isValidChar_iff.mpr scalar
    have nonempty : ¬ digits.isEmpty = true := fun none => some_digits (List.isEmpty_iff.mp none)
    refine ⟨Char.ofNatAux (placeValue digits) valid, rfl, found _ ?_⟩
    rw [namedChar?, if_neg nonempty, value, scalar?, dif_pos valid]
  · intro invalid
    apply missing
    unfold namedChar?
    split
    · rfl
    · next some_digits =>
      have surrogate := invalid.resolve_left fun none => some_digits (by simp [none])
      rw [value, scalar?, dif_neg fun valid => surrogate (isValidChar_iff.mp valid)]

end Digits

section Escapes

variable {c : Cursor} {letter : Char} {digits s tail after : List Char}

private theorem codePoint_invalid (unnamed : namedChar? digits = none) (start : Nat) :
    codePoint digits start c = .error ⟨.invalidCodePoint, start⟩ c := by
  simp only [codePoint, unnamed]
  rfl

private theorem bracedCodePoint_invalid (hex : ∀ d ∈ digits, isHexDigit d = true)
    (unnamed : namedChar? digits = none) (text : c.rest = digits ++ '}' :: after) (fault : Fault)
    (start : Nat) : ∃ d, bracedCodePoint fault start c = .error ⟨.invalidCodePoint, start⟩ d := by
  have passed : c.Passes digits (c.advance digits.length) := .of_rest text
  have closing := passed.rest_eq text
  have taken : takeWhile isHexDigit c = .ok digits (c.advance digits.length) := by
    refine takeWhile_ok.mpr ⟨passed, hex, ?_⟩
    rw [closing]
    rintro x ⟨⟩
    decide
  have closed := eat_true.mpr (Cursor.Passes.of_rest (s := ['}']) closing)
  unfold bracedCodePoint
  rw [bind_of_ok taken, bind_of_ok closed, if_pos rfl]
  exact ⟨_, codePoint_invalid unnamed start⟩

private theorem fixedCodePoint_invalid (hex : ∀ d ∈ digits, isHexDigit d = true)
    (unnamed : namedChar? digits = none) (text : c.rest = digits ++ after) (fault : Fault)
    (start : Nat) :
    ∃ d, fixedCodePoint digits.length fault start c = .error ⟨.invalidCodePoint, start⟩ d := by
  have run : (c.rest.take digits.length).takeWhile isHexDigit = digits := by
    rw [text, List.take_left, List.takeWhile_eq_self_iff.mpr hex]
  have passed : pass digits.length c = .ok () (c.advance digits.length) :=
    (pass_ok text).mpr (.of_rest text)
  unfold fixedCodePoint
  rw [bind_of_ok (rest_ok.mpr ⟨rfl, rfl⟩)]
  simp only [run, if_true]
  rw [bind_of_ok passed]
  exact ⟨_, codePoint_invalid unnamed start⟩

private theorem eat_brace_of_digits (hex : ∀ d ∈ digits, isHexDigit d = true)
    (some_digits : digits ≠ []) (text : c.rest = digits ++ after) : eat '{' c = .ok false c := by
  refine eat_false.mpr ⟨?_, rfl⟩
  rw [text]
  cases digits with
  | nil => exact absurd rfl some_digits
  | cons x digits =>
      rintro ⟨⟩
      exact absurd (hex '{' (by simp)) (by decide)

private theorem numericEscape?_invalid (spelled : NumericSpelling ('\\' :: letter :: tail) digits)
    (hex : ∀ d ∈ digits, isHexDigit d = true) (unnamed : namedChar? digits = none)
    (text : c.rest = tail ++ after) (start : Nat) :
    ∃ scan d, numericEscape? start letter = some scan ∧
      scan c = .error ⟨.invalidCodePoint, start⟩ d := by
  cases spelled with
  | braced begins =>
      rw [List.cons_append, List.append_assoc] at text
      have passed : c.Passes ['{'] (c.advance 1) := .of_rest text
      have opened := eat_true.mpr passed
      have inside := bracedCodePoint_invalid hex unnamed (passed.rest_eq text)
      simp only [List.mem_cons, List.not_mem_nil, or_false] at begins
      rcases begins with rfl | rfl
      · obtain ⟨d, failed⟩ := inside .unterminatedHexEscape start
        refine ⟨_, d, rfl, ?_⟩
        rw [bind_of_ok opened, if_pos rfl, failed]
      · obtain ⟨d, failed⟩ := inside .unterminatedUnicodeEscape start
        refine ⟨_, d, rfl, ?_⟩
        rw [bind_of_ok opened, if_pos rfl, failed]
  | fixed counted =>
      have some_digits : digits ≠ [] := by
        rintro rfl
        simp at counted
      have bare := eat_brace_of_digits hex some_digits text
      have inside := fixedCodePoint_invalid hex unnamed text
      simp only [List.mem_cons, Prod.mk.injEq, List.not_mem_nil, or_false] at counted
      rcases counted with ⟨rfl, count⟩ | ⟨rfl, count⟩ | ⟨rfl, count⟩
      · obtain ⟨d, failed⟩ := inside .invalidHexEscape start
        refine ⟨_, d, rfl, ?_⟩
        rw [bind_of_ok bare, if_neg Bool.false_ne_true, ← count, failed]
      · obtain ⟨d, failed⟩ := inside .invalidUnicodeEscape start
        refine ⟨_, d, rfl, ?_⟩
        rw [bind_of_ok bare, if_neg Bool.false_ne_true, ← count, failed]
      · obtain ⟨d, failed⟩ := inside .invalidLongUnicodeEscape start
        refine ⟨_, d, rfl, ?_⟩
        rw [← count, failed]

private theorem unmeant_of_numeric (begins : letter ∈ ['x', 'u', 'U']) :
    Shorthand.ofLetter? letter = none ∧ anchorOfLetter? letter = none ∧ letter ≠ 'k' ∧
      letter ≠ '0' ∧ letter.isDigit = false := by
  simp only [List.mem_cons, List.not_mem_nil, or_false] at begins
  rcases begins with rfl | rfl | rfl
  · decide
  · decide
  · decide

private theorem classItem_invalid (spelled : NumericSpelling s digits)
    (hex : ∀ d ∈ digits, isHexDigit d = true) (unnamed : namedChar? digits = none)
    (text : c.rest = s ++ after) : ∃ d, classItem c = .error ⟨.invalidCodePoint, c.index⟩ d := by
  obtain ⟨letter, tail, rfl, begins⟩ := spelled.exists_letter
  obtain ⟨kind, _⟩ := unmeant_of_numeric begins
  have passed : c.Passes ['\\', letter] (c.advance 2) := .of_rest text
  have taken : pass 2 c = .ok () (c.advance 2) := (pass_ok (s := ['\\', letter]) text).mpr passed
  obtain ⟨scan, d, chosen, failed⟩ :=
    numericEscape?_invalid spelled hex unnamed (passed.rest_eq text) c.index
  refine ⟨d, ?_⟩
  change itemOf c.index c.rest c = _
  rw [text]
  change (pass 2 >>= fun _ => letterItem letter c.index) c = _
  rw [bind_of_ok taken, letterItem]
  simp only [kind, chosen]
  exact map_of_error failed

private theorem escape_invalid (spelled : NumericSpelling ('\\' :: s) digits)
    (hex : ∀ d ∈ digits, isHexDigit d = true) (unnamed : namedChar? digits = none)
    (text : c.rest = s) (captures : Captures) (start : Nat) :
    ∃ d, escape captures start c = .error ⟨.invalidCodePoint, start⟩ d := by
  obtain ⟨letter, tail, same, begins⟩ := spelled.exists_letter
  obtain rfl : s = letter :: tail := by simpa using same
  obtain ⟨kind, place, unnamed_ref, nonzero, other⟩ := unmeant_of_numeric begins
  have passed : c.Passes [letter] (c.advance 1) := .of_rest text
  have taken : pass 1 c = .ok () (c.advance 1) := (pass_ok (s := [letter]) text).mpr passed
  have behind : (c.advance 1).rest = tail ++ [] := by
    rw [passed.rest_eq text, List.append_nil]
  obtain ⟨scan, d, chosen, failed⟩ := numericEscape?_invalid spelled hex unnamed behind start
  refine ⟨d, ?_⟩
  unfold escape
  rw [bind_of_ok (rest_ok.mpr ⟨text, rfl⟩)]
  simp only [other, Bool.false_and, Bool.false_eq_true, if_false]
  rw [bind_of_ok taken, letterEscape]
  simp only [kind, place, if_neg unnamed_ref, charEscape, if_neg nonzero, chosen]
  exact map_of_error failed

private theorem numericEscape_of_spelling {ch : Char} (spelled : NumericSpelling ('\\' :: s) digits)
    (hex : ∀ d ∈ digits, isHexDigit d = true) (named : namedChar? digits = some ch) :
    NumericEscape s ch := by
  cases spelled with
  | braced begins => exact .braced begins (hexNumeral_iff.mpr ⟨hex, named⟩)
  | fixed counted => exact .fixed counted (hexNumeral_iff.mpr ⟨hex, named⟩)

end Escapes

section Classes

variable {c : Cursor} {negated : Bool} {digits s front back content : List Char} {first : Char}
  {before : List ClassItem} {fault : Fault} {offset : Nat}

private theorem classItems_invalid (spelled : NumericSpelling s digits)
    (hex : ∀ d ∈ digits, isHexDigit d = true) (unnamed : namedChar? digits = none)
    (items : Items front s before) (text : c.rest = front ++ (s ++ back)) :
    ∃ d, classItems c = .error ⟨.invalidCodePoint, c.index + front.length⟩ d := by
  obtain ⟨letter, tail, rfl, _⟩ := spelled.exists_letter
  obtain ⟨c', passed⟩ : ∃ c', c.Passes front c' := ⟨_, .of_rest text⟩
  have here := passed.rest_eq text
  obtain ⟨d, failed⟩ := classItem_invalid spelled hex unnamed here
  have longer : Items front ('\\' :: letter :: tail ++ back) before := items.congr_head rfl
  have reached := classRun_of_items longer passed here (by simp)
  refine ⟨d, reached.trans (Step.run_halt ?_)⟩
  rw [classStep_item (by simp [here]) (by simp [here]), classItemStep_item (by simp [here]), failed,
    passed.index_eq]

private theorem classItems_invalid_range (spelled : NumericSpelling s digits)
    (hex : ∀ d ∈ digits, isHexDigit d = true) (unnamed : namedChar? digits = none)
    (items : Items front ('-' :: s) (.char first :: before))
    (text : c.rest = front ++ '-' :: (s ++ back)) :
    ∃ d, classItems c = .error ⟨.invalidCodePoint, c.index + (front.length + 1)⟩ d := by
  obtain ⟨letter, tail, rfl, _⟩ := spelled.exists_letter
  obtain ⟨c', passed⟩ : ∃ c', c.Passes front c' := ⟨_, .of_rest text⟩
  have here := passed.rest_eq text
  have dash : c'.Passes ['-'] (c'.advance 1) := .of_rest here
  obtain ⟨d, failed⟩ := classItem_invalid spelled hex unnamed (dash.rest_eq here)
  have longer : Items front ('-' :: ('\\' :: letter :: tail ++ back)) (.char first :: before) :=
    items.congr_head rfl
  have reached := classRun_of_items longer passed here (by simp)
  refine ⟨d, reached.trans (Step.run_halt ?_)⟩
  rw [classStep_item (by simp [here]) (by simp [here]), classItemStep_range rfl here (by simp),
    failed, dash.index_eq, passed.index_eq, Nat.add_assoc]
  rfl

private theorem eat_caret (unmarked : negated = false → content.head? ≠ some '^')
    (text : c.rest = caret negated ++ content) :
    eat '^' c = .ok negated (c.advance (caret negated).length) := by
  cases negated with
  | true => exact eat_true.mpr (.of_rest text)
  | false => exact eat_false.mpr ⟨by rw [text]; exact unmarked rfl, rfl⟩

private theorem charClass_of_error (unmarked : negated = false → content.head? ≠ some '^')
    (text : c.rest = caret negated ++ content)
    (failed : ∀ c : Cursor, c.rest = content →
      ∃ d, classItems c = .error ⟨fault, c.index + offset⟩ d) :
    ∃ d, charClass c = .error ⟨fault, c.index + (caret negated).length + offset⟩ d := by
  have passed : c.enterClass.Passes (caret negated) _ := .of_rest text
  have marked := eat_caret (c := c.enterClass) unmarked text
  obtain ⟨d, stopped⟩ := failed _ (passed.rest_eq text)
  have body : classBody c.enterClass = _ := (bind_of_ok marked).trans (map_of_error stopped)
  refine ⟨d.leaveClass, ?_⟩
  unfold charClass inClass
  rw [body]
  rfl

end Classes

end Reading

namespace Source

open Reading Grammar

variable {flags : Flags} {s : List Char} {p : Pattern}

private theorem parse_leaf (leaf : Leaf flags.extended {} s [] p) :
    (Source.mk flags (String.ofList s)).parse = .ok p := by
  have terms : Derives flags.extended {} (s ++ []) [] (.branches [[p]]) {} :=
    .single (derives_terms_of_atom (.leaf leaf)) .nil
  rw [List.append_nil] at terms
  have spelled : SpellingWith flags.extended (String.ofList s).toList p {} := by
    rw [String.toList_ofList]
    exact ⟨[[p]], terms, fun several => absurd several (by simp), rfl⟩
  exact (Parser.parse_ok_iff.mpr spelled).1

private theorem failsAt_of_atom {first : Char} {after : List Char} {fault : Fault} {pos : Nat}
    {d : Cursor} (inside : first ≠ '|' ∧ first ≠ ')' ∧ first ≠ '(')
    (ink : Cursor.isSpacing first = false ∧ first ≠ '#')
    (failed : atomFrom {} 0 first after (Cursor.ofText (first :: after) flags.extended) =
      .error ⟨fault, pos⟩ d) :
    (Source.mk flags (String.ofList (first :: after))).FailsAt fault pos := by
  have solid : (Cursor.ofText (first :: after) flags.extended).skip =
      Cursor.ofText (first :: after) flags.extended := skip_solid rfl (solid_cons ink)
  have opened : Source.start ⟨flags, String.ofList (first :: after)⟩ =
      { cursor := Cursor.ofText (first :: after) flags.extended } := by
    unfold start Parser.ofSource
    rw [String.toList_ofList]
  have text : (Cursor.ofText (first :: after) flags.extended).rest = first :: after := rfl
  have place : (Cursor.ofText (first :: after) flags.extended).index = 0 := rfl
  rw [failsAt_iff]
  change (Source.start _).run.result = _
  rw [opened, run_term (by rw [solid]; rfl) inside]
  simp only [solid, readTerm, text, place, atom, failed]
  rfl

section Classes

variable {negated : Bool} {content : List Char} {items : List ClassItem} {fault : Fault}
  {offset : Nat}

private theorem parse_class (unmarked : negated = false → content.head? ≠ some '^')
    (spelled : Items content [']'] items) (inside : content ≠ []) :
    (Source.mk flags (String.ofList ('[' :: (caret negated ++ (content ++ [']']))))).parse =
      .ok (.charClass negated items.reverse) := by
  apply parse_leaf
  cases negated with
  | true => exact .bracketClass (.negated spelled inside)
  | false => exact .bracketClass (.plain spelled inside (unmarked rfl))

private theorem failsAt_class (unmarked : negated = false → content.head? ≠ some '^')
    (failed : ∀ c : Cursor, c.rest = content →
      ∃ d, classItems c = .error ⟨fault, c.index + offset⟩ d) :
    (Source.mk flags (String.ofList ('[' :: (caret negated ++ content)))).FailsAt fault
      (1 + (caret negated).length + offset) := by
  obtain ⟨d, failed⟩ := charClass_of_error unmarked
    (c := (Cursor.ofText ('[' :: (caret negated ++ content)) flags.extended).advance 1) rfl failed
  exact failsAt_of_atom (by decide) (by decide) (d := d) failed

end Classes

section Numeric

variable {digits : List Char} {ch : Char}

private theorem parse_numeric (spelled : NumericSpelling s digits)
    (hex : ∀ d ∈ digits, isHexDigit d = true) (named : namedChar? digits = some ch) :
    (Source.mk flags (String.ofList s)).parse = .ok (.literal (String.singleton ch)) := by
  obtain ⟨letter, tail, rfl, _⟩ := spelled.exists_letter
  exact parse_leaf (.numeric (numericEscape_of_spelling spelled hex named))

private theorem failsAt_numeric (spelled : NumericSpelling s digits)
    (hex : ∀ d ∈ digits, isHexDigit d = true) (unnamed : namedChar? digits = none) :
    (Source.mk flags (String.ofList s)).FailsAt .invalidCodePoint 0 := by
  obtain ⟨letter, tail, rfl, _⟩ := spelled.exists_letter
  obtain ⟨d, failed⟩ := escape_invalid spelled hex unnamed
    (c := (Cursor.ofText ('\\' :: letter :: tail) flags.extended).advance 1) rfl {} 0
  exact failsAt_of_atom (by decide) (by decide) ((atomFrom_escape rfl).trans failed)

end Numeric

end Source

open Grammar

/-- A numeric escape stands for the character whose code point its digits denote, and is a fault at
its backslash if there is none. So it is as a whole pattern, wherever a class item is read, and in
the text of a class, behind any items and as the end of a range. -/
theorem numericEscape_decodes (flags : Flags) {s digits : List Char}
    (spelled : NumericSpelling s digits) (hex : ∀ d ∈ digits, d.toLower ∈ hexDigits) :
    Decodes digits
        (fun c => (Source.mk flags (String.ofList s)).parse = .ok (.literal (String.singleton c)))
        ((Source.mk flags (String.ofList s)).FailsAt .invalidCodePoint 0) ∧
      (∀ (cursor : Cursor) (after : List Char), cursor.rest = s ++ after →
        Decodes digits
          (fun c => Reading.classItem cursor = .ok (.char c) (cursor.advance s.length))
          (∃ stopped, Reading.classItem cursor =
            .error ⟨.invalidCodePoint, cursor.index⟩ stopped)) ∧
      ∀ (negated : Bool) (front : List Char) (before : List ClassItem),
        (negated = false → front.head? ≠ some '^') →
        let bracket (content : List Char) : Source :=
          ⟨flags, String.ofList ('[' :: (caret negated ++ content))⟩
        (Items front s before →
          Decodes digits
            (fun c => (bracket (front ++ s ++ [']'])).parse =
              .ok (.charClass negated (before.reverse ++ [.char c])))
            (∀ back, (bracket (front ++ (s ++ back))).FailsAt .invalidCodePoint
              (1 + (caret negated).length + front.length))) ∧
        ∀ first, Items front ('-' :: s) (.char first :: before) →
          Decodes digits
            (fun c => first ≤ c → (bracket (front ++ '-' :: s ++ [']'])).parse =
              .ok (.charClass negated (before.reverse ++ [.range first c])))
            (∀ back, (bracket (front ++ '-' :: (s ++ back))).FailsAt .invalidCodePoint
              (1 + (caret negated).length + (front.length + 1))) := by
  have digit : ∀ d ∈ digits, Reading.isHexDigit d = true := by
    intro d mem
    exact isHexDigit_iff.mpr (hex d mem)
  obtain ⟨letter, tail, rfl, _⟩ := spelled.exists_letter
  have item : ∀ c, Reading.namedChar? digits = some c →
      Item ('\\' :: letter :: tail) (.char c) := by
    intro c named
    exact .numeric (Reading.numericEscape_of_spelling spelled digit named)
  refine ⟨?_, ?_, ?_⟩
  · exact Reading.decodes_of_namedChar digit (fun c => Source.parse_numeric spelled digit)
      (Source.failsAt_numeric spelled digit)
  · intro cursor after text
    refine Reading.decodes_of_namedChar digit ?_ ?_
    · intro c named
      exact Reading.classItem_ok.mpr ⟨_, .of_rest text, item c named⟩
    · intro unnamed
      exact Reading.classItem_invalid spelled digit unnamed text
  · intro negated front before unmarked
    -- the first character of the items decides, and an escape is none that marks a class
    have plain : ∀ x content, x ≠ '^' → negated = false →
        (front ++ x :: content).head? ≠ some '^' := by
      intro x content other positive
      cases front with
      | nil => simpa using other
      | cons y front => exact unmarked positive
    refine ⟨?_, ?_⟩
    · intro items
      refine Reading.decodes_of_namedChar digit ?_ ?_
      · intro c named
        have extended : Items (front ++ '\\' :: letter :: tail) [']'] (.char c :: before) :=
          .snoc (items.congr_head rfl) (.item (item c named) (by simp)) (by simp)
        rw [← List.reverse_cons]
        exact Source.parse_class (plain _ _ (by decide)) extended (by simp)
      · intro unnamed back
        exact Source.failsAt_class (plain _ _ (by decide)) fun c text =>
          Reading.classItems_invalid spelled digit unnamed items text
    · intro first items
      refine Reading.decodes_of_namedChar digit ?_ ?_
      · intro c named ascending
        have extended : Items (front ++ '-' :: '\\' :: letter :: tail) [']']
            (.range first c :: before) :=
          .snoc (items.congr_head rfl) (.range (item c named) (by simp) ascending) (by simp)
        rw [← List.reverse_cons]
        exact Source.parse_class (plain _ _ (by decide)) extended (by simp)
      · intro unnamed back
        exact Source.failsAt_class (plain _ _ (by decide)) fun c text =>
          Reading.classItems_invalid_range spelled digit unnamed items text

/-- Leading zeros and small letters in braces, and a surrogate behind a range in a negated class. -/
theorem numericEscape_decodes_padded :
    let padded := ['0', '0', '0', '0', '0', '0', '1', 'f', '6', '0', '0']
    let surrogate := ['D', '8', '0', '0']
    (NumericSpelling ('\\' :: 'u' :: '{' :: (padded ++ ['}'])) padded ∧
        (∀ d ∈ padded, d.toLower ∈ hexDigits) ∧
        ∃ c, c.toNat = 0x1F600 ∧
          (Source.mk { extended := true } (String.ofList
            ('\\' :: 'u' :: '{' :: (padded ++ ['}'])))).parse =
              .ok (.literal (String.singleton c))) ∧
      NumericSpelling ('\\' :: 'u' :: surrogate) surrogate ∧
        (∀ d ∈ surrogate, d.toLower ∈ hexDigits) ∧
        ∀ back, (Source.mk {} (String.ofList
          ('[' :: '^' :: 'a' :: '-' :: 'c' :: '\\' :: 'u' :: (surrogate ++ back)))).FailsAt
            .invalidCodePoint 5 := by
  intro padded surrogate
  have braced : NumericSpelling ('\\' :: 'u' :: '{' :: (padded ++ ['}'])) padded :=
    .braced (by simp)
  have fixed : NumericSpelling ('\\' :: 'u' :: surrogate) surrogate := .fixed (by simp [surrogate])
  have small : ∀ d ∈ padded, d.toLower ∈ hexDigits := by simp [padded, hexDigits]
  have large : ∀ d ∈ surrogate, d.toLower ∈ hexDigits := by simp [surrogate, hexDigits]
  have range : Items ['a', '-', 'c'] ('\\' :: 'u' :: surrogate) [.range 'a' 'c'] :=
    .snoc (.snoc .nil (.item (.raw (by decide)) (by simp)) (by simp))
      (.range (.raw (by decide)) (by simp) (by decide)) (by simp)
  obtain ⟨c, denoted, parsed⟩ :=
    (numericEscape_decodes { extended := true } braced small).1.of_scalar (by simp [padded])
      ⟨by decide, by decide⟩
  refine ⟨⟨braced, small, c, denoted, parsed⟩, fixed, large, ?_⟩
  exact (((numericEscape_decodes {} fixed large).2.2 true ['a', '-', 'c'] _ (by simp)).1
    range).of_not_scalar (.inr fun scalar => scalar.2 ⟨by decide, by decide⟩)

end PatternCompiler
