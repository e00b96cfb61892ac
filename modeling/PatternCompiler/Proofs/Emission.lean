import PatternCompiler.Proofs.Regroup

/-!
The pieces of emitted text and the grammar. Whatever the writer puts out for a character, a class,
the bounds of a repetition or the opening of a group is, by a rule of the grammar, a spelling of
just that.
-/

set_option autoImplicit false
set_option relaxedAutoImplicit false

namespace PatternCompiler.Pcre2

open Grammar

variable {extended : Bool} {k : Captures} {after : List Char}

private theorem not_alpha_of_isLiteralMeta {c : Char} (h : isLiteralMeta c = true) :
    c.isAlpha = false ∧ c.isDigit = false := by
  have table : ∀ c ∈ ['.', '^', '$', '|', '(', ')', '?', '*', '+', '{', '}', '[', ']', '\\'],
      c.isAlpha = false ∧ c.isDigit = false := by simp
  exact table c (by simpa [isLiteralMeta] using h)

theorem not_alpha_of_isBlank {c : Char} (h : Text.isBlank c = true) :
    c.isAlpha = false ∧ c.isDigit = false := by
  simp only [Text.isBlank, Text.inRanges, Text.blankRanges, List.any_cons, List.any_nil,
    Bool.or_false, Bool.or_eq_true, Bool.and_eq_true, decide_eq_true_eq] at h
  rw [Bool.eq_false_iff, Bool.eq_false_iff, Ne, Ne, Reading.isAlpha_iff_toNat,
    Char.isDigit_iff_toNat]
  simp only [Char.reduceToNat]
  omega

private theorem isBlank_of_isSpacing {c : Char} (h : Cursor.isSpacing c = true) :
    Text.isBlank c = true := by
  simp only [Cursor.isSpacing, Bool.or_eq_true, beq_iff_eq] at h
  rcases h with ((rfl | rfl) | rfl) | rfl
  · decide
  · decide
  · decide
  · decide

private theorem leaf_spaceEscape {free : Bool} {c : Char}
    (h : (Text.isBlank c || c == '#') = true) :
    Leaf free k (spaceEscape c) after (.literal (String.singleton c)) := by
  unfold spaceEscape
  split
  · next same => exact same ▸ .control (by simp [controlLetters])
  split
  · next same => exact same ▸ .control (by simp [controlLetters])
  split
  · next same => exact same ▸ .control (by simp [controlLetters])
  split
  · next same => exact same ▸ .control (by simp [controlLetters])
  split
  · next same =>
    subst same
    have numeral : HexNumeral ['b'] '\x0b' :=
      hexNumeral_iff.mpr ⟨by simp [Reading.isHexDigit], rfl⟩
    exact .numeric (.braced (by simp) numeral)
  · rcases Bool.or_eq_true_iff.mp h with blank | hash
    · exact .identity (not_alpha_of_isBlank blank).1 (not_alpha_of_isBlank blank).2
    · obtain rfl : c = '#' := by simpa using hash
      exact .identity rfl rfl

theorem leaf_literalChar (c : Char) :
    Leaf extended k (literalChar extended c) after (.literal (String.singleton c)) := by
  unfold literalChar
  split
  · next special =>
    obtain ⟨alpha, digit⟩ := not_alpha_of_isLiteralMeta special
    exact .identity alpha digit
  · next plain =>
    split
    · next spaced => exact leaf_spaceEscape (Bool.and_eq_true_iff.mp spaced).2
    · next ink =>
      refine .ordinary ⟨?_, ?_, ?_⟩
      · intro mem
        have table : ∀ c ∈ ['.', '^', '$', '|', '(', ')', '[', '\\', '*', '+', '?'],
            isLiteralMeta c = true := by simp [isLiteralMeta]
        exact plain (table c mem)
      · rintro rfl
        exact absurd rfl plain
      · rintro rfl
        simp only [Bool.true_and, Bool.or_eq_true, beq_iff_eq, not_or] at ink
        refine not_mem_skipped_iff.mpr ⟨?_, ink.2⟩
        cases spacing : Cursor.isSpacing c with
        | false => rfl
        | true => exact absurd (isBlank_of_isSpacing spacing) ink.1

section Classes

private theorem classChar_eq (c : Char) :
    (c = ']' ∨ c = '-' ∨ c = '\\' ∨ c = '^') ∧ classChar c = ['\\', c] ∨
      (c ≠ ']' ∧ c ≠ '-' ∧ c ≠ '\\' ∧ c ≠ '^') ∧ classChar c = [c] := by
  unfold classChar isClassMeta
  split
  · next special => exact .inl ⟨by simpa using special, rfl⟩
  · next plain => exact .inr ⟨by simpa using plain, rfl⟩

private theorem item_classChar (c : Char) : Item (classChar c) (.char c) := by
  rcases classChar_eq c with ⟨special, same⟩ | ⟨plain, same⟩
  · rw [same]
    rcases special with rfl | rfl | rfl | rfl
    · exact .identity (by decide)
    · exact .identity (by decide)
    · exact .identity (by decide)
    · exact .identity (by decide)
  · rw [same]
    exact .raw plain.2.2.1

private theorem classChar_ne (c : Char) :
    classChar c ≠ [']'] ∧ classChar c ≠ ['-'] ∧ (classChar c).head? ≠ some '^' := by
  rcases classChar_eq c with ⟨-, same⟩ | ⟨⟨bracket, dash, -, caret⟩, same⟩
  · rw [same]
    exact ⟨nofun, nofun, by simp⟩
  · rw [same]
    exact ⟨by simpa using bracket, by simpa using dash, by simpa using caret⟩

private theorem isProperty_of_sound {kind : Shorthand} {property : Option String}
    (carries : property.isSome = true ↔ kind.family = .property) :
    kind.isProperty = property.isSome := by
  rw [Bool.eq_iff_iff, carries]
  simp [Shorthand.isProperty]

private theorem classEscape_shorthand {kind : Shorthand} {property : Option String}
    (sound : (ClassItem.shorthand kind property).Sound) :
    ∃ s, classItemText (.shorthand kind property) = '\\' :: s ∧ ClassEscape s kind property := by
  obtain ⟨named, closed⟩ := sound
  refine ⟨_, rfl, ?_⟩
  cases property with
  | none =>
      have plain := isProperty_of_sound named
      exact .plain (mem_classLetters_iff.mpr ⟨kind.ofLetter?_letter, plain⟩)
  | some name =>
      have named : kind.isProperty = true := isProperty_of_sound named
      simp only [named, if_true, bracedName]
      have letters : (kind.letter, kind) ∈ propertyLetters :=
        mem_propertyLetters_iff.mpr ⟨kind.ofLetter?_letter, named⟩
      have escape := ClassEscape.property letters (closed name rfl)
      simpa using escape

private theorem items_snoc {s : List Char} {items : List ClassItem} {item : ClassItem}
    (before : Items s (classItemText item ++ after) items) (sound : item.Sound) :
    Items (s ++ classItemText item) after (item :: items) := by
  cases item with
  | char c =>
      have apart := classChar_ne c
      exact .snoc before (.item (item_classChar c) fun dash => absurd dash apart.2.1)
        fun bracket => absurd bracket apart.1
  | range first last =>
      have apart := classChar_ne first
      simp only [classItemText] at before ⊢
      rw [List.append_assoc] at before
      have head :
          Items (s ++ classChar first) ('-' :: classChar last ++ after) (.char first :: items) :=
        .snoc before (.item (item_classChar first) fun dash => absurd dash apart.2.1)
          fun bracket => absurd bracket apart.1
      rw [← List.append_assoc]
      exact .snoc head (.range (item_classChar last) (classChar_ne last).1 sound) nofun
  | shorthand kind property =>
      obtain ⟨escape, same, spelled⟩ := classEscape_shorthand sound
      rw [same] at before ⊢
      exact .snoc before (.item (.shorthand spelled) nofun) nofun

private theorem items_flatMap {s : List Char} {before items : List ClassItem}
    (h : Items s (items.flatMap classItemText ++ after) before)
    (sound : ∀ item ∈ items, item.Sound) :
    Items (s ++ items.flatMap classItemText) after (items.reverse ++ before) := by
  induction items generalizing s before with
  | nil => simpa using h
  | cons item items ih =>
      obtain ⟨here, there⟩ := List.forall_mem_cons.mp sound
      rw [List.flatMap_cons, List.append_assoc] at h
      have more := ih (items_snoc h here) there
      simpa [List.append_assoc] using more

private theorem classItemText_head (item : ClassItem) :
    ∃ c s, classItemText item = c :: s ∧ c ≠ '^' := by
  have char : ∀ c text, ∃ x s, classChar c ++ text = x :: s ∧ x ≠ '^' := by
    intro c text
    rcases classChar_eq c with ⟨-, same⟩ | ⟨plain, same⟩
    · exact ⟨_, _, by rw [same]; rfl, by decide⟩
    · exact ⟨_, _, by rw [same]; rfl, plain.2.2.2⟩
  cases item with
  | char c => simpa [classItemText] using char c []
  | range first last => exact char first _
  | shorthand kind property => exact ⟨_, _, rfl, by decide⟩

private theorem bracketClass_bracketText {negated : Bool} {items : List ClassItem}
    (some_item : items ≠ []) (sound : ∀ item ∈ items, item.Sound) :
    BracketClass (bracketText negated items) after negated items := by
  have inside : Items (items.flatMap classItemText) (']' :: after) items.reverse := by
    have read : Items ([] ++ items.flatMap classItemText) (']' :: after) (items.reverse ++ []) :=
      items_flatMap .nil sound
    simpa using read
  obtain ⟨item, others, rfl⟩ := List.exists_cons_of_ne_nil some_item
  obtain ⟨c, s, head, caret⟩ := classItemText_head item
  have text :
      (item :: others).flatMap classItemText = c :: (s ++ others.flatMap classItemText) := by
    rw [List.flatMap_cons, head]
    rfl
  cases negated with
  | false =>
      have spelled := BracketClass.plain inside (by simp [text]) (by simpa [text] using caret)
      simpa [bracketText] using spelled
  | true =>
      have spelled := BracketClass.negated inside (by simp [text])
      simpa [bracketText] using spelled

theorem bareShorthand_of_named {kind : Shorthand} {property : Option String}
    (sound : (ClassItem.shorthand kind property).Sound) (named : property ≠ some "") :
    ∃ s, bareShorthand kind property = some ('\\' :: s) ∧ ClassEscape s kind property := by
  obtain ⟨escape, same, spelled⟩ := classEscape_shorthand sound
  refine ⟨escape, ?_, spelled⟩
  rw [← same]
  obtain ⟨carries, -⟩ := sound
  cases property with
  | none =>
      have plain : kind.isProperty = false := isProperty_of_sound carries
      simp [bareShorthand, classItemText, plain]
  | some name =>
      have carries : kind.isProperty = true := isProperty_of_sound carries
      have some_name : name ≠ "" := fun empty => named (by rw [empty])
      simp [bareShorthand, classItemText, carries, some_name]

private theorem bareShorthand_unnamed {kind : Shorthand}
    (sound : (ClassItem.shorthand kind (some "")).Sound) : bareShorthand kind (some "") = none := by
  have carries : kind.isProperty = true := isProperty_of_sound sound.1
  simp [bareShorthand, carries]

private theorem leaf_bracketText {negated : Bool} {items : List ClassItem}
    (sound : (Pattern.charClass negated items).Sound) :
    Leaf extended k (bracketText negated items) after (.charClass negated items) :=
  .bracketClass (bracketClass_bracketText sound.1 sound.2)

private theorem leaf_classText_single {negated : Bool} {kind : Shorthand} {property : Option String}
    (sound : (ClassItem.shorthand kind property).Sound) :
    Leaf extended k (classText negated [.shorthand kind property]) after
      (Pattern.foldNegation negated [.shorthand kind property]) := by
  have folded : (ClassItem.shorthand (if negated then kind.negate else kind) property).Sound := by
    cases negated with
    | false => exact sound
    | true => exact sound
  by_cases unnamed : property = some ""
  · subst unnamed
    have same : Pattern.foldNegation negated [.shorthand kind (some "")] =
        .charClass negated [.shorthand kind (some "")] := by
      cases negated with
      | false => rfl
      | true => rfl
    simp only [classText, bareShorthand_unnamed folded, same]
    exact leaf_bracketText ⟨by simp, by simpa using sound⟩
  · obtain ⟨s, bare, spelled⟩ := bareShorthand_of_named folded unnamed
    simp only [classText, bare, Pattern.foldNegation_single unnamed]
    exact .shorthand spelled

theorem leaf_classText {negated : Bool} {items : List ClassItem}
    (sound : (Pattern.charClass negated items).Sound) :
    Leaf extended k (classText negated items) after (Pattern.foldNegation negated items) := by
  by_cases single : ∃ kind property, items = [.shorthand kind property]
  · obtain ⟨kind, property, rfl⟩ := single
    exact leaf_classText_single (sound.2 _ (by simp))
  · have written : classText negated items = bracketText negated items := by
      unfold classText
      split
      · next kind property => exact absurd ⟨kind, property, rfl⟩ single
      · rfl
    have same : Pattern.foldNegation negated items = .charClass negated items := by
      unfold Pattern.foldNegation
      split
      · next family capital property => exact absurd ⟨⟨family, capital⟩, property, rfl⟩ single
      · rfl
    rw [written, same]
    exact leaf_bracketText sound

end Classes

theorem numeral_decimal (n : UInt32) : Numeral (decimal n) n := by
  refine ⟨Nat.toDigits_ne_nil, fun c mem => ?_, ?_⟩
  · exact Nat.isDigit_of_mem_toDigits (by decide) (by decide) mem
  · exact Nat.ofDigitChars_toDigits (by decide) (by decide)

theorem head_toDigits {n : Nat} (positive : 1 ≤ n) : (Nat.toDigits 10 n).head? ≠ some '0' := by
  induction n using Nat.strongRecOn with
  | ind n ih =>
      by_cases small : n < 10
      · have table : ∀ m < 10, 1 ≤ m → Nat.digitChar m ≠ '0' := by decide
        rw [Nat.toDigits_of_lt_base small]
        simpa using table n small positive
      · rw [Nat.toDigits_of_base_le (by decide) (by omega),
          List.head?_append_of_ne_nil _ Nat.toDigits_ne_nil]
        exact ih (n / 10) (by omega) (by omega)

theorem bounds_boundsText {least : UInt32} {most : Bound}
    (ascending : ∀ n, most = .finite n → least ≤ n) :
    Bounds (boundsText least most) least most := by
  unfold boundsText
  cases most with
  | unbounded =>
      simp only
      split
      · next zero => exact zero ▸ .star
      split
      · next one => exact one ▸ .plus
      · exact .atLeast (numeral_decimal least)
  | finite n =>
      simp only
      split
      · next optional =>
        obtain ⟨rfl, rfl⟩ := optional
        exact .optional
      split
      · next same => exact same ▸ .exactly (numeral_decimal least)
      · have spelled := Bounds.between (numeral_decimal least) (numeral_decimal n) (ascending n rfl)
        simpa using spelled

theorem mark_greedText (greed : Greed) : Mark (greedText greed) greed := by
  cases greed with
  | greedy => exact .greedy
  | lazy => exact .lazy
  | possessive => exact .possessive

theorem leaf_anchorText (place : Anchor) :
    Leaf extended k (anchorText place) after (.anchor place) := by
  cases place with
  | lineStart => exact .lineStart
  | lineEnd => exact .lineEnd
  | _ => exact .anchor (by simp [anchorLetters])

/-- A reference that the groups opened before it resolve is written as a spelling of it. A number
must not run into a digit. -/
theorem leaf_backreferenceText {index : Option UInt32} {name : Option String}
    (resolved : k.Admits (.refers index name))
    (closed : ∀ s ∈ k.names, Grammar.Identifier s.toList)
    (stops : isNumbered (.backreference index name) = true → ¬ DigitAhead after) :
    Leaf extended k (backreferenceText index name) after (.backreference index name) := by
  rcases resolved with ⟨n, rfl, rfl, positive, opened⟩ | ⟨s, rfl, rfl, mem⟩
  · exact .number (numeral_decimal n) (head_toDigits positive) (stops rfl) opened
  · have open_end : '>' ∉ s.toList := fun bracket =>
      absurd ((closed s mem).mem bracket) (by decide)
    have spelled := @Leaf.name extended k s.toList after open_end (by simpa using mem)
    simpa [backreferenceText] using spelled

theorem opens_groupOpening {capturing : Bool} {body : Pattern} {name : Option String}
    {atomic : Bool} (sound : (Pattern.group capturing body name atomic).Sound)
    (fresh : ∀ s, name = some s → s ∉ k.names) :
    ∃ opening, Opens k (groupOpening capturing name atomic) opening ∧
      (∀ body, opening.close body = .group capturing body name atomic) ∧
      opening.events = if capturing then [.opens name] else [] := by
  obtain ⟨named, atoms⟩ := sound
  cases atomic with
  | true =>
      obtain rfl := atoms rfl
      cases name with
      | none => exact ⟨.atomic, .atomic, fun _ => rfl, rfl⟩
      | some s => exact absurd (named s rfl).2.2 (by decide)
  | false =>
      cases capturing with
      | false =>
          cases name with
          | none => exact ⟨.plain, .plain, fun _ => rfl, rfl⟩
          | some s => exact absurd (named s rfl).2.1 (by decide)
      | true =>
          cases name with
          | none => exact ⟨.capture, .capture, fun _ => rfl, rfl⟩
          | some s =>
              refine ⟨.named s, ?_, fun _ => rfl, rfl⟩
              have opens := @Opens.named k s.toList (named s rfl).1 (by simpa using fresh s rfl)
              simpa [groupOpening] using opens

theorem opens_lookOpening (direction : Direction) (negative : Bool) :
    Opens k (lookOpening direction negative) (.look direction negative) := by
  cases direction with
  | ahead =>
      cases negative with
      | false => exact .ahead
      | true => exact .notAhead
  | behind =>
      cases negative with
      | false => exact .behind
      | true => exact .notBehind

theorem spell_inSequence {p : Pattern} (one : p.isAlternation = false) :
    spell extended true p = spell extended false p := by
  cases p with
  | alternation branches => exact absurd one (by simp [Pattern.isAlternation])
  | _ => simp [spell]

section FirstDigit

theorem startsWithDigit_iff {text : List Char} : startsWithDigit text = true ↔ DigitAhead text := by
  cases text with
  | nil => simp [startsWithDigit, DigitAhead]
  | cons c text => rfl

theorem startsWithDigit_append {text : List Char} (some_text : text ≠ []) (after : List Char) :
    startsWithDigit (text ++ after) = startsWithDigit text := by
  obtain ⟨c, text, rfl⟩ := List.exists_cons_of_ne_nil some_text
  rfl

private theorem startsWithDigit_literalChar (c : Char) (after : List Char) :
    startsWithDigit (literalChar extended c ++ after) = c.isDigit := by
  unfold literalChar
  split
  · next special => exact (not_alpha_of_isLiteralMeta special).2.symm
  split
  · next spaced =>
    have blank := (Bool.and_eq_true_iff.mp spaced).2
    have escape : ∃ s, spaceEscape c = '\\' :: s := by
      unfold spaceEscape
      repeat' split
      all_goals exact ⟨_, rfl⟩
    obtain ⟨s, same⟩ := escape
    rw [same]
    rcases Bool.or_eq_true_iff.mp blank with blank | hash
    · exact (not_alpha_of_isBlank blank).2.symm
    · obtain rfl : c = '#' := by simpa using hash
      rfl
  · rfl

theorem boundsText_head (least : UInt32) (most : Bound) :
    ∃ c s, boundsText least most = c :: s ∧ c.isDigit = false := by
  unfold boundsText
  repeat' split
  all_goals exact ⟨_, _, rfl, rfl⟩

theorem classText_head (negated : Bool) (items : List ClassItem) :
    ∃ c s, classText negated items = c :: s ∧ c.isDigit = false := by
  have bare {kind : Shorthand} {property : Option String} {text : List Char}
      (written : bareShorthand kind property = some text) : ∃ s, text = '\\' :: s := by
    unfold bareShorthand at written
    repeat' split at written
    all_goals simp at written
    all_goals exact ⟨_, written.symm⟩
  fun_cases classText negated items with
  | case1 kind property text written =>
      obtain ⟨s, rfl⟩ := bare written
      exact ⟨_, _, rfl, rfl⟩
  | _ => exact ⟨_, _, rfl, rfl⟩

theorem length_pos_of_sound {text : String} (sound : (Pattern.literal text).Sound) :
    1 ≤ text.length := by
  have some_text : text.length ≠ 0 := fun none => sound (String.length_eq_zero_iff.mp none)
  omega

theorem needsGroup_eq {p : Pattern} (sound : p.Sound) : needsGroup p = p.isCompound := by
  cases p with
  | literal text =>
      have positive := length_pos_of_sound sound
      by_cases one : text.length = 1
      · simp [needsGroup, Pattern.isCompound, one]
      · have several : 2 ≤ text.length := by omega
        simp [needsGroup, Pattern.isCompound, one, several]
  | _ => rfl

theorem startsWithDigit_literal {text : String} (sound : (Pattern.literal text).Sound)
    (after : List Char) :
    startsWithDigit (text.toList.flatMap (literalChar extended) ++ after) =
      text.toList.head?.any Char.isDigit := by
  cases chars : text.toList with
  | nil => exact absurd (String.toList_eq_nil_iff.mp chars) sound
  | cons c cs =>
      rw [List.flatMap_cons, List.append_assoc, startsWithDigit_literalChar]
      rfl

private theorem startsWithDigit_atom {p : Pattern} (atom : p.isCompound = false)
    (other : p.isLiteral = false) (stops : startsWithDigit after = false) :
    startsWithDigit (spell extended false p ++ after) = false := by
  cases p with
  | literal text => exact absurd other (by simp [Pattern.isLiteral])
  | sequence | alternation | repetition | look => exact absurd atom (by simp [Pattern.isCompound])
  | anyChar => rfl
  | anchor place =>
      cases place with
      | _ => rfl
  | charClass negated items =>
      obtain ⟨c, s, text, digit⟩ := classText_head negated items
      rw [spell, text]
      exact digit
  | backreference index name =>
      rw [spell]
      fun_cases backreferenceText index name with
      | case3 => exact stops
      | _ => rfl
  | group capturing body name atomic =>
      rw [spell]
      fun_cases groupOpening capturing name atomic with
      | _ => rfl

private theorem startsWithDigit_repetition {body : Pattern} {least : UInt32} {most : Bound}
    {greed : Greed} (sound : body.Sound) :
    startsWithDigit (spell extended true (.repetition body least most greed)) =
      Pattern.beginsWithDigit (.repetition body least most greed) := by
  obtain ⟨c, s, bounds, digit⟩ := boundsText_head least most
  rw [spell, List.append_assoc, needsGroup_eq sound, bounds]
  cases compound : body.isCompound with
  | true =>
      cases body with
      | literal text =>
          have several : 2 ≤ text.length := by simpa [Pattern.isCompound] using compound
          have not_one : (text.length == 1) = false := by simp; omega
          simp [wrapped, startsWithDigit, Pattern.beginsWithDigit, not_one]
      | _ => rfl
  | false =>
      cases body with
      | literal text =>
          have few : ¬ 2 ≤ text.length := by simpa [Pattern.isCompound] using compound
          have positive := length_pos_of_sound sound
          have one : (text.length == 1) = true := by simp; omega
          rw [wrapped, if_neg (by decide), spell, startsWithDigit_literal sound,
            Pattern.beginsWithDigit, one, Bool.true_and]
      | _ => exact startsWithDigit_atom compound rfl digit

theorem startsWithDigit_spell {p : Pattern} (sound : p.Throughout Pattern.Sound)
    (single : p.isSequence = false) :
    startsWithDigit (spell extended true p) = p.beginsWithDigit := by
  cases p with
  | sequence parts => exact absurd single (by simp [Pattern.isSequence])
  | literal text =>
      have read := @startsWithDigit_literal extended text (Pattern.throughout_iff.mp sound).1 []
      rw [List.append_nil] at read
      exact read
  | alternation branches => rfl
  | look direction negative body =>
      cases direction with
      | _ =>
          cases negative with
          | _ => rfl
  | repetition body least most greed =>
      obtain ⟨-, below⟩ := Pattern.throughout_repetition.mp sound
      exact startsWithDigit_repetition (Pattern.throughout_iff.mp below).1
  | _ =>
      rw [spell_inSequence rfl, ← List.append_nil (spell extended false _)]
      exact startsWithDigit_atom rfl rfl rfl

end FirstDigit

end PatternCompiler.Pcre2
