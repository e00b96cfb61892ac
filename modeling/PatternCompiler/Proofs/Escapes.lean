import PatternCompiler.Proofs.Scanning

/-!
The escape readers take exactly the escapes of the grammar.
-/

set_option autoImplicit false
set_option relaxedAutoImplicit false

namespace PatternCompiler.Reading

open Scan Grammar

variable {c c' : Cursor}

private theorem ne_brace_of_isHexDigit {d : Char} (h : isHexDigit d = true) : d ≠ '{' := by
  rintro rfl
  exact absurd h (by decide)

private theorem codePoint_ok {digits : List Char} {start : Nat} {ch : Char} :
    codePoint digits start c = .ok ch c' ↔ namedChar? digits = some ch ∧ c = c' := by
  unfold codePoint
  cases named : namedChar? digits with
  | some named => simp
  | none => simp

private theorem bracedCodePoint_ok {fault : Fault} {start : Nat} {ch : Char} :
    bracedCodePoint fault start c = .ok ch c' ↔
      ∃ digits, c.Passes (digits ++ ['}']) c' ∧ (∀ d ∈ digits, isHexDigit d = true) ∧
        namedChar? digits = some ch := by
  unfold bracedCodePoint
  simp only [bind_ok (f := fun _ => _ >>= _), eat_then_ok, fail_ok, and_false, or_false,
    codePoint_ok, takeWhile_ok]
  constructor
  · rintro ⟨digits, d, ⟨passed, hex, _⟩, d', closed, named, rfl⟩
    exact ⟨digits, passed.append closed, hex, named⟩
  · rintro ⟨digits, passed, hex, named⟩
    obtain ⟨d, passed, closed⟩ := Cursor.passes_append.mp passed
    refine ⟨digits, d, ⟨passed, hex, ?_⟩, c', closed, named, rfl⟩
    intro x head
    have : x = '}' := by simpa [closed.1] using head.symm
    subst this
    decide

private theorem fixedCodePoint_ok {count : Nat} {fault : Fault} {start : Nat} {ch : Char} :
    fixedCodePoint count fault start c = .ok ch c' ↔
      ∃ digits, c.Passes digits c' ∧ digits.length = count ∧ (∀ d ∈ digits, isHexDigit d = true) ∧
        namedChar? digits = some ch := by
  unfold fixedCodePoint
  simp only [bind_ok, rest_ok]
  constructor
  · rintro ⟨text, d, ⟨rfl, rfl⟩, u, d', passed, taken⟩
    have initial : (c.rest.take count).takeWhile isHexDigit <+: c.rest :=
      (List.takeWhile_prefix _).trans (List.take_prefix _ _)
    obtain ⟨after, text⟩ := initial
    rw [pass_ok text.symm] at passed
    split at taken
    · next full =>
      obtain ⟨named, rfl⟩ := codePoint_ok.mp taken
      exact ⟨_, passed, full, fun x hx => List.mem_takeWhile_imp hx, named⟩
    · exact absurd taken fail_ok
  · rintro ⟨digits, passed, rfl, hex, named⟩
    have run : (c.rest.take digits.length).takeWhile isHexDigit = digits := by
      rw [passed.1, List.take_left', List.takeWhile_eq_self_iff.mpr hex]
      rfl
    refine ⟨c.rest, c, ⟨rfl, rfl⟩, (), c', ?_, ?_⟩
    · rw [run]
      exact (pass_ok passed.1).mpr passed
    · rw [run, if_pos rfl]
      exact codePoint_ok.mpr ⟨named, rfl⟩

private theorem numericEscape_of_count {letter : Char} {count : Nat} {ch : Char}
    (braces : letter ∈ ['x', 'u'])
    (digits_iff : ∀ n, (letter, n) ∈ [('x', 2), ('u', 4), ('U', 8)] ↔ n = count + 1) :
    ((∃ d, c.Passes ['{'] d ∧
        ∃ digits, d.Passes (digits ++ ['}']) c' ∧ (∀ d ∈ digits, isHexDigit d = true) ∧
          namedChar? digits = some ch) ∨
      (c.rest.head? ≠ some '{' ∧
        ∃ digits, c.Passes digits c' ∧ digits.length = count + 1 ∧
          (∀ d ∈ digits, isHexDigit d = true) ∧ namedChar? digits = some ch)) ↔
      ∃ s, c.Passes s c' ∧ NumericEscape (letter :: s) ch := by
  constructor
  · rintro (⟨d, opened, digits, passed, hex, named⟩ | ⟨_, digits, passed, length, hex, named⟩)
    · exact ⟨_, opened.append passed, .braced braces (hexNumeral_iff.mpr ⟨hex, named⟩)⟩
    · exact ⟨digits, passed,
        .fixed ((digits_iff _).mpr length) (hexNumeral_iff.mpr ⟨hex, named⟩)⟩
  · rintro ⟨s, passed, spelled⟩
    cases spelled with
    | braced _ numeral =>
        obtain ⟨d, opened, passed⟩ := Cursor.passes_cons.mp passed
        exact .inl ⟨d, opened, _, passed, hexNumeral_iff.mp numeral⟩
    | fixed length numeral =>
        obtain ⟨hex, named⟩ := hexNumeral_iff.mp numeral
        have length := (digits_iff _).mp length
        refine .inr ⟨?_, s, passed, length, hex, named⟩
        cases s with
        | nil => simp at length
        | cons x _ =>
            rw [passed.1]
            simpa using ne_brace_of_isHexDigit (hex x (by simp))

theorem numericEscape?_ok {start : Nat} {letter : Char} {scan : Scan Char}
    (begins : numericEscape? start letter = some scan) {ch : Char} :
    scan c = .ok ch c' ↔ ∃ s, c.Passes s c' ∧ NumericEscape (letter :: s) ch := by
  unfold numericEscape? at begins
  split at begins
  · cases begins
    simp only [eat_then_ok, bracedCodePoint_ok, fixedCodePoint_ok]
    exact numericEscape_of_count (by simp) (by simp)
  · cases begins
    simp only [eat_then_ok, bracedCodePoint_ok, fixedCodePoint_ok]
    exact numericEscape_of_count (by simp) (by simp)
  · cases begins
    rw [fixedCodePoint_ok]
    constructor
    · rintro ⟨digits, passed, count, hex, named⟩
      exact ⟨digits, passed, .fixed (by simp [count]) (hexNumeral_iff.mpr ⟨hex, named⟩)⟩
    · rintro ⟨s, passed, spelled⟩
      cases spelled with
      | braced letter => simp at letter
      | fixed count numeral =>
          exact ⟨s, passed, by simpa using count, hexNumeral_iff.mp numeral⟩
  · cases begins

theorem numericEscape?_eq_none_iff {start : Nat} {letter : Char} :
    numericEscape? start letter = none ↔ letter ∉ ['x', 'u', 'U'] := by
  unfold numericEscape?
  split
  · simp
  · simp
  · simp
  · next x u U =>
    simp only [List.mem_cons, List.not_mem_nil, or_false, not_or, true_iff]
    exact ⟨x, u, U⟩

private theorem propertyName_ok {name : String} :
    propertyName c = .ok name c' ↔
      ∃ text, c.Passes ('{' :: text ++ ['}']) c' ∧ '}' ∉ text ∧ name = String.ofList text := by
  unfold propertyName
  simp only [bind_ok (f := fun _ => _ >>= _), index_ok, eat_then_ok, fail_ok, and_false, or_false,
    pure_ok, takeWhile_ok]
  constructor
  · rintro ⟨_, _, ⟨rfl, rfl⟩, d, opened, text, d', ⟨passed, inside, _⟩, d'', closed, rfl, rfl⟩
    exact ⟨text, opened.append (passed.append closed), fun mem => by simpa using inside _ mem, rfl⟩
  · rintro ⟨text, passed, inside, rfl⟩
    obtain ⟨d, opened, passed⟩ := Cursor.passes_cons.mp passed
    obtain ⟨d', passed, closed⟩ := Cursor.passes_append.mp passed
    refine ⟨_, _, ⟨rfl, rfl⟩, d, opened, text, d', ⟨passed, ?_, ?_⟩, c', closed, rfl, rfl⟩
    · intro x mem
      have : x ≠ '}' := fun same => inside (same ▸ mem)
      simpa using this
    · intro x head
      simpa [closed.1] using head.symm

theorem ofLetter?_of_classEscape {letter : Char} {s : List Char} {kind : Shorthand}
    {property : Option String} (h : ClassEscape (letter :: s) kind property) :
    Shorthand.ofLetter? letter = some kind := by
  cases h with
  | plain names => exact (mem_classLetters_iff.mp names).1
  | property names => exact (mem_propertyLetters_iff.mp names).1

theorem shorthandProperty_ok {letter : Char} {kind : Shorthand} {property : Option String}
    (names : Shorthand.ofLetter? letter = some kind) :
    shorthandProperty kind c = .ok property c' ↔
      ∃ s, c.Passes s c' ∧ ClassEscape (letter :: s) kind property := by
  unfold shorthandProperty
  cases named : kind.isProperty with
  | true =>
      rw [if_pos rfl]
      simp only [map_ok, propertyName_ok]
      constructor
      · rintro ⟨_, ⟨text, passed, inside, rfl⟩, rfl⟩
        exact ⟨_, passed, .property (mem_propertyLetters_iff.mpr ⟨names, named⟩) inside⟩
      · rintro ⟨s, passed, spelled⟩
        cases spelled with
        | plain letters =>
            have unnamed := (mem_classLetters_iff.mp letters).2
            simp [named] at unnamed
        | property _ inside => exact ⟨_, ⟨_, passed, inside, rfl⟩, rfl⟩
  | false =>
      rw [if_neg (by simp), pure_ok]
      constructor
      · rintro ⟨rfl, rfl⟩
        exact ⟨[], by simp, .plain (mem_classLetters_iff.mpr ⟨names, named⟩)⟩
      · rintro ⟨s, passed, spelled⟩
        cases spelled with
        | plain => exact ⟨rfl, (Cursor.passes_nil.mp passed).symm⟩
        | property letters =>
            have named' := (mem_propertyLetters_iff.mp letters).2
            simp [named] at named'

theorem count?_eq_some_iff {digits : List Char} {n : UInt32} :
    count? digits = some n ↔ Nat.ofDigitChars 10 digits 0 = n.toNat := by
  unfold count?
  simp only
  split
  · next small =>
    rw [Option.some.injEq]
    constructor
    · rintro rfl
      exact UInt32.toNat_ofNatLT.symm
    · intro same
      apply UInt32.toNat_inj.mp
      rw [UInt32.toNat_ofNatLT, same]
  · next large =>
    simp only [reduceCtorEq, false_iff]
    intro same
    exact large (same ▸ n.toNat_lt)

private theorem digit_head_iff {after : List Char} :
    (∀ x, after.head? = some x → Char.isDigit x = false) ↔ ¬ DigitAhead after := by
  cases after with
  | nil => simp [DigitAhead]
  | cons x _ => simp [DigitAhead]

theorem takeWhile_isDigit_ok {digits : List Char} :
    Scan.takeWhile Char.isDigit c = .ok digits c' ↔
      c.Passes digits c' ∧ (∀ x ∈ digits, x.isDigit = true) ∧ ¬ DigitAhead c'.rest := by
  rw [takeWhile_ok, digit_head_iff]

private theorem numberedReference_ok {captures : Captures} {start : Nat} {p : Pattern} :
    numberedReference captures start c = .ok p c' ↔
      ∃ digits n, c.Passes digits c' ∧ (∀ x ∈ digits, x.isDigit = true) ∧ ¬ DigitAhead c'.rest ∧
        Nat.ofDigitChars 10 digits 0 = n.toNat ∧ n ≤ captures.counter ∧
        p = .backreference (some n) none := by
  unfold numberedReference
  simp only [bind_ok, takeWhile_isDigit_ok]
  constructor
  · rintro ⟨digits, d, ⟨passed, all, stops⟩, taken⟩
    cases value : count? digits with
    | none => simp [value] at taken
    | some n =>
        simp only [value] at taken
        split at taken
        · next opened =>
          obtain ⟨rfl, rfl⟩ := pure_ok.mp taken
          exact ⟨digits, n, passed, all, stops, count?_eq_some_iff.mp value, opened, rfl⟩
        · exact absurd taken fail_ok
  · rintro ⟨digits, n, passed, all, stops, value, opened, rfl⟩
    refine ⟨digits, c', ⟨passed, all, stops⟩, ?_⟩
    simp only [count?_eq_some_iff.mpr value, if_pos opened]
    rfl

private theorem namedReference_ok {captures : Captures} {start : Nat} {p : Pattern} :
    namedReference captures start c = .ok p c' ↔
      ∃ name, c.Passes ('<' :: name ++ ['>']) c' ∧ '>' ∉ name ∧
        String.ofList name ∈ captures.names ∧
        p = .backreference none (some (String.ofList name)) := by
  unfold namedReference
  simp only [bind_ok (f := fun _ => _ >>= _), eat_then_ok, fail_ok, and_false, or_false,
    map_ok, takeWhile_ok]
  constructor
  · rintro ⟨d, opened, _, d', ⟨name, ⟨passed, inside, _⟩, rfl⟩, d'', closed, taken⟩
    split at taken
    · next known =>
      obtain ⟨rfl, rfl⟩ := pure_ok.mp taken
      exact ⟨name, opened.append (passed.append closed),
        fun mem => by simpa using inside _ mem, known, rfl⟩
    · exact absurd taken fail_ok
  · rintro ⟨name, passed, inside, known, rfl⟩
    obtain ⟨d, opened, passed⟩ := Cursor.passes_cons.mp passed
    obtain ⟨d', passed, closed⟩ := Cursor.passes_append.mp passed
    refine ⟨d, opened, _, d', ⟨name, ⟨passed, ?_, ?_⟩, rfl⟩, c', closed, ?_⟩
    · intro x mem
      have : x ≠ '>' := fun same => inside (same ▸ mem)
      simpa using this
    · intro x head
      simpa [closed.1] using head.symm
    · rw [if_pos known]
      rfl

theorem letter_of_numericEscape {letter : Char} {s : List Char} {ch : Char}
    (h : NumericEscape (letter :: s) ch) : letter = 'x' ∨ letter = 'u' ∨ letter = 'U' := by
  cases h with
  | braced braces =>
      simp only [List.mem_cons, List.not_mem_nil, or_false] at braces
      rcases braces with rfl | rfl
      · simp
      · simp
  | fixed count =>
      simp only [List.mem_cons, List.not_mem_nil, or_false, Prod.mk.injEq] at count
      rcases count with ⟨rfl, _⟩ | ⟨rfl, _⟩ | ⟨rfl, _⟩
      · simp
      · simp
      · simp

theorem isAlpha_iff_toNat {c : Char} :
    c.isAlpha = true ↔
      'A'.toNat ≤ c.toNat ∧ c.toNat ≤ 'Z'.toNat ∨ 'a'.toNat ≤ c.toNat ∧ c.toNat ≤ 'z'.toNat := by
  change (decide ('A'.val ≤ c.val ∧ c.val ≤ 'Z'.val) ||
    (decide ('a'.val ≤ c.val) && decide (c.val ≤ 'z'.val))) = true ↔ _
  simp only [Bool.or_eq_true, Bool.and_eq_true, decide_eq_true_eq, UInt32.le_iff_toNat_le]
  rfl

private theorem not_isAlpha_of_isDigit {c : Char} (h : c.isDigit = true) : c.isAlpha = false := by
  have range := Char.isDigit_iff_toNat.mp h
  rw [Bool.eq_false_iff, Ne, isAlpha_iff_toNat]
  simp only [Char.reduceToNat] at range ⊢
  omega

private theorem escapes_of_not_isAlpha {letter : Char} (other : letter.isAlpha = false) :
    Shorthand.ofLetter? letter = none ∧ anchorOfLetter? letter = none ∧ letter ≠ 'k' ∧
      controlChar? letter = none ∧ letter ∉ ['x', 'u', 'U'] := by
  refine ⟨?_, ?_, ?_, ?_, ?_⟩
  · unfold Shorthand.ofLetter?
    split <;> first | rfl | exact absurd other (by decide)
  · unfold anchorOfLetter?
    split <;> first | rfl | exact absurd other (by decide)
  · rintro rfl
    exact absurd other (by decide)
  · unfold controlChar?
    split <;> first | rfl | exact absurd other (by decide)
  · intro member
    simp only [List.mem_cons, List.not_mem_nil, or_false] at member
    rcases member with rfl | rfl | rfl <;> exact absurd other (by decide)

private theorem charEscape_ok {letter : Char} {start : Nat} {ch : Char} :
    charEscape letter start c = .ok ch c' ↔
      (letter = '0' ∧ ch = '\x00' ∧ c' = c) ∨
        (∃ s, c.Passes s c' ∧ NumericEscape (letter :: s) ch) ∨
          (controlChar? letter = some ch ∧ c' = c) ∨
            (letter.isAlpha = false ∧ letter ≠ '0' ∧ ch = letter ∧ c' = c) := by
  unfold charEscape
  constructor
  · intro taken
    split at taken
    · next zero =>
      obtain ⟨rfl, rfl⟩ := pure_ok.mp taken
      exact .inl ⟨zero, rfl, rfl⟩
    · next nonzero =>
      cases numeric : numericEscape? start letter with
      | some scan =>
          simp only [numeric] at taken
          exact .inr (.inl ((numericEscape?_ok numeric).mp taken))
      | none =>
          cases control : controlChar? letter with
          | some named =>
              simp only [numeric, control, pure_ok] at taken
              obtain ⟨rfl, rfl⟩ := taken
              exact .inr (.inr (.inl ⟨rfl, rfl⟩))
          | none =>
              simp only [numeric, control] at taken
              split at taken
              · exact absurd taken fail_ok
              · next other =>
                obtain ⟨rfl, rfl⟩ := pure_ok.mp taken
                exact .inr (.inr (.inr ⟨by simpa using other, nonzero, rfl, rfl⟩))
  · rintro (⟨rfl, rfl, rfl⟩ | ⟨s, passed, spelled⟩ | ⟨named, rfl⟩ | ⟨other, nonzero, rfl, rfl⟩)
    · rfl
    · cases numeric : numericEscape? start letter with
      | none =>
          have := numericEscape?_eq_none_iff.mp numeric
          have := letter_of_numericEscape spelled
          simp_all
      | some scan =>
          have nonzero : letter ≠ '0' := by
            rintro rfl
            simp [numericEscape?] at numeric
          simp only [if_neg nonzero]
          exact (numericEscape?_ok numeric).mpr ⟨s, passed, spelled⟩
    · unfold controlChar? at named
      split at named <;> cases named <;> rfl
    · obtain ⟨_, _, _, control, numeric⟩ := escapes_of_not_isAlpha other
      simp [nonzero, numericEscape?_eq_none_iff.mpr numeric, control, other]

private theorem letterEscape_of_charEscape {captures : Captures} {letter : Char} {start : Nat}
    {ch : Char} (kind : Shorthand.ofLetter? letter = none) (place : anchorOfLetter? letter = none)
    (unnamed : letter ≠ 'k') (read : charEscape letter start c = .ok ch c') :
    letterEscape captures letter start c = .ok (.literal (String.singleton ch)) c' := by
  unfold letterEscape
  simp only [kind, place, if_neg unnamed]
  exact map_ok.mpr ⟨ch, read, rfl⟩

private theorem letterEscape_ok {free : Bool} {captures : Captures} {letter : Char} {start : Nat}
    {p : Pattern} (single : letter.isDigit = true → letter = '0') :
    letterEscape captures letter start c = .ok p c' ↔
      ∃ s, c.Passes s c' ∧ Leaf free captures ('\\' :: letter :: s) c'.rest p := by
  constructor
  · intro taken
    unfold letterEscape at taken
    cases kind : Shorthand.ofLetter? letter with
    | some kind' =>
        simp only [kind, map_ok, shorthandProperty_ok kind] at taken
        obtain ⟨property, ⟨s, passed, spelled⟩, rfl⟩ := taken
        exact ⟨s, passed, .shorthand spelled⟩
    | none =>
        cases place : anchorOfLetter? letter with
        | some place' =>
            simp only [kind, place, pure_ok] at taken
            obtain ⟨rfl, rfl⟩ := taken
            exact ⟨[], by simp, .anchor (mem_anchorLetters_iff.mpr place)⟩
        | none =>
            simp only [kind, place] at taken
            split at taken
            · next named =>
              subst named
              obtain ⟨name, passed, inside, known, rfl⟩ := namedReference_ok.mp taken
              exact ⟨_, passed, .name inside known⟩
            · obtain ⟨ch, read, rfl⟩ := map_ok.mp taken
              rcases charEscape_ok.mp read with
                ⟨rfl, rfl, rfl⟩ | ⟨s, passed, spelled⟩ | ⟨control, rfl⟩ | ⟨other, nonzero, rfl, rfl⟩
              · exact ⟨[], by simp, .nul⟩
              · exact ⟨s, passed, .numeric spelled⟩
              · exact ⟨[], by simp, .control (mem_controlLetters_iff.mpr control)⟩
              · refine ⟨[], by simp, .identity other ?_⟩
                cases digit : ch.isDigit with
                | false => rfl
                | true => exact absurd (single digit) nonzero
  · rintro ⟨s, passed, spelled⟩
    cases spelled with
    | bracketClass bracket => cases bracket
    | number value nonzero =>
        have zero := single (value.2.1 letter (by simp))
        simp [zero] at nonzero
    | name inside known => exact namedReference_ok.mpr ⟨_, passed, inside, known, rfl⟩
    | shorthand spelled =>
        have names := ofLetter?_of_classEscape spelled
        unfold letterEscape
        simp only [names]
        exact map_ok.mpr ⟨_, (shorthandProperty_ok names).mpr ⟨s, passed, spelled⟩, rfl⟩
    | anchor letters =>
        obtain rfl := Cursor.passes_nil.mp passed
        have place := mem_anchorLetters_iff.mp letters
        have kind : Shorthand.ofLetter? letter = none := by
          unfold anchorOfLetter? at place
          split at place <;> first | rfl | cases place
        unfold letterEscape
        simp only [kind, place]
        rfl
    | nul =>
        exact letterEscape_of_charEscape rfl rfl (by decide)
          (charEscape_ok.mpr (.inl ⟨rfl, rfl, Cursor.passes_nil.mp passed⟩))
    | numeric spelled =>
        have read : charEscape letter start c = .ok _ c' :=
          charEscape_ok.mpr (.inr (.inl ⟨s, passed, spelled⟩))
        rcases letter_of_numericEscape spelled with rfl | rfl | rfl
        · exact letterEscape_of_charEscape rfl rfl (by decide) read
        · exact letterEscape_of_charEscape rfl rfl (by decide) read
        · exact letterEscape_of_charEscape rfl rfl (by decide) read
    | control letters =>
        have named := mem_controlLetters_iff.mp letters
        have read : charEscape letter start c = .ok _ c' :=
          charEscape_ok.mpr (.inr (.inr (.inl ⟨named, Cursor.passes_nil.mp passed⟩)))
        unfold controlChar? at named
        split at named
        · exact letterEscape_of_charEscape rfl rfl (by decide) read
        · exact letterEscape_of_charEscape rfl rfl (by decide) read
        · exact letterEscape_of_charEscape rfl rfl (by decide) read
        · exact letterEscape_of_charEscape rfl rfl (by decide) read
        · exact letterEscape_of_charEscape rfl rfl (by decide) read
        · cases named
    | identity other nodigit =>
        obtain ⟨kind, place, unnamed, _, _⟩ := escapes_of_not_isAlpha other
        have nonzero : letter ≠ '0' := by
          rintro rfl
          exact absurd nodigit (by decide)
        exact letterEscape_of_charEscape kind place unnamed
          (charEscape_ok.mpr
            (.inr (.inr (.inr ⟨other, nonzero, rfl, Cursor.passes_nil.mp passed⟩))))

private theorem exists_letter_of_leaf {free : Bool} {captures : Captures} {s after : List Char}
    {p : Pattern} (h : Leaf free captures ('\\' :: s) after p) :
    ∃ letter tail, s = letter :: tail := by
  cases s with
  | cons letter tail => exact ⟨letter, tail, rfl⟩
  | nil =>
      cases h with
      | ordinary plain => simp [Ordinary] at plain
      | bracketClass bracket => cases bracket
      | number value => exact absurd rfl value.1
      | shorthand spelled => cases spelled
      | numeric spelled => cases spelled

private theorem number_of_leaf {free : Bool} {captures : Captures} {letter : Char}
    {tail after : List Char} {p : Pattern} (digit : letter.isDigit = true ∧ letter ≠ '0')
    (h : Leaf free captures ('\\' :: letter :: tail) after p) :
    ∃ n, Numeral (letter :: tail) n ∧ ¬ DigitAhead after ∧ n ≤ captures.counter ∧
      p = .backreference (some n) none := by
  have other : letter.isAlpha = false := not_isAlpha_of_isDigit digit.1
  obtain ⟨kind, place, unnamed, control, numeric⟩ := escapes_of_not_isAlpha other
  cases h with
  | bracketClass bracket => cases bracket
  | number value _ stops opened => exact ⟨_, value, stops, opened, rfl⟩
  | name => exact absurd rfl unnamed
  | shorthand spelled =>
      have names := ofLetter?_of_classEscape spelled
      simp [kind] at names
  | anchor letters =>
      have names := mem_anchorLetters_iff.mp letters
      simp [place] at names
  | nul => exact absurd rfl digit.2
  | numeric spelled =>
      have := letter_of_numericEscape spelled
      simp_all
  | control letters =>
      have names := mem_controlLetters_iff.mp letters
      simp [control] at names
  | identity _ nodigit => simp [digit.1] at nodigit

/-- The escape reader takes the escapes of the grammar. -/
theorem escape_ok {free : Bool} {captures : Captures} {start : Nat} {p : Pattern} :
    escape captures start c = .ok p c' ↔
      ∃ s, c.Passes s c' ∧ Leaf free captures ('\\' :: s) c'.rest p := by
  unfold escape
  simp only [bind_ok, rest_ok]
  constructor
  · rintro ⟨text, d, ⟨rfl, rfl⟩, taken⟩
    cases text : c.rest with
    | nil => simp [text] at taken
    | cons letter tail =>
        simp only [text] at taken
        split at taken
        · next digit =>
          obtain ⟨digits, n, passed, all, stops, value, opened, rfl⟩ :=
            numberedReference_ok.mp taken
          simp only [Bool.and_eq_true, bne_iff_ne] at digit
          cases digits with
          | nil =>
              obtain rfl := Cursor.passes_nil.mp passed
              exact absurd (by simpa [text, DigitAhead] using digit.1) stops
          | cons head others =>
              have same : head = letter := by
                have heads := passed.1
                simp only [text, List.cons_append, List.cons.injEq] at heads
                exact heads.1.symm
              refine ⟨_, passed, .number ⟨by simp, all, value⟩ ?_ stops opened⟩
              simpa [same] using digit.2
        · next single =>
          obtain ⟨_, d, passed, read⟩ := bind_ok.mp taken
          have passed := (pass_ok (s := [letter]) text).mp passed
          obtain ⟨s, passed', spelled⟩ := (letterEscape_ok (by simpa using single)).mp read
          exact ⟨_, passed.append passed', spelled⟩
  · rintro ⟨s, passed, spelled⟩
    refine ⟨c.rest, c, ⟨rfl, rfl⟩, ?_⟩
    obtain ⟨letter, tail, rfl⟩ := exists_letter_of_leaf spelled
    rw [passed.1, List.cons_append]
    by_cases digit : letter.isDigit = true ∧ letter ≠ '0'
    · have choice : (letter.isDigit && letter != '0') = true := by simpa using digit
      simp only [if_pos choice]
      obtain ⟨n, value, stops, opened, rfl⟩ := number_of_leaf digit spelled
      exact numberedReference_ok.mpr
        ⟨_, n, passed, value.2.1, stops, value.2.2, opened, rfl⟩
    · have choice : ¬ (letter.isDigit && letter != '0') = true := by simpa using digit
      simp only [if_neg choice]
      obtain ⟨d, first, second⟩ := Cursor.passes_cons.mp passed
      refine bind_ok.mpr ⟨(), d, (pass_ok (s := [letter]) first.1).mpr first, ?_⟩
      exact (letterEscape_ok (by simpa using digit)).mpr ⟨tail, second, spelled⟩

end PatternCompiler.Reading
