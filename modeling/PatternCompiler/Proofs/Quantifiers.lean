import PatternCompiler.Reading.Quantifier
import PatternCompiler.Proofs.Escapes

/-!
The quantifier reader takes exactly the quantifiers of the grammar. Whether it takes one depends on
the text after the atom, so the readings that take nothing are those before a text that no
quantifier begins.
-/

set_option autoImplicit false
set_option relaxedAutoImplicit false

namespace PatternCompiler.Reading

open Scan Grammar

variable {c c' : Cursor}

theorem bound_ok (digit : DigitAhead c.rest) {n : UInt32} :
    bound c = .ok n c' ↔
      ∃ digits, c.Passes digits c' ∧ Numeral digits n ∧ ¬ DigitAhead c'.rest := by
  unfold bound
  simp only [bind_ok, index_ok, takeWhile_isDigit_ok]
  constructor
  · rintro ⟨_, _, ⟨rfl, rfl⟩, digits, d, ⟨passed, all, stops⟩, taken⟩
    cases value : count? digits with
    | none => simp [value] at taken
    | some n' =>
        simp only [value, pure_ok] at taken
        obtain ⟨rfl, rfl⟩ := taken
        refine ⟨digits, passed, ⟨?_, all, count?_eq_some_iff.mp value⟩, stops⟩
        rintro rfl
        rw [Cursor.passes_nil.mp passed] at stops
        exact stops digit
  · rintro ⟨digits, passed, ⟨_, all, value⟩, stops⟩
    refine ⟨_, _, ⟨rfl, rfl⟩, digits, c', ⟨passed, all, stops⟩, ?_⟩
    simp only [count?_eq_some_iff.mpr value]
    rfl

private theorem digitAhead_of_numeral {digits : List Char} {n : UInt32} (h : Numeral digits n)
    (after : List Char) : DigitAhead (digits ++ after) := by
  cases digits with
  | nil => exact absurd rfl h.1
  | cons x _ => exact h.2.1 x (by simp)

theorem upperBound_ok {most : Option UInt32} :
    upperBound c = .ok most c' ↔
      (∃ digits n, c.Passes digits c' ∧ Numeral digits n ∧ ¬ DigitAhead c'.rest ∧ most = some n) ∨
        (¬ DigitAhead c.rest ∧ most = none ∧ c' = c) := by
  unfold upperBound
  simp only [bind_ok, rest_ok]
  constructor
  · rintro ⟨_, _, ⟨rfl, rfl⟩, taken⟩
    cases text : c.rest with
    | nil =>
        simp only [text, pure_ok] at taken
        obtain ⟨rfl, rfl⟩ := taken
        exact .inr ⟨id, rfl, rfl⟩
    | cons x after =>
        simp only [text] at taken
        split at taken
        · next digit =>
          have ahead : DigitAhead c.rest := by
            rw [text]
            exact digit
          simp only [map_ok, bound_ok ahead] at taken
          obtain ⟨n, ⟨digits, passed, value, stops⟩, rfl⟩ := taken
          exact .inl ⟨digits, n, passed, value, stops, rfl⟩
        · next other =>
          obtain ⟨rfl, rfl⟩ := pure_ok.mp taken
          exact .inr ⟨other, rfl, rfl⟩
  · intro h
    refine ⟨_, _, ⟨rfl, rfl⟩, ?_⟩
    rcases h with ⟨digits, n, passed, value, stops, rfl⟩ | ⟨other, rfl, rfl⟩
    · have ahead := digitAhead_of_numeral value c'.rest
      rw [← passed.1] at ahead
      cases text : c.rest with
      | nil => simp [text, DigitAhead] at ahead
      | cons x after =>
          have digit : x.isDigit = true := by simpa [text, DigitAhead] using ahead
          simp only [if_pos digit]
          exact map_ok.mpr ⟨n, (bound_ok ahead).mpr ⟨digits, passed, value, stops⟩, rfl⟩
    · cases text : c'.rest with
      | nil => rfl
      | cons x after =>
          have digit : ¬ x.isDigit = true := by simpa [text, DigitAhead] using other
          simp only [if_neg digit]
          rfl

private theorem bracedBounds_ok (digit : DigitAhead c.rest) {start : Nat} {least : UInt32}
    {most : Bound} :
    bracedBounds start c = .ok (least, most) c' ↔
      ∃ s, c.Passes s c' ∧ Bounds ('{' :: s) least most := by
  unfold bracedBounds
  simp only [bind_ok (f := fun _ => _ >>= _), eat_then_ok, bound_ok digit, upperBound_ok]
  constructor
  · rintro ⟨n, d, ⟨digits, passed, value, _⟩,
      (⟨d₁, comma, most', d₂, upper, ⟨d₃, closed, taken⟩ | ⟨_, failed⟩⟩ |
        ⟨_, ⟨d₁, closed, taken⟩ | ⟨_, failed⟩⟩)⟩
    · rcases upper with ⟨digits', n', passed', value', _, rfl⟩ | ⟨_, rfl, rfl⟩
      · simp only at taken
        split at taken
        · next ascending =>
          cases taken
          exact ⟨_, passed.append (comma.append (passed'.append closed)),
            .between value value' ascending⟩
        · exact absurd taken fail_ok
      · cases taken
        exact ⟨_, passed.append (comma.append closed), .atLeast value⟩
    · obtain ⟨_, _, _, failed⟩ := bind_ok.mp failed
      exact absurd failed fail_ok
    · cases taken
      exact ⟨_, passed.append closed, .exactly value⟩
    · obtain ⟨_, _, _, failed⟩ := bind_ok.mp failed
      exact absurd failed fail_ok
  · rintro ⟨s, passed, spelled⟩
    cases spelled with
    | exactly value =>
        obtain ⟨d, passed, closed⟩ := Cursor.passes_append.mp passed
        refine ⟨_, d, ⟨_, passed, value, ?_⟩, .inr ⟨?_, .inl ⟨c', closed, rfl⟩⟩⟩
        · simp [closed.1, DigitAhead]
        · simp [closed.1]
    | atLeast value =>
        obtain ⟨d, passed, closed⟩ := Cursor.passes_append.mp passed
        obtain ⟨d₁, comma, closed⟩ := Cursor.passes_cons.mp closed
        refine ⟨_, d, ⟨_, passed, value, ?_⟩,
          .inl ⟨d₁, comma, none, d₁, .inr ⟨?_, rfl, rfl⟩, .inl ⟨c', closed, rfl⟩⟩⟩
        · simp [comma.1, DigitAhead]
        · simp [closed.1, DigitAhead]
    | between value value' ascending =>
        obtain ⟨d, passed, closed⟩ := Cursor.passes_append.mp passed
        obtain ⟨d₁, comma, closed⟩ := Cursor.passes_cons.mp closed
        obtain ⟨d₂, passed', closed⟩ := Cursor.passes_append.mp closed
        refine ⟨_, d, ⟨_, passed, value, ?_⟩,
          .inl ⟨d₁, comma, some _, d₂, .inl ⟨_, _, passed', value', ?_, rfl⟩,
            .inl ⟨c', closed, ?_⟩⟩⟩
        · simp [comma.1, DigitAhead]
        · simp [closed.1, DigitAhead]
        · simp only [if_pos ascending]
          rfl

private theorem greed_ok {mode : Greed} :
    greed c = .ok mode c' ↔
      ∃ s, c.Passes s c' ∧ Mark s mode ∧
        (s = [] → c'.rest.head? ≠ some '?' ∧ c'.rest.head? ≠ some '+') := by
  unfold greed
  simp only [eat_then_ok, pure_ok]
  constructor
  · rintro (⟨d, mark, rfl, rfl⟩ | ⟨eager, ⟨d, mark, rfl, rfl⟩ | ⟨releasing, rfl, rfl⟩⟩)
    · exact ⟨['?'], mark, .lazy, by simp⟩
    · exact ⟨['+'], mark, .possessive, by simp⟩
    · exact ⟨[], by simp, .greedy, fun _ => ⟨eager, releasing⟩⟩
  · rintro ⟨s, passed, mark, stops⟩
    cases mark with
    | greedy =>
        obtain rfl := Cursor.passes_nil.mp passed
        exact .inr ⟨(stops rfl).1, .inr ⟨(stops rfl).2, rfl, rfl⟩⟩
    | lazy => exact .inl ⟨c', passed, rfl, rfl⟩
    | possessive => exact .inr ⟨by simp [passed.1], .inl ⟨c', passed, rfl, rfl⟩⟩

theorem startsQuantifier_iff {first : Char} {tail : List Char} :
    startsQuantifier (first :: tail) = true ↔
      first = '*' ∨ first = '+' ∨ first = '?' ∨ (first = '{' ∧ DigitAhead tail) := by
  unfold startsQuantifier
  split
  · simp_all
  · simp_all
  · simp_all
  · simp_all [DigitAhead]
  · next star plus mark brace =>
    simp only [Bool.false_eq_true, false_iff, not_or, not_and]
    refine ⟨?_, ?_, ?_, ?_⟩
    · rintro rfl
      exact star tail rfl
    · rintro rfl
      exact plus tail rfl
    · rintro rfl
      exact mark tail rfl
    · rintro rfl
      cases tail with
      | nil => simp [DigitAhead]
      | cons x after => exact absurd rfl (brace x after)

private theorem pure_bounds_ok {first : Char} {l least : UInt32} {m most : Bound}
    (only : ∀ s, Bounds (first :: s) least most ↔ s = [] ∧ least = l ∧ most = m) :
    (pure (l, m) : Scan (UInt32 × Bound)) c = .ok (least, most) c' ↔
      ∃ s, c.Passes s c' ∧ Bounds (first :: s) least most := by
  simp only [pure_ok, only, Prod.mk.injEq]
  constructor
  · rintro ⟨⟨rfl, rfl⟩, rfl⟩
    exact ⟨[], by simp, rfl, rfl, rfl⟩
  · rintro ⟨s, passed, rfl, rfl, rfl⟩
    exact ⟨⟨rfl, rfl⟩, (Cursor.passes_nil.mp passed).symm⟩

private theorem boundsAfter_ok {first : Char} {start : Nat} {least : UInt32} {most : Bound}
    (begins : startsQuantifier (first :: c.rest) = true) :
    boundsAfter start first c = .ok (least, most) c' ↔
      ∃ s, c.Passes s c' ∧ Bounds (first :: s) least most := by
  rcases startsQuantifier_iff.mp begins with rfl | rfl | rfl | ⟨rfl, digit⟩
  · refine pure_bounds_ok fun s => ⟨fun h => ?_, ?_⟩
    · cases h
      exact ⟨rfl, rfl, rfl⟩
    · rintro ⟨rfl, rfl, rfl⟩
      exact .star
  · refine pure_bounds_ok fun s => ⟨fun h => ?_, ?_⟩
    · cases h
      exact ⟨rfl, rfl, rfl⟩
    · rintro ⟨rfl, rfl, rfl⟩
      exact .plus
  · refine pure_bounds_ok fun s => ⟨fun h => ?_, ?_⟩
    · cases h
      exact ⟨rfl, rfl, rfl⟩
    · rintro ⟨rfl, rfl, rfl⟩
      exact .optional
  · exact bracedBounds_ok digit

private theorem startsQuantifier_brace {digits : List Char} {n : UInt32} (value : Numeral digits n)
    (after : List Char) : startsQuantifier ('{' :: (digits ++ after)) = true :=
  startsQuantifier_iff.mpr (.inr (.inr (.inr ⟨rfl, digitAhead_of_numeral value after⟩)))

private theorem startsQuantifier_of_bounds {s : List Char} {least : UInt32} {most : Bound}
    (h : Bounds s least most) (after : List Char) : startsQuantifier (s ++ after) = true := by
  cases h with
  | star => rfl
  | plus => rfl
  | optional => rfl
  | exactly value => simpa using startsQuantifier_brace value ('}' :: after)
  | atLeast value => simpa using startsQuantifier_brace value (',' :: '}' :: after)
  | @between _ high _ _ value =>
      simpa using startsQuantifier_brace value (',' :: (high ++ '}' :: after))

/-- What is read after an atom is nothing or a quantifier that it may take. -/
theorem quantified_of_quantify {p q : Pattern} (read : quantify p c = .ok q c') :
    ∃ s, c.Passes s c' ∧ Quantified p s q := by
  change quantifyWith p c.index c.rest c = .ok q c' at read
  unfold quantifyWith at read
  cases text : c.rest with
  | nil =>
      simp only [text, pure_ok] at read
      obtain ⟨rfl, rfl⟩ := read
      exact ⟨[], by simp, .bare⟩
  | cons first tail =>
      simp only [text] at read
      split at read
      · next begins =>
        split at read
        · exact absurd read fail_ok
        · next notAnchor =>
          cases name : p.groupName? with
          | some name => simp [name] at read
          | none =>
              simp only [name] at read
              obtain ⟨_, d, passed, read⟩ := bind_ok.mp read
              obtain ⟨⟨least, most⟩, d', bounds, read⟩ := bind_ok.mp read
              have passed := (pass_ok (s := [first]) text).mp passed
              rw [← passed.rest_eq text] at begins
              obtain ⟨s, passed', spelled⟩ := (boundsAfter_ok begins).mp bounds
              obtain ⟨mode, mark, rfl⟩ := map_ok.mp read
              obtain ⟨s', passed'', spelled', _⟩ := greed_ok.mp mark
              exact ⟨first :: s ++ s', (passed.append passed').append passed'',
                .repeated (isAnchor_eq_false_iff.mp (by simpa using notAnchor))
                  (groupName?_eq_none_iff.mp name) spelled spelled'⟩
      · obtain ⟨rfl, rfl⟩ := pure_ok.mp read
        exact ⟨[], by simp, .bare⟩

theorem quantify_of_quantified {s : List Char} {p q : Pattern} (h : Quantified p s q)
    (passed : c.Passes s c') (stops : startsQuantifier c'.rest = false) :
    quantify p c = .ok q c' := by
  change quantifyWith p c.index c.rest c = .ok q c'
  unfold quantifyWith
  cases h with
  | bare =>
      obtain rfl := Cursor.passes_nil.mp passed
      cases text : c'.rest with
      | nil => rfl
      | cons first tail =>
          rw [text] at stops
          simp only [stops]
          rfl
  | @repeated s s' least most mode notAnchor unnamed spelled mark =>
      obtain ⟨d, passed, passed'⟩ := Cursor.passes_append.mp passed
      have begins := startsQuantifier_of_bounds spelled d.rest
      rw [← passed.1] at begins
      cases s with
      | nil => cases spelled
      | cons first tail =>
          obtain ⟨d₁, head, passed⟩ := Cursor.passes_cons.mp passed
          have text : c.rest = first :: d₁.rest := head.1
          rw [text] at begins
          simp only [text, if_pos begins, isAnchor_eq_false_iff.mpr notAnchor, Bool.false_eq_true,
            if_false, groupName?_eq_none_iff.mpr unnamed]
          refine bind_ok.mpr ⟨(), d₁, (pass_ok (s := [first]) text).mpr head, ?_⟩
          refine bind_ok.mpr
            ⟨(least, most), d, (boundsAfter_ok begins).mpr ⟨tail, passed, spelled⟩, ?_⟩
          refine map_ok.mpr ⟨mode, greed_ok.mpr ⟨s', passed', mark, fun _ => ?_⟩, rfl⟩
          constructor
          · intro ahead
            obtain ⟨after, text⟩ := List.head?_eq_some_iff.mp ahead
            simp [text, startsQuantifier] at stops
          · intro ahead
            obtain ⟨after, text⟩ := List.head?_eq_some_iff.mp ahead
            simp [text, startsQuantifier] at stops

end PatternCompiler.Reading
