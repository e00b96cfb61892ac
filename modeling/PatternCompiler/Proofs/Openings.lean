import PatternCompiler.Reading.Group
import PatternCompiler.Proofs.Escapes

/-!
The group reader takes exactly the openings of the grammar. A plain parenthesis is an opening of
its own only where no `?` follows.
-/

set_option autoImplicit false
set_option relaxedAutoImplicit false

namespace PatternCompiler.Reading

open Scan Grammar

variable {c c' : Cursor}

private theorem namedOpening_ok {captures : Captures} {start : Nat} {o : Opening} :
    namedOpening captures start c = .ok o c' ↔
      ∃ name, c.Passes (name ++ ['>']) c' ∧ Identifier name ∧
        String.ofList name ∉ captures.names ∧ o = .named (String.ofList name) := by
  unfold namedOpening
  simp only [bind_ok (f := fun _ => _ >>= _), index_ok, eat_then_ok, takeWhile_ok]
  constructor
  · rintro ⟨_, _, ⟨rfl, rfl⟩, name, d, ⟨passed, _⟩, ⟨d', closed, read⟩ | ⟨_, failed⟩⟩
    · split at read
      · next identifier =>
        split at read
        · exact absurd read fail_ok
        · next fresh =>
          obtain ⟨rfl, rfl⟩ := pure_ok.mp read
          exact ⟨name, passed.append closed, isIdentifier_iff.mp identifier, fresh, rfl⟩
      · exact absurd read fail_ok
    · obtain ⟨_, _, _, failed⟩ := bind_ok.mp failed
      exact absurd failed fail_ok
  · rintro ⟨name, passed, identifier, fresh, rfl⟩
    obtain ⟨d, passed, closed⟩ := Cursor.passes_append.mp passed
    refine ⟨_, _, ⟨rfl, rfl⟩, name, d, ⟨passed, ?_, ?_⟩, .inl ⟨c', closed, ?_⟩⟩
    · intro x mem
      have word := identifier.mem mem
      have : x ≠ '>' := by
        rintro rfl
        exact absurd word (by decide)
      simpa using this
    · intro x head
      simpa [closed.1] using head.symm
    · rw [if_pos (isIdentifier_iff.mpr identifier), if_neg fresh]
      rfl

private theorem pass_pure_ok {s after : List Char} (text : c.rest = s ++ after) {o o' : Opening} :
    (do pass s.length; pure o' : Scan Opening) c = .ok o c' ↔ c.Passes s c' ∧ o = o' := by
  simp only [bind_ok, pass_ok text, pure_ok]
  constructor
  · rintro ⟨_, d, passed, rfl, rfl⟩
    exact ⟨passed, rfl⟩
  · rintro ⟨passed, rfl⟩
    exact ⟨(), c', passed, rfl, rfl⟩

theorem name_head_ne {name text after : List Char} {x : Char}
    (identifier : Identifier name) (other : (x.isAlphanum || x == '_') = false) :
    name ++ text ≠ x :: after := by
  intro same
  cases name with
  | nil => exact identifier.elim
  | cons first others =>
      simp only [List.cons_append, List.cons.injEq] at same
      have word := identifier.mem (x := x) (by simp [same.1])
      simp [other] at word

theorem openingOf_capture {captures : Captures} {start : Nat} {text : List Char}
    (unmarked : text.head? ≠ some '?') : openingOf captures start text = pure .capture := by
  unfold openingOf
  split
  all_goals simp_all

/-- The opening of a group or lookaround after its parenthesis. -/
theorem opening_ok {captures : Captures} {start : Nat} {o : Opening} :
    opening captures start c = .ok o c' ↔
      ∃ s, c.Passes s c' ∧ Opens captures ('(' :: s) o ∧
        (s = [] → c'.rest.head? ≠ some '?') := by
  change openingOf captures start c.rest c = .ok o c' ↔ _
  constructor
  · intro read
    generalize text : c.rest = rest at read
    fun_cases openingOf captures start rest with
    | case1 after =>
        obtain ⟨passed, rfl⟩ := (pass_pure_ok (s := ['?', ':']) text).mp read
        exact ⟨_, passed, .plain, by simp⟩
    | case2 after =>
        obtain ⟨passed, rfl⟩ := (pass_pure_ok (s := ['?', '<', '=']) text).mp read
        exact ⟨_, passed, .behind, by simp⟩
    | case3 after =>
        obtain ⟨passed, rfl⟩ := (pass_pure_ok (s := ['?', '<', '!']) text).mp read
        exact ⟨_, passed, .notBehind, by simp⟩
    | case4 after behind notBehind =>
        rw [openingOf.eq_4 _ _ _ behind notBehind] at read
        obtain ⟨_, d, passed, read⟩ := bind_ok.mp read
        have passed := (pass_ok (s := ['?', '<']) text).mp passed
        obtain ⟨name, passed', identifier, fresh, rfl⟩ := namedOpening_ok.mp read
        exact ⟨_, passed.append passed', .named identifier fresh, by simp⟩
    | case5 after =>
        obtain ⟨passed, rfl⟩ := (pass_pure_ok (s := ['?', '>']) text).mp read
        exact ⟨_, passed, .atomic, by simp⟩
    | case6 after =>
        obtain ⟨passed, rfl⟩ := (pass_pure_ok (s := ['?', '=']) text).mp read
        exact ⟨_, passed, .ahead, by simp⟩
    | case7 after =>
        obtain ⟨passed, rfl⟩ := (pass_pure_ok (s := ['?', '!']) text).mp read
        exact ⟨_, passed, .notAhead, by simp⟩
    | case8 x after plain behind notBehind named atomic ahead notAhead modifier =>
        rw [openingOf.eq_8 _ _ _ _ plain behind notBehind named atomic ahead notAhead,
          if_pos modifier] at read
        exact absurd read fail_ok
    | case9 x after plain behind notBehind named atomic ahead notAhead modifier =>
        rw [openingOf.eq_8 _ _ _ _ plain behind notBehind named atomic ahead notAhead,
          if_neg modifier] at read
        exact absurd read fail_ok
    | case10 => exact absurd read fail_ok
    | case11 _ _ _ _ _ _ _ _ marked alone =>
        have unmarked : rest.head? ≠ some '?' := by
          intro head
          obtain ⟨after, rfl⟩ := List.head?_eq_some_iff.mp head
          cases after with
          | nil => exact alone rfl
          | cons x after => exact marked x after rfl
        rw [openingOf_capture unmarked] at read
        obtain ⟨rfl, rfl⟩ := pure_ok.mp read
        exact ⟨[], by simp, .capture, fun _ => text ▸ unmarked⟩
  · rintro ⟨s, passed, opens, unmarked⟩
    have text := passed.1
    cases opens with
    | capture =>
        obtain rfl := Cursor.passes_nil.mp passed
        rw [openingOf_capture (unmarked rfl)]
        rfl
    | plain =>
        rw [text]
        exact (pass_pure_ok (s := ['?', ':']) text).mpr ⟨passed, rfl⟩
    | atomic =>
        rw [text]
        exact (pass_pure_ok (s := ['?', '>']) text).mpr ⟨passed, rfl⟩
    | ahead =>
        rw [text]
        exact (pass_pure_ok (s := ['?', '=']) text).mpr ⟨passed, rfl⟩
    | notAhead =>
        rw [text]
        exact (pass_pure_ok (s := ['?', '!']) text).mpr ⟨passed, rfl⟩
    | behind =>
        rw [text]
        exact (pass_pure_ok (s := ['?', '<', '=']) text).mpr ⟨passed, rfl⟩
    | notBehind =>
        rw [text]
        exact (pass_pure_ok (s := ['?', '<', '!']) text).mpr ⟨passed, rfl⟩
    | @named name identifier fresh =>
        obtain ⟨d, mark, passed⟩ := (Cursor.passes_append (s := ['?', '<'])).mp passed
        have text : c.rest = '?' :: '<' :: (name ++ (['>'] ++ c'.rest)) := by simpa using text
        rw [text, openingOf.eq_4]
        · refine bind_ok.mpr ⟨(), d, (pass_ok (s := ['?', '<']) mark.1).mpr mark, ?_⟩
          exact namedOpening_ok.mpr ⟨name, passed, identifier, fresh, rfl⟩
        · exact fun _ => name_head_ne identifier rfl
        · exact fun _ => name_head_ne identifier rfl

end PatternCompiler.Reading
