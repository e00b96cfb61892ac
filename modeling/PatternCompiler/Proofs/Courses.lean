import PatternCompiler.Proofs.Reports

/-!
What one step of a reading can do. `Course` lists it once, with the table of groups and, where a
reading ends, the place that each course leaves. What holds of a run is then shown by going through
the courses, without opening the step again.
-/

set_option autoImplicit false
set_option relaxedAutoImplicit false

namespace PatternCompiler

private theorem Cursor.exists_within (c : Cursor) : ∃ text, c.Within text := by
  refine ⟨List.replicate c.index ' ' ++ c.rest, ?_, ?_⟩
  · rw [List.drop_append_of_le_length (by simp)]
    simp
  · simp

namespace Reading

open Scan

/-- The courses that a step may take once the spacing at the cursor is passed. -/
inductive Course (r : Reading) : Step Reading Outcome → Prop
  | goesOn {r' : Reading} : r'.captures = r.captures → Course r (.next r')
  | opens {r' : Reading} {o : Opening} :
      opening r.captures r.cursor.index (r.cursor.advance 1) = .ok o r'.cursor →
      r.cursor.rest ≠ [] → r'.captures = r.captures.enter o → Course r (.next r')
  | stops {outcome : Outcome} {v : Violation} :
      outcome.result = .error v → v.fault ≠ .unmatchedParenthesis →
      outcome.captures = r.captures → Course r (.halt outcome)
  | unmatched {after : List Char} :
      r.frames = [] → r.cursor.rest = ')' :: after →
      Course r (r.stop ⟨.unmatchedParenthesis, r.cursor.index⟩ r.cursor)
  | ends :
      r.frames = [] → r.cursor.rest = [] →
      Course r (.halt ⟨.ok r.draft.pattern, r.cursor, r.captures, r.looseBraces.reverse⟩)

variable {r s : Reading} {v : Violation} {c d : Cursor}

private theorem course_stop (table : s.captures = r.captures)
    (other : v.fault ≠ .unmatchedParenthesis) :
    Course r (s.stop v c) :=
  .stops rfl other table

private theorem course_token (table : s.captures = r.captures)
    (lexical : v.fault.isLexical = true) :
    Course r (s.stop v c) := by
  refine course_stop table fun same => ?_
  rw [same] at lexical
  cases lexical

private theorem course_addTerm {p : Pattern} (table : s.captures = r.captures) :
    Course r (s.addTerm p) := by
  unfold addTerm
  split
  · next failed =>
    obtain ⟨text, within⟩ := s.cursor.exists_within
    exact course_token table (reports_quantify p within _ _ failed).lexical
  · exact .goesOn table

private theorem course_readTerm (some_left : r.cursor.rest ≠ []) : Course r r.readTerm := by
  unfold readTerm
  split
  · next failed =>
    obtain ⟨text, within⟩ := r.cursor.exists_within
    exact course_token rfl (reports_atom within some_left _ _ failed).lexical
  · exact course_addTerm rfl

private theorem course_readBar : Course r r.readBar := by
  unfold readBar
  split
  · exact course_stop rfl (by simp)
  · simp only
    split
    · exact course_stop rfl (by simp)
    · exact course_stop rfl (by simp)
    · exact course_stop rfl (by simp)
    · exact .goesOn rfl

private theorem course_readOpening {after : List Char}
    (parenthesis : r.cursor.rest = '(' :: after) :
    Course r r.readOpening := by
  have passed : r.cursor.Passes ['('] (r.cursor.advance 1) := .of_rest parenthesis
  unfold readOpening
  split
  · next failed =>
    obtain ⟨text, within⟩ := r.cursor.exists_within
    exact course_token rfl (reports_opening within passed _ _ failed).lexical
  · next read => exact .opens read (by simp [parenthesis]) rfl

private theorem course_finish : Course r r.finish := by
  unfold finish
  split
  · next outermost done => exact .ends outermost done
  · next outermost parenthesis => exact .unmatched outermost parenthesis
  · exact course_stop rfl (by simp)
  · exact course_stop rfl (by simp)

private theorem course_readClosing : Course r r.readClosing := by
  unfold readClosing
  split
  · exact course_finish
  · exact course_addTerm rfl

private theorem course_dispatch (r : Reading) : Course r r.dispatch := by
  unfold dispatch
  split
  · exact course_finish
  · exact course_readBar
  · exact course_readClosing
  · next parenthesis => exact course_readOpening parenthesis
  · next some_left _ _ _ => exact course_readTerm some_left

/-- Every step takes one of the courses from behind the spacing. -/
theorem course_step (r : Reading) : Course { r with cursor := r.cursor.skip } r.step :=
  course_dispatch _

variable {outcome : Outcome} {t : Pattern} {pos : Nat}

theorem captures_of_step (halted : r.step = .halt outcome) : outcome.captures = r.captures := by
  have course := course_step r
  rw [halted] at course
  cases course with
  | stops _ _ table => exact table
  | unmatched => rfl
  | ends => rfl

theorem ended_of_step (halted : r.step = .halt outcome) (read : outcome.result = .ok t) :
    r.frames = [] ∧ r.cursor.skip.rest = [] ∧ outcome.cursor = r.cursor.skip := by
  have course := course_step r
  rw [halted] at course
  cases course with
  | stops failed => cases failed.symm.trans read
  | unmatched => cases read
  | ends outermost done => exact ⟨outermost, done, rfl⟩

theorem unmatched_of_step (halted : r.step = .halt outcome)
    (failed : outcome.result = .error ⟨.unmatchedParenthesis, pos⟩) :
    outcome.cursor = r.cursor.skip ∧ pos = r.cursor.skip.index ∧
      ∃ after, r.cursor.skip.rest = ')' :: after := by
  have course := course_step r
  rw [halted] at course
  cases course with
  | stops failed' other =>
      cases failed.symm.trans failed'
      exact absurd rfl other
  | unmatched outermost parenthesis =>
      cases failed
      exact ⟨rfl, rfl, _, parenthesis⟩
  | ends => cases failed

end Reading

end PatternCompiler
