import PatternCompiler.Reading.CharClass
import PatternCompiler.Reading.Group
import PatternCompiler.Reading.Quantifier

/-!
Reading a pattern. A `Reading` holds the alternation being read and, as frames, the alternations
around it that wait for their group to close. Each step reads a term, a bar, or the start or end
of a group, and takes at least one character, so that reading ends on every text.
-/

set_option autoImplicit false
set_option relaxedAutoImplicit false

namespace PatternCompiler

open Scan

namespace Reading

/-- An alternation being read: its finished branches and the parts of the current branch, in both
lists the last one first. -/
structure Draft where
  done : List Pattern := []
  parts : List Pattern := []

namespace Draft

def branch (d : Draft) : Pattern :=
  Pattern.collapse .sequence d.parts.reverse

def pattern (d : Draft) : Pattern :=
  Pattern.collapse .alternation (d.branch :: d.done).reverse

def push (d : Draft) (p : Pattern) : Draft :=
  { d with parts := p :: d.parts }

def bar (d : Draft) : Draft :=
  { done := d.branch :: d.done }

def isEmpty (d : Draft) : Bool :=
  d.done.isEmpty && d.parts.isEmpty

end Draft

/-- A group being read: how it opened, and the alternation around it. -/
structure Frame where
  opening : Opening
  outer : Draft

/-- What reading has led to: a tree or a violation, where the cursor stands, the groups opened so
far, and where a brace was read as a literal after an atom. -/
structure Outcome where
  result : Except Violation Pattern
  cursor : Cursor
  captures : Captures
  looseBraces : List Nat

end Reading

open Reading in
/-- A pattern being read. `frames` holds the open groups, the innermost first, and `looseBraces` the
places of literal braces, the last first. -/
structure Reading where
  cursor : Cursor
  captures : Captures := {}
  draft : Draft := {}
  frames : List Frame := []
  looseBraces : List Nat := []

namespace Reading

def stop (r : Reading) (v : Violation) (c : Cursor) : Step Reading Outcome :=
  .halt ⟨.error v, c, r.captures, r.looseBraces.reverse⟩

/-- The atom, groups apart, of a text `first :: after`; `start` is its position. -/
def atomFrom (captures : Captures) (start : Nat) (first : Char) (after : List Char) :
    Scan Pattern :=
  match first with
  | '.' => do
      pass 1
      pure .anyChar
  | '^' => do
      pass 1
      pure (.anchor .lineStart)
  | '$' => do
      pass 1
      pure (.anchor .lineEnd)
  | '[' => do
      pass 1
      charClass
  | '\\' => do
      pass 1
      escape captures start
  | _ =>
      if startsQuantifier (first :: after) then fail (.nothingToRepeat first) start
      else do
        pass 1
        pure (.literal (String.singleton first))

def atom (captures : Captures) (start : Nat) : List Char → Scan Pattern
  | [] => fail .unexpectedEnd start
  | first :: after => atomFrom captures start first after

/-- Adds an atom and the quantifier at the cursor to the current branch. -/
def addTerm (r : Reading) (atom : Pattern) : Step Reading Outcome :=
  match quantify atom r.cursor with
  | .error v c => r.stop v c
  | .ok term c =>
      .next
        { r with
          cursor := c
          draft := r.draft.push term
          looseBraces :=
            if startsLooseBrace r.cursor.rest then r.cursor.index :: r.looseBraces
            else r.looseBraces }

def readTerm (r : Reading) : Step Reading Outcome :=
  match atom r.captures r.cursor.index r.cursor.rest r.cursor with
  | .error v c => r.stop v c
  | .ok atom c => { r with cursor := c }.addTerm atom

def readBar (r : Reading) : Step Reading Outcome :=
  if r.draft.isEmpty then r.stop ⟨.noLeftBranch, r.cursor.index⟩ r.cursor
  else
    let c := (r.cursor.advance 1).skip
    match c.rest with
    | [] => r.stop ⟨.noRightBranch, r.cursor.index⟩ c
    | ')' :: _ => r.stop ⟨.noRightBranch, r.cursor.index⟩ c
    | '|' :: _ => r.stop ⟨.emptyBranch, r.cursor.index⟩ c
    | _ => .next { r with cursor := c, draft := r.draft.bar }

def readOpening (r : Reading) : Step Reading Outcome :=
  match opening r.captures r.cursor.index (r.cursor.advance 1) with
  | .error v c => r.stop v c
  | .ok opening c =>
      .next
        { r with
          cursor := c
          captures := r.captures.enter opening
          draft := {}
          frames := ⟨opening, r.draft⟩ :: r.frames }

/-- Ends the reading. No group may be open, and nothing may be left over. -/
def finish (r : Reading) : Step Reading Outcome :=
  match r.frames, r.cursor.rest with
  | [], [] => .halt ⟨.ok r.draft.pattern, r.cursor, r.captures, r.looseBraces.reverse⟩
  | [], ')' :: _ => r.stop ⟨.unmatchedParenthesis, r.cursor.index⟩ r.cursor
  | [], _ => r.stop ⟨.trailingInput, r.cursor.index⟩ r.cursor
  | frame :: _, _ => r.stop ⟨.unterminated frame.opening.bracket, r.cursor.index⟩ r.cursor

/-- Closes the innermost group, of which the cursor is at the parenthesis. Where no group is open the
pattern is at its end. -/
def readClosing (r : Reading) : Step Reading Outcome :=
  match r.frames with
  | [] => r.finish
  | frame :: frames =>
      { r with cursor := r.cursor.advance 1, draft := frame.outer, frames := frames }.addTerm
        (frame.opening.close r.draft.pattern)

def dispatch (r : Reading) : Step Reading Outcome :=
  match r.cursor.rest with
  | [] => r.finish
  | '|' :: _ => r.readBar
  | ')' :: _ => r.readClosing
  | '(' :: _ => r.readOpening
  | _ => r.readTerm

def step (r : Reading) : Step Reading Outcome :=
  { r with cursor := r.cursor.skip }.dispatch

theorem forward_atomFrom (captures : Captures) (start : Nat) (first : Char) (after : List Char) :
    Forward (atomFrom captures start first after) := by
  unfold atomFrom
  split
  · exact forward_bind (forward_pass _) fun _ => forward_pure _
  · exact forward_bind (forward_pass _) fun _ => forward_pure _
  · exact forward_bind (forward_pass _) fun _ => forward_pure _
  · exact forward_bind (forward_pass _) fun _ => forward_charClass
  · exact forward_bind (forward_pass _) fun _ => forward_escape _ _
  · split
    · exact forward_fail _ _
    · exact forward_bind (forward_pass _) fun _ => forward_pure _

theorem forward_atom (captures : Captures) (start : Nat) (text : List Char) :
    Forward (atom captures start text) := by
  cases text with
  | nil => exact forward_fail _ _
  | cons first after => exact forward_atomFrom _ _ _ _

theorem strictAt_atomFrom (captures : Captures) (start : Nat) (first : Char) (after : List Char)
    {c : Cursor} (some_left : c.rest ≠ []) : StrictAt c (atomFrom captures start first after) := by
  unfold atomFrom
  split
  · exact strictAt_pass 0 some_left (forward_pure _)
  · exact strictAt_pass 0 some_left (forward_pure _)
  · exact strictAt_pass 0 some_left (forward_pure _)
  · exact strictAt_pass 0 some_left forward_charClass
  · exact strictAt_pass 0 some_left (forward_escape _ _)
  · split
    · exact strictAt_fail _ _ _
    · exact strictAt_pass 0 some_left (forward_pure _)

theorem strictAt_atom (captures : Captures) (start : Nat) (text : List Char) {c : Cursor}
    (some_left : c.rest ≠ []) : StrictAt c (atom captures start text) := by
  cases text with
  | nil => exact strictAt_fail _ _ _
  | cons first after => exact strictAt_atomFrom _ _ _ _ some_left

theorem addTerm_moves (r : Reading) (atom : Pattern) {c : Cursor} (reached : c.Reaches r.cursor)
    (shorter : r.cursor.rest.length < c.rest.length) :
    (r.addTerm atom).Moves cursor Outcome.cursor c := by
  unfold addTerm
  split
  · next taken => exact reached.trans ((forward_quantify atom).reaches_of_error taken)
  · next taken =>
    exact ⟨reached.trans ((forward_quantify atom).reaches_of_ok taken),
      Nat.lt_of_le_of_lt ((forward_quantify atom).length_le taken) shorter⟩

theorem readTerm_moves (r : Reading) (some_left : r.cursor.rest ≠ []) :
    r.readTerm.Moves cursor Outcome.cursor r.cursor := by
  unfold readTerm
  split
  · next taken => exact (forward_atom _ _ _).reaches_of_error taken
  · next taken =>
    exact addTerm_moves _ _ ((forward_atom _ _ _).reaches_of_ok taken)
      (strictAt_atom _ _ _ some_left _ _ taken)

theorem readBar_moves (r : Reading) (some_left : r.cursor.rest ≠ []) :
    r.readBar.Moves cursor Outcome.cursor r.cursor := by
  have := List.length_pos_iff.mpr some_left
  have passed : r.cursor.Reaches (r.cursor.advance 1) := .step (by omega)
  have skipped := (r.cursor.advance 1).reaches_skip
  unfold readBar
  split
  · exact .refl _
  · simp only
    split
    · exact passed.trans skipped
    · exact passed.trans skipped
    · exact passed.trans skipped
    · refine ⟨passed.trans skipped, ?_⟩
      have shorter := skipped.length_le
      simp only [Cursor.rest_advance, List.length_drop] at shorter
      simp only
      omega

theorem readOpening_moves (r : Reading) (some_left : r.cursor.rest ≠ []) :
    r.readOpening.Moves cursor Outcome.cursor r.cursor := by
  have := List.length_pos_iff.mpr some_left
  have passed : r.cursor.Reaches (r.cursor.advance 1) := .step (by omega)
  unfold readOpening
  split
  · next taken => exact passed.trans ((forward_opening _ _).reaches_of_error taken)
  · next taken =>
    refine ⟨passed.trans ((forward_opening _ _).reaches_of_ok taken), ?_⟩
    have shorter := (forward_opening _ _).length_le taken
    simp only [Cursor.rest_advance, List.length_drop] at shorter
    simp only
    omega

theorem finish_moves (r : Reading) : r.finish.Moves cursor Outcome.cursor r.cursor := by
  unfold finish
  split
  · exact .refl _
  · exact .refl _
  · exact .refl _
  · exact .refl _

theorem readClosing_moves (r : Reading) (some_left : r.cursor.rest ≠ []) :
    r.readClosing.Moves cursor Outcome.cursor r.cursor := by
  have := List.length_pos_iff.mpr some_left
  unfold readClosing
  split
  · exact r.finish_moves
  · refine addTerm_moves _ _ (.step (by omega)) ?_
    simp only [Cursor.rest_advance, List.length_drop]
    omega

theorem dispatch_moves (r : Reading) : r.dispatch.Moves cursor Outcome.cursor r.cursor := by
  unfold dispatch
  split
  · exact r.finish_moves
  · next hr => exact r.readBar_moves (by simp [hr])
  · next hr => exact r.readClosing_moves (by simp [hr])
  · next hr => exact r.readOpening_moves (by simp [hr])
  · next some_left _ _ _ => exact r.readTerm_moves some_left

/-- Every step takes at least one character or ends the reading. -/
theorem step_moves (r : Reading) : r.step.Moves cursor Outcome.cursor r.cursor := by
  have skipped := r.cursor.reaches_skip
  have moved := dispatch_moves { r with cursor := r.cursor.skip }
  unfold step
  cases taken : dispatch { r with cursor := r.cursor.skip } with
  | halt answer =>
      rw [taken] at moved
      exact skipped.trans moved
  | next r' =>
      rw [taken] at moved
      exact ⟨skipped.trans moved.1, Nat.lt_of_lt_of_le moved.2 skipped.length_le⟩

def run (r : Reading) : Outcome :=
  Step.run (fun r => r.cursor.rest.length) step (Step.falls_of_moves step_moves) r

end Reading

end PatternCompiler
