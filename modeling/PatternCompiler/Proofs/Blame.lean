import PatternCompiler.Compile
import PatternCompiler.Proofs.Messages
import PatternCompiler.Proofs.Recognition
import PatternCompiler.Proofs.Reports
import PatternCompiler.Proofs.Tree

/-!
A reading reports a fault where the text shows it, and quotes what it should. The names that it
quotes are those of the open groups, so that they are identifiers is what its steps preserve.
-/

set_option autoImplicit false
set_option relaxedAutoImplicit false

namespace PatternCompiler

/-- A violation that is reported where its fault shows and quotes what it should. -/
structure Violation.Faithful (text : List Char) (v : Violation) : Prop where
  blamed : v.fault.Blames text v.pos
  quoted : v.fault.WellQuoted

theorem Violation.InToken.faithful {text : List Char} {named : Prop} {v : Violation}
    (found : v.InToken text named) (names : named) : v.Faithful text :=
  ⟨found.blamed, found.quoted names⟩

private theorem Fault.Blames.le_length {fault : Fault} {text : List Char} {pos : Nat}
    (blames : fault.Blames text pos) : pos ≤ text.length := by
  have le_of_shown {c : Char} (shown : text[pos]? = some c) : pos ≤ text.length :=
    (List.getElem?_eq_some_iff.mp shown).1.le
  cases fault with
  | quantifiedAnchor | quantifiedNamedGroup _ | boundTooLarge =>
      obtain ⟨_, _, shown⟩ := blames
      exact le_of_shown shown
  | unterminatedCount =>
      obtain ⟨_, _, before, _⟩ := blames
      exact before.1
  | unterminatedRange =>
      obtain ⟨_, _, _, before, _⟩ := blames
      exact before.1
  | noPropertyName | unterminatedProperty =>
      obtain ⟨_, _, before⟩ := blames
      exact before.1
  | inlineModifiers => exact blames.1.1
  | invalidGroupName _ => exact blames.1
  | unterminated _ | unterminatedClass | unterminatedGroupName => exact Nat.le_of_eq blames
  | invalidFlag _ | lateDirective | trailingInput | unexpectedEnd => exact blames.elim
  | _ => exact le_of_shown blames

namespace Reading

open Scan Grammar

variable {text : List Char} {c : Cursor} {start : Nat} {r : Reading}

private theorem identified_of_opening {captures : Captures} {o : Opening} {c' : Cursor}
    (read : opening captures start c = .ok o c') : o.Identified := by
  obtain ⟨s, _, opens, _⟩ := opening_ok.mp read
  cases opens with
  | named identifier _ =>
      change Identifier (String.ofList _).toList
      rwa [String.toList_ofList]
  | _ => trivial

private theorem groupName?_of_atom {captures : Captures} {text : List Char} {p : Pattern}
    {c' : Cursor} (text_eq : c.rest = text) (inside : ∀ x ∈ ['|', ')', '('], text.head? ≠ some x)
    (read : atom captures start text c = .ok p c') : p.groupName? = none := by
  cases text with
  | nil => exact absurd read fail_ok
  | cons first after =>
      obtain ⟨bar, closing, parenthesis⟩ : first ≠ '|' ∧ first ≠ ')' ∧ first ≠ '(' := by
        simpa using inside
      obtain ⟨s, _, leaf⟩ : ∃ s, c.Passes s c' ∧ Leaf false captures s c'.rest p :=
        leaf_of_atomFrom text_eq ⟨bar, closing, parenthesis⟩ (by simp [Cursor.Solid]) read
      cases leaf <;> rfl

def Identified (r : Reading) : Prop :=
  ∀ frame ∈ r.frames, frame.opening.Identified

/-- A step goes on with identifiers as names, or ends in a violation that is faithful. -/
def KeepsFaith (text : List Char) : Step Reading Outcome → Prop
  | .next r => r.Identified
  | .halt outcome => ∀ v, outcome.result = .error v → v.Faithful text

private theorem keepsFaith_stop {v : Violation} (faithful : v.Faithful text) :
    KeepsFaith text (r.stop v c) := by
  intro v' failed
  cases failed
  exact faithful

private theorem keepsFaith_addTerm {p : Pattern} (within : r.cursor.Within text)
    (identified : r.Identified)
    (named : ∀ name, p.groupName? = some name → Identifier name.toList) :
    KeepsFaith text (r.addTerm p) := by
  unfold addTerm
  split
  · next failed =>
    exact keepsFaith_stop ((reports_quantify p within _ _ failed).faithful named)
  · exact identified

private theorem keepsFaith_readTerm (within : r.cursor.Within text) (identified : r.Identified)
    (inside : ∀ x ∈ ['|', ')', '('], r.cursor.rest.head? ≠ some x)
    (some_left : r.cursor.rest ≠ []) : KeepsFaith text r.readTerm := by
  unfold readTerm
  split
  · next failed =>
    exact keepsFaith_stop ((reports_atom within some_left _ _ failed).faithful trivial)
  · next read =>
    have onward := within.reaches ((forward_atom _ _ _).reaches_of_ok read)
    refine keepsFaith_addTerm onward identified fun name found => ?_
    rw [groupName?_of_atom rfl inside read] at found
    cases found

private theorem keepsFaith_readBar {after : List Char} (within : r.cursor.Within text)
    (identified : r.Identified) (bar : r.cursor.rest = '|' :: after) :
    KeepsFaith text r.readBar := by
  have here := within.getElem_of_rest bar
  unfold readBar
  split
  · exact keepsFaith_stop ⟨here, trivial⟩
  · simp only
    split
    · exact keepsFaith_stop ⟨here, trivial⟩
    · exact keepsFaith_stop ⟨here, trivial⟩
    · exact keepsFaith_stop ⟨here, trivial⟩
    · exact identified

private theorem keepsFaith_readOpening {after : List Char} (within : r.cursor.Within text)
    (identified : r.Identified) (parenthesis : r.cursor.rest = '(' :: after) :
    KeepsFaith text r.readOpening := by
  have passed : r.cursor.Passes ['('] (r.cursor.advance 1) := .of_rest parenthesis
  unfold readOpening
  split
  · next failed =>
    exact keepsFaith_stop ((reports_opening within passed _ _ failed).faithful trivial)
  · next read => exact List.forall_mem_cons.mpr ⟨identified_of_opening read, identified⟩

private theorem keepsFaith_finish (within : r.cursor.Within text)
    (ends : r.cursor.rest = [] ∨ ∃ after, r.cursor.rest = ')' :: after ∧ r.frames = []) :
    KeepsFaith text r.finish := by
  unfold finish
  split
  · intro v failed
    cases failed
  · next parenthesis => exact keepsFaith_stop ⟨within.getElem_of_rest parenthesis, trivial⟩
  · next some_left unclosed =>
    rcases ends with done | ⟨after, parenthesis, _⟩
    · exact absurd done some_left
    · exact absurd parenthesis (unclosed after)
  · next frame frames _ grouped =>
    rcases ends with done | ⟨_, _, outermost⟩
    · exact keepsFaith_stop ⟨within.index_eq_length done, trivial⟩
    · cases grouped.symm.trans outermost

private theorem keepsFaith_readClosing {after : List Char} (within : r.cursor.Within text)
    (identified : r.Identified) (parenthesis : r.cursor.rest = ')' :: after) :
    KeepsFaith text r.readClosing := by
  have passed : r.cursor.Passes [')'] (r.cursor.advance 1) := .of_rest parenthesis
  unfold readClosing
  split
  · next outermost => exact keepsFaith_finish within (.inr ⟨after, parenthesis, outermost⟩)
  · next frame frames grouped =>
    have names : ∀ f ∈ frame :: frames, f.opening.Identified := grouped ▸ identified
    obtain ⟨here, there⟩ := List.forall_mem_cons.mp names
    refine keepsFaith_addTerm (within.passes passed) there fun name found => ?_
    cases opening : frame.opening with
    | named given =>
        rw [opening] at here found
        obtain rfl := Option.some.inj found
        exact here
    | _ => rw [opening] at found; cases found

private theorem keepsFaith_step (within : r.cursor.Within text) (identified : r.Identified) :
    KeepsFaith text r.step := by
  have within := within.reaches r.cursor.reaches_skip
  unfold step dispatch
  split
  · next done => exact keepsFaith_finish within (.inl done)
  · next bar => exact keepsFaith_readBar within identified bar
  · next parenthesis => exact keepsFaith_readClosing within identified parenthesis
  · next parenthesis => exact keepsFaith_readOpening within identified parenthesis
  · next some_left bar closing parenthesis =>
    refine keepsFaith_readTerm within identified ?_ some_left
    intro x mem head
    obtain ⟨after, rest⟩ := List.head?_eq_some_iff.mp head
    have cases : x = '|' ∨ x = ')' ∨ x = '(' := by simpa using mem
    rcases cases with rfl | rfl | rfl
    · exact bar after rest
    · exact closing after rest
    · exact parenthesis after rest

/-- A reading within a text, with identifiers as the names of its open groups, ends in a violation
only if that is faithful. -/
theorem faithful_run (within : r.cursor.Within text) (identified : r.Identified) {v : Violation}
    (failed : r.run.result = .error v) : v.Faithful text := by
  refine Step.run_induct (fun r : Reading => r.cursor.Within text ∧ r.Identified)
    (fun outcome : Outcome => ∀ v, outcome.result = .error v → v.Faithful text)
    ?_ ?_ r ⟨within, identified⟩ v failed
  · rintro r r' ⟨inside, identified⟩ taken
    have moved := step_moves r
    have keeps := keepsFaith_step inside identified
    rw [taken] at moved keeps
    exact ⟨inside.reaches moved.1, keeps⟩
  · rintro r outcome ⟨inside, identified⟩ halted
    have keeps := keepsFaith_step inside identified
    rwa [halted] at keeps

end Reading

theorem Source.faithful_read {source : Source} {v : Violation}
    (failed : (Parser.ofSource source).read.result = .error v) :
    v.Faithful source.body.toList :=
  Reading.faithful_run (Cursor.within_ofText _ _) (by simp [Reading.Identified]) failed

theorem parse_eq_error {text : String} {source : Source} {v : Violation}
    (taken : Source.ofText text = .ok source)
    (read : (Parser.ofSource source).read.result = .error v) :
    parse text = .error (Diagnostic.ofViolation source.body v) := by
  have parsed : source.parse = .error (Diagnostic.ofViolation source.body v) :=
    Parser.parse_eq_error_iff_read.mpr ⟨v, read, rfl⟩
  rw [parse, Stage.parse, taken]
  dsimp only
  rw [parsed]
  rfl

/-- Every error of a parse is about one fault, and is reported within the text, where that shows
the fault. -/
theorem Source.parse_blames (source : Source) (d : Diagnostic) (failed : source.parse = .error d) :
    d.pos ≤ source.body.length ∧ (∃ fault : Fault, d.message = fault.message) ∧
      ∀ fault : Fault, d.message = fault.message → fault.Blames source.body.toList d.pos := by
  obtain ⟨v, read, rfl⟩ := Parser.parse_eq_error_iff_read.mp failed
  have blamed := (Source.faithful_read read).blamed
  refine ⟨blamed.le_length, ⟨v.fault, rfl⟩, fun fault same => ?_⟩
  obtain rfl := Fault.message_injective same
  exact blamed

/-- A bar whose right branch is only a comment, in a group that free spacing spreads over lines. -/
theorem Source.parse_blames_bar :
    let source : Source := ⟨{ extended := true }, "(?<n> x # y\n| # z\n)"⟩
    ∃ d, source.parse = .error d ∧ d.message = "Alternation lacks right-hand side" ∧ d.pos = 12 ∧
      Fault.noRightBranch.Blames source.body.toList d.pos := by
  intro source
  have read : (Parser.ofSource source).read.result = .error ⟨.noRightBranch, 12⟩ := by
    decide +kernel
  have failed :
      source.parse = .error (Diagnostic.ofViolation source.body ⟨.noRightBranch, 12⟩) :=
    Parser.parse_eq_error_iff_read.mpr ⟨_, read, rfl⟩
  exact ⟨_, failed, rfl, rfl, (Source.parse_blames source _ failed).2.2 .noRightBranch rfl⟩

end PatternCompiler
