import Mathlib.Logic.Function.Iterate
import PatternCompiler.Proofs.Blame
import PatternCompiler.Proofs.Courses
import PatternCompiler.Proofs.Recognition

/-!
A parser that is used again and again. Whatever its calls have led to, it stands in its text and in
no character class, and its table holds distinct identifiers, no more of them than groups counted,
and no more groups than characters passed. A call that succeeds has come to the end of the text,
where every further call finds the empty pattern; a call that has found a parenthesis unmatched
stays in front of it.
-/

set_option autoImplicit false
set_option relaxedAutoImplicit false

namespace PatternCompiler

/-- What a table of groups may hold when `index` characters have been passed: names that are
identifiers, each given once and to a counted group, and a group for a character at most. The
counter of 32 bits has room for a group for each character of a text shorter than that. -/
structure Captures.Sound (captures : Captures) (index : Nat) : Prop where
  identifier : ∀ name ∈ captures.names, Grammar.Identifier name.toList
  distinct : captures.names.Nodup
  counted : captures.count ≤ index
  named : index < UInt32.size → captures.names.length ≤ captures.count

section Tables

open Grammar

variable {captures : Captures} {index index' : Nat} {s : List Char} {o : Opening}

theorem Captures.Sound.mono (h : captures.Sound index) (le : index ≤ index') :
    captures.Sound index' :=
  ⟨h.identifier, h.distinct, h.counted.trans le, fun room => h.named (Nat.lt_of_le_of_lt le room)⟩

private theorem Captures.count_succ_le {names : List String} :
    count ⟨captures.counter + 1, names⟩ ≤ captures.count + 1 := by
  change (captures.counter + 1).toNat ≤ _
  rw [UInt32.toNat_add]
  exact Nat.mod_le _ _

private theorem Captures.count_succ {names : List String}
    (room : captures.count + 1 < UInt32.size) :
    count ⟨captures.counter + 1, names⟩ = captures.count + 1 := by
  change (captures.counter + 1).toNat = _
  rw [UInt32.toNat_add]
  exact Nat.mod_eq_of_lt room

private theorem Captures.count_le_enter (room : captures.count + 1 < UInt32.size) :
    captures.count ≤ (captures.enter o).count := by
  cases o with
  | capture | named =>
      rw [enter, count_succ room]
      exact Nat.le_succ _
  | plain | atomic | look => exact le_rfl

theorem Captures.Sound.enter (h : captures.Sound index) (opens : Opens captures s o) :
    (captures.enter o).Sound (index + 1) := by
  have counted := Nat.succ_le_succ h.counted
  have room : index + 1 < UInt32.size →
      captures.count + 1 < UInt32.size ∧ captures.names.length ≤ captures.count := fun room =>
    ⟨Nat.lt_of_le_of_lt counted room, h.named (Nat.lt_of_succ_lt room)⟩
  cases opens with
  | capture =>
      refine ⟨h.identifier, h.distinct, count_succ_le.trans counted, fun small => ?_⟩
      obtain ⟨small, named⟩ := room small
      rw [Captures.enter, count_succ small]
      exact Nat.le_succ_of_le named
  | @named name identifier fresh =>
      refine ⟨?_, ?_, count_succ_le.trans counted, fun small => ?_⟩
      · intro given mem
        rcases List.mem_append.mp mem with mem | mem
        · exact h.identifier given mem
        · obtain rfl := List.mem_singleton.mp mem
          rwa [String.toList_ofList]
      · refine List.nodup_append.mpr ⟨h.distinct, by simp, ?_⟩
        rintro given mem _ mem' rfl
        obtain rfl := List.mem_singleton.mp mem'
        exact fresh mem
      · obtain ⟨small, named⟩ := room small
        rw [Captures.enter, count_succ small, List.length_append]
        exact Nat.succ_le_succ named
  | _ => exact h.mono (Nat.le_succ index)

end Tables

namespace Reading

open Scan Cursor

variable {r r' : Reading} {t : Pattern} {pos : Nat}

/-- A step keeps the table of groups sound, and takes no group out of it. -/
theorem sound_of_step (sound : r.captures.Sound r.cursor.index) (taken : r.step = .next r') :
    (r'.cursor.index < UInt32.size → r.captures.count ≤ r'.captures.count) ∧
      r'.captures.Sound r'.cursor.index := by
  have moved := step_moves r
  have course := course_step r
  rw [taken] at moved course
  cases course with
  | goesOn table =>
      have same : r'.captures = r.captures := table
      rw [same]
      exact ⟨fun _ => le_rfl, sound.mono moved.1.index_le⟩
  | @opens _ o read some_left table =>
      obtain ⟨s, passed, opens, _⟩ := opening_ok.mp read
      have skipped := sound.mono r.cursor.reaches_skip.index_le
      have further : r.cursor.skip.index + 1 ≤ r'.cursor.index := by
        have moved := passed.index_eq
        rw [index_advance] at moved
        change r'.cursor.index = r.cursor.skip.index + 1 + s.length at moved
        omega
      have same : r'.captures = r.captures.enter o := table
      rw [same]
      refine ⟨fun room => Captures.count_le_enter ?_, (skipped.enter opens).mono further⟩
      exact Nat.lt_of_le_of_lt ((Nat.succ_le_succ skipped.counted).trans further) room

/-- A reading keeps the table of groups sound, and takes no group out of it. -/
theorem sound_of_run (sound : r.captures.Sound r.cursor.index) :
    (r.run.cursor.index < UInt32.size → r.captures.count ≤ r.run.captures.count) ∧
      r.run.captures.Sound r.run.cursor.index := by
  refine Step.run_induct
    (fun s : Reading => (s.cursor.index < UInt32.size → r.captures.count ≤ s.captures.count) ∧
      s.captures.Sound s.cursor.index)
    (fun outcome : Outcome =>
      (outcome.cursor.index < UInt32.size → r.captures.count ≤ outcome.captures.count) ∧
        outcome.captures.Sound outcome.cursor.index)
    ?_ ?_ r ⟨fun _ => le_rfl, sound⟩
  · rintro s s' ⟨grown, kept⟩ taken
    obtain ⟨grows, keeps⟩ := sound_of_step kept taken
    have moved := step_moves s
    rw [taken] at moved
    refine ⟨fun room => ?_, keeps⟩
    exact (grown (Nat.lt_of_le_of_lt moved.1.index_le room)).trans (grows room)
  · rintro s outcome ⟨grown, kept⟩ halted
    have moved := step_moves s
    rw [halted] at moved
    rw [captures_of_step halted]
    exact ⟨fun room => grown (Nat.lt_of_le_of_lt moved.index_le room), kept.mono moved.index_le⟩

private theorem rest_of_run_ok (read : r.run.result = .ok t) : r.run.cursor.rest = [] := by
  refine Step.run_induct (fun _ : Reading => True)
    (fun outcome : Outcome => ∀ t, outcome.result = .ok t → outcome.cursor.rest = [])
    (fun _ _ _ _ => trivial) ?_ r trivial t read
  intro s outcome _ halted t read
  obtain ⟨_, done, place⟩ := ended_of_step halted read
  rw [place, done]

private theorem rest_of_run_unmatched
    (failed : r.run.result = .error ⟨.unmatchedParenthesis, pos⟩) :
    r.run.cursor.index = pos ∧ ∃ after, r.run.cursor.rest = ')' :: after := by
  refine Step.run_induct (fun _ : Reading => True)
    (fun outcome : Outcome => ∀ pos, outcome.result = .error ⟨.unmatchedParenthesis, pos⟩ →
      outcome.cursor.index = pos ∧ ∃ after, outcome.cursor.rest = ')' :: after)
    (fun _ _ _ _ => trivial) ?_ r trivial pos failed
  intro s outcome _ halted pos failed
  obtain ⟨place, rfl, parenthesis⟩ := unmatched_of_step halted failed
  rw [place]
  exact ⟨rfl, parenthesis⟩

end Reading

namespace Parser

open Reading

/-- What holds of a parser between its calls. -/
structure Coherent (p : Parser) : Prop where
  within : p.cursor.Within p.source.body.toList
  outside : p.cursor.classDepth = 0
  table : p.captures.Sound p.cursor.index

/-- The parser after a number of calls, whatever these have led to. -/
def again (p : Parser) (calls : Nat) : Parser :=
  (fun p => p.parse.2)^[calls] p

variable {p : Parser} {t : Pattern} {after : List Char}

private theorem coherent_ofSource (source : Source) : (ofSource source).Coherent :=
  ⟨Cursor.within_ofText _ _, rfl, ⟨by simp [ofSource], List.nodup_nil, le_rfl, fun _ => le_rfl⟩⟩

theorem Coherent.parse (h : p.Coherent) :
    p.parse.2.Coherent ∧ p.cursor.index ≤ p.parse.2.cursor.index ∧
      (p.parse.2.cursor.index < UInt32.size → p.captures.count ≤ p.parse.2.captures.count) := by
  have reached : p.cursor.Reaches p.parse.2.cursor :=
    Step.reaches_run step_moves { cursor := p.cursor, captures := p.captures }
  obtain ⟨grown, table⟩ :=
    sound_of_run (r := { cursor := p.cursor, captures := p.captures }) h.table
  exact ⟨⟨h.within.reaches reached, reached.classDepth_eq.trans h.outside, table⟩,
    reached.index_le, grown⟩

private theorem coherent_again (source : Source) (calls : Nat) :
    ((ofSource source).again calls).source = source ∧ ((ofSource source).again calls).Coherent := by
  induction calls with
  | zero => exact ⟨rfl, coherent_ofSource source⟩
  | succ calls ih =>
      obtain ⟨same, kept⟩ := ih
      unfold again at same kept ⊢
      rw [Function.iterate_succ_apply']
      exact ⟨same, kept.parse.1⟩

private theorem parse_at_end (done : p.cursor.rest = []) : p.parse = (.ok (.sequence []), p) := by
  have solid : p.cursor.skip = p.cursor := by
    simp [Cursor.skip, done, Cursor.spacingLength]
  have read : p.read = ⟨.ok (.sequence []), p.cursor, p.captures, []⟩ := by
    have ended := run_end (r := { cursor := p.cursor, captures := p.captures }) rfl
      (by rw [solid, done])
    rwa [solid] at ended
  unfold Parser.parse
  rw [read]
  rfl

private theorem parse_at_closing (parenthesis : p.cursor.rest = ')' :: after) :
    p.parse = (.error (Diagnostic.ofViolation p.source.body
      ⟨.unmatchedParenthesis, p.cursor.index⟩), p) := by
  have solid : p.cursor.skip = p.cursor := by
    simp [Cursor.skip, parenthesis, Cursor.spacingLength, Cursor.isSpacing]
  have text : p.cursor.skip.rest = ')' :: after := by rw [solid, parenthesis]
  have read :
      p.read = ⟨.error ⟨.unmatchedParenthesis, p.cursor.index⟩, p.cursor, p.captures, []⟩ := by
    unfold Parser.read
    rw [run_closing text]
    simp only [readClosing, finish, solid, parenthesis]
    rfl
  unfold Parser.parse
  rw [read]
  rfl

private theorem parse_again_of_fixed {answer : Except Diagnostic Pattern}
    (fixed : p.parse = (answer, p)) (calls : Nat) : (p.again calls).parse = (answer, p) := by
  have stays : p.again calls = p := Function.iterate_fixed (by rw [fixed]) calls
  rw [stays, fixed]

theorem Coherent.index_le (h : p.Coherent) : p.cursor.index ≤ p.source.body.length := by
  have within := h.within.index_le
  rwa [String.length_toList] at within

/-- Used any number of times, a parser stays coherent and never goes back, and on a body of fewer
than 2^32 characters it counts at least the groups that have names and takes none back. After a
success it is at the end of its body and finds nothing more; once it has found a parenthesis
unmatched, it finds the same ever after. -/
theorem parse_again (source : Source) (calls : Nat) :
    let p := (ofSource source).again calls
    p.source = source ∧ p.Coherent ∧ p.cursor.index ≤ p.parse.2.cursor.index ∧
      (source.body.length < UInt32.size → p.captures.names.length ≤ p.captures.count ∧
        p.captures.count ≤ p.parse.2.captures.count) ∧
      (∀ t, p.parse.1 = .ok t → p.parse.2.cursor.index = source.body.length ∧
        ∀ later, (p.parse.2.again later).parse = (.ok (.sequence []), p.parse.2)) ∧
      ∀ d, p.parse.1 = .error d → d.message = "Unmatched ')'" →
        ∀ later, (p.parse.2.again later).parse = (.error d, p.parse.2) := by
  intro p
  obtain ⟨same, kept⟩ := coherent_again source calls
  obtain ⟨keeps, forward, grown⟩ := kept.parse
  have length : p.source.body.length = source.body.length := by rw [same]
  refine ⟨same, kept, forward, fun short => ⟨kept.table.named ?_, grown ?_⟩, fun t parsed => ?_,
    fun d failed message => ?_⟩
  · exact Nat.lt_of_le_of_lt (kept.index_le.trans_eq length) short
  · exact Nat.lt_of_le_of_lt (keeps.index_le.trans_eq length) short
  · have done : p.parse.2.cursor.rest = [] := rest_of_run_ok (parse_eq_ok_iff_read.mp parsed)
    refine ⟨?_, parse_again_of_fixed (parse_at_end done)⟩
    have ended := keeps.within.index_eq_length done
    rw [String.length_toList] at ended
    exact ended.trans length
  · obtain ⟨v, read, rfl⟩ := parse_eq_error_iff_read.mp failed
    have unmatched : v.fault = .unmatchedParenthesis := Fault.message_injective message
    obtain ⟨fault, pos⟩ := v
    obtain rfl : fault = .unmatchedParenthesis := unmatched
    obtain ⟨place, after, parenthesis⟩ := rest_of_run_unmatched read
    have fixed := parse_at_closing (p := p.parse.2) parenthesis
    have here : p.parse.2.cursor.index = pos := place
    rw [here] at fixed
    exact parse_again_of_fixed fixed

/-- A call that fails inside a class and a named group, and the calls after it. -/
theorem parse_again_class :
    let source : Source := ⟨{}, "(?<a>[z-a])"⟩
    let p := (ofSource source).again 1
    p.cursor.index = 9 ∧ p.captures = ⟨1, ["a"]⟩ ∧ p.Coherent ∧
      ∃ d, p.parse.1 = .error d ∧ d.message = "Unmatched ')'" ∧ d.pos = 10 ∧
        (p.parse.2.again 5).parse = (.error d, p.parse.2) := by
  intro source p
  have read : p.read.result = .error ⟨.unmatchedParenthesis, 10⟩ := by decide +kernel
  have failed :
      p.parse.1 = .error (Diagnostic.ofViolation source.body ⟨.unmatchedParenthesis, 10⟩) :=
    parse_eq_error_iff_read.mpr ⟨_, read, rfl⟩
  obtain ⟨_, kept, _, _, _, stuck⟩ := parse_again source 1
  exact ⟨by decide +kernel, by decide +kernel, kept, _, failed, rfl, rfl, stuck _ failed rfl 5⟩

end Parser

end PatternCompiler
