import PatternCompiler.Source
import PatternCompiler.Proofs.Classes
import PatternCompiler.Proofs.Openings
import PatternCompiler.Proofs.Quantifiers
import PatternCompiler.Proofs.Tree

/-!
Reading a body accepts exactly the texts of the grammar, and yields the tree that the grammar
assigns. One direction follows a derivation and runs the reader along it; the other takes a run that
succeeds and cuts it into the phrases that it has read.
-/

set_option autoImplicit false
set_option relaxedAutoImplicit false

namespace PatternCompiler.Reading

open Scan Grammar Cursor

variable {free : Bool} {c c' : Cursor}

private theorem leaf_head {captures : Captures} {s after : List Char} {p : Pattern}
    (h : Leaf free captures s after p) :
    ∃ first tail, s = first :: tail ∧ (first ≠ '|' ∧ first ≠ ')' ∧ first ≠ '(') ∧
      (free = true → isSpacing first = false ∧ first ≠ '#') ∧
      startsQuantifier (s ++ after) = false := by
  cases h with
  | anyChar => exact ⟨_, _, rfl, by decide, fun _ => by decide, rfl⟩
  | lineStart => exact ⟨_, _, rfl, by decide, fun _ => by decide, rfl⟩
  | lineEnd => exact ⟨_, _, rfl, by decide, fun _ => by decide, rfl⟩
  | @ordinary c after plain =>
      obtain ⟨other, brace, solid⟩ := plain
      refine ⟨c, [], rfl, by simp_all, fun spaced => not_mem_skipped_iff.mp (solid spaced), ?_⟩
      rw [← Bool.not_eq_true, List.singleton_append, startsQuantifier_iff]
      simp_all
  | bracketClass bracket =>
      cases bracket with
      | plain => exact ⟨_, _, rfl, by decide, fun _ => by decide, rfl⟩
      | negated => exact ⟨_, _, rfl, by decide, fun _ => by decide, rfl⟩
  | number => exact ⟨_, _, rfl, by decide, fun _ => by decide, rfl⟩
  | name => exact ⟨_, _, rfl, by decide, fun _ => by decide, rfl⟩
  | shorthand => exact ⟨_, _, rfl, by decide, fun _ => by decide, rfl⟩
  | anchor => exact ⟨_, _, rfl, by decide, fun _ => by decide, rfl⟩
  | nul => exact ⟨_, _, rfl, by decide, fun _ => by decide, rfl⟩
  | numeric => exact ⟨_, _, rfl, by decide, fun _ => by decide, rfl⟩
  | control => exact ⟨_, _, rfl, by decide, fun _ => by decide, rfl⟩
  | identity => exact ⟨_, _, rfl, by decide, fun _ => by decide, rfl⟩

private theorem pass_then_ok {α : Type} {x : Char} {after : List Char} {scan : Scan α} {a : α}
    (text : c.rest = x :: after) :
    (do pass 1; scan) c = .ok a c' ↔ ∃ d, c.Passes [x] d ∧ scan d = .ok a c' := by
  rw [bind_ok]
  constructor
  · rintro ⟨_, d, passed, read⟩
    exact ⟨d, (pass_ok (s := [x]) text).mp passed, read⟩
  · rintro ⟨d, passed, read⟩
    exact ⟨(), d, (pass_ok (s := [x]) text).mpr passed, read⟩

private theorem atomFrom_of_leaf {captures : Captures} {s : List Char} {p : Pattern} (start : Nat)
    (h : Leaf free captures s c'.rest p) (passed : c.Passes s c') :
    ∃ first after, c.rest = first :: after ∧ (first ≠ '|' ∧ first ≠ ')' ∧ first ≠ '(') ∧
      atomFrom captures start first after c = .ok p c' := by
  obtain ⟨first, tail, rfl, inside, _, unquantified⟩ := leaf_head h
  refine ⟨first, tail ++ c'.rest, passed.1, inside, ?_⟩
  by_cases escaped : first = '\\'
  · subst escaped
    obtain ⟨d, mark, passed'⟩ := passes_cons.mp passed
    exact (pass_then_ok passed.1).mpr ⟨d, mark, escape_ok.mpr ⟨tail, passed', h⟩⟩
  · cases h with
    | anyChar => exact (pass_then_ok passed.1).mpr ⟨c', passed, rfl⟩
    | lineStart => exact (pass_then_ok passed.1).mpr ⟨c', passed, rfl⟩
    | lineEnd => exact (pass_then_ok passed.1).mpr ⟨c', passed, rfl⟩
    | ordinary plain =>
        obtain ⟨other, _, _⟩ := plain
        simp only [List.mem_cons, List.not_mem_nil, or_false, not_or] at other
        obtain ⟨dot, up, dollar, _, _, _, bracket, backslash, _⟩ := other
        rw [List.singleton_append] at unquantified
        rw [List.nil_append, atomFrom.eq_6 _ _ _ _ dot up dollar bracket backslash, unquantified]
        exact (pass_then_ok passed.1).mpr ⟨c', passed, rfl⟩
    | bracketClass bracket =>
        have opening : first = '[' := by
          cases bracket with
          | plain => rfl
          | negated => rfl
        subst opening
        obtain ⟨d, mark, passed'⟩ := passes_cons.mp passed
        exact (pass_then_ok passed.1).mpr
          ⟨d, mark, charClass_ok.mpr ⟨tail, _, _, passed', bracket, rfl⟩⟩
    | _ => exact absurd rfl escaped

theorem leaf_of_atomFrom {captures : Captures} {start : Nat} {first : Char} {after : List Char}
    {p : Pattern} (text : c.rest = first :: after)
    (inside : first ≠ '|' ∧ first ≠ ')' ∧ first ≠ '(') (solid : Solid free c.rest)
    (read : atomFrom captures start first after c = .ok p c') :
    ∃ s, c.Passes s c' ∧ Leaf free captures s c'.rest p := by
  fun_cases atomFrom captures start first after with
  | case1 =>
      obtain ⟨d, passed, read⟩ := (pass_then_ok text).mp read
      obtain ⟨rfl, rfl⟩ := pure_ok.mp read
      exact ⟨_, passed, .anyChar⟩
  | case2 =>
      obtain ⟨d, passed, read⟩ := (pass_then_ok text).mp read
      obtain ⟨rfl, rfl⟩ := pure_ok.mp read
      exact ⟨_, passed, .lineStart⟩
  | case3 =>
      obtain ⟨d, passed, read⟩ := (pass_then_ok text).mp read
      obtain ⟨rfl, rfl⟩ := pure_ok.mp read
      exact ⟨_, passed, .lineEnd⟩
  | case4 =>
      obtain ⟨d, mark, read⟩ := (pass_then_ok text).mp read
      obtain ⟨s, negated, items, passed, bracket, rfl⟩ := charClass_ok.mp read
      exact ⟨_, mark.append passed, .bracketClass bracket⟩
  | case5 =>
      obtain ⟨d, mark, read⟩ := (pass_then_ok text).mp read
      obtain ⟨s, passed, spelled⟩ := escape_ok.mp read
      exact ⟨_, mark.append passed, spelled⟩
  | case6 first begins dot up dollar bracket backslash =>
      rw [atomFrom.eq_6 _ _ _ _ dot up dollar bracket backslash, if_pos begins] at read
      exact absurd read fail_ok
  | case7 first unquantified dot up dollar bracket backslash =>
      rw [atomFrom.eq_6 _ _ _ _ dot up dollar bracket backslash, if_neg unquantified] at read
      obtain ⟨d, passed, read⟩ := (pass_then_ok text).mp read
      obtain ⟨rfl, rfl⟩ := pure_ok.mp read
      refine ⟨_, passed, .ordinary ⟨?_, ?_, ?_⟩⟩
      · rw [startsQuantifier_iff] at unquantified
        simp_all
      · rintro rfl digit
        exact unquantified (startsQuantifier_iff.mpr (by simp [passed.rest_eq text ▸ digit]))
      · intro spaced
        exact not_mem_skipped_iff.mpr (solid spaced first (by rw [text]; rfl))

namespace Draft

def pushAll (d : Draft) (ps : List Pattern) : Draft :=
  { d with parts := ps.reverse ++ d.parts }

/-- The draft after the rest of the current branch and further branches. -/
def extend (d : Draft) (ps : List Pattern) : List (List Pattern) → Draft
  | [] => d.pushAll ps
  | ps' :: pss => (d.pushAll ps).bar.extend ps' pss

private theorem push_pushAll (d : Draft) (p : Pattern) (ps : List Pattern) :
    (d.push p).pushAll ps = d.pushAll (p :: ps) := by
  simp [push, pushAll]

private theorem push_extend (d : Draft) (p : Pattern) (ps : List Pattern)
    (pss : List (List Pattern)) :
    (d.push p).extend ps pss = d.extend (p :: ps) pss := by
  cases pss with
  | nil => exact push_pushAll d p ps
  | cons ps' pss => rw [extend, push_pushAll, extend]

private theorem isEmpty_pushAll {d : Draft} {ps : List Pattern} (some_part : ps ≠ []) :
    (d.pushAll ps).isEmpty = false := by
  simp [isEmpty, pushAll, some_part]

private theorem pattern_extend (d : Draft) (ps : List Pattern) (pss : List (List Pattern)) :
    (d.extend ps pss).pattern =
      Pattern.collapse .alternation
        (d.done.reverse ++ (d.pushAll ps).branch :: pss.map (Pattern.collapse .sequence)) := by
  induction pss generalizing d ps with
  | nil => simp [extend, pattern, pushAll]
  | cons ps' pss ih =>
      rw [extend, ih]
      simp [bar, branch, pushAll]

private theorem pattern_extend_empty (ps : List Pattern) (pss : List (List Pattern)) :
    (({} : Draft).extend ps pss).pattern = treeOf (ps :: pss) := by
  rw [pattern_extend, treeOf_eq]
  simp [branch, pushAll]

end Draft

def conclude : Step Reading Outcome → Outcome
  | .next r => r.run
  | .halt outcome => outcome

private theorem run_eq_conclude (r : Reading) : r.run = conclude r.step := by
  cases taken : r.step with
  | next r' => exact Step.run_next taken
  | halt outcome => exact Step.run_halt taken

variable {r : Reading} {after : List Char}

theorem run_finish (text : r.cursor.skip.rest = []) :
    r.run = conclude { r with cursor := r.cursor.skip }.finish := by
  simp only [run_eq_conclude, step, dispatch, text]

theorem run_end (outermost : r.frames = []) (text : r.cursor.skip.rest = []) :
    r.run = ⟨.ok r.draft.pattern, r.cursor.skip, r.captures, r.looseBraces.reverse⟩ := by
  rw [run_finish text]
  simp only [finish, outermost, text, conclude]

private theorem run_bar (text : r.cursor.skip.rest = '|' :: after) :
    r.run = conclude { r with cursor := r.cursor.skip }.readBar := by
  simp only [run_eq_conclude, step, dispatch, text]

theorem run_closing (text : r.cursor.skip.rest = ')' :: after) :
    r.run = conclude { r with cursor := r.cursor.skip }.readClosing := by
  simp only [run_eq_conclude, step, dispatch, text]

theorem run_opening (text : r.cursor.skip.rest = '(' :: after) :
    r.run = conclude { r with cursor := r.cursor.skip }.readOpening := by
  simp only [run_eq_conclude, step, dispatch, text]

theorem run_term {first : Char} (text : r.cursor.skip.rest = first :: after)
    (inside : first ≠ '|' ∧ first ≠ ')' ∧ first ≠ '(') :
    r.run = conclude { r with cursor := r.cursor.skip }.readTerm := by
  rw [run_eq_conclude, step, dispatch]
  split
  · simp_all
  · simp_all
  · simp_all
  · simp_all
  · rfl

private theorem run_skip (r : Reading) : run { r with cursor := r.cursor.skip } = r.run := by
  rw [run_eq_conclude, run_eq_conclude r, step, step]
  simp only [skip_idem r.cursor]

theorem solid_cons {x : Char} (ink : isSpacing x = false ∧ x ≠ '#') : Solid free (x :: after) := by
  rintro - y head
  obtain rfl : x = y := by simpa using head
  exact ink

theorem term_head {k k' : Captures} {s : List Char} {p : Pattern}
    (h : Derives free k s after (.term p) k') :
    ∃ first tail, s = first :: tail ∧ (first ≠ '|' ∧ first ≠ ')') ∧ Solid free (s ++ after) ∧
      startsQuantifier (s ++ after) = false := by
  cases h with
  | term atom =>
      cases atom with
      | leaf leaf =>
          obtain ⟨first, tail, rfl, inside, solid, unquantified⟩ := leaf_head leaf
          refine ⟨first, _, rfl, ⟨inside.1, inside.2.1⟩, ?_, by simpa using unquantified⟩
          rintro spaced x head
          obtain rfl : first = x := by simpa using head
          exact solid spaced
      | bracketed opens =>
          cases opens with
          | _ => exact ⟨_, _, rfl, by decide, solid_cons ⟨rfl, by decide⟩, rfl⟩

private theorem spacing_unquantified {gap : List Char} (h : Spacing free gap after)
    (unquantified : startsQuantifier after = false) : startsQuantifier (gap ++ after) = false := by
  cases h with
  | nil => exact unquantified
  | @blank c s _ space _ =>
      rw [List.cons_append, ← Bool.not_eq_true, startsQuantifier_iff]
      rintro (rfl | rfl | rfl | ⟨rfl, _⟩)
      · exact absurd space (by decide)
      · exact absurd space (by decide)
      · exact absurd space (by decide)
      · exact absurd space (by decide)
  | comment => rfl

private theorem terms_unquantified {k k' : Captures} {s : List Char} {ps : List Pattern}
    (h : Derives free k s after (.terms ps) k') (unquantified : startsQuantifier after = false) :
    startsQuantifier (s ++ after) = false := by
  cases h with
  | nil => exact unquantified
  | cons spaced term _ =>
      obtain ⟨_, _, _, _, _, head⟩ := term_head term
      simpa using spacing_unquantified spaced head

private theorem branches_unquantified {k k' : Captures} {s : List Char} {pss : List (List Pattern)}
    (h : Derives free k s after (.branches pss) k')
    (unquantified : startsQuantifier after = false) :
    startsQuantifier (s ++ after) = false := by
  cases h with
  | single terms spaced =>
      rw [List.append_assoc]
      exact terms_unquantified terms (spacing_unquantified spaced unquantified)
  | bar terms spaced _ =>
      have bar := spacing_unquantified spaced rfl
      simpa using terms_unquantified terms bar

/-- What may follow the branches of a body: its end, or the parenthesis that closes its group. -/
def EndsBody (text : List Char) : Prop :=
  text = [] ∨ ∃ after, text = ')' :: after

theorem EndsBody.solid {text : List Char} (h : EndsBody text) : Solid free text := by
  obtain rfl | ⟨after, rfl⟩ := h
  · simp [Solid]
  · exact solid_cons ⟨rfl, by decide⟩

private theorem EndsBody.unquantified {text : List Char} (h : EndsBody text) :
    startsQuantifier text = false := by
  obtain rfl | ⟨after, rfl⟩ := h
  · rfl
  · rfl

/-- Reading goes on from one place to another inside the same groups, whatever loose braces it has
seen. -/
def Leads (frames : List Frame) (c : Cursor) (k : Captures) (d : Draft) (c' : Cursor)
    (k' : Captures) (d' : Draft) : Prop :=
  ∀ braces, ∃ braces', run ⟨c, k, d, frames, braces⟩ = run ⟨c', k', d', frames, braces'⟩

section Leads

variable {frames : List Frame} {c'' c₃ e : Cursor} {k k' k'' : Captures} {d d' d'' : Draft}
  {s s' : List Char} {p q : Pattern}

theorem Leads.refl : Leads frames c k d c k d :=
  fun braces => ⟨braces, rfl⟩

theorem Leads.trans (first : Leads frames c k d c' k' d')
    (second : Leads frames c' k' d' c'' k'' d'') : Leads frames c k d c'' k'' d'' := by
  intro braces
  obtain ⟨braces', same⟩ := first braces
  obtain ⟨braces'', same'⟩ := second braces'
  exact ⟨braces'', same.trans same'⟩

private theorem leads_spacing (outside : c.classDepth = 0) (passed : c.Passes s c')
    (spaced : Spacing c.freeSpacing s c'.rest) (solid : Solid c.freeSpacing c'.rest) :
    Leads frames c k d c' k d := by
  intro braces
  refine ⟨braces, ?_⟩
  rw [← skip_of_spacing outside passed spaced solid]
  exact (run_skip ⟨c, k, d, frames, braces⟩).symm

theorem skip_solid (outside : c.classDepth = 0) (solid : Solid c.freeSpacing c.rest) : c.skip = c :=
  skip_of_spacing outside (passes_nil.mpr rfl) .nil solid

private theorem conclude_addTerm (read : quantify p c = .ok q c') (braces : List Nat) :
    ∃ braces', conclude (addTerm ⟨c, k, d, frames, braces⟩ p) =
      run ⟨c', k, d.push q, frames, braces'⟩ := by
  simp only [addTerm, read, conclude]
  exact ⟨_, rfl⟩

private theorem leads_leaf (leaf : Leaf free k s c'.rest p) (passed : c.Passes s c')
    (solid : c.skip = c) (read : quantify p c' = .ok q c'') :
    Leads frames c k d c'' k (d.push q) := by
  intro braces
  obtain ⟨first, after, text, inside, taken⟩ := atomFrom_of_leaf c.index leaf passed
  rw [run_term (by rw [solid]; exact text) inside]
  simp only [readTerm, solid, text, atom, taken]
  exact conclude_addTerm read braces

private theorem leads_bracketed {opening : Opening} (opens : Opens k s opening)
    (bare : s = ['('] → c'.rest.head? ≠ some '?') (passed : c.Passes s c') (solid : c.skip = c)
    (body : Leads (⟨opening, d⟩ :: frames) c' (k.enter opening) {} e k' d')
    (solid' : e.skip = e) (closing : e.Passes [')'] c'')
    (read : quantify (opening.close d'.pattern) c'' = .ok q c₃) :
    Leads frames c k d c₃ k' (d.push q) := by
  obtain ⟨tail, rfl⟩ : ∃ tail, s = '(' :: tail := by
    cases opens with
    | _ => exact ⟨_, rfl⟩
  obtain ⟨c₁, bracket, passed'⟩ := passes_cons.mp passed
  have taken : Reading.opening k c.index c₁ = .ok opening c' :=
    opening_ok.mpr ⟨tail, passed', opens, fun empty => bare (by rw [empty])⟩
  intro braces
  obtain ⟨braces', inner⟩ := body braces
  rw [run_opening (by rw [solid]; exact bracket.1)]
  simp only [readOpening, solid]
  rw [← show c₁ = c.advance 1 from bracket.2, taken]
  simp only [conclude, inner]
  rw [run_closing (by rw [solid']; exact closing.1)]
  simp only [readClosing, solid']
  rw [← show c'' = e.advance 1 from closing.2]
  exact conclude_addTerm read braces'

private theorem leads_bar (bar : c.Passes ['|'] c') (solid : c.skip = c)
    (started : d.isEmpty = false)
    {first : Char} (text : c'.skip.rest = first :: after) (inside : first ≠ '|' ∧ first ≠ ')') :
    Leads frames c k d c' k d.bar := by
  intro braces
  refine ⟨braces, ?_⟩
  rw [run_bar (by rw [solid]; exact bar.1), ← run_skip]
  simp only [readBar, solid, started]
  rw [← show c' = c.advance 1 from bar.2, text]
  simp only [Bool.false_eq_true, if_false]
  split
  · simp_all
  · simp_all
  · simp_all
  · rfl

structure Spans (free : Bool) (c : Cursor) (s : List Char) (c' : Cursor) : Prop where
  free_eq : c.freeSpacing = free
  outside : c.classDepth = 0
  passed : c.Passes s c'

theorem Spans.split (h : Spans free c (s ++ s') c'') :
    ∃ c', Spans free c s c' ∧ Spans free c' s' c'' := by
  obtain ⟨c', first, second⟩ := passes_append.mp h.passed
  exact ⟨c', ⟨h.free_eq, h.outside, first⟩, first.freeSpacing_eq.trans h.free_eq,
    first.classDepth_eq.trans h.outside, second⟩

theorem Spans.skip_eq (h : Spans free c s c') (solid : Solid free (s ++ c'.rest)) : c.skip = c :=
  skip_solid h.outside (by rw [h.free_eq, h.passed.1]; exact solid)

theorem Spans.skips (h : Spans free c s c') (spaced : Spacing free s c'.rest)
    (solid : Solid free c'.rest) : c.skip = c' :=
  skip_of_spacing h.outside h.passed (h.free_eq.symm ▸ spaced) (h.free_eq.symm ▸ solid)

theorem Spans.leads (h : Spans free c s c') (spaced : Spacing free s c'.rest)
    (solid : Solid free c'.rest) : Leads frames c k d c' k d :=
  leads_spacing h.outside h.passed (h.free_eq.symm ▸ spaced) (h.free_eq.symm ▸ solid)

private theorem branches_head {ps : List Pattern} {pss : List (List Pattern)}
    (h : Derives free k s c'.rest (.branches (ps :: pss)) k') (some_term : ps ≠ [])
    (span : Spans free c s c') :
    ∃ first tail, c.skip.rest = first :: tail ∧ first ≠ '|' ∧ first ≠ ')' := by
  have terms : ∀ {s s' : List Char} {k₁ : Captures},
      Derives free k s (s' ++ c'.rest) (.terms ps) k₁ → Spans free c (s ++ s') c' →
      ∃ first tail, c.skip.rest = first :: tail ∧ first ≠ '|' ∧ first ≠ ')' := by
    intro s s' k₁ derived span
    cases derived with
    | nil => exact absurd rfl some_term
    | @cons _ _ _ gap t t' _ p _ spaced term _ =>
        rw [List.append_assoc] at span
        obtain ⟨e, space, span⟩ := span.split
        have text : e.rest = t ++ (t' ++ (s' ++ c'.rest)) := by simpa using span.passed.1
        obtain ⟨first, tail, rfl, inside, solid, _⟩ := term_head term
        rw [← text] at spaced solid
        exact ⟨first, _, by rw [space.skips spaced solid]; exact text, inside⟩
  cases h with
  | single derived _ => exact terms derived span
  | bar derived _ _ => exact terms (by simpa using derived) span

private theorem branches_cons {s : List Char} {pss : List (List Pattern)}
    (h : Derives free k s after (.branches pss) k') : ∃ ps pss', pss = ps :: pss' := by
  cases h with
  | _ => exact ⟨_, _, rfl⟩

/-- What it is for a phrase to be read, by the kind of the phrase. An atom is read together with the
quantifier after it. -/
def Reads (free : Bool) (k : Captures) (s after : List Char) (k' : Captures) : Phrase → Prop
  | .atom p =>
      ∀ {frames d c c' c'' q}, Spans free c s c' → c'.rest = after → c.skip = c →
        quantify p c' = .ok q c'' → Leads frames c k d c'' k' (d.push q)
  | .term p =>
      ∀ {frames d c c'}, Spans free c s c' → c'.rest = after → startsQuantifier after = false →
        Leads frames c k d c' k' (d.push p)
  | .terms ps =>
      ∀ {frames d c c'}, Spans free c s c' → c'.rest = after → startsQuantifier after = false →
        Leads frames c k d c' k' (d.pushAll ps)
  | .branches pss =>
      ∀ {frames d c c' ps pss'}, Spans free c s c' → c'.rest = after → EndsBody after →
        Proper pss → pss = ps :: pss' → Leads frames c k d c' k' (d.extend ps pss')

/-- Every phrase of the grammar is read, one case per rule. -/
theorem reads_of_derives {phrase : Phrase} (h : Derives free k s after phrase k') :
    Reads free k s after k' phrase := by
  induction h with
  | leaf leaf =>
      intro frames d c c' c'' q span rest solid read
      subst rest
      exact leads_leaf leaf span.passed solid read
  | @bracketed k inner k' s s' after pss p encloses body proper ih =>
      intro frames d c c' c'' q span rest solid read
      subst rest
      obtain ⟨e, span, closing⟩ := span.split
      obtain ⟨e', opened, inside⟩ := span.split
      have text : e.rest = ')' :: c'.rest := closing.passed.1
      have ends : EndsBody e.rest := .inr ⟨_, text⟩
      obtain ⟨opening, opens, rfl, rfl⟩ := encloses_iff.mp encloses
      obtain ⟨ps, pss', rfl⟩ := branches_cons body
      refine leads_bracketed opens ?_ opened.passed solid (ih inside text (text ▸ ends) proper rfl)
        ?_ closing.passed (by rw [Draft.pattern_extend_empty]; exact read)
      · intro _ question
        have unquantified := branches_unquantified body (text ▸ ends).unquantified
        rw [← text, ← inside.passed.1] at unquantified
        cases rest : e'.rest with
        | nil => simp [rest] at question
        | cons x tail =>
            obtain rfl : x = '?' := by simpa [rest] using question
            rw [rest] at unquantified
            simp [startsQuantifier] at unquantified
      · exact closing.skip_eq (text ▸ ends).solid
  | term atom quantified ih =>
      intro frames d c c' span rest unquantified
      subst rest
      obtain ⟨e, atomSpan, quantifier⟩ := span.split
      obtain ⟨_, _, _, _, solid, _⟩ := term_head (.term atom quantified)
      exact ih atomSpan quantifier.passed.1 (span.skip_eq solid)
        (quantify_of_quantified quantified quantifier.passed unquantified)
  | nil =>
      intro frames d c c' span rest unquantified
      rw [passes_nil.mp span.passed]
      exact .refl
  | cons spaced term terms ihTerm ihTerms =>
      intro frames d c c' span rest unquantified
      subst rest
      obtain ⟨e, space, span⟩ := span.split
      obtain ⟨e', first, others⟩ := span.split
      obtain ⟨_, _, _, _, solid, _⟩ := term_head term
      rw [← others.passed.1, ← first.passed.1] at solid spaced
      rw [← Draft.push_pushAll]
      exact ((space.leads spaced solid).trans
        (ihTerm first others.passed.1 (terms_unquantified terms unquantified))).trans
        (ihTerms others rfl unquantified)
  | single terms spaced ih =>
      intro frames d c c' ps pss' span rest ends proper same
      subst rest
      obtain ⟨rfl, rfl⟩ := List.cons.inj same
      obtain ⟨e, first, space⟩ := span.split
      exact (ih first space.passed.1 (spacing_unquantified spaced ends.unquantified)).trans
        (space.leads spaced ends.solid)
  | @bar k k₁ k₂ s gap s' after ps pss terms spaced branches ihTerms ihBranches =>
      intro frames d c c' _ _ span rest ends proper same
      subst rest
      obtain ⟨rfl, rfl⟩ := List.cons.inj same
      obtain ⟨ps', pss, rfl⟩ := branches_cons branches
      obtain ⟨c₁, termSpan, span⟩ := span.split
      obtain ⟨c₂, space, span⟩ := span.split
      obtain ⟨c₃, bar, others⟩ := Spans.split (s := ['|']) span
      have text : c₂.rest = '|' :: (s' ++ c'.rest) := span.passed.1
      have solid : Solid free c₂.rest := text ▸ solid_cons ⟨rfl, by decide⟩
      rw [← text] at spaced terms
      have nonempty := proper (by simp)
      simp only [List.mem_cons, not_or] at nonempty
      obtain ⟨first, tail, head, inside⟩ := branches_head branches (Ne.symm nonempty.2.1) others
      have before : Leads frames c k d c₁ k₁ (d.pushAll ps) := by
        refine ihTerms termSpan (by rw [space.passed.1, text]) ?_
        rw [← text]
        exact spacing_unquantified spaced (by rw [text]; rfl)
      have across : Leads frames c₂ k₁ (d.pushAll ps) c₃ k₁ (d.pushAll ps).bar :=
        leads_bar bar.passed (span.skip_eq (solid_cons ⟨rfl, by decide⟩))
          (Draft.isEmpty_pushAll (Ne.symm nonempty.1)) head inside
      have beyond : Leads frames c₃ k₁ (d.pushAll ps).bar c' k₂ (d.extend ps (ps' :: pss)) :=
        ihBranches others rfl ends (fun _ => by simpa using nonempty.2) rfl
      exact (before.trans (space.leads spaced solid)).trans (across.trans beyond)

end Leads

section Accepted

variable {k k' : Captures} {s : List Char} {p q t : Pattern} {ps : List Pattern}
  {pss : List (List Pattern)} {r' : Reading}

def EndsBranch (text : List Char) : Prop :=
  EndsBody text ∨ ∃ after, text = '|' :: after

private theorem addTerm_accepted (read : (conclude (r.addTerm p)).result = .ok t) :
    ∃ q c' braces, quantify p r.cursor = .ok q c' ∧
      conclude (r.addTerm p) =
        run { r with cursor := c', draft := r.draft.push q, looseBraces := braces } := by
  unfold addTerm at read ⊢
  cases taken : quantify p r.cursor with
  | error v c => simp [taken, stop, conclude] at read
  | ok q c' => exact ⟨q, c', _, rfl, rfl⟩

private theorem readTerm_accepted (read : (conclude r.readTerm).result = .ok t) :
    ∃ p c', atom r.captures r.cursor.index r.cursor.rest r.cursor = .ok p c' ∧
      conclude r.readTerm = conclude ({ r with cursor := c' }.addTerm p) := by
  unfold readTerm at read ⊢
  cases taken : atom r.captures r.cursor.index r.cursor.rest r.cursor with
  | error v c => simp [taken, stop, conclude] at read
  | ok p c' => exact ⟨p, c', rfl, rfl⟩

private theorem readOpening_accepted (read : (conclude r.readOpening).result = .ok t) :
    ∃ o c', opening r.captures r.cursor.index (r.cursor.advance 1) = .ok o c' ∧
      conclude r.readOpening =
        run { r with
          cursor := c'
          captures := r.captures.enter o
          draft := {}
          frames := ⟨o, r.draft⟩ :: r.frames } := by
  unfold readOpening at read ⊢
  cases taken : opening r.captures r.cursor.index (r.cursor.advance 1) with
  | error v c => simp [taken, stop, conclude] at read
  | ok o c' => exact ⟨o, c', rfl, rfl⟩

private theorem finish_accepted (read : (conclude r.finish).result = .ok t) :
    r.frames = [] ∧ r.cursor.rest = [] ∧ conclude r.finish =
      ⟨.ok r.draft.pattern, r.cursor, r.captures, r.looseBraces.reverse⟩ := by
  unfold finish at read ⊢
  split
  · next outermost done => exact ⟨outermost, done, rfl⟩
  · simp_all [stop, conclude]
  · simp_all [stop, conclude]
  · simp_all [stop, conclude]

private theorem readClosing_accepted (parenthesis : r.cursor.rest = ')' :: after)
    (read : (conclude r.readClosing).result = .ok t) :
    ∃ frame frames, r.frames = frame :: frames ∧
      conclude r.readClosing =
        conclude ({ r with
          cursor := r.cursor.advance 1, draft := frame.outer, frames := frames }.addTerm
            (frame.opening.close r.draft.pattern)) := by
  unfold readClosing at read ⊢
  cases open_groups : r.frames with
  | nil =>
      have done := (finish_accepted (by simpa [open_groups] using read)).2.1
      cases parenthesis.symm.trans done
  | cons frame frames => exact ⟨frame, frames, rfl, rfl⟩

private theorem readBar_accepted (read : (conclude r.readBar).result = .ok t) :
    r.draft.isEmpty = false ∧ ¬ EndsBranch (r.cursor.advance 1).skip.rest ∧
      conclude r.readBar = run { r with cursor := r.cursor.advance 1, draft := r.draft.bar } := by
  rw [← run_skip { r with cursor := r.cursor.advance 1, draft := r.draft.bar }]
  unfold readBar at read ⊢
  cases started : r.draft.isEmpty with
  | true => simp [started, stop, conclude] at read
  | false =>
      simp only [started, Bool.false_eq_true, if_false] at read ⊢
      refine ⟨trivial, ?_⟩
      split at read
      · simp [stop, conclude] at read
      · simp [stop, conclude] at read
      · simp [stop, conclude] at read
      · next some_left closing bar =>
        refine ⟨?_, ?_⟩
        · rintro ((rest | ⟨tail, rest⟩) | ⟨tail, rest⟩)
          · exact some_left rest
          · exact closing _ rest
          · exact bar _ rest
        · rfl

/-- A reading passes the rest of a branch and further branches, and goes on from the end of the
body. The branches that it finds are those of the grammar, and only the one branch that was begun
before may be without terms. -/
structure Finds (free : Bool) (r : Reading) (s : List Char) (ps : List Pattern)
    (pss : List (List Pattern)) (r' : Reading) : Prop where
  span : Spans free r.cursor s r'.cursor
  derived : Derives free r.captures s r'.cursor.rest (.branches (ps :: pss)) r'.captures
  ends : EndsBody r'.cursor.rest
  first : ps = [] → EndsBranch r.cursor.skip.rest
  started : pss ≠ [] → ps = [] → r.draft.isEmpty = false
  later : [] ∉ pss
  draft_eq : r'.draft = r.draft.extend ps pss
  frames_eq : r'.frames = r.frames
  run_eq : r.run = r'.run

private theorem branches_of_term {gap s' : List Char} {k'' : Captures}
    (spaced : Spacing free gap (s ++ (s' ++ after)))
    (term : Derives free k s (s' ++ after) (.term p) k')
    (h : Derives free k' s' after (.branches (ps :: pss)) k'') :
    Derives free k (gap ++ (s ++ s')) after (.branches ((p :: ps) :: pss)) k'' := by
  cases h with
  | single terms space =>
      rw [List.append_assoc] at spaced term
      have more := Derives.single (.cons spaced term terms) space
      simpa only [List.append_assoc] using more
  | bar terms space branches =>
      simp only [List.append_assoc, List.cons_append] at spaced term
      have more := Derives.bar (.cons spaced term terms) space branches
      simpa only [List.append_assoc] using more

private theorem exists_gap (free_eq : r.cursor.freeSpacing = free)
    (outside : r.cursor.classDepth = 0) :
    ∃ gap, Spans free r.cursor gap r.cursor.skip ∧ Spacing free gap r.cursor.skip.rest ∧
      Solid free r.cursor.skip.rest := by
  obtain ⟨gap, passed, spaced, solid⟩ := passes_skip r.cursor outside
  rw [free_eq] at spaced solid
  exact ⟨gap, ⟨free_eq, outside, passed⟩, spaced, solid⟩

private theorem finds_end {gap : List Char} (span : Spans free r.cursor gap r.cursor.skip)
    (spaced : Spacing free gap r.cursor.skip.rest) (ends : EndsBody r.cursor.skip.rest) :
    Finds free r gap [] [] { r with cursor := r.cursor.skip } where
  span := span
  derived := .single .nil spaced
  ends := ends
  first := fun _ => .inl ends
  started := fun more => absurd rfl more
  later := by simp
  draft_eq := rfl
  frames_eq := rfl
  run_eq := (run_skip r).symm

private theorem finds_term {gap s' : List Char} {c' : Cursor} {braces : List Nat}
    (space : Spans free r.cursor gap c) (spaced : Spacing free gap c.rest)
    (span : Spans free c s c') (term : Derives free r.captures s c'.rest (.term p) k')
    (same : r.run =
      run { r with
        cursor := c', captures := k', draft := r.draft.push p, looseBraces := braces })
    (h : Finds free
      { r with cursor := c', captures := k', draft := r.draft.push p, looseBraces := braces }
      s' ps pss r') :
    Finds free r (gap ++ (s ++ s')) (p :: ps) pss r' where
  span := ⟨space.free_eq, space.outside, space.passed.append (span.passed.append h.span.passed)⟩
  derived := by
    have text := h.span.passed.1
    have spaced := span.passed.1 ▸ spaced
    rw [text] at spaced term
    exact branches_of_term spaced term h.derived
  ends := h.ends
  first := fun none => absurd none (by simp)
  started := fun _ none => absurd none (by simp)
  later := h.later
  draft_eq := by rw [h.draft_eq, ← Draft.push_extend]
  frames_eq := h.frames_eq
  run_eq := same.trans h.run_eq

private theorem finds_bar {gap : List Char} {c' : Cursor}
    (space : Spans free r.cursor gap r.cursor.skip)
    (spaced : Spacing free gap r.cursor.skip.rest) (bar : r.cursor.skip.Passes ['|'] c')
    (started : r.draft.isEmpty = false) (some_branch : ¬ EndsBranch c'.skip.rest)
    (same : r.run = run { r with cursor := c', draft := r.draft.bar })
    (h : Finds free { r with cursor := c', draft := r.draft.bar } s ps pss r') :
    Finds free r (gap ++ '|' :: s) [] (ps :: pss) r' where
  span := ⟨space.free_eq, space.outside, space.passed.append (bar.append h.span.passed)⟩
  derived := by
    have text : r.cursor.skip.rest = '|' :: (s ++ r'.cursor.rest) := by
      rw [bar.1, h.span.passed.1]
      rfl
    exact .bar .nil (text ▸ spaced) h.derived
  ends := h.ends
  first := fun _ => .inr ⟨_, bar.1⟩
  started := fun _ _ => started
  later := by
    intro mem
    rcases List.mem_cons.mp mem with none | mem
    · exact some_branch (h.first none.symm)
    · exact h.later mem
  draft_eq := h.draft_eq
  frames_eq := h.frames_eq
  run_eq := same.trans h.run_eq

theorem Finds.skip_eq (h : Finds free r s ps pss r') : r'.cursor.skip = r'.cursor :=
  skip_solid (h.span.passed.classDepth_eq.trans h.span.outside) h.ends.solid

theorem Finds.proper (h : Finds free r s ps pss r') (fresh : r.draft = {}) :
    Proper (ps :: pss) := by
  intro several mem
  rcases List.mem_cons.mp mem with none | mem
  · have begun := h.started (by rintro rfl; simp at several) none.symm
    rw [fresh] at begun
    exact absurd begun (by decide)
  · exact h.later mem

/-- A reading passes a term of the grammar, and goes on with the term in its draft. -/
def FindsTerm (free : Bool) (r : Reading) : Prop :=
  ∃ s p c' k' braces, Spans free r.cursor.skip s c' ∧
    Derives free r.captures s c'.rest (.term p) k' ∧
    r.run = run { r with
      cursor := c', captures := k', draft := r.draft.push p, looseBraces := braces }

private theorem findsTerm_of_atom {first : Char} (free_eq : r.cursor.skip.freeSpacing = free)
    (outside : r.cursor.skip.classDepth = 0) (solid : Solid free r.cursor.skip.rest)
    (text : r.cursor.skip.rest = first :: after) (inside : first ≠ '|' ∧ first ≠ ')' ∧ first ≠ '(')
    (read : r.run.result = .ok t) : FindsTerm free r := by
  have step := run_term text inside
  rw [step] at read
  obtain ⟨p, c₁, taken, same⟩ := readTerm_accepted read
  rw [text] at taken
  rw [same] at step read
  obtain ⟨q, c', braces, quantified, same⟩ := addTerm_accepted read
  obtain ⟨s, passed, leaf⟩ := leaf_of_atomFrom text inside solid taken
  obtain ⟨s', passed', repeated⟩ := quantified_of_quantify quantified
  refine ⟨s ++ s', q, c', r.captures, braces, ⟨free_eq, outside, passed.append passed'⟩, ?_,
    step.trans same⟩
  exact .term (.leaf (passed'.1 ▸ leaf)) repeated

private theorem findsTerm_of_group {o : Opening} {s' : List Char} {c₁ : Cursor}
    (free_eq : r.cursor.skip.freeSpacing = free) (outside : r.cursor.skip.classDepth = 0)
    (passed : r.cursor.skip.Passes s c₁) (opens : Opens r.captures s o)
    (step : r.run =
      run { r with
        cursor := c₁
        captures := r.captures.enter o
        draft := {}
        frames := ⟨o, r.draft⟩ :: r.frames })
    (body : Finds free
      { r with
        cursor := c₁
        captures := r.captures.enter o
        draft := {}
        frames := ⟨o, r.draft⟩ :: r.frames } s' ps pss r')
    (read : r.run.result = .ok t) : FindsTerm free r := by
  have inside := step.trans body.run_eq
  rw [inside] at read
  have solid := body.skip_eq
  rcases body.ends with text | ⟨after, text⟩
  · rw [run_finish (by rw [solid, text])] at read
    have none := (finish_accepted read).1
    exact absurd (body.frames_eq.symm.trans none) (by simp)
  · have close := run_closing (by rw [solid]; exact text)
    rw [close] at read
    obtain ⟨frame, frames, same, closed⟩ := readClosing_accepted (by simpa [solid] using text) read
    obtain ⟨rfl, rfl⟩ : frame = ⟨o, r.draft⟩ ∧ frames = r.frames := by
      simpa using same.symm.trans body.frames_eq
    rw [closed] at read
    obtain ⟨q, c', braces, quantified, same⟩ := addTerm_accepted read
    simp only [solid] at quantified same closed
    obtain ⟨s'', passed'', repeated⟩ := quantified_of_quantify quantified
    have bracket := Passes.of_rest (s := [')']) text
    have rest : r'.cursor.rest = ')' :: (s'' ++ c'.rest) := by
      rw [← passed''.1]
      exact bracket.1
    have tree : r'.draft.pattern = treeOf (ps :: pss) := by
      rw [body.draft_eq]
      exact Draft.pattern_extend_empty ps pss
    rw [tree] at repeated
    refine ⟨_, q, c', r'.captures, braces,
      ⟨free_eq, outside, ((passed.append body.span.passed).append bracket).append passed''⟩,
      .term (.of_opens opens (rest ▸ body.derived) (body.proper rfl)) repeated, ?_⟩
    rw [inside, close]
    simp only [solid]
    rw [closed, same]

/-- An accepted reading finds branches of the grammar up to the end of the body that it is in. The
induction is on the length of the text: a group takes it twice, for its body and for what follows
the group. -/
theorem finds_of_accepted (free_eq : r.cursor.freeSpacing = free)
    (outside : r.cursor.classDepth = 0) (read : r.run.result = .ok t) :
    ∃ s ps pss r', Finds free r s ps pss r' := by
  generalize size : r.cursor.rest.length = n
  induction n using Nat.strongRecOn generalizing r with
  | ind n ih =>
      obtain ⟨gap, space, spaced, solid⟩ := exists_gap free_eq outside
      have free_eq' := space.passed.freeSpacing_eq.trans free_eq
      have outside' := space.passed.classDepth_eq.trans outside
      have shorter {x : Char} {s : List Char} {c' : Cursor}
          (passed : r.cursor.skip.Passes (x :: s) c') : c'.rest.length < n := by
        have whole := congrArg List.length space.passed.1
        have part := congrArg List.length passed.1
        simp only [List.length_append, List.length_cons] at whole part
        omega
      -- A term is followed by the rest of its branch.
      have goes_on : FindsTerm free r → ∃ s ps pss r', Finds free r s ps pss r' := by
        rintro ⟨s, p, c', k', braces, span, term, same⟩
        obtain ⟨_, _, rfl, _⟩ := term_head term
        obtain ⟨s', ps, pss, r', found⟩ := ih c'.rest.length (shorter span.passed) (r := { r with
            cursor := c', captures := k', draft := r.draft.push p, looseBraces := braces })
          (span.passed.freeSpacing_eq.trans free_eq') (span.passed.classDepth_eq.trans outside')
          (same ▸ read) rfl
        exact ⟨_, _, _, _, finds_term space spaced span term same found⟩
      cases text : r.cursor.skip.rest with
      | nil => exact ⟨gap, [], [], _, finds_end space spaced (.inl text)⟩
      | cons first after =>
          by_cases closing : first = ')'
          · subst closing
            exact ⟨gap, [], [], _, finds_end space spaced (.inr ⟨_, text⟩)⟩
          by_cases bar : first = '|'
          · subst bar
            have step := run_bar text
            rw [step] at read
            obtain ⟨started, some_branch, same⟩ := readBar_accepted read
            have passed := Passes.of_rest (s := ['|']) text
            rw [same] at read
            obtain ⟨s, ps, pss, r', found⟩ := ih _ (shorter passed) (r := { r with
                cursor := r.cursor.skip.advance 1, draft := r.draft.bar })
              free_eq' outside' read rfl
            exact ⟨_, _, _, _,
              finds_bar space spaced passed started some_branch (step.trans same) found⟩
          by_cases bracket : first = '('
          · subst bracket
            have step := run_opening text
            rw [step] at read
            obtain ⟨o, c₁, taken, same⟩ := readOpening_accepted read
            have passed := Passes.of_rest (s := ['(']) text
            obtain ⟨s, passed', opens, _⟩ := opening_ok.mp taken
            rw [same] at read
            have opened := passed.append passed'
            obtain ⟨s', ps, pss, r', found⟩ := ih _ (shorter opened) (r := { r with
                cursor := c₁
                captures := r.captures.enter o
                draft := {}
                frames := ⟨o, r.draft⟩ :: r.frames })
              (opened.freeSpacing_eq.trans free_eq') (opened.classDepth_eq.trans outside') read rfl
            exact goes_on (findsTerm_of_group free_eq' outside' opened opens (step.trans same) found
              (by rw [step, same]; exact read))
          · exact goes_on
              (findsTerm_of_atom free_eq' outside' solid text ⟨bar, closing, bracket⟩ read)

private theorem accepts_iff (free_eq : c.freeSpacing = free) (outside : c.classDepth = 0) :
    ((run { cursor := c, captures := k }).result = .ok t ∧
        (run { cursor := c, captures := k }).captures = k') ↔
      ∃ pss, Derives free k c.rest [] (.branches pss) k' ∧ Proper pss ∧ t = treeOf pss := by
  constructor
  · rintro ⟨read, captures⟩
    obtain ⟨s, ps, pss, r', found⟩ := finds_of_accepted free_eq outside read
    have solid := found.skip_eq
    rw [found.run_eq] at read captures
    rcases found.ends with text | ⟨after, text⟩
    · have last := run_finish (by rw [solid, text])
      rw [last] at read captures
      obtain ⟨-, -, same⟩ := finish_accepted read
      rw [same] at read captures
      obtain rfl : r'.captures = k' := captures
      obtain rfl : r'.draft.pattern = t := by simpa using read
      have whole : c.rest = s := by simpa [text] using found.span.passed.1
      refine ⟨ps :: pss, ?_, found.proper rfl, ?_⟩
      · rw [whole, ← text]
        exact found.derived
      · rw [found.draft_eq]
        exact Draft.pattern_extend_empty ps pss
    · rw [run_closing (by rw [solid]; exact text)] at read
      obtain ⟨frame, frames, same, -⟩ := readClosing_accepted (by simpa [solid] using text) read
      exact absurd (same.symm.trans found.frames_eq) (by simp)
  · rintro ⟨pss, derived, proper, rfl⟩
    obtain ⟨ps, pss, rfl⟩ := branches_cons derived
    have passed : c.Passes c.rest (c.advance c.rest.length) := .of_rest (List.append_nil _).symm
    have rest : (c.advance c.rest.length).rest = [] := by simp
    have ends : EndsBody [] := .inl rfl
    have led : Leads [] c k {} (c.advance c.rest.length) k' (Draft.extend {} ps pss) :=
      reads_of_derives derived ⟨free_eq, outside, passed⟩ rest ends proper rfl
    obtain ⟨braces, same⟩ := led []
    have solid : (c.advance c.rest.length).skip = c.advance c.rest.length :=
      skip_solid outside (rest ▸ ends.solid)
    rw [same, run_end rfl (by rw [solid, rest])]
    simp [Draft.pattern_extend_empty]

end Accepted

end PatternCompiler.Reading

namespace PatternCompiler

open Grammar

private theorem Parser.read_ofSource_iff {source : Source} {t : Pattern} {k : Captures} :
    ((ofSource source).read.result = .ok t ∧ (ofSource source).read.captures = k) ↔
      SpellingWith source.flags.extended source.body.toList t k :=
  Reading.accepts_iff rfl rfl

/-- A parser accepts a body just if the body spells a tree, and its groups are those opened by the
spelling. -/
theorem Parser.parse_ok_iff {source : Source} {t : Pattern} {k : Captures} :
    ((ofSource source).parse.1 = .ok t ∧ (ofSource source).parse.2.captures = k) ↔
      SpellingWith source.flags.extended source.body.toList t k := by
  rw [← read_ofSource_iff, parse_eq_ok_iff_read]
  rfl

/-- The parser accepts exactly the grammar, and the tree that it returns is the one that the text
spells. -/
theorem Source.parse_eq_ok_iff (source : Source) (t : Pattern) :
    source.parse = .ok t ↔ Spelling source.flags.extended source.body.toList t := by
  constructor
  · intro parsed
    exact ⟨_, Parser.parse_ok_iff.mp ⟨parsed, rfl⟩⟩
  · rintro ⟨k, spelled⟩
    exact (Parser.parse_ok_iff.mpr spelled).1

/-- A bracket and a dash as data and a range in a class, and references with a quantifier. -/
theorem Source.parse_eq_ok_iff_branches :
    let source : Source :=
      ⟨{ extended := true }, "(?<n> a | [^]\\d-a-f] ) \\k<n>\\1\x7b2,\x7d? # end"⟩
    let items : List ClassItem :=
      [.char ']', .shorthand ⟨.digit, false⟩ none, .char '-', .range 'a' 'f']
    let t : Pattern := .sequence
      [.group true (.alternation [.literal "a", .charClass true items]) (some "n") false,
        .backreference none (some "n"),
        .repetition (.backreference (some 1) none) 2 .unbounded .lazy]
    source.parse = .ok t ∧ Spelling true source.body.toList t := by
  intro source items t
  have read : (Parser.ofSource source).read.result = .ok t := by decide +kernel
  have parsed : source.parse = .ok t := Parser.parse_eq_ok_iff_read.mpr read
  exact ⟨parsed, (Source.parse_eq_ok_iff source t).mp parsed⟩

end PatternCompiler
