import Mathlib.Data.List.TakeWhile
import PatternCompiler.Proofs.Agreement

/-!
What successful scans take. `Cursor.Passes` relates two places of a cursor and the text between
them. Each primitive scan gets an equivalence that says when it succeeds, in those terms, and the
sequencing of scans becomes the concatenation of what they pass.
-/

set_option autoImplicit false
set_option relaxedAutoImplicit false

namespace PatternCompiler

theorem Grammar.Spacing.append {free : Bool} {s s' after : List Char}
    (first : Spacing free s (s' ++ after)) (second : Spacing free s' after) :
    Spacing free (s ++ s') after := by
  generalize behind : s' ++ after = tail at first
  induction first with
  | nil => exact second
  | blank space _ ih => exact .blank space (ih second behind)
  | @comment body s tail inside ends _ ih =>
      subst behind
      rw [← List.append_assoc] at ends
      rw [List.cons_append, List.cons_append, List.append_assoc]
      exact .comment inside ends (ih second rfl)

namespace Cursor

def Passes (c : Cursor) (s : List Char) (c' : Cursor) : Prop :=
  c.rest = s ++ c'.rest ∧ c' = c.advance s.length

variable {c c' c'' : Cursor} {s s' : List Char}

theorem Passes.of_rest {after : List Char} (h : c.rest = s ++ after) :
    c.Passes s (c.advance s.length) := by
  refine ⟨?_, rfl⟩
  simp [h]

theorem Passes.rest_eq {after : List Char} (h : c.Passes s c') (text : c.rest = s ++ after) :
    c'.rest = after := by
  have same := h.1
  rw [text] at same
  exact (List.append_cancel_left same).symm

@[simp]
theorem passes_nil : c.Passes [] c' ↔ c' = c := by
  constructor
  · intro h
    simpa using h.2
  · rintro rfl
    exact ⟨rfl, by simp⟩

theorem Passes.append (first : c.Passes s c') (second : c'.Passes s' c'') :
    c.Passes (s ++ s') c'' := by
  obtain ⟨text, rfl⟩ := first
  obtain ⟨text', rfl⟩ := second
  refine ⟨?_, by simp⟩
  rw [text, text', List.append_assoc]

theorem passes_append : c.Passes (s ++ s') c'' ↔ ∃ c', c.Passes s c' ∧ c'.Passes s' c'' := by
  constructor
  · rintro ⟨text, rfl⟩
    rw [List.append_assoc] at text
    have first := Passes.of_rest text
    exact ⟨c.advance s.length, first, first.rest_eq text, by simp⟩
  · rintro ⟨c', first, second⟩
    exact first.append second

theorem passes_cons {a : Char} :
    c.Passes (a :: s) c'' ↔ ∃ c', c.Passes [a] c' ∧ c'.Passes s c'' :=
  passes_append (s := [a])

theorem Passes.unique {d : Cursor} (first : c.Passes s c') (second : c.Passes s d) : c' = d := by
  rw [first.2, second.2]

theorem Passes.freeSpacing_eq (h : c.Passes s c') : c'.freeSpacing = c.freeSpacing := by
  rw [h.2]
  rfl

theorem Passes.classDepth_eq (h : c.Passes s c') : c'.classDepth = c.classDepth := by
  rw [h.2]
  rfl

theorem Passes.inside_class (h : c.Passes s c') : c.enterClass.Passes s c'.enterClass := by
  obtain ⟨text, rfl⟩ := h
  exact ⟨text, rfl⟩

theorem Passes.outside_class (h : c.enterClass.Passes s c') : c.Passes s c'.leaveClass := by
  obtain ⟨text, rfl⟩ := h
  exact ⟨text, rfl⟩

theorem Passes.index_eq (h : c.Passes s c') : c'.index = c.index + s.length := by
  rw [h.2]
  rfl

open Grammar

/-- In free spacing, a text that neither white space nor a comment begins. -/
def Solid (free : Bool) (text : List Char) : Prop :=
  free = true → ∀ x, text.head? = some x → isSpacing x = false ∧ x ≠ '#'

private theorem spacingLength_solid {text : List Char} (solid : Solid true text) :
    spacingLength false text = 0 := by
  cases text with
  | nil => rfl
  | cons x after =>
      obtain ⟨ink, mark⟩ := solid rfl x rfl
      simp [spacingLength, ink, mark]

private theorem spacingLength_comment {body after : List Char}
    (inside : ∀ x ∈ body, x ≠ '\r' ∧ x ≠ '\n') (ends : EndsLine after) :
    spacingLength true (body ++ after) = body.length + spacingLength false after := by
  induction body with
  | nil =>
      cases after with
      | nil => rfl
      | cons x after =>
          rcases ends with rfl | rfl
          · simp [spacingLength, isSpacing]
          · simp [spacingLength, isSpacing]
  | cons x body ih =>
      have here := inside x (by simp)
      have tail := ih fun y mem => inside y (by simp [mem])
      simp only [List.cons_append, spacingLength, List.length_cons, tail]
      simp only [Bool.not_true, beq_eq_false_iff_ne.mpr here.1,
        beq_eq_false_iff_ne.mpr here.2, Bool.or_self, Bool.and_false, Bool.false_eq_true, if_false,
        Bool.true_or, if_true]
      omega

private theorem spacingLength_of_spacing {gap after : List Char} (h : Spacing true gap after)
    (solid : Solid true after) : spacingLength false (gap ++ after) = gap.length := by
  generalize mode : true = free at h
  induction h with
  | nil => exact spacingLength_solid solid
  | blank space _ ih => simp [spacingLength, isSpacing_iff.mpr space, ih solid rfl]
  | @comment body s after inside ends _ ih =>
      have hash : spacingLength false ('#' :: body ++ s ++ after) =
          spacingLength true (body ++ (s ++ after)) + 1 := by
        simp [spacingLength, isSpacing]
      rw [hash, spacingLength_comment inside ends, ih solid rfl]
      simp only [List.length_append, List.length_cons]
      omega

private theorem spacing_of_spacingLength (text : List Char) :
    (∃ gap after, text = gap ++ after ∧ gap.length = spacingLength false text ∧
        Spacing true gap after ∧ Solid true after) ∧
      ∃ body gap after, text = body ++ (gap ++ after) ∧
        body.length + gap.length = spacingLength true text ∧ (∀ x ∈ body, x ≠ '\r' ∧ x ≠ '\n') ∧
        EndsLine (gap ++ after) ∧ Spacing true gap after ∧ Solid true after := by
  induction text with
  | nil =>
      exact ⟨⟨[], [], rfl, rfl, .nil, by simp [Solid]⟩,
        [], [], [], rfl, rfl, by simp, trivial, .nil, by simp [Solid]⟩
  | cons x text ih =>
      obtain ⟨⟨gap, after, open_text, length, spaced, solid⟩, body, gap', after', comment_text,
        length', inside, ends, spaced', solid'⟩ := ih
      constructor
      · by_cases space : isSpacing x = true
        · refine ⟨x :: gap, after, by rw [open_text]; rfl, ?_,
            .blank (isSpacing_iff.mp space) spaced, solid⟩
          simp [spacingLength, space, length]
        · by_cases mark : x = '#'
          · subst mark
            refine ⟨'#' :: body ++ gap', after', ?_, ?_, .comment inside ends spaced', solid'⟩
            · simp [comment_text]
            · have : spacingLength false ('#' :: text) = spacingLength true text + 1 := by
                simp [spacingLength, isSpacing]
              simp only [this, List.length_append, List.length_cons]
              omega
          · refine ⟨[], x :: text, rfl, ?_, .nil, ?_⟩
            · simp [spacingLength, space, mark]
            · rintro - y head
              obtain rfl : x = y := by simpa using head
              exact ⟨by simpa using space, mark⟩
      · by_cases line : x = '\r' ∨ x = '\n'
        · have space : isSpacing x = true := by
            rcases line with rfl | rfl
            · rfl
            · rfl
          refine ⟨[], x :: gap, after, by rw [open_text]; rfl, ?_, by simp, line,
            .blank (isSpacing_iff.mp space) spaced, solid⟩
          have : spacingLength true (x :: text) = spacingLength false text + 1 := by
            rcases line with rfl | rfl
            · simp [spacingLength, isSpacing]
            · simp [spacingLength, isSpacing]
          simp [this, length]
        · refine ⟨x :: body, gap', after', by rw [comment_text]; rfl, ?_, ?_, ends, spaced', solid'⟩
          · have : spacingLength true (x :: text) = spacingLength true text + 1 := by
              simp only [not_or] at line
              simp [spacingLength, line.1, line.2]
            simp only [this, List.length_cons]
            omega
          · intro y mem
            rcases List.mem_cons.mp mem with rfl | mem
            · exact not_or.mp line
            · exact inside y mem

/-- Skipping passes the spacing of the grammar, up to a solid text. -/
theorem passes_skip (c : Cursor) (outside : c.classDepth = 0) :
    ∃ gap, c.Passes gap c.skip ∧ Spacing c.freeSpacing gap c.skip.rest ∧
      Solid c.freeSpacing c.skip.rest := by
  unfold skip
  cases free : c.freeSpacing with
  | false => exact ⟨[], by simp, .nil, by simp [Solid]⟩
  | true =>
      obtain ⟨⟨gap, after, text, length, spaced, solid⟩, _⟩ := spacing_of_spacingLength c.rest
      have passed := Passes.of_rest text
      have rest := passed.rest_eq text
      rw [length] at passed rest
      simp only [outside, beq_self_eq_true, Bool.and_self, if_true]
      exact ⟨gap, passed, rest ▸ spaced, rest ▸ solid⟩

theorem skip_of_spacing {gap : List Char} (outside : c.classDepth = 0) (passed : c.Passes gap c')
    (spaced : Spacing c.freeSpacing gap c'.rest) (solid : Solid c.freeSpacing c'.rest) :
    c.skip = c' := by
  unfold skip
  cases free : c.freeSpacing with
  | false =>
      rw [free] at spaced
      cases spaced
      simpa using (passes_nil.mp passed).symm
  | true =>
      rw [free] at spaced solid
      simp only [outside, beq_self_eq_true, Bool.and_self, if_true]
      rw [passed.1, spacingLength_of_spacing spaced solid, passed.2]

theorem Passes.skip_eq {gap : List Char} (passed : c.Passes gap c') (outside : c.classDepth = 0)
    (spaced : Spacing c.freeSpacing gap c'.rest) : c.skip = c'.skip := by
  have same := passed.freeSpacing_eq
  obtain ⟨more, passed', spaced', solid⟩ := passes_skip c' (passed.classDepth_eq.trans outside)
  rw [same] at spaced' solid
  rw [passed'.1] at spaced
  exact skip_of_spacing outside (passed.append passed') (spaced.append spaced') solid

theorem skip_eq_self (idle : ¬ (c.freeSpacing = true ∧ c.classDepth = 0)) : c.skip = c := by
  unfold skip
  rw [if_neg]
  simpa using idle

theorem skip_idem (c : Cursor) : c.skip.skip = c.skip := by
  by_cases outside : c.classDepth = 0
  · obtain ⟨gap, passed, spaced, _⟩ := passes_skip c outside
    exact (passed.skip_eq outside spaced).symm
  · have idle : c.skip = c := skip_eq_self fun h => outside h.2
    rw [idle, idle]

end Cursor

namespace Scan

variable {α β : Type} {c c' : Cursor}

@[simp]
theorem bind_ok {x : Scan α} {f : α → Scan β} {b : β} :
    (x >>= f) c = .ok b c' ↔ ∃ a d, x c = .ok a d ∧ f a d = .ok b c' := by
  cases taken : x c with
  | ok a d =>
      simp only [bind, EStateM.bind, taken, EStateM.Result.ok.injEq]
      constructor
      · intro rest
        exact ⟨a, d, ⟨rfl, rfl⟩, rest⟩
      · rintro ⟨_, _, ⟨rfl, rfl⟩, rest⟩
        exact rest
  | error v d => simp [bind, EStateM.bind, taken]

@[simp]
theorem map_ok {x : Scan α} {f : α → β} {b : β} :
    (f <$> x) c = .ok b c' ↔ ∃ a, x c = .ok a c' ∧ f a = b := by
  cases taken : x c with
  | ok a d =>
      simp only [Functor.map, EStateM.map, taken, EStateM.Result.ok.injEq]
      constructor
      · rintro ⟨value, place⟩
        exact ⟨a, ⟨rfl, place⟩, value⟩
      · rintro ⟨_, ⟨rfl, place⟩, value⟩
        exact ⟨value, place⟩
  | error v d => simp [Functor.map, EStateM.map, taken]

@[simp]
theorem pure_ok {a b : α} : (pure a : Scan α) c = .ok b c' ↔ a = b ∧ c = c' := by
  simp [pure, EStateM.pure]

@[simp]
theorem fail_ok {fault : Fault} {pos : Nat} {a : α} :
    ¬ (fail fault pos : Scan α) c = .ok a c' := by
  simp [fail]

@[simp]
theorem index_ok {n : Nat} : index c = .ok n c' ↔ c.index = n ∧ c = c' := by
  simp [index]

@[simp]
theorem rest_ok {text : List Char} : rest c = .ok text c' ↔ c.rest = text ∧ c = c' := by
  simp [rest]

theorem inClass_ok {x : Scan α} {a : α} :
    inClass x c = .ok a c' ↔ ∃ d, x c.enterClass = .ok a d ∧ d.leaveClass = c' := by
  unfold inClass
  cases taken : x c.enterClass with
  | ok b d =>
      simp only [EStateM.Result.ok.injEq]
      constructor
      · rintro ⟨rfl, rfl⟩
        exact ⟨d, ⟨rfl, rfl⟩, rfl⟩
      · rintro ⟨_, ⟨rfl, rfl⟩, rfl⟩
        exact ⟨rfl, rfl⟩
  | error v d => simp

theorem eat_true {char : Char} : eat char c = .ok true c' ↔ c.Passes [char] c' := by
  unfold eat Cursor.eat
  constructor
  · intro taken
    split at taken
    · next head =>
      obtain ⟨after, text⟩ := List.head?_eq_some_iff.mp head
      cases taken
      exact .of_rest text
    · cases taken
  · rintro ⟨text, rfl⟩
    have head : c.rest.head? = some char := by
      rw [text]
      rfl
    simp [head]

theorem eat_false {char : Char} :
    eat char c = .ok false c' ↔ c.rest.head? ≠ some char ∧ c' = c := by
  unfold eat Cursor.eat
  split
  · next head => simp [head]
  · next head =>
    simp [head]
    exact eq_comm

@[simp]
theorem eat_then_ok {char : Char} {x y : Scan α} {a : α} :
    (eat char >>= fun found => if found = true then x else y) c = .ok a c' ↔
      (∃ d, c.Passes [char] d ∧ x d = .ok a c') ∨
        (c.rest.head? ≠ some char ∧ y c = .ok a c') := by
  rw [bind_ok]
  constructor
  · rintro ⟨found, d, taken, rest⟩
    cases found with
    | true => exact .inl ⟨d, eat_true.mp taken, by simpa using rest⟩
    | false =>
        obtain ⟨head, rfl⟩ := eat_false.mp taken
        exact .inr ⟨head, by simpa using rest⟩
  · rintro (⟨d, passed, rest⟩ | ⟨head, rest⟩)
    · exact ⟨true, d, eat_true.mpr passed, by simpa using rest⟩
    · exact ⟨false, c, eat_false.mpr ⟨head, rfl⟩, by simpa using rest⟩

theorem takeWhile_ok {p : Char → Bool} {run : List Char} :
    takeWhile p c = .ok run c' ↔
      c.Passes run c' ∧ (∀ x ∈ run, p x = true) ∧ ∀ x, c'.rest.head? = some x → p x = false := by
  unfold takeWhile Cursor.takeWhile
  simp only [EStateM.Result.ok.injEq]
  constructor
  · rintro ⟨rfl, rfl⟩
    have split_text : c.rest = c.rest.takeWhile p ++ c.rest.dropWhile p :=
      List.takeWhile_append_dropWhile.symm
    have passed := Cursor.Passes.of_rest split_text
    refine ⟨passed, fun x hx => List.mem_takeWhile_imp hx, ?_⟩
    rw [passed.rest_eq split_text]
    intro x head
    have stops := List.head?_dropWhile_not p c.rest
    rw [head] at stops
    simpa using stops
  · rintro ⟨⟨text, rfl⟩, all, stops⟩
    have run_eq : c.rest.takeWhile p = run := by
      rw [text, List.takeWhile_append_of_pos all]
      cases after : (c.advance run.length).rest with
      | nil => simp
      | cons x _ => simp [stops x (by rw [after]; rfl)]
    exact ⟨run_eq, by rw [run_eq]⟩

theorem pass_ok {s : List Char} {after : List Char} (text : c.rest = s ++ after) {u : Unit} :
    pass s.length c = .ok u c' ↔ c.Passes s c' := by
  have passed := Cursor.Passes.of_rest text
  have taken : pass s.length c = .ok () (c.advance s.length) := by
    simp [pass, text]
  rw [taken]
  constructor
  · intro same
    cases same
    exact passed
  · intro passed'
    rw [passed.unique passed']

end Scan

end PatternCompiler
