import Mathlib.Data.List.TakeWhile
import Mathlib.Order.Bounds.Basic
import PatternCompiler.Text.Blank
import PatternCompiler.Text.Lines

/-!
Lines and the places in them. `Cut` says that a text has been cut after each of its line feeds, and
`rawLines` is the one way to do so. `InLines` carries a property of the places of a line over to the
positions of a text that consists of lines; the first position with the property lies in the first
line that has a place with it. Trimming splits a line into its content and the white space around.
-/

set_option autoImplicit false
set_option relaxedAutoImplicit false

namespace PatternCompiler.Text

/-- Lines that are cut after each line feed. Only the last may lack one, and is then not empty. -/
inductive Cut : List (List Char) → Prop
  | nil : Cut []
  | last {line : List Char} : line ≠ [] → '\n' ∉ line → Cut [line]
  | line {line : List Char} {rest : List (List Char)} :
      '\n' ∉ line → Cut rest → Cut ((line ++ ['\n']) :: rest)

section Cutting

variable {text line : List Char} {lines front back : List (List Char)}

theorem cut_rawLines (text : List Char) : Cut (rawLines text) := by
  induction text with
  | nil => exact .nil
  | cons c rest ih =>
      unfold rawLines
      split
      · next feed =>
        have cut : Cut (([] ++ ['\n']) :: rawLines rest) := .line (by simp) ih
        rwa [feed]
      · next other =>
        have inside {line : List Char} (none : '\n' ∉ line) : '\n' ∉ c :: line := by
          simpa using ⟨Ne.symm other, none⟩
        generalize rawLines rest = lines at ih
        cases ih with
        | nil => exact .last (by simp) (inside (by simp))
        | last _ none => exact .last (by simp) (inside none)
        | line none cut => exact .line (inside none) cut

theorem flatten_rawLines (text : List Char) : (rawLines text).flatten = text := by
  induction text with
  | nil => rfl
  | cons c rest ih =>
      unfold rawLines
      split
      · simp [ih]
      · generalize rawLines rest = lines at ih
        cases lines with
        | nil => simpa using ih
        | cons line more => simpa using ih

theorem rawLines_last (some_left : line ≠ []) (none : '\n' ∉ line) : rawLines line = [line] := by
  induction line with
  | nil => exact absurd rfl some_left
  | cons c line ih =>
      simp only [List.mem_cons, not_or] at none
      cases line with
      | nil => simp [rawLines, Ne.symm none.1]
      | cons x others =>
          rw [rawLines, ih (by simp) none.2]
          simp [Ne.symm none.1]

theorem rawLines_line (none : '\n' ∉ line) (text : List Char) :
    rawLines (line ++ '\n' :: text) = (line ++ ['\n']) :: rawLines text := by
  induction line with
  | nil => simp [rawLines]
  | cons c line ih =>
      simp only [List.mem_cons, not_or] at none
      simp [rawLines, Ne.symm none.1, ih none.2]

/-- There is one way to cut a text after its line feeds. -/
theorem rawLines_flatten (cut : Cut lines) : rawLines lines.flatten = lines := by
  induction cut with
  | nil => rfl
  | last some_left none => simpa using rawLines_last some_left none
  | @line line rest none _ ih =>
      have text : ((line ++ ['\n']) :: rest).flatten = line ++ '\n' :: rest.flatten := by simp
      rw [text, rawLines_line none, ih]

theorem Cut.tail (cut : Cut (line :: lines)) : Cut lines := by
  cases cut with
  | last => exact .nil
  | line _ cut => exact cut

theorem Cut.of_append (cut : Cut (front ++ back)) : Cut back := by
  induction front with
  | nil => exact cut
  | cons first front ih => exact ih cut.tail

end Cutting

/-- A position in a text that consists of lines is a place with some property in one of them. -/
def InLines (at_place : List Char → Nat → Prop) (lines : List (List Char)) (pos : Nat) : Prop :=
  ∃ before line after place, lines = before ++ line :: after ∧ at_place line place ∧
    pos = before.flatten.length + place

section Places

variable {at_place : List Char → Nat → Prop} {line : List Char} {rest : List (List Char)}
  {pos : Nat}

theorem not_inLines_nil : ¬ InLines at_place [] pos := by
  rintro ⟨before, line, after, place, lines, _⟩
  cases before with
  | nil => cases lines
  | cons => cases lines

theorem inLines_cons :
    InLines at_place (line :: rest) pos ↔
      at_place line pos ∨ ∃ later, InLines at_place rest later ∧ pos = line.length + later := by
  constructor
  · rintro ⟨before, line', after, place, lines, here, rfl⟩
    cases before with
    | nil =>
        cases lines
        exact .inl (by simpa using here)
    | cons first before =>
        cases lines
        refine .inr ⟨before.flatten.length + place,
          ⟨before, line', after, place, rfl, here, rfl⟩, ?_⟩
        simp only [List.flatten_cons, List.length_append]
        omega
  · rintro (here | ⟨_, ⟨before, line', after, place, rfl, here, rfl⟩, rfl⟩)
    · exact ⟨[], line, rest, pos, rfl, here, by simp⟩
    · refine ⟨line :: before, line', after, place, rfl, here, ?_⟩
      simp only [List.flatten_cons, List.length_append]
      omega

theorem isLeast_here (least : IsLeast {place | at_place line place} pos)
    (inside : pos ≤ line.length) :
    IsLeast {pos | InLines at_place (line :: rest) pos} pos := by
  refine ⟨inLines_cons.mpr (.inl least.1), fun other found => ?_⟩
  rcases inLines_cons.mp found with here | ⟨later, _, rfl⟩
  · exact least.2 here
  · omega

theorem isLeast_later (none : ∀ place, ¬ at_place line place)
    (least : IsLeast {pos | InLines at_place rest pos} pos) :
    IsLeast {pos | InLines at_place (line :: rest) pos} (line.length + pos) := by
  refine ⟨inLines_cons.mpr (.inr ⟨pos, least.1, rfl⟩), fun other found => ?_⟩
  rcases inLines_cons.mp found with here | ⟨later, behind, rfl⟩
  · exact absurd here (none other)
  · have := least.2 behind
    omega

end Places

section Trimming

variable {lead : List Char}

theorem exists_trim (line : List Char) :
    ∃ lead trail, line = lead ++ trim line ++ trail ∧
      (∀ x ∈ lead, isBlank x = true) ∧ ∀ x ∈ trail, isBlank x = true := by
  have ends (text : List Char) :
      text = trimEnd text ++ (text.reverse.takeWhile isBlank).reverse := by
    have split := List.takeWhile_append_dropWhile (p := isBlank) (l := text.reverse)
    have turned := congrArg List.reverse split
    rw [List.reverse_append, List.reverse_reverse] at turned
    exact turned.symm
  refine ⟨line.takeWhile isBlank, ((trimStart line).reverse.takeWhile isBlank).reverse, ?_, ?_, ?_⟩
  · rw [List.append_assoc, trim, ← ends, trimStart, List.takeWhile_append_dropWhile]
  · exact fun x mem => List.mem_takeWhile_imp mem
  · exact fun x mem => List.mem_takeWhile_imp (List.mem_reverse.mp mem)

theorem takeWhile_isBlank {c : Char} {after : List Char} (blank : ∀ x ∈ lead, isBlank x = true)
    (ink : isBlank c = false) : (lead ++ c :: after).takeWhile isBlank = lead := by
  rw [List.takeWhile_append_of_pos blank]
  simp [ink]

theorem dropWhile_isBlank {c : Char} {after : List Char} (blank : ∀ x ∈ lead, isBlank x = true)
    (ink : isBlank c = false) : (lead ++ c :: after).dropWhile isBlank = c :: after := by
  rw [List.dropWhile_append_of_pos blank]
  simp [ink]

end Trimming

end PatternCompiler.Text
