import Mathlib.Data.List.Basic
import Mathlib.Data.Prod.Lex
import PatternCompiler.Editor
import PatternCompiler.Proofs.Blame
import PatternCompiler.Proofs.LineEndings

/-!
Locations of positions. `Text.Stands` says by the line feeds of a text which line and column a
position stands at. The location of a diagnostic is found by reckoning one character for each line
ending instead. It is total and within the lines of the text, it moves on with the position, and it
stays at the end of the last line for all positions behind the text. It is where the position stands
unless a wide line ending has been passed.
-/

set_option autoImplicit false
set_option relaxedAutoImplicit false

namespace PatternCompiler

namespace Location

open Text

variable {lines before before' after after' : List (List Char)} {content content' : List Char}
  {pos pos' : Nat}

/-- A position falls into the line that it reaches if each line ending counts as one character. The
last line takes all positions behind it. -/
structure Falls (lines : List (List Char)) (pos : Nat) (before : List (List Char))
    (content : List Char) (after : List (List Char)) : Prop where
  split : lines = before ++ content :: after
  reached : reckoned before ≤ pos
  inside : after = [] ∨ pos ≤ reckoned before + content.length

private theorem exists_falls (some_left : lines ≠ []) (pos : Nat) :
    ∃ before content after, Falls lines pos before content after := by
  induction lines generalizing pos with
  | nil => exact absurd rfl some_left
  | cons first rest ih =>
      by_cases here : rest = [] ∨ pos ≤ first.length
      · exact ⟨[], first, rest, rfl, by simp, by simpa using here⟩
      · rw [not_or, Nat.not_le] at here
        obtain ⟨before, content, after, rfl, reached, inside⟩ := ih here.1 (pos - (first.length + 1))
        refine ⟨first :: before, content, after, rfl, ?_, ?_⟩
        · rw [reckoned_cons]
          omega
        · rw [reckoned_cons]
          exact inside.imp_right fun within => by omega

theorem Falls.mono (falls : Falls lines pos before content after)
    (falls' : Falls lines pos' before' content' after') (le : pos ≤ pos') : before <+: before' := by
  rcases List.append_eq_append_iff.mp (falls.split.symm.trans falls'.split) with
    ⟨between, rfl, _⟩ | ⟨between, rfl, rest⟩
  · exact List.prefix_append _ _
  · cases between with
    | nil => simp
    | cons first between =>
        -- The line of the later position would be over before that of the earlier one.
        obtain ⟨rfl, rfl⟩ := List.cons_eq_cons.mp rest
        have reached := falls.reached
        rw [reckoned_append, reckoned_cons] at reached
        rcases falls'.inside with none | inside
        · simp at none
        · omega

theorem Falls.unique (falls : Falls lines pos before content after)
    (falls' : Falls lines pos' before' content' after') (same : before.length = before'.length) :
    before = before' ∧ content = content' ∧ after = after' := by
  obtain ⟨rfl, rest⟩ := List.append_inj (falls.split.symm.trans falls'.split) same
  exact ⟨rfl, List.cons_eq_cons.mp rest⟩

private theorem search_eq {line start : Nat} {last : Location}
    (reached : start + reckoned before ≤ pos)
    (inside : after = [] ∨ pos ≤ start + reckoned before + content.length) :
    search pos line start last (before ++ content :: after) =
      ⟨line + before.length, min (pos - (start + reckoned before)) content.length, content⟩ := by
  induction before generalizing line start last with
  | nil =>
      simp only [reckoned_nil, Nat.add_zero] at reached inside
      rw [List.nil_append, search]
      split
      · next within =>
        rw [reckoned_nil, Nat.add_zero, Nat.min_eq_left (by omega)]
        rfl
      · next beyond =>
        obtain rfl : after = [] := inside.resolve_right (by omega)
        rw [search, reckoned_nil, Nat.add_zero, Nat.min_eq_right (by omega)]
        rfl
  | cons first before ih =>
      rw [reckoned_cons] at reached inside
      have passed : ¬ pos < start + first.length + 1 := by omega
      have sum : start + first.length + 1 + reckoned before =
          start + (first.length + 1 + reckoned before) := by omega
      rw [List.cons_append, search, if_neg passed, ih (by omega) (by rwa [sum]), sum, reckoned_cons,
        List.length_cons]
      congr 1
      omega

private theorem ofPos_eq {text : List Char}
    (falls : Falls (Text.lines text) pos before content after) :
    ofPos text pos =
      ⟨before.length + 1, min (pos - reckoned before) content.length, content⟩ := by
  have found : search pos 1 0 ⟨1, 0, []⟩ (before ++ content :: after) = _ :=
    search_eq (by simpa using falls.reached) (by simpa using falls.inside)
  rw [ofPos, falls.split, found, Nat.zero_add, Nat.add_comm 1]

private theorem ofPos_of_no_lines {text : List Char} (none : Text.lines text = []) (pos : Nat) :
    ofPos text pos = ⟨1, 0, []⟩ := by
  rw [ofPos, none, search]

/-- The line and the column, of which the line decides first. -/
def key (place : Location) : Nat ×ₗ Nat :=
  toLex (place.line, place.column)

private theorem ofPos_within (text : List Char) (pos : Nat) :
    1 ≤ (ofPos text pos).line ∧ (ofPos text pos).line ≤ max 1 (Text.lines text).length ∧
      (ofPos text pos).content = (Text.lines text).getD ((ofPos text pos).line - 1) [] ∧
      (ofPos text pos).column ≤ (ofPos text pos).content.length := by
  by_cases none : Text.lines text = []
  · rw [ofPos_of_no_lines none, none]
    exact ⟨le_refl _, le_refl _, rfl, le_refl _⟩
  · obtain ⟨before, content, after, falls⟩ := exists_falls none pos
    have count : (Text.lines text).length = before.length + (after.length + 1) := by
      rw [falls.split, List.length_append, List.length_cons]
    rw [ofPos_eq falls]
    refine ⟨Nat.le_add_left _ _, by dsimp only; omega, ?_, Nat.min_le_right _ _⟩
    simp [falls.split]

private theorem Falls.exists_line {text : List Char}
    (falls : Falls (Text.lines text) pos before content after) :
    ∃ front line back, rawLines text = front ++ line :: back ∧ front.map dropLineEnd = before ∧
      dropLineEnd line = content := by
  obtain ⟨front, others, split, rfl, rest⟩ := List.map_eq_append_iff.mp falls.split
  obtain ⟨line, back, rfl, rfl, _⟩ := List.map_eq_cons_iff.mp rest
  exact ⟨front, line, back, split, rfl, rfl⟩

theorem feed_not_mem_content (text : List Char) (pos : Nat) :
    '\n' ∉ (ofPos text pos).content := by
  by_cases none : Text.lines text = []
  · rw [ofPos_of_no_lines none]
    simp
  · obtain ⟨before, content, after, falls⟩ := exists_falls none pos
    obtain ⟨front, line, back, split, _, rfl⟩ := falls.exists_line
    rw [ofPos_eq falls]
    exact (split ▸ cut_rawLines text).of_append.feed_not_mem_content

private theorem ofPos_le_length (text : List Char) (pos : Nat) :
    (ofPos text pos).line - 1 + (ofPos text pos).column ≤ text.length := by
  by_cases none : Text.lines text = []
  · rw [ofPos_of_no_lines none]
    exact Nat.zero_le _
  · obtain ⟨before, content, after, falls⟩ := exists_falls none pos
    obtain ⟨front, line, back, split, rfl, rfl⟩ := falls.exists_line
    have cut := split ▸ cut_rawLines text
    have length := congrArg (fun lines => lines.flatten.length) split
    simp only [flatten_rawLines, List.flatten_append, List.flatten_cons, List.length_append]
      at length
    have lines_le := length_le_reckoned (front.map dropLineEnd)
    have reckoned_le := (reckoned_le (cut.ended (by simp))).1
    have content_le := cut.of_append.content_le
    rw [ofPos_eq falls]
    dsimp only
    omega

private theorem key_mono (text : List Char) (le : pos ≤ pos') :
    (ofPos text pos).key ≤ (ofPos text pos').key := by
  by_cases none : Text.lines text = []
  · rw [ofPos_of_no_lines none, ofPos_of_no_lines none]
  · obtain ⟨before, content, after, falls⟩ := exists_falls none pos
    obtain ⟨before', content', after', falls'⟩ := exists_falls none pos'
    rw [ofPos_eq falls, ofPos_eq falls', key, key, Prod.Lex.toLex_le_toLex]
    rcases Nat.lt_or_eq_of_le (falls.mono falls' le).length_le with earlier | same
    · exact .inl (by dsimp only; omega)
    · obtain ⟨rfl, rfl, rfl⟩ := falls.unique falls' same
      exact .inr ⟨rfl, by dsimp only; omega⟩

private theorem ofPos_behind {text : List Char} (behind : text.length ≤ pos) :
    ofPos text pos = ⟨max 1 (Text.lines text).length, ((Text.lines text).getLastD []).length,
      (Text.lines text).getLastD []⟩ := by
  rcases List.eq_nil_or_concat' (rawLines text) with none | ⟨front, last, split⟩
  · have no_lines : Text.lines text = [] := by rw [Text.lines, none, List.map_nil]
    rw [ofPos_of_no_lines no_lines, no_lines]
    rfl
  · have cut := split ▸ cut_rawLines text
    have text_eq : text = front.flatten ++ last := by
      rw [← flatten_rawLines text, split, List.flatten_append, List.flatten_singleton]
    have lines_eq : Text.lines text = front.map dropLineEnd ++ [dropLineEnd last] := by
      rw [Text.lines, split, List.map_append, List.map_singleton]
    have reckoned_le := (reckoned_le (cut.ended (by simp))).1
    have content_le := cut.of_append.content_le
    rw [text_eq, List.length_append] at behind
    have falls : Falls (Text.lines text) pos (front.map dropLineEnd) (dropLineEnd last) [] :=
      ⟨lines_eq, by omega, .inl rfl⟩
    have full : min (pos - reckoned (front.map dropLineEnd)) (dropLineEnd last).length =
        (dropLineEnd last).length := Nat.min_eq_right (by omega)
    rw [ofPos_eq falls, full, lines_eq]
    simp

end Location

namespace Text

variable {text line : List Char} {before after : List (List Char)} {place : Nat}

def StartsLine (text : List Char) (start : Nat) : Prop :=
  start = 0 ∨ ∃ i, text[i]? = some '\n' ∧ start = i + 1

/-- The line and the column that a position stands at. Lines count from one, by the line feeds before
the position, and columns from zero, since the last start of a line. -/
structure Stands (text : List Char) (pos line column : Nat) : Prop where
  line_eq : line = 1 + (text.take pos).count '\n'
  column_eq : ∃ start, IsGreatest {start | StartsLine text start ∧ start ≤ pos} start ∧
    column = pos - start

/-- The character at a line and a column. The ending of a line belongs to it. -/
def charAt (text : List Char) (line column : Nat) : Option Char :=
  (rawLines text)[line - 1]?.bind (·[column]?)

private theorem inLines_of_lt {lines : List (List Char)} {pos : Nat}
    (inside : pos < lines.flatten.length) :
    InLines (fun line place => place < line.length) lines pos := by
  induction lines generalizing pos with
  | nil => simp at inside
  | cons line rest ih =>
      rw [List.flatten_cons, List.length_append] at inside
      rcases Nat.lt_or_ge pos line.length with here | later
      · exact inLines_cons.mpr (.inl here)
      · exact inLines_cons.mpr (.inr ⟨pos - line.length, ih (by omega), by omega⟩)

section Standing

variable (split : rawLines text = before ++ line :: after) (inside : place < line.length)

include split

private theorem text_eq_of_split : text = before.flatten ++ (line ++ after.flatten) := by
  rw [← flatten_rawLines text, split, List.flatten_append, List.flatten_cons]

private theorem ended_of_split : ∀ line ∈ before, Ended line :=
  (split ▸ cut_rawLines text).ended (by simp)

private theorem cut_of_split : Cut (line :: after) :=
  (split ▸ cut_rawLines text).of_append

private theorem take_of_split (inside : place ≤ line.length) :
    text.take (before.flatten.length + place) = before.flatten ++ line.take place := by
  rw [text_eq_of_split split, List.take_length_add_append, List.take_append_of_le_length inside]

include inside

private theorem getElem?_of_split :
    text[before.flatten.length + place]? = (line : List Char)[place]? := by
  rw [text_eq_of_split split, List.getElem?_append_right (Nat.le_add_right _ _),
    Nat.add_sub_cancel_left, List.getElem?_append_left inside]

private theorem feed_not_mem_take : '\n' ∉ line.take place := by
  rcases (cut_of_split split).ended_or_last with ⟨body, none, rfl⟩ | ⟨_, _, none⟩
  · have early : place ≤ body.length := by simpa [Nat.lt_succ_iff] using inside
    rw [List.take_append_of_le_length early]
    exact fun mem => none (List.mem_of_mem_take mem)
  · exact fun mem => none (List.mem_of_mem_take mem)

private theorem isGreatest_start :
    IsGreatest {start | StartsLine text start ∧ start ≤ before.flatten.length + place}
      before.flatten.length := by
  refine ⟨⟨?_, Nat.le_add_right _ _⟩, ?_⟩
  · rcases List.eq_nil_or_concat' before with rfl | ⟨front, last, rfl⟩
    · exact .inl rfl
    · obtain ⟨body, _, rfl⟩ := ended_of_split split last (by simp)
      have text_eq : text = (front.flatten ++ body) ++ '\n' :: (line ++ after.flatten) := by
        rw [text_eq_of_split split]
        simp
      refine .inr ⟨(front.flatten ++ body).length, ?_, by simp; omega⟩
      rw [text_eq, List.getElem?_append_right (le_refl _), Nat.sub_self, List.getElem?_cons_zero]
  · rintro start ⟨rfl | ⟨i, feed, rfl⟩, le⟩
    · exact Nat.zero_le _
    · -- A line feed from that start on would lie in the line before the place.
      by_contra behind
      obtain ⟨k, rfl⟩ : ∃ k, i = before.flatten.length + k := ⟨i - before.flatten.length, by omega⟩
      have early : k < place := by omega
      rw [getElem?_of_split split (early.trans inside)] at feed
      refine feed_not_mem_take split inside (List.mem_of_getElem? (i := k) ?_)
      rw [List.getElem?_take_of_lt early, feed]

private theorem stands_iff {l c : Nat} :
    Stands text (before.flatten.length + place) l c ↔ l = before.length + 1 ∧ c = place := by
  have feeds : (text.take (before.flatten.length + place)).count '\n' = before.length := by
    rw [take_of_split split inside.le, List.count_append, count_feeds (ended_of_split split),
      List.count_eq_zero.mpr (feed_not_mem_take split inside), Nat.add_zero]
  constructor
  · rintro ⟨line_eq, start, greatest, column_eq⟩
    obtain rfl := greatest.unique (isGreatest_start split inside)
    exact ⟨by omega, by omega⟩
  · rintro ⟨rfl, rfl⟩
    exact ⟨by omega, _, isGreatest_start split inside, by omega⟩

private theorem charAt_of_split :
    charAt text (before.length + 1) place = text[before.flatten.length + place]? := by
  rw [getElem?_of_split split inside, charAt, split]
  simp

private theorem wide_infix_of_split :
    ¬ wideEnding <:+: text.take (before.flatten.length + place + 1) ↔
      reckoned (before.map dropLineEnd) = before.flatten.length ∧
        place ≤ (dropLineEnd line).length := by
  have ended := ended_of_split split
  rw [Nat.add_assoc, take_of_split split inside, wide_infix_flatten ended, not_or,
    ← (reckoned_le ended).2, wide_infix_take (cut_of_split split) inside]

private theorem content_end_iff :
    before.flatten.length + place = (dropLineEnd text).length ↔
      after = [] ∧ place = (dropLineEnd line).length := by
  rcases List.eq_nil_or_concat' after with rfl | ⟨middle, last, rfl⟩
  · have some_left : line ≠ [] := List.ne_nil_of_length_pos (by omega)
    rw [text_eq_of_split split, List.flatten_nil, List.append_nil,
      dropLineEnd_flatten (ended_of_split split) some_left, List.length_append]
    simp
  · -- The last line is a later one, and all lines before it belong to the content.
    have regrouped : rawLines text = (before ++ line :: middle) ++ last :: [] := by
      rw [split, List.append_assoc, List.cons_append]
    have some_left : last ≠ [] := (cut_of_split regrouped).line_ne_nil
    have text_eq := text_eq_of_split regrouped
    rw [List.flatten_nil, List.append_nil] at text_eq
    have size : (dropLineEnd text).length =
        before.flatten.length + (line.length + middle.flatten.length) +
          (dropLineEnd last).length := by
      rw [text_eq, dropLineEnd_flatten (ended_of_split regrouped) some_left]
      simp only [List.length_append, List.flatten_append, List.flatten_cons]
    constructor
    · intro same
      omega
    · rintro ⟨none, _⟩
      simp at none

end Standing

end Text

namespace Location

open Text

variable {text line : List Char} {before after : List (List Char)} {place : Nat}

/-- Reckoning leads to where a position stands in two cases: it has been exact so far and the
position is not behind the content of its line, or the position is the end of the last content. -/
theorem stands_ofPos_iff (split : rawLines text = before ++ line :: after)
    (inside : place < line.length) :
    Stands text (before.flatten.length + place) (ofPos text (before.flatten.length + place)).line
        (ofPos text (before.flatten.length + place)).column ↔
      reckoned (before.map dropLineEnd) = before.flatten.length ∧
          place ≤ (dropLineEnd line).length ∨
        after = [] ∧ place = (dropLineEnd line).length := by
  have least := (reckoned_le (ended_of_split split)).1
  have lines_eq : Text.lines text =
      before.map dropLineEnd ++ dropLineEnd line :: after.map dropLineEnd := by
    rw [Text.lines, split, List.map_append, List.map_cons]
  rw [stands_iff split inside]
  by_cases here : after = [] ∨ before.flatten.length + place ≤
      reckoned (before.map dropLineEnd) + (dropLineEnd line).length
  · have falls : Falls (Text.lines text) (before.flatten.length + place)
        (before.map dropLineEnd) (dropLineEnd line) (after.map dropLineEnd) :=
      ⟨lines_eq, by omega, here.imp_left fun none => by rw [none, List.map_nil]⟩
    rw [ofPos_eq falls, List.length_map]
    dsimp only
    rcases here with none | within
    · simp only [none, true_and]
      omega
    · constructor
      · exact fun same => .inl (by omega)
      · rintro (exact_so_far | ⟨_, full⟩)
        · omega
        · omega
  · -- The search has gone on to a later line.
    rw [not_or, Nat.not_le] at here
    have falls : Falls (Text.lines text)
        (reckoned (before.map dropLineEnd) + (dropLineEnd line).length)
        (before.map dropLineEnd) (dropLineEnd line) (after.map dropLineEnd) :=
      ⟨lines_eq, Nat.le_add_right _ _, .inr (le_refl _)⟩
    have some_left : Text.lines text ≠ [] := by simp [lines_eq]
    obtain ⟨before', content', after', falls'⟩ :=
      exists_falls some_left (before.flatten.length + place)
    rw [ofPos_eq falls']
    constructor
    · rintro ⟨same_line, _⟩
      have same : (before.map dropLineEnd).length = before'.length := by
        rw [List.length_map]
        exact (Nat.succ.inj same_line).symm
      obtain ⟨rfl, rfl, rfl⟩ := falls.unique falls' same
      rcases falls'.inside with none | within
      · exact absurd (List.map_eq_nil_iff.mp none) here.1
      · omega
    · rintro (exact_so_far | ⟨none, _⟩)
      · omega
      · exact absurd none here.1

end Location

/-- The value that a path of field names leads to. -/
def Json.path? : List String → Json → Option Json
  | [], value => some value
  | name :: path, .obj fields => (lookup name fields).bind (path? path)
  | _ :: _, _ => none

namespace Diagnostic

/-- An editor counts lines and columns in 32 bits, which are enough for texts of such a length. -/
theorem editor_places_fit (d : Diagnostic) (short : d.text.toList.length + 1 < UInt32.size) :
    d.location.line - 1 < UInt32.size ∧ d.location.column + 1 < UInt32.size := by
  have inside : d.location.line - 1 + d.location.column ≤ d.text.toList.length :=
    Location.ofPos_le_length d.text.toList d.pos
  exact ⟨by omega, by omega⟩

/-- The location of a diagnostic is where its position stands if no wide line ending reaches the
position, and else only at the end of the content. There it shows the character of the position, and
an editor is always sent to it. -/
theorem location_stands_iff (d : Diagnostic) (inside : d.pos < d.text.toList.length) :
    let text := d.text.toList
    let place := d.location
    (Text.Stands text d.pos place.line place.column ↔
        ¬ Text.wideEnding <:+: text.take (d.pos + 1) ∨
          d.pos = (Text.dropLineEnd text).length) ∧
      (Text.Stands text d.pos place.line place.column →
        Text.charAt text place.line place.column = text[d.pos]?) ∧
      d.toEditor.path? ["range", "start"] = some (editorPlace (place.line - 1) place.column) := by
  intro text place
  have inLines : Text.InLines (fun line place => place < line.length) (Text.rawLines text) d.pos :=
    Text.inLines_of_lt (by rwa [Text.flatten_rawLines])
  obtain ⟨before, line, after, column, split, within, pos_eq⟩ := inLines
  have found : place = Location.ofPos text (before.flatten.length + column) := by rw [← pos_eq]; rfl
  refine ⟨?_, ?_, rfl⟩
  · rw [pos_eq, found, Location.stands_ofPos_iff split within, Text.wide_infix_of_split split within,
      Text.content_end_iff split within]
  · rw [pos_eq, Text.stands_iff split within]
    rintro ⟨line_eq, column_eq⟩
    rw [line_eq, column_eq, Text.charAt_of_split split within]

/-- A parenthesis on a second line, in front of the first wide ending. -/
theorem location_stands_iff_narrow :
    let d : Diagnostic := { message := "Unmatched ')'", pos := 4, text := "é\nb\r)\r\nc" }
    d.pos < d.text.toList.length ∧ Text.Stands d.text.toList d.pos 2 2 ∧
      Text.charAt d.text.toList 2 2 = some ')' ∧
      d.toEditor.path? ["range", "start"] = some (editorPlace 1 2) := by
  intro d
  have inside : d.pos < d.text.toList.length := by decide +kernel
  have found : d.location = ⟨2, 2, ['b', '\r', ')']⟩ := by decide +kernel
  obtain ⟨stands, shows, editor⟩ := location_stands_iff d inside
  rw [found] at stands shows editor
  have here := stands.mpr (.inl (by decide +kernel))
  exact ⟨inside, here, (shows here).trans (by decide +kernel), editor⟩

/-- Behind a wide ending the location is one column too far. -/
theorem location_misplaced :
    ∃ d, parse "a\r\n)" = .error d ∧ d.pos < d.text.toList.length ∧
      d.text.toList[d.pos]? = some ')' ∧ d.location.line = 2 ∧ d.location.column = 1 ∧
      ¬ Text.Stands d.text.toList d.pos d.location.line d.location.column ∧
      Text.charAt d.text.toList d.location.line d.location.column = none := by
  let source : Source := ⟨{}, "a\r\n)"⟩
  have taken : Source.ofText "a\r\n)" = .ok source := by decide +kernel
  have read : (Parser.ofSource source).read.result = .error ⟨.unmatchedParenthesis, 3⟩ := by
    decide +kernel
  have found : (Diagnostic.ofViolation source.body ⟨.unmatchedParenthesis, 3⟩).location =
      ⟨2, 1, [')']⟩ := by decide +kernel
  refine ⟨_, parse_eq_error taken read, by decide +kernel, by decide +kernel, ?_⟩
  rw [found]
  refine ⟨rfl, rfl, fun stands => ?_, by decide +kernel⟩
  -- The parenthesis is the first character of the second line.
  have split : Text.rawLines source.body.toList = [['a', '\r', '\n']] ++ [')'] :: [] := by
    decide +kernel
  have inside : 0 < [')'].length := by decide
  have place := (Text.stands_iff split inside).mp stands
  exact absurd place.2 (by decide)

/-- The location of a diagnostic is at a line of its text and at most at the end of that line. It
moves on with the position, and all positions behind the text are at the end of the last line. -/
theorem location_bounded_monotone (d e : Diagnostic) (same : e.text = d.text) :
    let lines := Text.lines d.text.toList
    (1 ≤ d.location.line ∧ d.location.line ≤ max 1 lines.length ∧
        d.location.column ≤ (lines.getD (d.location.line - 1) []).length) ∧
      (d.pos ≤ e.pos → d.location.key ≤ e.location.key) ∧
      (d.text.toList.length ≤ d.pos →
        d.location.line = max 1 lines.length ∧ d.location.column = (lines.getLastD []).length) := by
  intro lines
  obtain ⟨first, last, content, column⟩ := Location.ofPos_within d.text.toList d.pos
  rw [content] at column
  refine ⟨⟨first, last, column⟩, fun le => ?_, fun behind => ?_⟩
  · rw [location, location, same]
    exact Location.key_mono _ le
  · rw [location, Location.ofPos_behind behind]
    exact ⟨rfl, rfl⟩

/-- Line endings of all kinds, and positions within and behind the text. -/
theorem location_bounded_monotone_mixed :
    let text := "é\r\n\r\n\nb\rc\n"
    let d : Diagnostic := { message := "x", pos := 7, text := text }
    let e : Diagnostic := { message := "y", pos := 1000, text := text }
    (d.location.line ≤ max 1 (Text.lines text.toList).length ∧ d.location.key ≤ e.location.key) ∧
      e.location.line = 4 ∧ e.location.column = 3 := by
  intro text d e
  obtain ⟨⟨_, last, _⟩, moves, _⟩ := location_bounded_monotone d e rfl
  obtain ⟨_, _, behind⟩ := location_bounded_monotone e e rfl
  obtain ⟨line_eq, column_eq⟩ := behind (by decide +kernel)
  exact ⟨⟨last, moves (by decide)⟩, line_eq.trans (by decide +kernel),
    column_eq.trans (by decide +kernel)⟩

end Diagnostic

end PatternCompiler
