import PatternCompiler.Proofs.Lines

/-!
Line endings. A line of a text that is not the last one ends with a line feed, before which a
carriage return may stand; `dropLineEnd` takes both off. `reckoned` is the length of lines without
their endings if one character is added for each of them. It falls short of the true length exactly
if a carriage return stands before one of the line feeds.
-/

set_option autoImplicit false
set_option relaxedAutoImplicit false

namespace PatternCompiler.Text

def wideEnding : List Char := ['\r', '\n']

def Ended (line : List Char) : Prop :=
  ∃ body, '\n' ∉ body ∧ line = body ++ ['\n']

/-- The length of lines without endings if one character is added for each line. -/
def reckoned : List (List Char) → Nat
  | [] => 0
  | line :: rest => line.length + 1 + reckoned rest

@[simp] theorem reckoned_nil : reckoned [] = 0 := rfl

@[simp] theorem reckoned_cons (line : List Char) (rest : List (List Char)) :
    reckoned (line :: rest) = line.length + 1 + reckoned rest := rfl

@[simp] theorem reckoned_append (front back : List (List Char)) :
    reckoned (front ++ back) = reckoned front + reckoned back := by
  induction front with
  | nil => simp
  | cons line front ih => simp [ih, Nat.add_assoc]

section Cuts

variable {line : List Char} {front back : List (List Char)}

theorem Cut.ended_or_last (cut : Cut (line :: back)) :
    Ended line ∨ back = [] ∧ line ≠ [] ∧ '\n' ∉ line := by
  cases cut with
  | last some_left none => exact .inr ⟨rfl, some_left, none⟩
  | line none _ => exact .inl ⟨_, none, rfl⟩

theorem Cut.line_ne_nil (cut : Cut (line :: back)) : line ≠ [] := by
  rcases cut.ended_or_last with ⟨body, _, rfl⟩ | ⟨_, some_left, _⟩
  · simp
  · exact some_left

theorem Cut.ended (cut : Cut (front ++ back)) (more : back ≠ []) : ∀ line ∈ front, Ended line := by
  induction front with
  | nil => simp
  | cons first front ih =>
      refine List.forall_mem_cons.mpr ⟨?_, ih cut.tail⟩
      rcases cut.ended_or_last with ended | ⟨done, _⟩
      · exact ended
      · exact absurd (List.append_eq_nil_iff.mp done).2 more

theorem count_feeds (ended : ∀ line ∈ front, Ended line) :
    front.flatten.count '\n' = front.length := by
  induction front with
  | nil => rfl
  | cons first front ih =>
      obtain ⟨⟨body, none, rfl⟩, others⟩ := List.forall_mem_cons.mp ended
      simp [ih others, List.count_eq_zero.mpr none]

end Cuts

section Dropping

variable {body line rest : List Char} {front : List (List Char)}

private theorem dropLineEnd_cons {c : Char} (more : 1 < rest.length) :
    dropLineEnd (c :: rest) = c :: dropLineEnd rest := by
  conv => lhs; unfold dropLineEnd
  split <;> simp_all

private theorem dropLineEnd_open (none : '\n' ∉ line) : dropLineEnd line = line := by
  induction line with
  | nil => rfl
  | cons c line ih =>
      simp only [List.mem_cons, not_or] at none
      have kept := ih none.2
      unfold dropLineEnd
      split <;> simp_all

private theorem dropLineEnd_wide (body : List Char) : dropLineEnd (body ++ wideEnding) = body := by
  induction body with
  | nil => rfl
  | cons c body ih =>
      rw [List.cons_append, dropLineEnd_cons (by simp [wideEnding]), ih]

private theorem dropLineEnd_narrow (single : body.getLast? ≠ some '\r') :
    dropLineEnd (body ++ ['\n']) = body := by
  induction body with
  | nil => rfl
  | cons c body ih =>
      cases body with
      | nil =>
          have other : c ≠ '\r' := by simpa using single
          simp [dropLineEnd, other]
      | cons x others =>
          rw [List.cons_append, dropLineEnd_cons (by simp), ih (by simpa using single)]

private theorem dropLineEnd_ended (body : List Char) :
    body = dropLineEnd (body ++ ['\n']) ++ ['\r'] ∧ body.getLast? = some '\r' ∨
      body = dropLineEnd (body ++ ['\n']) ∧ body.getLast? ≠ some '\r' := by
  by_cases wide : body.getLast? = some '\r'
  · obtain ⟨content, rfl⟩ := List.getLast?_eq_some_iff.mp wide
    have text : content ++ ['\r'] ++ ['\n'] = content ++ wideEnding := by simp [wideEnding]
    rw [text, dropLineEnd_wide]
    exact .inl ⟨rfl, wide⟩
  · rw [dropLineEnd_narrow wide]
    exact .inr ⟨rfl, wide⟩

private theorem length_dropLineEnd (body : List Char) :
    body.getLast? = some '\r' ∧ (dropLineEnd (body ++ ['\n'])).length + 1 = body.length ∨
      body.getLast? ≠ some '\r' ∧ (dropLineEnd (body ++ ['\n'])).length = body.length := by
  rcases dropLineEnd_ended body with ⟨split, wide⟩ | ⟨same, narrow⟩
  · have size := congrArg List.length split
    rw [List.length_append, List.length_singleton] at size
    exact .inl ⟨wide, size.symm⟩
  · exact .inr ⟨narrow, (congrArg List.length same).symm⟩

theorem Cut.feed_not_mem_content {back : List (List Char)} (cut : Cut (line :: back)) :
    '\n' ∉ dropLineEnd line := by
  rcases cut.ended_or_last with ⟨body, none, rfl⟩ | ⟨_, _, none⟩
  · rcases dropLineEnd_ended body with ⟨split, _⟩ | ⟨same, _⟩
    · rw [split] at none
      exact fun mem => none (List.mem_append_left _ mem)
    · rwa [← same]
  · rwa [dropLineEnd_open none]

theorem Cut.content_le {back : List (List Char)} (cut : Cut (line :: back)) :
    (dropLineEnd line).length ≤ line.length := by
  rcases cut.ended_or_last with ⟨body, _, rfl⟩ | ⟨_, _, none⟩
  · rw [List.length_append]
    rcases length_dropLineEnd body with ⟨_, size⟩ | ⟨_, size⟩
    · omega
    · omega
  · rw [dropLineEnd_open none]

private theorem dropLineEnd_line (body : List Char) (more : rest ≠ []) :
    dropLineEnd (body ++ '\n' :: rest) = body ++ '\n' :: dropLineEnd rest := by
  induction body with
  | nil =>
      obtain ⟨x, others, rfl⟩ := List.exists_cons_of_ne_nil more
      simp [dropLineEnd]
  | cons c body ih =>
      have long : 1 < (body ++ '\n' :: rest).length := by
        have := List.length_pos_iff.mpr more
        simp only [List.length_append, List.length_cons]
        omega
      rw [List.cons_append, dropLineEnd_cons long, ih, List.cons_append]

theorem dropLineEnd_flatten (ended : ∀ line ∈ front, Ended line) (more : rest ≠ []) :
    dropLineEnd (front.flatten ++ rest) = front.flatten ++ dropLineEnd rest := by
  induction front with
  | nil => rfl
  | cons first front ih =>
      obtain ⟨⟨body, _, rfl⟩, others⟩ := List.forall_mem_cons.mp ended
      have left : front.flatten ++ rest ≠ [] := by simp [more]
      have text (tail : List Char) : ((body ++ ['\n']) :: front).flatten ++ tail =
          body ++ '\n' :: (front.flatten ++ tail) := by simp
      rw [text, dropLineEnd_line body left, ih others, text]

end Dropping

section Reckoning

variable {line rest : List Char} {front back : List (List Char)}

private theorem wide_infix_line (none : '\n' ∉ line) :
    wideEnding <:+: line ++ '\n' :: rest ↔ line.getLast? = some '\r' ∨ wideEnding <:+: rest := by
  induction line with
  | nil =>
      have other : ¬ wideEnding <+: '\n' :: rest := by simp [wideEnding]
      rw [List.nil_append, List.infix_cons_iff]
      simp [other]
  | cons c line ih =>
      simp only [List.mem_cons, not_or] at none
      rw [List.cons_append, List.infix_cons_iff, ih none.2]
      cases line with
      | nil => simp [wideEnding, eq_comm]
      | cons x others =>
          have feed : '\n' ≠ x := List.ne_of_not_mem_cons none.2
          simp [wideEnding, feed]

theorem wide_infix_flatten (ended : ∀ line ∈ front, Ended line) :
    wideEnding <:+: front.flatten ++ rest ↔
      wideEnding <:+: front.flatten ∨ wideEnding <:+: rest := by
  induction front with
  | nil => simp [wideEnding]
  | cons first front ih =>
      obtain ⟨⟨body, none, rfl⟩, others⟩ := List.forall_mem_cons.mp ended
      have alone : ((body ++ ['\n']) :: front).flatten = body ++ '\n' :: front.flatten := by simp
      rw [alone, List.append_assoc, List.cons_append, wide_infix_line none, wide_infix_line none,
        ih others, or_assoc]

theorem length_le_reckoned (lines : List (List Char)) : lines.length ≤ reckoned lines := by
  induction lines with
  | nil => exact Nat.zero_le _
  | cons line lines ih =>
      rw [List.length_cons, reckoned_cons]
      omega

/-- Reckoning is never ahead of the text, and behind it only for a wide ending. -/
theorem reckoned_le (ended : ∀ line ∈ front, Ended line) :
    reckoned (front.map dropLineEnd) ≤ front.flatten.length ∧
      (reckoned (front.map dropLineEnd) = front.flatten.length ↔
        ¬ wideEnding <:+: front.flatten) := by
  induction front with
  | nil => simp [wideEnding]
  | cons first front ih =>
      obtain ⟨⟨body, none, rfl⟩, others⟩ := List.forall_mem_cons.mp ended
      obtain ⟨least, equal⟩ := ih others
      have text : ((body ++ ['\n']) :: front).flatten = body ++ '\n' :: front.flatten := by simp
      rw [text, wide_infix_line none, not_or, ← equal, List.map_cons, reckoned_cons,
        List.length_append, List.length_cons]
      rcases length_dropLineEnd body with ⟨wide, size⟩ | ⟨narrow, size⟩
      · exact ⟨by omega, fun same => by omega, fun never => absurd wide never.1⟩
      · exact ⟨by omega, fun same => ⟨narrow, by omega⟩, fun same => by omega⟩

/-- No wide ending reaches a place of a line exactly if the place is not behind the content. -/
theorem wide_infix_take (cut : Cut (line :: back)) {place : Nat} (inside : place < line.length) :
    ¬ wideEnding <:+: line.take (place + 1) ↔ place ≤ (dropLineEnd line).length := by
  have never {part : List Char} (none : '\n' ∉ part) : ¬ wideEnding <:+: part :=
    fun found => none (found.subset (by simp [wideEnding]))
  rcases cut.ended_or_last with ⟨body, none, rfl⟩ | ⟨_, _, none⟩
  · rw [List.length_append, List.length_singleton] at inside
    rcases Nat.lt_or_ge place body.length with early | late
    · have part : (body ++ ['\n']).take (place + 1) = body.take (place + 1) :=
        List.take_append_of_le_length early
      rw [part]
      refine ⟨fun _ => ?_, fun _ => never fun mem => none (List.mem_of_mem_take mem)⟩
      rcases length_dropLineEnd body with ⟨_, size⟩ | ⟨_, size⟩
      · omega
      · omega
    · obtain rfl : place = body.length := by omega
      have whole : (body ++ ['\n']).take (body.length + 1) = body ++ ['\n'] :=
        List.take_of_length_le (by simp)
      rw [whole, wide_infix_line none]
      rcases length_dropLineEnd body with ⟨wide, size⟩ | ⟨narrow, size⟩
      · exact ⟨fun neither => absurd (.inl wide) neither, fun short => by omega⟩
      · exact ⟨fun _ => size.ge, fun _ => by simp [narrow, wideEnding]⟩
  · rw [dropLineEnd_open none]
    exact ⟨fun _ => inside.le, fun _ => never fun mem => none (List.mem_of_mem_take mem)⟩

end Reckoning

end PatternCompiler.Text
