import PatternCompiler.Proofs.Failing

/-!
What the operations of a cursor consume. Each operation passes one piece of the text, which its
answer tells; a skip tells nothing, and there the piece is what lies between the two places. Pieces
that are passed one after the other join, so whatever is done with a cursor, nothing of the text is
lost and nothing is read twice. A skip in free spacing passes the longest spacing at the cursor.
-/

set_option autoImplicit false
set_option relaxedAutoImplicit false

namespace PatternCompiler

namespace Cursor

open Grammar

/-- Of the prefixes of a text that `fits` relates to what follows them, this is the longest. -/
def LongestPrefix (fits : List Char → List Char → Prop) (text s : List Char) : Prop :=
  (∃ after, text = s ++ after ∧ fits s after) ∧
    ∀ s' after, text = s' ++ after → fits s' after → s'.length ≤ s.length

/-- The operations that read from a cursor, with the distance, character, word or test that each is
given. -/
inductive Operation
  | peek
  | peekAt (n : Nat)
  | take
  | eat (char : Char)
  | eatWord (word : List Char)
  | takeWhile (p : Char → Bool)
  | skip

inductive Answer
  | found (char : Option Char)
  | verdict (taken : Bool)
  | run (chars : List Char)
  | silent

/-- Whether an answer says that what was asked for does not come next. -/
def Answer.isFailure : Answer → Bool
  | .found none => true
  | .verdict false => true
  | _ => false

namespace Operation

/-- Performs an operation: its answer, and the cursor that it leaves. -/
def perform : Operation → Cursor → Answer × Cursor
  | .peek, c => (.found c.peek, c)
  | .peekAt n, c => (.found (c.peekAt n), c)
  | .take, c => (.found c.take.1, c.take.2)
  | .eat char, c => (.verdict (c.eat char).1, (c.eat char).2)
  | .eatWord word, c => (.verdict (c.eatWord word).1, (c.eatWord word).2)
  | .takeWhile p, c => (.run (c.takeWhile p).1, (c.takeWhile p).2)
  | .skip, c => (.silent, c.skip)

/-- Whether what an operation asks for comes next. -/
def Finds : Operation → List Char → Prop
  | .peek, rest => rest ≠ []
  | .peekAt n, rest => n < rest.length
  | .take, rest => rest ≠ []
  | .eat char, rest => [char] <+: rest
  | .eatWord word, rest => word <+: rest
  | .takeWhile _, _ => True
  | .skip, _ => True

/-- The piece of a text that an operation consumes at a cursor, by its answer: the character that it
takes or eats, the word that it matches, the run that it returns. A skip answers nothing, and its
piece is the part of the text between the two places. -/
def piece (text : List Char) (c : Cursor) : Operation → List Char
  | .peek => []
  | .peekAt _ => []
  | .take => c.take.1.toList
  | .eat char => if (c.eat char).1 then [char] else []
  | .eatWord word => if (c.eatWord word).1 then word else []
  | .takeWhile p => (c.takeWhile p).1
  | .skip => text.extract c.index c.skip.index

/-- The cursors that operations leave, one after the other. -/
def trail : List Operation → Cursor → List Cursor
  | [], _ => []
  | op :: ops, c => (op.perform c).2 :: trail ops (op.perform c).2

/-- The cursor that operations leave in the end. -/
def performAll (ops : List Operation) (c : Cursor) : Cursor :=
  ops.foldl (fun c op => (op.perform c).2) c

/-- The pieces that operations consume, one after the other. -/
def pieces (text : List Char) : List Operation → Cursor → List (List Char)
  | [], _ => []
  | op :: ops, c => op.piece text c :: pieces text ops (op.perform c).2

end Operation

section Places

variable {text s : List Char} {c c' : Cursor}

private theorem Within.extract_eq (h : c.Within text) (passed : c.Passes s c') :
    text.extract c.index c'.index = s := by
  rw [List.extract_eq_take_drop, h.drop_eq, passed.index_eq, Nat.add_sub_cancel_left, passed.1,
    List.take_left]

private theorem Reaches.exists_passes (h : c.Reaches c') : ∃ s, c.Passes s c' := by
  obtain ⟨n, left, rfl⟩ := h
  have length : (c.rest.take n).length = n := List.length_take_of_le left
  have passed := Passes.of_rest (List.take_append_drop n c.rest).symm
  rw [length] at passed
  exact ⟨_, passed⟩

private theorem Within.eq_seek (h : c.Within text) (reached : c.Reaches c') :
    c' = c.seek text c'.index := by
  obtain ⟨n, _, rfl⟩ := reached
  rw [seek, index_advance, ← List.drop_drop, h.drop_eq]
  rfl

end Places

section Longest

variable {c : Cursor}

private theorem longestPrefix_skip (free : c.freeSpacing = true) (outside : c.classDepth = 0) :
    ∃ gap, c.Passes gap c.skip ∧ LongestPrefix (Spacing true) c.rest gap := by
  obtain ⟨gap, passed, spaced, _⟩ := passes_skip c outside
  rw [free] at spaced
  refine ⟨gap, passed, ⟨c.skip.rest, passed.1, spaced⟩, ?_⟩
  intro s after text spaced'
  have short := Passes.of_rest text
  have same : c.skip = (c.advance s.length).skip := by
    refine short.skip_eq outside ?_
    rw [free, short.rest_eq text]
    exact spaced'
  -- the shorter spacing ends before the place where both skips lead
  have before := (c.advance s.length).reaches_skip.index_le
  rw [← same, passed.index_eq, index_advance] at before
  omega

private theorem longestPrefix_takeWhile (c : Cursor) (p : Char → Bool) :
    LongestPrefix (fun s _ => ∀ x ∈ s, p x = true) c.rest (c.takeWhile p).1 := by
  refine ⟨⟨c.rest.dropWhile p, List.takeWhile_append_dropWhile.symm, ?_⟩, ?_⟩
  · intro x member
    exact List.mem_takeWhile_imp member
  · intro s after text all
    have whole : c.rest.takeWhile p = s ++ after.takeWhile p := by
      rw [text, List.takeWhile_append_of_pos all]
    change s.length ≤ (c.rest.takeWhile p).length
    rw [whole, List.length_append]
    omega

end Longest

namespace Operation

variable {text : List Char} {c : Cursor}

private theorem passes_perform (op : Operation) (within : c.Within text) :
    c.Passes (op.piece text c) (op.perform c).2 := by
  cases op with
  | peek => exact passes_nil.mpr rfl
  | peekAt n => exact passes_nil.mpr rfl
  | take =>
      simp only [piece, perform, Cursor.take]
      cases rest : c.rest with
      | nil => exact passes_nil.mpr rfl
      | cons x after => exact Passes.of_rest (s := [x]) rest
  | eat char =>
      simp only [piece, perform, Cursor.eat]
      split
      · next next_eq =>
        obtain ⟨after, rest⟩ := List.head?_eq_some_iff.mp next_eq
        exact Passes.of_rest (s := [char]) rest
      · exact passes_nil.mpr rfl
  | eatWord word =>
      simp only [piece, perform, Cursor.eatWord]
      split
      · next next_eq =>
        obtain ⟨after, rest⟩ := List.isPrefixOf_iff_prefix.mp next_eq
        exact Passes.of_rest rest.symm
      · exact passes_nil.mpr rfl
  | takeWhile p => exact Passes.of_rest List.takeWhile_append_dropWhile.symm
  | skip =>
      obtain ⟨s, passed⟩ := c.reaches_skip.exists_passes
      simp only [piece, perform, within.extract_eq passed]
      exact passed

private theorem within_perform (op : Operation) (within : c.Within text) :
    (op.perform c).2.Within text :=
  within.passes (passes_perform op within)

/-- Operations pass their pieces, one after the other. -/
theorem passes_performAll (ops : List Operation) (within : c.Within text) :
    c.Passes (pieces text ops c).flatten (performAll ops c) := by
  induction ops generalizing c with
  | nil => exact passes_nil.mpr rfl
  | cons op ops ih => exact (passes_perform op within).append (ih (within_perform op within))

private theorem reaches_of_mem_trail {ops : List Operation} {d : Cursor} (within : c.Within text)
    (visited : d ∈ trail ops c) : c.Reaches d := by
  induction ops generalizing c with
  | nil => cases visited
  | cons op ops ih =>
      have first := (passes_perform op within).reaches
      rcases List.mem_cons.mp visited with rfl | later
      · exact first
      · exact first.trans (ih (within_perform op within) later)

private theorem pairwise_trail (ops : List Operation) (within : c.Within text) :
    (c :: trail ops c).Pairwise fun d d' => d.index ≤ d'.index := by
  induction ops generalizing c with
  | nil => exact List.pairwise_singleton _ c
  | cons op ops ih =>
      refine List.pairwise_cons.mpr ⟨?_, ih (within_perform op within)⟩
      intro d visited
      have reached : c.Reaches d := reaches_of_mem_trail within visited
      exact reached.index_le

private theorem isFailure_perform (op : Operation) (c : Cursor) :
    (op.perform c).1.isFailure = true ↔ ¬ op.Finds c.rest := by
  cases op with
  | peek =>
      cases rest : c.rest with
      | nil => simp [perform, Cursor.peek, Finds, Answer.isFailure, rest]
      | cons x after => simp [perform, Cursor.peek, Finds, Answer.isFailure, rest]
  | peekAt n =>
      by_cases inside : n < c.rest.length
      · simp [perform, Cursor.peekAt, Finds, Answer.isFailure, inside]
      · simp [perform, Cursor.peekAt, Finds, Answer.isFailure, inside]
  | take =>
      cases rest : c.rest with
      | nil => simp [perform, Cursor.take, Finds, Answer.isFailure, rest]
      | cons x after => simp [perform, Cursor.take, Finds, Answer.isFailure, rest]
  | eat char =>
      cases rest : c.rest with
      | nil => simp [perform, Cursor.eat, Finds, Answer.isFailure, rest]
      | cons x after =>
          by_cases same : x = char
          · simp [perform, Cursor.eat, Finds, Answer.isFailure, rest, same]
          · simp [perform, Cursor.eat, Finds, Answer.isFailure, rest, same, Ne.symm same]
  | eatWord word =>
      by_cases next : word <+: c.rest
      · simp [perform, Cursor.eatWord, Finds, Answer.isFailure, next]
      · simp [perform, Cursor.eatWord, Finds, Answer.isFailure, next]
  | takeWhile p => simp [perform, Finds, Answer.isFailure]
  | skip => simp [perform, Finds, Answer.isFailure]

private theorem perform_of_isFailure {op : Operation} (failed : (op.perform c).1.isFailure = true) :
    (op.perform c).2 = c := by
  cases op with
  | peek => rfl
  | peekAt n => rfl
  | take =>
      simp only [perform, Cursor.take] at failed ⊢
      cases rest : c.rest with
      | nil => rfl
      | cons x after => simp [rest, Answer.isFailure] at failed
  | eat char =>
      simp only [perform, Cursor.eat] at failed ⊢
      split at failed
      · cases failed
      · next other => rw [if_neg other]
  | eatWord word =>
      simp only [perform, Cursor.eatWord] at failed ⊢
      split at failed
      · cases failed
      · next other => rw [if_neg other]
  | takeWhile p => cases failed
  | skip => cases failed

end Operation

open Operation

/-- Whatever is done with a cursor that stands in a text, its index never falls and never passes the
end of the text, and nothing else about it changes. What the operations consume makes up the part of
the text between the first place and the last. At every place on the way, an operation fails exactly
if what it asks for does not come next, and then it leaves the cursor as it was; a run is the longest
of its kind; and a skip in free spacing, outside classes, passes the longest sequence of white space
and comments that comes next, so that a second one passes nothing, and elsewhere nothing at all. -/
theorem operations_consume (text : List Char) (c : Cursor) (within : c.Within text)
    (ops : List Operation) :
    ((c :: trail ops c).Pairwise fun d d' => d.index ≤ d'.index) ∧
      (∀ d ∈ trail ops c, d.index ≤ text.length ∧ d = c.seek text d.index) ∧
      (pieces text ops c).flatten = text.extract c.index (performAll ops c).index ∧
      ∀ d ∈ c :: trail ops c,
        (∀ op : Operation, (op.perform d).1.isFailure = true ↔ ¬ op.Finds d.rest) ∧
          (∀ op : Operation, (op.perform d).1.isFailure = true → (op.perform d).2 = d) ∧
          (∀ p, LongestPrefix (fun s _ => ∀ x ∈ s, p x = true) d.rest (d.takeWhile p).1) ∧
          (d.freeSpacing = true ∧ d.classDepth = 0 →
            LongestPrefix (Spacing true) d.rest (text.extract d.index d.skip.index)) ∧
          (¬ (d.freeSpacing = true ∧ d.classDepth = 0) → d.skip = d) ∧ d.skip.skip = d.skip := by
  refine ⟨pairwise_trail ops within, ?_, ?_, ?_⟩
  · intro d visited
    have reached := reaches_of_mem_trail within visited
    exact ⟨(within.reaches reached).index_le, within.eq_seek reached⟩
  · exact (within.extract_eq (passes_performAll ops within)).symm
  · intro d visited
    have inside : d.Within text := by
      rcases List.mem_cons.mp visited with rfl | later
      · exact within
      · exact within.reaches (reaches_of_mem_trail within later)
    refine ⟨fun op => isFailure_perform op d, fun op => perform_of_isFailure,
      d.longestPrefix_takeWhile, ?_, skip_eq_self, d.skip_idem⟩
    rintro ⟨free, outside⟩
    obtain ⟨gap, passed, longest⟩ := longestPrefix_skip free outside
    rw [inside.extract_eq passed]
    exact longest

/-- Two comments, the second of which the text ends, and operations of every kind between them. -/
theorem operations_consume_comments :
    let text := [' ', '#', 'n', '\r', 'a', '7', '#', ' ']
    let c := ofText text true
    let ops : List Operation :=
      [.eat 'a', .skip, .peekAt 1, .eatWord ['a'], .takeWhile Char.isDigit, .skip, .take]
    c.Within text ∧ (trail ops c).map index = [0, 4, 4, 5, 6, 8, 8] ∧
      (pieces text ops c).flatten = text ∧
      LongestPrefix (Spacing true) text [' ', '#', 'n', '\r'] := by
  intro text c ops
  have within : c.Within text := within_ofText text true
  obtain ⟨_, _, consumed, places⟩ := operations_consume text c within ops
  obtain ⟨_, _, _, skipped, _⟩ := places c List.mem_cons_self
  exact ⟨within, by decide, consumed, skipped ⟨rfl, rfl⟩⟩

end Cursor

end PatternCompiler
