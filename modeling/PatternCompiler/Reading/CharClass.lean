import PatternCompiler.Iteration
import PatternCompiler.Reading.Escape

/-!
Character classes. A `]` directly after the opening is data. A raw `-` directly after a literal
item and not directly before `]` joins the next item into a range if that is a literal too, and is
a literal itself before a class escape.
-/

set_option autoImplicit false
set_option relaxedAutoImplicit false

namespace PatternCompiler.Reading

open Scan

def letterItem (letter : Char) (start : Nat) : Scan ClassItem :=
  match Shorthand.ofLetter? letter with
  | some kind => ClassItem.shorthand kind <$> shorthandProperty kind
  | none =>
      match numericEscape? start letter with
      | some scan => ClassItem.char <$> scan
      | none =>
          if letter = '0' then pure (.char '\x00')
          else if letter = 'b' then pure (.char '\x08')
          else
            match controlChar? letter with
            | some c => pure (.char c)
            | none => pure (.char letter)

def itemOf (start : Nat) : List Char → Scan ClassItem
  | [] => fail .unterminatedClass start
  | ['\\'] => do
      pass 1
      fail .unterminatedClass (start + 1)
  | '\\' :: letter :: _ => do
      pass 2
      letterItem letter start
  | c :: _ => do
      pass 1
      pure (.char c)

def classItem : Scan ClassItem := do
  itemOf (← index) (← rest)

/-- A class being read: the cursor, and the items so far, the last one first. -/
structure ClassDraft where
  cursor : Cursor
  items : List ClassItem := []

def joinRange (before : List ClassItem) (first : Char) (dash : Nat) (item : ClassItem) :
    Except Violation (List ClassItem) :=
  match item with
  | .char last =>
      if first ≤ last then .ok (.range first last :: before)
      else .error ⟨.descendingRange first last, dash⟩
  | item => .ok (item :: .char '-' :: .char first :: before)

/-- The answer of the class reader: the items and the cursor behind the class. -/
abbrev ClassAnswer := EStateM.Result Violation Cursor (List ClassItem)

def classItemStep (d : ClassDraft) : Step ClassDraft ClassAnswer :=
  match d.items, d.cursor.rest with
  | .char first :: before, '-' :: next =>
      if next.head? = some ']' then
        .next ⟨d.cursor.advance 1, .char '-' :: .char first :: before⟩
      else
        match classItem (d.cursor.advance 1) with
        | .error v c => .halt (.error v c)
        | .ok item c =>
            match joinRange before first d.cursor.index item with
            | .ok items => .next ⟨c, items⟩
            | .error v => .halt (.error v c)
  | items, _ =>
      match classItem d.cursor with
      | .ok item c => .next ⟨c, item :: items⟩
      | .error v c => .halt (.error v c)

/-- One step of reading a class whose first item starts at index `first`. -/
def classStep (first : Nat) (d : ClassDraft) : Step ClassDraft ClassAnswer :=
  match d.cursor.rest with
  | [] => .halt (.error ⟨.unterminatedClass, d.cursor.index⟩ d.cursor)
  | ']' :: _ =>
      if first < d.cursor.index then .halt (.ok d.items.reverse (d.cursor.advance 1))
      else classItemStep d
  | _ => classItemStep d

theorem forward_letterItem (letter : Char) (start : Nat) : Forward (letterItem letter start) := by
  unfold letterItem
  split
  · exact forward_map (forward_shorthandProperty _)
  · split
    · next scan h => exact forward_map (forward_numericEscape h)
    · split
      · exact forward_pure _
      · split
        · exact forward_pure _
        · split
          · exact forward_pure _
          · exact forward_pure _

theorem forward_classItem : Forward classItem := by
  refine forward_bind forward_index fun start => forward_bind forward_rest fun text => ?_
  unfold itemOf
  split
  · exact forward_fail _ _
  · exact forward_bind (forward_pass _) fun _ => forward_fail _ _
  · exact forward_bind (forward_pass _) fun _ => forward_letterItem _ _
  · exact forward_bind (forward_pass _) fun _ => forward_pure _

theorem strictAt_classItem (c : Cursor) : StrictAt c classItem := by
  change StrictAt c (itemOf c.index c.rest)
  unfold itemOf
  split
  · exact strictAt_fail _ _ _
  · next hr => exact strictAt_pass 0 (by simp [hr]) (forward_fail _ _)
  · next hr => exact strictAt_pass 1 (by simp [hr]) (forward_letterItem _ _)
  · next hr => exact strictAt_pass 0 (by simp [hr]) (forward_pure _)

theorem classItemStep_moves (d : ClassDraft) :
    (classItemStep d).Moves ClassDraft.cursor left d.cursor := by
  unfold classItemStep
  split
  · next first before next hi hr =>
    have passed : d.cursor.Reaches (d.cursor.advance 1) := .step (by simp [hr])
    split
    · exact ⟨passed, by simp [hr]⟩
    · split
      · next taken => exact passed.trans (forward_classItem.reaches_of_error taken)
      · next taken =>
        have reached := passed.trans (forward_classItem.reaches_of_ok taken)
        split
        · have shorter := strictAt_classItem _ _ _ taken
          refine ⟨reached, ?_⟩
          simp only [Cursor.rest_advance, hr, List.length_drop, List.length_cons] at shorter ⊢
          omega
        · exact reached
  · split
    · next taken => exact ⟨forward_classItem.reaches_of_ok taken, strictAt_classItem _ _ _ taken⟩
    · next taken => exact forward_classItem.reaches_of_error taken

theorem classStep_moves (first : Nat) (d : ClassDraft) :
    (classStep first d).Moves ClassDraft.cursor left d.cursor := by
  unfold classStep
  split
  · exact .refl _
  · next hr =>
    split
    · exact .step (by simp [hr])
    · exact classItemStep_moves d
  · exact classItemStep_moves d

def classItems : Scan (List ClassItem) :=
  fun c =>
    Step.run (fun d => d.cursor.rest.length) (classStep c.index)
      (Step.falls_of_moves (classStep_moves c.index)) ⟨c, []⟩

def classBody : Scan Pattern := do
  let negated ← eat '^'
  Pattern.charClass negated <$> classItems

def charClass : Scan Pattern :=
  inClass classBody

theorem forward_classItems : Forward classItems :=
  fun c => Step.reaches_run (classStep_moves c.index) ⟨c, []⟩

theorem forward_classBody : Forward classBody :=
  forward_bind (forward_eat _) fun _ => forward_map forward_classItems

theorem forward_charClass : Forward charClass :=
  forward_inClass forward_classBody

end PatternCompiler.Reading
