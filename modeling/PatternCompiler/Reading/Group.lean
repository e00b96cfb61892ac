import PatternCompiler.Reading.Escape

/-!
The openings of groups and lookarounds, read after their parenthesis.
-/

set_option autoImplicit false
set_option relaxedAutoImplicit false

namespace PatternCompiler.Reading

open Scan

/-- The opening of a named group, `(?<` being taken and the parenthesis standing at `start`. The
name must be an identifier that no earlier group has. -/
def namedOpening (captures : Captures) (start : Nat) : Scan Opening := do
  let nameStart ← index
  let name ← takeWhile (· != '>')
  if ← eat '>' then
    if isIdentifier name then
      if String.ofList name ∈ captures.names then
        fail (.duplicateGroupName (String.ofList name)) start
      else pure (.named (String.ofList name))
    else fail (.invalidGroupName (String.ofList name)) nameStart
  else fail .unterminatedGroupName (← index)

def isModifier (c : Char) : Bool :=
  c ∈ ['i', 'm', 's', 'u', 'x', '-']

def openingOf (captures : Captures) (start : Nat) : List Char → Scan Opening
  | '?' :: ':' :: _ => do
      pass 2
      pure .plain
  | '?' :: '<' :: '=' :: _ => do
      pass 3
      pure (.look .behind false)
  | '?' :: '<' :: '!' :: _ => do
      pass 3
      pure (.look .behind true)
  | '?' :: '<' :: _ => do
      pass 2
      namedOpening captures start
  | '?' :: '>' :: _ => do
      pass 2
      pure .atomic
  | '?' :: '=' :: _ => do
      pass 2
      pure (.look .ahead false)
  | '?' :: '!' :: _ => do
      pass 2
      pure (.look .ahead true)
  | '?' :: c :: _ =>
      if isModifier c then fail .inlineModifiers (start + 1) else fail .unknownGroup start
  | ['?'] => fail .unknownGroup start
  | _ => pure .capture

/-- The opening of a bracketed construct, its parenthesis being taken at `start`. -/
def opening (captures : Captures) (start : Nat) : Scan Opening := do
  openingOf captures start (← rest)

theorem forward_namedOpening (captures : Captures) (start : Nat) :
    Forward (namedOpening captures start) := by
  refine forward_bind forward_index fun nameStart =>
    forward_bind (forward_takeWhile _) fun name => forward_bind (forward_eat _) fun closed => ?_
  split
  · split
    · split
      · exact forward_fail _ _
      · exact forward_pure _
    · exact forward_fail _ _
  · exact forward_bind forward_index fun _ => forward_fail _ _

theorem forward_opening (captures : Captures) (start : Nat) : Forward (opening captures start) := by
  refine forward_bind forward_rest fun text => ?_
  unfold openingOf
  split
  · exact forward_bind (forward_pass _) fun _ => forward_pure _
  · exact forward_bind (forward_pass _) fun _ => forward_pure _
  · exact forward_bind (forward_pass _) fun _ => forward_pure _
  · exact forward_bind (forward_pass _) fun _ => forward_namedOpening _ _
  · exact forward_bind (forward_pass _) fun _ => forward_pure _
  · exact forward_bind (forward_pass _) fun _ => forward_pure _
  · exact forward_bind (forward_pass _) fun _ => forward_pure _
  · split
    · exact forward_fail _ _
    · exact forward_fail _ _
  · exact forward_fail _ _
  · exact forward_pure _

end PatternCompiler.Reading
