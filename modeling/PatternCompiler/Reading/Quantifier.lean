import PatternCompiler.Reading.Escape

/-!
Quantifiers: `*`, `+`, `?`, `{m}`, `{m,}` and `{m,n}`, each optionally followed by `?` or `+`. A
brace that no digit follows is not a quantifier.
-/

set_option autoImplicit false
set_option relaxedAutoImplicit false

namespace PatternCompiler.Reading

open Scan

def startsQuantifier : List Char → Bool
  | '*' :: _ | '+' :: _ | '?' :: _ => true
  | '{' :: c :: _ => c.isDigit
  | _ => false

def startsLooseBrace : List Char → Bool
  | '{' :: [] => true
  | '{' :: c :: _ => !c.isDigit
  | _ => false

def bound : Scan UInt32 := do
  let start ← index
  match count? (← takeWhile Char.isDigit) with
  | some n => pure n
  | none => fail .boundTooLarge start

def upperBound : Scan (Option UInt32) := do
  match ← rest with
  | c :: _ => if c.isDigit then some <$> bound else pure none
  | [] => pure none

def bracedBounds (start : Nat) : Scan (UInt32 × Bound) := do
  let least ← bound
  if ← eat ',' then
    let most ← upperBound
    if ← eat '}' then
      match most with
      | none => pure (least, .unbounded)
      | some most =>
          if least ≤ most then pure (least, .finite most) else fail .descendingBounds start
    else fail .unterminatedRange (← index)
  else if ← eat '}' then pure (least, .finite least)
  else fail .unterminatedCount (← index)

/-- The bounds of a quantifier, its first character being taken at `start`. -/
def boundsAfter (start : Nat) : Char → Scan (UInt32 × Bound)
  | '*' => pure (0, .unbounded)
  | '+' => pure (1, .unbounded)
  | '?' => pure (0, .finite 1)
  | _ => bracedBounds start

def greed : Scan Greed := do
  if ← eat '?' then pure .lazy
  else if ← eat '+' then pure .possessive
  else pure .greedy

def quantifyWith (atom : Pattern) (start : Nat) (text : List Char) : Scan Pattern :=
  match text with
  | [] => pure atom
  | first :: _ =>
      if startsQuantifier text then
        if atom.isAnchor then fail .quantifiedAnchor start
        else
          match atom.groupName? with
          | some name => fail (.quantifiedNamedGroup name) start
          | none => do
              pass 1
              let (least, most) ← boundsAfter start first
              return .repetition atom least most (← greed)
      else pure atom

def quantify (atom : Pattern) : Scan Pattern := do
  quantifyWith atom (← index) (← rest)

theorem forward_bound : Forward bound := by
  refine forward_bind forward_index fun start => forward_bind (forward_takeWhile _) fun digits => ?_
  split
  · exact forward_pure _
  · exact forward_fail _ _

theorem forward_upperBound : Forward upperBound := by
  refine forward_bind forward_rest fun text => ?_
  split
  · split
    · exact forward_map forward_bound
    · exact forward_pure _
  · exact forward_pure _

theorem forward_bracedBounds (start : Nat) : Forward (bracedBounds start) := by
  refine forward_bind forward_bound fun least => forward_bind (forward_eat _) fun comma => ?_
  split
  · refine forward_bind forward_upperBound fun most => forward_bind (forward_eat _) fun closed => ?_
    split
    · split
      · exact forward_pure _
      · split
        · exact forward_pure _
        · exact forward_fail _ _
    · exact forward_bind forward_index fun _ => forward_fail _ _
  · refine forward_bind (forward_eat _) fun closed => ?_
    split
    · exact forward_pure _
    · exact forward_bind forward_index fun _ => forward_fail _ _

theorem forward_boundsAfter (start : Nat) (first : Char) : Forward (boundsAfter start first) := by
  unfold boundsAfter
  split
  · exact forward_pure _
  · exact forward_pure _
  · exact forward_pure _
  · exact forward_bracedBounds _

theorem forward_greed : Forward greed := by
  refine forward_bind (forward_eat _) fun lazyMark => ?_
  split
  · exact forward_pure _
  · refine forward_bind (forward_eat _) fun possessiveMark => ?_
    split
    · exact forward_pure _
    · exact forward_pure _

theorem forward_quantify (atom : Pattern) : Forward (quantify atom) := by
  refine forward_bind forward_index fun start => forward_bind forward_rest fun text => ?_
  unfold quantifyWith
  split
  · exact forward_pure _
  · split
    · split
      · exact forward_fail _ _
      · split
        · exact forward_fail _ _
        · exact forward_bind (forward_pass _) fun _ =>
            forward_bind (forward_boundsAfter _ _) fun _ => forward_map forward_greed
    · exact forward_pure _

end PatternCompiler.Reading
