import PatternCompiler.Cursor
import PatternCompiler.Fault
import PatternCompiler.Iteration

/-!
Scans: readers that move a cursor forward and either yield a value or report a violation. A scan
that fails leaves the cursor where it stopped. `Forward` says that a scan only ever advances the
cursor within its text, `StrictAt` that at a given cursor it takes at least one character when it
succeeds, and `Step.Moves` says both of the steps of an iteration.
-/

set_option autoImplicit false
set_option relaxedAutoImplicit false

namespace PatternCompiler

abbrev Scan (α : Type) : Type :=
  EStateM Violation Cursor α

namespace Scan

variable {α β : Type}

def fail (fault : Fault) (pos : Nat) : Scan α :=
  fun c => .error ⟨fault, pos⟩ c

def index : Scan Nat :=
  fun c => .ok c.index c

def rest : Scan (List Char) :=
  fun c => .ok c.rest c

def eat (char : Char) : Scan Bool :=
  fun c => .ok (c.eat char).1 (c.eat char).2

def takeWhile (p : Char → Bool) : Scan (List Char) :=
  fun c => .ok (c.takeWhile p).1 (c.takeWhile p).2

def pass (n : Nat) : Scan Unit :=
  fun c => .ok () (c.advance (c.rest.take n).length)

/-- Reads inside a character class, which ends with the scan, also if that fails. -/
def inClass (x : Scan α) : Scan α :=
  fun c =>
    match x c.enterClass with
    | .ok a c' => .ok a c'.leaveClass
    | .error v c' => .error v c'.leaveClass

def left : EStateM.Result Violation Cursor α → Cursor
  | .ok _ c => c
  | .error _ c => c

def Forward (x : Scan α) : Prop :=
  ∀ c : Cursor, c.Reaches (left (x c))

def StrictAt (c : Cursor) (x : Scan α) : Prop :=
  ∀ a c', x c = .ok a c' → c'.rest.length < c.rest.length

theorem forward_pure (a : α) : Forward (pure a : Scan α) :=
  fun c => .refl c

theorem forward_fail (fault : Fault) (pos : Nat) : Forward (fail fault pos : Scan α) :=
  fun c => .refl c

theorem forward_index : Forward index :=
  fun c => .refl c

theorem forward_rest : Forward rest :=
  fun c => .refl c

theorem forward_pass (n : Nat) : Forward (pass n) :=
  fun c => .step (List.length_take_le' n c.rest)

theorem forward_eat (char : Char) : Forward (eat char) :=
  fun c => c.reaches_eat char

theorem forward_takeWhile (p : Char → Bool) : Forward (takeWhile p) :=
  fun c => c.reaches_takeWhile p

theorem forward_bind {x : Scan α} {f : α → Scan β} (hx : Forward x) (hf : ∀ a, Forward (f a)) :
    Forward (x >>= f) := by
  intro c
  have reached := hx c
  cases taken : x c with
  | error v c' =>
      rw [taken] at reached
      simpa [left, bind, EStateM.bind, taken] using reached
  | ok a c' =>
      rw [taken] at reached
      simpa [bind, EStateM.bind, taken] using reached.trans (hf a c')

theorem forward_map {f : α → β} {x : Scan α} (h : Forward x) : Forward (f <$> x) :=
  forward_bind h fun a => forward_pure (f a)

theorem forward_inClass {x : Scan α} (h : Forward x) : Forward (inClass x) := by
  intro c
  have reached := h c.enterClass
  unfold inClass
  cases taken : x c.enterClass with
  | ok a c' =>
      rw [taken] at reached
      exact Cursor.reaches_leaveClass reached
  | error v c' =>
      rw [taken] at reached
      exact Cursor.reaches_leaveClass reached

theorem Forward.reaches_of_ok {x : Scan α} (h : Forward x) {c c' : Cursor} {a : α}
    (taken : x c = .ok a c') : c.Reaches c' := by
  simpa [left, taken] using h c

theorem Forward.reaches_of_error {x : Scan α} (h : Forward x) {c c' : Cursor} {v : Violation}
    (taken : x c = .error v c') : c.Reaches c' := by
  simpa [left, taken] using h c

theorem Forward.length_le {x : Scan α} (h : Forward x) {c c' : Cursor} {a : α}
    (taken : x c = .ok a c') : c'.rest.length ≤ c.rest.length :=
  (h.reaches_of_ok taken).length_le

theorem strictAt_fail (c : Cursor) (fault : Fault) (pos : Nat) :
    StrictAt c (fail fault pos : Scan α) := by
  intro a c' taken
  cases taken

theorem strictAt_pass {c : Cursor} {f : Unit → Scan β} (n : Nat) (some_left : c.rest ≠ [])
    (hf : Forward (f ())) : StrictAt c (pass (n + 1) >>= f) := by
  intro a c' taken
  have shorter := hf.length_le (c := c.advance (c.rest.take (n + 1)).length) taken
  have := List.length_pos_iff.mpr some_left
  simp only [Cursor.rest_advance, List.length_drop, List.length_take] at shorter
  omega

end Scan

/-- A step of an iteration over a text: a further state lies strictly later in the text, and the
answer leaves a cursor that is not earlier. -/
def Step.Moves {σ α : Type} (place : σ → Cursor) (left : α → Cursor) (c : Cursor) :
    Step σ α → Prop
  | .next s => c.Reaches (place s) ∧ (place s).rest.length < c.rest.length
  | .halt answer => c.Reaches (left answer)

namespace Step

variable {σ α : Type} {place : σ → Cursor} {left : α → Cursor} {step : σ → Step σ α}

theorem falls_of_moves (moves : ∀ s, (step s).Moves place left (place s)) (s s' : σ)
    (taken : step s = .next s') : (place s').rest.length < (place s).rest.length := by
  have moved := moves s
  rw [taken] at moved
  exact moved.2

theorem reaches_run (moves : ∀ s, (step s).Moves place left (place s)) (s : σ) :
    (place s).Reaches
      (left (run (fun s => (place s).rest.length) step (falls_of_moves moves) s)) := by
  refine run_induct (fun s' => (place s).Reaches (place s'))
    (fun answer => (place s).Reaches (left answer)) ?_ ?_ s (.refl _)
  · intro s₁ s₂ reached taken
    have moved := moves s₁
    rw [taken] at moved
    exact reached.trans moved.1
  · intro s₁ answer reached taken
    have moved := moves s₁
    rw [taken] at moved
    exact reached.trans moved

end Step

end PatternCompiler
