/-!
Iterating a step until it halts. A measure that falls with every further step bounds the run, so
the iteration is total; what holds of every step then holds of the run.
-/

set_option autoImplicit false
set_option relaxedAutoImplicit false

namespace PatternCompiler

/-- What one step of an iteration yields: a further state or the answer. -/
inductive Step (σ α : Type)
  | next (state : σ)
  | halt (answer : α)

namespace Step

variable {σ α : Type}

def run (size : σ → Nat) (step : σ → Step σ α)
    (falls : ∀ s s', step s = .next s' → size s' < size s) (s : σ) : α :=
  match _taken : step s with
  | .halt answer => answer
  | .next s' => run size step falls s'
termination_by size s
decreasing_by exact falls s s' _taken

variable {size : σ → Nat} {step : σ → Step σ α}
  {falls : ∀ s s', step s = .next s' → size s' < size s}

theorem run_halt {s : σ} {answer : α} (h : step s = .halt answer) :
    run size step falls s = answer := by
  rw [run]
  split
  · simp_all
  · simp_all

theorem run_next {s s' : σ} (h : step s = .next s') :
    run size step falls s = run size step falls s' := by
  rw [run]
  split
  · simp_all
  · simp_all

/-- An invariant that every step keeps, and that yields a property of each answer on halting,
yields the property of the run's answer. -/
theorem run_induct (inv : σ → Prop) (post : α → Prop)
    (keeps : ∀ s s', inv s → step s = .next s' → inv s')
    (ends : ∀ s answer, inv s → step s = .halt answer → post answer)
    (s : σ) (start : inv s) : post (run size step falls s) := by
  generalize bound : size s = n
  induction n using Nat.strongRecOn generalizing s with
  | ind n ih =>
      cases taken : step s with
      | halt answer => rw [run_halt taken]; exact ends s answer start taken
      | next s' =>
          rw [run_next taken]
          exact ih (size s') (bound ▸ falls s s' taken) s' (keeps s s' start taken) rfl

end Step

end PatternCompiler
