import PatternCompiler.Proofs.Scanning

/-!
What failing scans report. `Cursor.Within` places a cursor in a text, so that what a scan has passed
and what it has before it are pieces of that text. `Scan.FailsWith` says of a scan at a cursor that
every violation it can report there satisfies a condition; sequencing, choosing and the primitive
scans each have a lemma.
-/

set_option autoImplicit false
set_option relaxedAutoImplicit false

namespace PatternCompiler

namespace Cursor

/-- A cursor stands in a text: what remains is the text from the cursor's index on. -/
structure Within (text : List Char) (c : Cursor) : Prop where
  drop_eq : text.drop c.index = c.rest
  index_le : c.index ≤ text.length

variable {text s : List Char} {c c' : Cursor}

theorem within_ofText (text : List Char) (freeSpacing : Bool) :
    (ofText text freeSpacing).Within text :=
  ⟨rfl, Nat.zero_le _⟩

theorem Within.reaches (h : c.Within text) (reached : c.Reaches c') : c'.Within text := by
  obtain ⟨n, left, rfl⟩ := reached
  have length := congrArg List.length h.drop_eq
  rw [List.length_drop] at length
  have := h.index_le
  constructor
  · rw [index_advance, rest_advance, ← List.drop_drop, h.drop_eq]
  · rw [index_advance]
    omega

theorem Passes.reaches (h : c.Passes s c') : c.Reaches c' := by
  have length := congrArg List.length h.1
  rw [List.length_append] at length
  exact ⟨s.length, by omega, h.2⟩

theorem Within.passes (h : c.Within text) (passed : c.Passes s c') : c'.Within text :=
  h.reaches passed.reaches

theorem Within.inside_class (h : c.Within text) : c.enterClass.Within text :=
  ⟨h.drop_eq, h.index_le⟩

theorem Within.head_rest (h : c.Within text) : c.rest.head? = text[c.index]? := by
  rw [← h.drop_eq, List.head?_drop]

theorem Within.getElem_of_rest (h : c.Within text) {x : Char} {after : List Char}
    (next : c.rest = x :: after) : text[c.index]? = some x := by
  rw [← h.head_rest, next, List.head?_cons]

theorem Within.index_eq_length (h : c.Within text) (done : c.rest = []) :
    c.index = text.length := by
  have none_left := h.drop_eq
  rw [done, List.drop_eq_nil_iff] at none_left
  exact Nat.le_antisymm h.index_le none_left

private theorem Within.take_index (h : c.Within text) (passed : c.Passes s c') :
    text.take c'.index = text.take c.index ++ s := by
  rw [passed.index_eq, List.take_add, h.drop_eq, passed.1, List.take_left]

theorem Within.suffix_take (h : c.Within text) (passed : c.Passes s c') :
    s <:+ text.take c'.index := by
  rw [h.take_index passed]
  exact List.suffix_append _ s

end Cursor

namespace Scan

variable {α β : Type} {post : Violation → Prop} {c : Cursor}

/-- Every violation that a scan reports at a cursor satisfies a condition. -/
def FailsWith (post : Violation → Prop) (x : Scan α) (c : Cursor) : Prop :=
  ∀ v d, x c = .error v d → post v

theorem failsWith_pure {a : α} : FailsWith post (pure a) c := by
  intro v d failed
  cases failed

theorem failsWith_fail {fault : Fault} {pos : Nat} (h : post ⟨fault, pos⟩) :
    FailsWith post (fail fault pos : Scan α) c := by
  intro v d failed
  cases failed
  exact h

theorem failsWith_bind {x : Scan α} {f : α → Scan β} (first : FailsWith post x c)
    (second : ∀ a d, x c = .ok a d → FailsWith post (f a) d) : FailsWith post (x >>= f) c := by
  intro v d failed
  cases taken : x c with
  | error v' d' =>
      simp only [bind, EStateM.bind, taken, EStateM.Result.error.injEq] at failed
      rw [← failed.1]
      exact first v' d' taken
  | ok a d' =>
      simp only [bind, EStateM.bind, taken] at failed
      exact second a d' taken v d failed

theorem failsWith_map {x : Scan α} {f : α → β} (h : FailsWith post x c) :
    FailsWith post (f <$> x) c := by
  intro v d failed
  cases taken : x c with
  | error v' d' =>
      simp only [Functor.map, EStateM.map, taken, EStateM.Result.error.injEq] at failed
      rw [← failed.1]
      exact h v' d' taken
  | ok a d' => simp [Functor.map, EStateM.map, taken] at failed

theorem failsWith_inClass {x : Scan α} (h : FailsWith post x c.enterClass) :
    FailsWith post (inClass x) c := by
  intro v d failed
  unfold inClass at failed
  cases taken : x c.enterClass with
  | error v' d' =>
      simp only [taken, EStateM.Result.error.injEq] at failed
      rw [← failed.1]
      exact h v' d' taken
  | ok a d' => simp [taken] at failed

theorem failsWith_index {f : Nat → Scan β} (h : FailsWith post (f c.index) c) :
    FailsWith post (index >>= f) c :=
  h

theorem failsWith_rest {f : List Char → Scan β} (h : FailsWith post (f c.rest) c) :
    FailsWith post (rest >>= f) c :=
  h

theorem failsWith_pass {n : Nat} : FailsWith post (pass n) c := by
  intro v d failed
  cases failed

theorem failsWith_takeWhile {p : Char → Bool} : FailsWith post (takeWhile p) c := by
  intro v d failed
  cases failed

theorem failsWith_eat {char : Char} : FailsWith post (eat char) c := by
  intro v d failed
  cases failed

theorem failsWith_passing {s after : List Char} {f : Unit → Scan β} (text : c.rest = s ++ after)
    (h : ∀ d, c.Passes s d → FailsWith post (f ()) d) : FailsWith post (pass s.length >>= f) c :=
  failsWith_bind failsWith_pass fun _ d taken => h d ((pass_ok text).mp taken)

theorem failsWith_pass_pure {n : Nat} {a : β} :
    FailsWith post (pass n >>= fun _ => pure a) c :=
  failsWith_bind failsWith_pass fun _ _ _ => failsWith_pure

theorem failsWith_taking {p : Char → Bool} {f : List Char → Scan β}
    (h : ∀ run d, c.Passes run d → (∀ x ∈ run, p x = true) →
      (∀ x, d.rest.head? = some x → p x = false) → FailsWith post (f run) d) :
    FailsWith post (takeWhile p >>= f) c := by
  refine failsWith_bind failsWith_takeWhile fun run d taken => ?_
  obtain ⟨passed, all, stops⟩ := takeWhile_ok.mp taken
  exact h run d passed all stops

theorem failsWith_eating {char : Char} {x y : Scan β}
    (found : ∀ d, c.Passes [char] d → FailsWith post x d)
    (missing : c.rest.head? ≠ some char → FailsWith post y c) :
    FailsWith post (eat char >>= fun found => if found = true then x else y) c := by
  refine failsWith_bind failsWith_eat fun taken d step => ?_
  cases taken with
  | true => simpa using found d (eat_true.mp step)
  | false =>
      obtain ⟨head, rfl⟩ := eat_false.mp step
      simpa using missing head

end Scan

end PatternCompiler
