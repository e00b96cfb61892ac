import PatternCompiler.Proofs.Scanning

/-!
What more text can change. A scan is compared with itself at the same place of a longer text. Its
answer settles if it is given again there, or if it is one of those that more text may change: a
success that leaves the cursor at a place called spent, or a fault that is not eager. Sequencing,
choosing and the primitive scans each have a lemma, so that a reader settles as its parts do.
-/

set_option autoImplicit false
set_option relaxedAutoImplicit false

namespace PatternCompiler

/-- The faults that stand whatever text comes behind them. -/
def Fault.isEager : Fault → Bool
  | .unmatchedParenthesis | .noLeftBranch | .emptyBranch
  | .quantifiedAnchor | .quantifiedNamedGroup _ | .nothingToRepeat _
  | .descendingBounds | .boundTooLarge
  | .unknownEscape _ | .undefinedName _ | .invalidCodePoint | .descendingRange ..
  | .inlineModifiers | .invalidGroupName _ | .duplicateGroupName _ => true
  | _ => false

namespace Cursor

def extend (c : Cursor) (more : List Char) : Cursor :=
  { c with size := c.size + more.length, rest := c.rest ++ more }

variable {c c' : Cursor} {more s : List Char}

@[simp]
theorem rest_extend (c : Cursor) (more : List Char) : (c.extend more).rest = c.rest ++ more := rfl

theorem extend_advance {n : Nat} (left : n ≤ c.rest.length) :
    (c.extend more).advance n = (c.advance n).extend more := by
  simp [extend, advance, List.drop_append_of_le_length left]

theorem Passes.extend (h : c.Passes s c') : (c.extend more).Passes s (c'.extend more) := by
  obtain ⟨text, rfl⟩ := h
  have left : s.length ≤ c.rest.length := by
    rw [text, List.length_append]
    omega
  refine ⟨?_, (extend_advance left).symm⟩
  rw [rest_extend, rest_extend, ← List.append_assoc, ← text]

theorem extend_ofText (text more : List Char) (freeSpacing : Bool) :
    ofText (text ++ more) freeSpacing = (ofText text freeSpacing).extend more := by
  simp [ofText, extend]

private theorem spacingLength_append {inComment : Bool} {text : List Char}
    (ends : spacingLength inComment text < text.length) :
    spacingLength inComment (text ++ more) = spacingLength inComment text := by
  induction text generalizing inComment with
  | nil => simp at ends
  | cons x after ih =>
      simp only [List.cons_append, spacingLength, List.length_cons] at ends ⊢
      split
      · next blank =>
        rw [if_pos blank] at ends
        rw [ih (by omega)]
      · next solid =>
        rw [if_neg solid] at ends
        split
        · next comment =>
          rw [if_pos comment] at ends
          rw [ih (by omega)]
        · rfl

theorem skip_extend (some_left : c.skip.rest ≠ []) :
    (c.extend more).skip = c.skip.extend more := by
  unfold skip at some_left ⊢
  change (if c.freeSpacing && c.classDepth == 0 then
    (c.extend more).advance (spacingLength false (c.rest ++ more)) else c.extend more) = _
  split
  · next free =>
    rw [if_pos free, rest_advance, Ne, List.drop_eq_nil_iff, Nat.not_le] at some_left
    rw [spacingLength_append some_left, extend_advance (spacingLength_le false c.rest)]
  · rfl

end Cursor

namespace Scan

variable {α β : Type} {more : List Char} {spent spent' : Cursor → Prop}

/-- A later answer, in the longer text, is the same: the same value at the same place, or the same
violation. -/
def Repeats (more : List Char) (answer later : EStateM.Result Violation Cursor α) : Prop :=
  match answer with
  | .ok a d => later = .ok a (d.extend more)
  | .error v _ => ∃ d, later = .error v d

def Unsettled (spent : Cursor → Prop) : EStateM.Result Violation Cursor α → Prop
  | .ok _ d => spent d
  | .error v _ => v.fault.isEager = false

def Pends (spent : Cursor → Prop) (x : Scan α) (c : Cursor) : Prop :=
  Unsettled spent (x c)

/-- One scan answers at a cursor what another answers in the longer text, unless the answer is still
pending. -/
def SettlesAs (spent : Cursor → Prop) (more : List Char) (x later : Scan α) (c : Cursor) : Prop :=
  Repeats more (x c) (later (c.extend more)) ∨ Pends spent x c

/-- What a scan answers at a cursor it answers in the longer text too, unless it is pending. -/
def Settles (spent : Cursor → Prop) (more : List Char) (x : Scan α) (c : Cursor) : Prop :=
  SettlesAs spent more x x c

/-- The scans that succeed only where more text does not matter call no place spent. -/
abbrev nowhere : Cursor → Prop :=
  fun _ => False

abbrev exhausted : Cursor → Prop :=
  fun d => d.rest = []

theorem Pends.mono {x : Scan α} {c : Cursor} (h : Pends spent x c)
    (weaker : ∀ d, spent d → spent' d) : Pends spent' x c := by
  unfold Pends at h ⊢
  cases taken : x c with
  | ok a d =>
      rw [taken] at h
      exact weaker d h
  | error v d =>
      rw [taken] at h
      exact h

theorem Settles.mono {x : Scan α} {c : Cursor} (h : Settles spent more x c)
    (weaker : ∀ d, spent d → spent' d) : Settles spent' more x c :=
  h.imp_right fun pends => pends.mono weaker

theorem Settles.firm {x : Scan α} {c : Cursor} (h : Settles nowhere more x c) :
    Settles spent more x c :=
  h.mono fun _ none => none.elim

theorem SettlesAs.answers {x later : Scan α} {c : Cursor} (h : SettlesAs spent more x later c) :
    (∃ a d, x c = .ok a d ∧ (later (c.extend more) = .ok a (d.extend more) ∨ spent d)) ∨
      ∃ v d, x c = .error v d ∧
        (v.fault.isEager = true → ∃ d', later (c.extend more) = .error v d') := by
  unfold SettlesAs Pends at h
  cases taken : x c with
  | ok a d =>
      rw [taken] at h
      exact .inl ⟨a, d, rfl, h⟩
  | error v d =>
      rw [taken] at h
      refine .inr ⟨v, d, rfl, fun eager => h.resolve_right fun mended => ?_⟩
      exact absurd (eager.symm.trans mended) (by decide)

section Sequencing

variable {x : Scan α} {f : α → Scan β} {c : Cursor}

theorem bind_of_ok {a : α} {d : Cursor} (taken : x c = .ok a d) : (x >>= f) c = f a d := by
  simp [bind, EStateM.bind, taken]

private theorem bind_of_error {v : Violation} {d : Cursor} (failed : x c = .error v d) :
    (x >>= f) c = .error v d := by
  simp [bind, EStateM.bind, failed]

theorem map_of_error {g : α → β} {v : Violation} {d : Cursor} (failed : x c = .error v d) :
    (g <$> x) c = .error v d := by
  simp [Functor.map, EStateM.map, failed]

theorem pends_bind (first : Pends spent x c)
    (second : ∀ a d, x c = .ok a d → spent d → Pends spent' (f a) d) :
    Pends spent' (x >>= f) c := by
  unfold Pends at first ⊢
  cases taken : x c with
  | ok a d =>
      rw [taken] at first
      rw [bind_of_ok taken]
      exact second a d taken first
  | error v d =>
      rw [taken] at first
      rw [bind_of_error taken]
      exact first

/-- In a sequence the second scan starts from the same place of both texts, or else it must leave
pending what the first one has left so. -/
theorem settles_bind (first : Settles spent more x c)
    (second : ∀ a d, x c = .ok a d → Settles spent' more (f a) d)
    (pending : ∀ a d, x c = .ok a d → spent d → Pends spent' (f a) d) :
    Settles spent' more (x >>= f) c := by
  rcases first with again | unsettled
  · cases taken : x c with
    | ok a d =>
        rw [taken] at again
        unfold Settles SettlesAs Pends
        rw [bind_of_ok taken, bind_of_ok again]
        exact second a d taken
    | error v d =>
        rw [taken] at again
        obtain ⟨d', failed⟩ := again
        refine .inl ?_
        rw [bind_of_error taken, bind_of_error failed]
        exact ⟨d', rfl⟩
  · exact .inr (pends_bind unsettled pending)

theorem settles_bind_firm (first : Settles nowhere more x c)
    (second : ∀ a d, x c = .ok a d → Settles spent more (f a) d) :
    Settles spent more (x >>= f) c :=
  settles_bind first second fun _ _ _ none => none.elim

theorem settles_map {g : α → β} (h : Settles spent more x c) : Settles spent more (g <$> x) c :=
  settles_bind h (fun _ _ _ => .inl rfl) fun _ _ _ done => done

theorem settles_inClass (h : Settles nowhere more x c.enterClass) :
    Settles nowhere more (inClass x) c := by
  have later : (c.extend more).enterClass = c.enterClass.extend more := rfl
  unfold Settles SettlesAs Pends inClass
  rw [later]
  rcases SettlesAs.answers h with ⟨a, d, taken, again | none⟩ | ⟨v, d, failed, again⟩
  · rw [taken, again]
    exact .inl rfl
  · exact none.elim
  · rw [failed]
    cases eager : v.fault.isEager with
    | false => exact .inr eager
    | true =>
        obtain ⟨d', failed'⟩ := again eager
        rw [failed']
        exact .inl ⟨_, rfl⟩

end Sequencing

section Primitives

variable {c : Cursor}

theorem settles_pure {a : α} : Settles spent more (pure a) c :=
  .inl rfl

theorem settles_fail {fault : Fault} {pos : Nat} :
    Settles spent more (fail fault pos : Scan α) c :=
  .inl ⟨_, rfl⟩

theorem settles_index {f : Nat → Scan β} (h : Settles spent more (f c.index) c) :
    Settles spent more (index >>= f) c :=
  h

theorem settles_rest {f : List Char → Scan β}
    (h : SettlesAs spent more (f c.rest) (f (c.rest ++ more)) c) :
    Settles spent more (rest >>= f) c :=
  h

private theorem settles_pass {s after : List Char} (text : c.rest = s ++ after) :
    Settles nowhere more (pass s.length) c := by
  have passed := Cursor.Passes.of_rest text
  have here : pass s.length c = .ok () (c.advance s.length) := (pass_ok text).mpr passed
  have later : pass s.length (c.extend more) = .ok () ((c.advance s.length).extend more) :=
    (pass_ok (by rw [Cursor.rest_extend, text, List.append_assoc])).mpr passed.extend
  refine .inl ?_
  rw [here]
  exact later

theorem settles_passing {s after : List Char} {f : Unit → Scan β} (text : c.rest = s ++ after)
    (h : ∀ d, c.Passes s d → Settles spent more (f ()) d) :
    Settles spent more (pass s.length >>= f) c :=
  settles_bind_firm (settles_pass text) fun _ d taken => h d ((pass_ok text).mp taken)

theorem settles_eat {char : Char} :
    Settles (fun d => d = c ∧ c.rest = [] ∧ more.head? = some char) more (eat char) c := by
  unfold Settles SettlesAs Pends
  by_cases next : c.rest.head? = some char
  · obtain ⟨after, text⟩ := List.head?_eq_some_iff.mp next
    have passed : c.Passes [char] (c.advance 1) := Cursor.Passes.of_rest text
    rw [eat_true.mpr passed]
    exact .inl (eat_true.mpr passed.extend)
  · rw [eat_false.mpr ⟨next, rfl⟩]
    cases text : c.rest with
    | nil =>
        by_cases comes : more.head? = some char
        · exact .inr ⟨rfl, rfl, comes⟩
        · exact .inl (eat_false.mpr ⟨by rwa [Cursor.rest_extend, text], rfl⟩)
    | cons x after =>
        refine .inl (eat_false.mpr ⟨?_, rfl⟩)
        rw [text] at next
        rwa [Cursor.rest_extend, text]

theorem settles_eating {char : Char} {x y : Scan β}
    (found : ∀ d, c.Passes [char] d → Settles spent more x d)
    (missing : c.rest.head? ≠ some char → Settles spent more y c)
    (ended : c.rest = [] → more.head? = some char → Pends spent y c) :
    Settles spent more (eat char >>= fun found => if found = true then x else y) c := by
  refine settles_bind settles_eat (fun eaten d taken => ?_) fun eaten d taken here => ?_
  · cases eaten with
    | true => exact found d (eat_true.mp taken)
    | false =>
        obtain ⟨missed, rfl⟩ := eat_false.mp taken
        exact missing missed
  · obtain ⟨rfl, last, comes⟩ := here
    cases eaten with
    | true => exact absurd (eat_true.mp taken).1 (by simp [last])
    | false => exact ended last comes

theorem pends_eating {char : Char} {x y : Scan β} (last : c.rest = []) (h : Pends spent y c) :
    Pends spent (eat char >>= fun found => if found = true then x else y) c := by
  have missed : eat char c = .ok false c := eat_false.mpr ⟨by simp [last], rfl⟩
  unfold Pends
  rw [bind_of_ok missed]
  exact h

theorem settles_taking {p : Char → Bool} {f : List Char → Scan β}
    (stopped : ∀ run d, takeWhile p c = .ok run d → Settles spent more (f run) d)
    (ended : ∀ run d, takeWhile p c = .ok run d → d.rest = [] →
      (∃ x, more.head? = some x ∧ p x = true) → Pends spent (f run) d) :
    Settles spent more (takeWhile p >>= f) c := by
  obtain ⟨run, d, taken⟩ : ∃ run d, takeWhile p c = .ok run d := ⟨_, _, rfl⟩
  obtain ⟨passed, all, stops⟩ := takeWhile_ok.mp taken
  unfold Settles SettlesAs Pends
  rw [bind_of_ok taken]
  by_cases goes_on : d.rest = [] ∧ ∃ x, more.head? = some x ∧ p x = true
  · exact .inr (ended run d taken goes_on.1 goes_on.2)
  · have later : takeWhile p (c.extend more) = .ok run (d.extend more) := by
      refine takeWhile_ok.mpr ⟨passed.extend, all, fun x head => ?_⟩
      cases text : d.rest with
      | nil =>
          rw [Cursor.rest_extend, text, List.nil_append] at head
          simpa [text, head] using goes_on
      | cons y after =>
          rw [Cursor.rest_extend, text] at head
          exact stops x (by rw [text]; exact head)
    rw [bind_of_ok later]
    exact stopped run d taken

theorem settles_takeWhile {p : Char → Bool} : Settles exhausted more (takeWhile p) c :=
  settles_taking (f := pure) (fun _ _ _ => settles_pure) fun _ _ _ last _ => last

theorem settles_closing {x : Scan α} {closing : Char} {f g : α → Scan β}
    (inside : Settles exhausted more x c) (closed : ∀ a d, Settles spent more (f a) d)
    (unclosed : ∀ a d, Pends spent (g a) d) :
    Settles spent more
      (x >>= fun a => eat closing >>= fun found => if found = true then f a else g a) c := by
  refine settles_bind inside (fun a d _ => ?_) fun a d _ last => ?_
  · exact settles_eating (fun d' _ => closed a d') (fun _ => .inr (unclosed a d))
      fun _ _ => unclosed a d
  · exact pends_eating last (unclosed a d)

end Primitives

end Scan

namespace Step

variable {σ α : Type} {size : σ → Nat} {step : σ → Step σ α}
  {falls : ∀ s s', step s = .next s' → size s' < size s}

/-- Two runs side by side, the one from a state and the other from a longer form of it. As long as
the steps lead to a state and its longer form, the answers agree; a step that parts them leads to a
spent state, and from such states on only answers that may be mended are given. -/
theorem run_settles (longer : σ → σ) (spent : σ → Prop) (agree : α → α → Prop) (mended : α → Prop)
    (goes_on : ∀ s s', step s = .next s' → step (longer s) = .next (longer s') ∨ spent s')
    (ends : ∀ s a, step s = .halt a → agree a (run size step falls (longer s)) ∨ mended a)
    (stays : ∀ s s', spent s → step s = .next s' → spent s')
    (mends : ∀ s a, spent s → step s = .halt a → mended a) (s : σ) :
    agree (run size step falls s) (run size step falls (longer s)) ∨
      mended (run size step falls s) := by
  refine run_induct
    (fun s' => run size step falls (longer s') = run size step falls (longer s) ∨ spent s')
    (fun a => agree a (run size step falls (longer s)) ∨ mended a) ?_ ?_ s (.inl rfl)
  · rintro s₁ s₂ (same | open_end) taken
    · rcases goes_on s₁ s₂ taken with later | open_end
      · exact .inl ((run_next later).symm.trans same)
      · exact .inr open_end
    · exact .inr (stays s₁ s₂ open_end taken)
  · rintro s₁ a (same | open_end) taken
    · exact same ▸ ends s₁ a taken
    · exact .inr (mends s₁ a open_end taken)

end Step

end PatternCompiler
