import PatternCompiler.Proofs.Courses
import PatternCompiler.Proofs.Recognition

/-!
Progress. Reading a pattern is one loop over an explicit stack of groups, so the parts of a pattern
are stretches of a run: an alternation goes from where it begins to the parenthesis or the end of
the text that ends it in the same group, and a branch also ends at a bar there. Every stretch leaves
the cursor inside the text and not before its start, an atom and a nested alternation take at least
one character, and no stretch has more steps than there are characters left. So each of them ends,
or is found at fault, on every text.
-/

set_option autoImplicit false
set_option relaxedAutoImplicit false

namespace PatternCompiler

namespace Cursor

variable {text : List Char} {c c' : Cursor}

private theorem Within.index_add_length (h : c.Within text) :
    c.index + c.rest.length = text.length := by
  have length := congrArg List.length h.drop_eq
  have := h.index_le
  rw [List.length_drop] at length
  omega

theorem Within.between (h : c.Within text) (reached : c.Reaches c') :
    c.index ≤ c'.index ∧ c'.index ≤ text.length :=
  ⟨reached.index_le, (h.reaches reached).index_le⟩

private theorem Reaches.index_lt (h : c.Reaches c') (shorter : c'.rest.length < c.rest.length) :
    c.index < c'.index := by
  obtain ⟨n, _, rfl⟩ := h
  rw [rest_advance, List.length_drop] at shorter
  rw [index_advance]
  omega

end Cursor

namespace Step

variable {σ α : Type}

/-- So many steps lead from one state to another, each taken from a state where `going` holds. -/
inductive Walk (step : σ → Step σ α) (going : σ → Prop) : Nat → σ → σ → Prop
  | refl {s : σ} : Walk step going 0 s s
  | step {n : Nat} {s s' s'' : σ} :
      going s → step s = .next s' → Walk step going n s' s'' → Walk step going (n + 1) s s''

variable {step : σ → Step σ α} {going : σ → Prop} {n : Nat} {s s' : σ}

/-- What every such step keeps holds at the end of the walk. -/
theorem Walk.keeps (inv : σ → Prop) (walk : Walk step going n s s')
    (kept : ∀ s s', going s → inv s → step s = .next s' → inv s') (start : inv s) : inv s' := by
  induction walk with
  | refl => exact start
  | step ready taken _ ih => exact ih (kept _ _ ready start taken)

theorem Walk.mono {going' : σ → Prop} (walk : Walk step going n s s')
    (weaker : ∀ s, going s → going' s) : Walk step going' n s s' := by
  induction walk with
  | refl => exact .refl
  | step ready taken _ ih => exact .step (weaker _ ready) taken ih

theorem Walk.moves {place : σ → Cursor} {left : α → Cursor}
    (moves : ∀ s, (step s).Moves place left (place s)) (walk : Walk step going n s s') :
    (place s).Reaches (place s') ∧ (place s').rest.length + n ≤ (place s).rest.length := by
  induction walk with
  | refl => exact ⟨.refl _, Nat.le_refl _⟩
  | @step n s₁ s₂ s₃ _ taken _ ih =>
      have moved := moves s₁
      rw [taken] at moved
      have shorter : (place s₂).rest.length < (place s₁).rest.length := moved.2
      exact ⟨moved.1.trans ih.1, by omega⟩

variable {size : σ → Nat}

/-- Where every step makes a state smaller, walking comes to a place to stop or halts before. -/
theorem exists_walk (falls : ∀ s s', step s = .next s' → size s' < size s) (stop : σ → Prop)
    (s : σ) :
    ∃ n s', Walk step (fun s => ¬ stop s) n s s' ∧
      (stop s' ∨ ∃ answer, step s' = .halt answer) := by
  generalize bound : size s = m
  induction m using Nat.strongRecOn generalizing s with
  | ind m ih =>
      by_cases stopped : stop s
      · exact ⟨0, s, .refl, .inl stopped⟩
      · cases taken : step s with
        | halt answer => exact ⟨0, s, .refl, .inr ⟨answer, taken⟩⟩
        | next s₁ =>
            obtain ⟨n, s', walk, ending⟩ := ih (size s₁) (bound ▸ falls s s₁ taken) s₁ rfl
            exact ⟨n + 1, s', .step stopped taken walk, ending⟩

private theorem exists_walk_run (falls : ∀ s s', step s = .next s' → size s' < size s) (s : σ) :
    ∃ n s', Walk step (fun _ => True) n s s' ∧ step s' = .halt (run size step falls s) := by
  obtain ⟨n, s', walk, stopped | ⟨answer, halted⟩⟩ := exists_walk falls (fun _ => False) s
  · exact stopped.elim
  · have same : run size step falls s' = run size step falls s :=
      walk.keeps (fun s' => run size step falls s' = run size step falls s)
        (fun _ _ _ kept taken => (run_next taken).symm.trans kept) rfl
    refine ⟨n, s', walk.mono fun _ _ => trivial, ?_⟩
    rw [halted, ← same, run_halt halted]

end Step

namespace Reading

open Scan

/-- The readers of single tokens: the escapes, the parts of classes, the openings of groups and the
quantifiers. -/
inductive IsReader : {α : Type} → Scan α → Prop
  | escape (captures : Captures) (start : Nat) : IsReader (escape captures start)
  | letterEscape (captures : Captures) (letter : Char) (start : Nat) :
      IsReader (letterEscape captures letter start)
  | charEscape (letter : Char) (start : Nat) : IsReader (charEscape letter start)
  | numericEscape {start : Nat} {letter : Char} {scan : Scan Char} :
      numericEscape? start letter = some scan → IsReader scan
  | shorthandProperty (kind : Shorthand) : IsReader (shorthandProperty kind)
  | numberedReference (captures : Captures) (start : Nat) :
      IsReader (numberedReference captures start)
  | namedReference (captures : Captures) (start : Nat) : IsReader (namedReference captures start)
  | letterItem (letter : Char) (start : Nat) : IsReader (letterItem letter start)
  | classItem : IsReader classItem
  | classItems : IsReader classItems
  | charClass : IsReader charClass
  | opening (captures : Captures) (start : Nat) : IsReader (opening captures start)
  | quantify (atom : Pattern) : IsReader (quantify atom)

theorem IsReader.forward {α : Type} {x : Scan α} (h : IsReader x) : Forward x := by
  cases h with
  | escape => exact forward_escape _ _
  | letterEscape => exact forward_letterEscape _ _ _
  | charEscape => exact forward_charEscape _ _
  | numericEscape chosen => exact forward_numericEscape chosen
  | shorthandProperty => exact forward_shorthandProperty _
  | numberedReference => exact forward_numberedReference _ _
  | namedReference => exact forward_namedReference _ _
  | letterItem => exact forward_letterItem _ _
  | classItem => exact forward_classItem
  | classItems => exact forward_classItems
  | charClass => exact forward_charClass
  | opening => exact forward_opening _ _
  | quantify => exact forward_quantify _

/-- The reading has come, in the groups `frames`, to the end of the text or to one of the characters
`ends`. -/
def AtEnd (frames : List Frame) (ends : List Char) (r : Reading) : Prop :=
  r.frames = frames ∧ ∀ x, r.cursor.skip.rest.head? = some x → x ∈ ends

/-- Steps of what begins at `r` and ends at one of `ends` in the same group. -/
def Stretch (ends : List Char) (n : Nat) (r r' : Reading) : Prop :=
  Step.Walk step (fun s => ¬ AtEnd r.frames ends s) n r r'

/-- What begins at `r`, and ends at one of `ends` in the same group, leaves the cursor `c`. -/
def Leaves (ends : List Char) (r : Reading) (c : Cursor) : Prop :=
  ∃ n r', Stretch ends n r r' ∧ AtEnd r.frames ends r' ∧ c = r'.cursor.skip

def BranchLeaves : Reading → Cursor → Prop :=
  Leaves ['|', ')']

def AlternationLeaves : Reading → Cursor → Prop :=
  Leaves [')']

/-- The body of a group, an alternation and the parenthesis that closes it, leaves `c`. -/
def BodyLeaves (r : Reading) (c : Cursor) : Prop :=
  ∃ d after, AlternationLeaves r d ∧ d.rest = ')' :: after ∧ c = d.advance 1

/-- The atom at the cursor leaves `c`: a single one is read at once, and a group has a body behind
its opening. -/
inductive AtomLeaves (r : Reading) : Cursor → Prop
  | single {p : Pattern} {c : Cursor} :
      r.cursor.rest.head? ≠ some '(' →
      atom r.captures r.cursor.index r.cursor.rest r.cursor = .ok p c → AtomLeaves r c
  | group {after : List Char} {r' : Reading} {c : Cursor} :
      r.cursor.rest = '(' :: after → r.readOpening = .next r' → BodyLeaves r' c → AtomLeaves r c

/-- The atom at the cursor is at fault: a single one, the opening of a group, or its body. -/
inductive AtomFails (r : Reading) : Violation → Prop
  | single {v : Violation} {c : Cursor} :
      r.cursor.rest.head? ≠ some '(' →
      atom r.captures r.cursor.index r.cursor.rest r.cursor = .error v c → AtomFails r v
  | opening {after : List Char} {outcome : Outcome} {v : Violation} :
      r.cursor.rest = '(' :: after → r.readOpening = .halt outcome → outcome.result = .error v →
      AtomFails r v
  | body {after : List Char} {r' : Reading} {v : Violation} :
      r.cursor.rest = '(' :: after → r.readOpening = .next r' → r'.run.result = .error v →
      AtomFails r v

/-- The alternation that begins at `r` has a group whose alternation begins at `r'`. -/
def Nests (r r' : Reading) : Prop :=
  ∃ n s frame, Stretch [')'] n r s ∧ s.frames = r.frames ∧ s.step = .next r' ∧
    r'.frames = frame :: r.frames

section Steps

variable {r r' : Reading} {p : Pattern}

private theorem frames_of_addTerm (taken : r.addTerm p = .next r') : r'.frames = r.frames := by
  unfold addTerm at taken
  split at taken
  · cases taken
  · cases taken
    rfl

private theorem frames_of_readTerm (taken : r.readTerm = .next r') : r'.frames = r.frames := by
  unfold readTerm at taken
  split at taken
  · cases taken
  · exact (frames_of_addTerm taken :)

private theorem frames_of_readBar (taken : r.readBar = .next r') : r'.frames = r.frames := by
  unfold readBar at taken
  split at taken
  · cases taken
  · simp only at taken
    split at taken
    · cases taken
    · cases taken
    · cases taken
    · cases taken
      rfl

private theorem frames_of_readOpening (taken : r.readOpening = .next r') :
    ∃ frame, r'.frames = frame :: r.frames := by
  unfold readOpening at taken
  split at taken
  · cases taken
  · cases taken
    exact ⟨_, rfl⟩

private theorem finish_ne_next : r.finish ≠ .next r' := by
  unfold finish
  intro taken
  split at taken
  · cases taken
  · cases taken
  · cases taken
  · cases taken

private theorem frames_of_readClosing (taken : r.readClosing = .next r') :
    ∃ frame, r.frames = frame :: r'.frames := by
  unfold readClosing at taken
  split at taken
  · exact absurd taken finish_ne_next
  · next frame frames opened => exact ⟨frame, by rw [frames_of_addTerm taken, opened]⟩

private theorem frames_of_dispatch (taken : r.dispatch = .next r') :
    r'.frames = r.frames ∨ (∃ frame, r'.frames = frame :: r.frames) ∨
      ∃ frame, r.frames = frame :: r'.frames ∧ r.cursor.rest.head? = some ')' := by
  unfold dispatch at taken
  split at taken
  · exact absurd taken finish_ne_next
  · exact .inl (frames_of_readBar taken)
  · next parenthesis =>
    obtain ⟨frame, closed⟩ := frames_of_readClosing taken
    exact .inr (.inr ⟨frame, closed, congrArg List.head? parenthesis⟩)
  · exact .inr (.inl (frames_of_readOpening taken))
  · exact .inl (frames_of_readTerm taken)

private theorem frames_of_step (taken : r.step = .next r') :
    r'.frames = r.frames ∨ (∃ frame, r'.frames = frame :: r.frames) ∨
      ∃ frame, r.frames = frame :: r'.frames ∧ r.cursor.skip.rest.head? = some ')' :=
  (frames_of_dispatch taken :)

end Steps

section Stretches

variable {r r' : Reading} {ends : List Char} {n : Nat} {c : Cursor}

theorem Stretch.moves (h : Stretch ends n r r') :
    r.cursor.Reaches r'.cursor ∧ r'.cursor.rest.length + n ≤ r.cursor.rest.length :=
  Step.Walk.moves step_moves h

private theorem Stretch.frames_suffix (h : Stretch ends n r r') (closing : ')' ∈ ends) :
    r.frames <:+ r'.frames := by
  refine Step.Walk.keeps (fun s => r.frames <:+ s.frames) h ?_ (List.suffix_refl _)
  intro s s' going inside taken
  rcases frames_of_step taken with kept | ⟨frame, opened⟩ | ⟨frame, closed, parenthesis⟩
  · rwa [kept]
  · rw [opened]
    exact inside.trans (List.suffix_cons _ _)
  · rw [closed] at inside
    refine (List.suffix_cons_iff.mp inside).resolve_left fun same => going ⟨?_, ?_⟩
    · rw [closed, same]
    · intro x head
      rw [parenthesis] at head
      cases head
      exact closing

theorem Stretch.run_eq (h : Stretch ends n r r') : r'.run = r.run :=
  Step.Walk.keeps (fun s => s.run = r.run) h
    (fun _ _ _ kept taken => (Step.run_next taken).symm.trans kept) rfl

/-- What ends at a parenthesis comes to its end, or to the fault for which the run fails. -/
theorem exists_stretch (closing : ')' ∈ ends) (r : Reading) :
    ∃ n r', Stretch ends n r r' ∧
      (AtEnd r.frames ends r' ∨ r'.step = .halt r.run ∧ ∃ v, r.run.result = .error v) := by
  obtain ⟨n, r', walk, ended | ⟨outcome, halted⟩⟩ :=
    Step.exists_walk (Step.falls_of_moves step_moves) (AtEnd r.frames ends) r
  · exact ⟨n, r', walk, .inl ended⟩
  · have stretch : Stretch ends n r r' := walk
    have same : outcome = r.run := by
      rw [← stretch.run_eq]
      exact (Step.run_halt halted).symm
    subst same
    refine ⟨n, r', stretch, ?_⟩
    cases result : r.run.result with
    | error v => exact .inr ⟨halted, v, rfl⟩
    | ok t =>
        -- success is found at the end of the text and in no group, where everything ends
        obtain ⟨outermost, done, _⟩ := ended_of_step halted result
        have inside := stretch.frames_suffix closing
        rw [outermost] at inside
        refine .inl ⟨outermost.trans (List.suffix_nil.mp inside).symm, ?_⟩
        rw [done]
        simp

theorem Leaves.reaches (h : Leaves ends r c) : r.cursor.Reaches c := by
  obtain ⟨n, r', stretch, _, rfl⟩ := h
  exact stretch.moves.1.trans r'.cursor.reaches_skip

theorem BodyLeaves.reaches (h : BodyLeaves r c) : r.cursor.Reaches c := by
  obtain ⟨d, after, inner, parenthesis, rfl⟩ := h
  exact inner.reaches.trans (.step (by simp [parenthesis]))

theorem AtomLeaves.reaches (h : AtomLeaves r c) :
    r.cursor.Reaches c ∧ c.rest.length < r.cursor.rest.length := by
  cases h with
  | single _ read =>
      have some_left : r.cursor.rest ≠ [] := by
        intro done
        rw [done] at read
        cases read
      exact ⟨(forward_atom _ _ _).reaches_of_ok read, strictAt_atom _ _ _ some_left _ _ read⟩
  | @group after r' _ parenthesis opened body =>
      have moved := r.readOpening_moves (by simp [parenthesis])
      rw [opened] at moved
      exact ⟨moved.1.trans body.reaches, Nat.lt_of_le_of_lt body.reaches.length_le moved.2⟩

private theorem body_leaves_or_fails (grouped : r.frames ≠ []) :
    (∃ c, BodyLeaves r c) ∨ ∃ v, r.run.result = .error v := by
  have closing : ')' ∈ [')'] := by simp
  obtain ⟨n, r', stretch, ⟨same, ending⟩ | ⟨_, failed⟩⟩ := exists_stretch closing r
  · cases rest : r'.cursor.skip.rest with
    | nil =>
        -- the text ends inside the group
        rw [← same] at grouped
        obtain ⟨frame, frames, opened⟩ := List.exists_cons_of_ne_nil grouped
        refine .inr ⟨⟨.unterminated frame.opening.bracket, r'.cursor.skip.index⟩, ?_⟩
        rw [← stretch.run_eq, run_finish rest]
        simp only [finish, opened]
        rfl
    | cons x after =>
        have parenthesis : x = ')' := by simpa using ending x (by rw [rest, List.head?_cons])
        subst parenthesis
        exact .inl ⟨_, r'.cursor.skip, after, ⟨n, r', stretch, ⟨same, ending⟩, rfl⟩, rest, rfl⟩
  · exact .inr failed

private theorem atom_leaves_or_fails (r : Reading) :
    (∃ c, AtomLeaves r c) ∨ ∃ v, AtomFails r v := by
  by_cases parenthesis : r.cursor.rest.head? = some '('
  · obtain ⟨after, text⟩ := List.head?_eq_some_iff.mp parenthesis
    cases taken : r.readOpening with
    | halt outcome =>
        cases result : outcome.result with
        | error v => exact .inr ⟨v, .opening text taken result⟩
        | ok t =>
            unfold readOpening at taken
            split at taken
            · cases taken
              cases result
            · cases taken
    | next r' =>
        obtain ⟨frame, opened⟩ := frames_of_readOpening taken
        rcases body_leaves_or_fails (by simp [opened] : r'.frames ≠ []) with ⟨c, left⟩ | ⟨v, failed⟩
        · exact .inl ⟨c, .group text taken left⟩
        · exact .inr ⟨v, .body text taken failed⟩
  · cases read : atom r.captures r.cursor.index r.cursor.rest r.cursor with
    | ok p c => exact .inl ⟨c, .single parenthesis read⟩
    | error v c => exact .inr ⟨v, .single parenthesis read⟩

theorem Nests.reaches (h : Nests r r') :
    r.cursor.Reaches r'.cursor ∧ r'.cursor.rest.length < r.cursor.rest.length := by
  obtain ⟨n, s, frame, stretch, _, taken, _⟩ := h
  have moved := s.step_moves
  rw [taken] at moved
  exact ⟨stretch.moves.1.trans moved.1,
    Nat.lt_of_lt_of_le moved.2 stretch.moves.1.length_le⟩

/-- Hence alternations are not nested without end. -/
theorem wellFounded_nests : WellFounded fun inner outer : Reading => Nests outer inner := by
  have shorter : WellFounded fun s r : Reading => s.cursor.rest.length < r.cursor.rest.length :=
    (measure fun r : Reading => r.cursor.rest.length).wf
  exact Subrelation.wf (fun nested => nested.reaches.2) shorter

end Stretches

/-- The parts that are read from `r` on move forward in the text and come to an end. -/
structure Progresses (text : List Char) (r : Reading) : Prop where
  token_stays : ∀ (α : Type) (x : Scan α), IsReader x →
    r.cursor.index ≤ (Scan.left (x r.cursor)).index ∧
      (Scan.left (x r.cursor)).index ≤ text.length
  part_stays : ∀ c, BranchLeaves r c ∨ AlternationLeaves r c ∨ BodyLeaves r c →
    r.cursor.index ≤ c.index ∧ c.index ≤ text.length
  atom_advances : ∀ c, AtomLeaves r c → r.cursor.index < c.index ∧ c.index ≤ text.length
  nested_advances : ∀ r', Nests r r' →
    r.cursor.index < r'.cursor.index ∧ r'.cursor.index ≤ text.length
  nesting_ends : Acc (fun inner outer => Nests outer inner) r
  part_ends : ∀ ends ∈ [['|', ')'], [')']], ∃ n r', Stretch ends n r r' ∧
    r.cursor.index + n ≤ text.length ∧
    (AtEnd r.frames ends r' ∨ r'.step = .halt r.run ∧ ∃ v, r.run.result = .error v)
  body_ends : r.frames ≠ [] → (∃ c, BodyLeaves r c) ∨ ∃ v, r.run.result = .error v
  atom_ends : (∃ c, AtomLeaves r c) ∨ ∃ v, AtomFails r v
  class_ends : ∃ n d, Step.Walk (classStep r.cursor.index) (fun _ => True) n ⟨r.cursor, []⟩ d ∧
    r.cursor.index + n ≤ text.length ∧ classStep r.cursor.index d = .halt (classItems r.cursor)
  run_ends : ∃ n r', Step.Walk step (fun _ => True) n r r' ∧ r.cursor.index + n ≤ text.length ∧
    r'.step = .halt r.run

end Reading

open Reading

/-- Wherever a reading stands in a text, each part that it reads from there leaves the cursor inside
the text and not before the part's start. An atom takes at least one character, and a nested
alternation begins strictly behind the one around it. So no part and no loop has more steps than
there are characters left: each comes to its end or to a fault, on every text. -/
theorem reading_progresses (text : List Char) (r : Reading) (within : r.cursor.Within text) :
    r.Progresses text := by
  have whole := within.index_add_length
  constructor
  case token_stays =>
    intro α x reader
    exact within.between (reader.forward r.cursor)
  case part_stays =>
    rintro c (left | left | left)
    · exact within.between (Leaves.reaches left)
    · exact within.between (Leaves.reaches left)
    · exact within.between left.reaches
  case atom_advances =>
    intro c left
    obtain ⟨reached, shorter⟩ := left.reaches
    exact ⟨reached.index_lt shorter, (within.between reached).2⟩
  case nested_advances =>
    intro r' nested
    obtain ⟨reached, shorter⟩ := nested.reaches
    exact ⟨reached.index_lt shorter, (within.between reached).2⟩
  case nesting_ends => exact wellFounded_nests.apply r
  case part_ends =>
    intro ends member
    have closing : ')' ∈ ends := by
      simp only [List.mem_cons, List.not_mem_nil, or_false] at member
      rcases member with rfl | rfl
      · simp
      · simp
    obtain ⟨n, r', stretch, ending⟩ := exists_stretch closing r
    have moved := stretch.moves
    exact ⟨n, r', stretch, by omega, ending⟩
  case body_ends => exact body_leaves_or_fails
  case atom_ends => exact atom_leaves_or_fails r
  case class_ends =>
    obtain ⟨n, d, walk, halted⟩ :=
      Step.exists_walk_run (Step.falls_of_moves (classStep_moves r.cursor.index)) ⟨r.cursor, []⟩
    have moved := walk.moves (classStep_moves r.cursor.index)
    simp only at moved
    exact ⟨n, d, walk, by omega, halted⟩
  case run_ends =>
    obtain ⟨n, r', walk, halted⟩ := Step.exists_walk_run (Step.falls_of_moves step_moves) r
    have moved := walk.moves step_moves
    exact ⟨n, r', walk, by omega, halted⟩

/-- A group that the text leaves open: its alternation begins behind the parenthesis, and the
reading halts within two steps. -/
theorem reading_progresses_unterminated :
    let text := ['(', 'a']
    let r : Reading := { cursor := Cursor.ofText text true }
    let r' : Reading :=
      { cursor := r.cursor.advance 1, captures := r.captures.enter .capture,
        frames := [⟨.capture, {}⟩] }
    r.cursor.Within text ∧ Nests r r' ∧ r.cursor.index < r'.cursor.index ∧
      ∃ n s, Step.Walk step (fun _ => True) n r s ∧ n ≤ 2 ∧ s.step = .halt r.run := by
  intro text r r'
  have within : r.cursor.Within text := Cursor.within_ofText text true
  have nested : Nests r r' := ⟨0, r, ⟨.capture, {}⟩, .refl, rfl, rfl, rfl⟩
  have progresses := reading_progresses text r within
  obtain ⟨n, s, walk, bound, halted⟩ := progresses.run_ends
  rw [show r.cursor.index = 0 from rfl, Nat.zero_add] at bound
  exact ⟨within, nested, (progresses.nested_advances r' nested).1, n, s, walk, bound, halted⟩

end PatternCompiler
