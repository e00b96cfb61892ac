/-!
A cursor over a text: how many characters it has passed, and what remains. Every operation that
moves it does so by `advance`, so that the cursor that an operation leaves is one that `Reaches`
relates to the cursor it found. In free spacing, outside character classes, `skip` passes white
space and comments.
-/

set_option autoImplicit false
set_option relaxedAutoImplicit false

namespace PatternCompiler

/-- A place in a text of `size` characters: `index` characters lie before it and `rest` after. -/
structure Cursor where
  size : Nat
  index : Nat := 0
  rest : List Char
  freeSpacing : Bool := false
  classDepth : Nat := 0
  deriving DecidableEq

namespace Cursor

def ofText (text : List Char) (freeSpacing : Bool) : Cursor where
  size := text.length
  rest := text
  freeSpacing := freeSpacing

def advance (c : Cursor) (n : Nat) : Cursor :=
  { c with index := c.index + n, rest := c.rest.drop n }

/-- Places the cursor at an index of `text`, the text that it runs over. The index may lie past the
end, where nothing remains. -/
def seek (c : Cursor) (text : List Char) (index : Nat) : Cursor :=
  { c with index := index, rest := text.drop index }

def atEnd (c : Cursor) : Bool :=
  c.rest.isEmpty

def peek (c : Cursor) : Option Char :=
  c.rest.head?

def peekAt (c : Cursor) (n : Nat) : Option Char :=
  c.rest[n]?

def take (c : Cursor) : Option Char × Cursor :=
  match c.rest with
  | [] => (none, c)
  | char :: _ => (some char, c.advance 1)

def eat (c : Cursor) (char : Char) : Bool × Cursor :=
  if c.rest.head? = some char then (true, c.advance 1) else (false, c)

def eatWord (c : Cursor) (word : List Char) : Bool × Cursor :=
  if word.isPrefixOf c.rest then (true, c.advance word.length) else (false, c)

def takeWhile (c : Cursor) (p : Char → Bool) : List Char × Cursor :=
  let run := c.rest.takeWhile p
  (run, c.advance run.length)

def enterClass (c : Cursor) : Cursor :=
  { c with classDepth := c.classDepth + 1 }

def leaveClass (c : Cursor) : Cursor :=
  { c with classDepth := c.classDepth - 1 }

def isSpacing (c : Char) : Bool :=
  c == ' ' || c == '\t' || c == '\r' || c == '\n'

/-- The number of leading characters that are white space or comments, `inComment` telling whether
the text starts inside a comment. A comment runs up to the end of its line. -/
def spacingLength (inComment : Bool) : List Char → Nat
  | [] => 0
  | c :: rest =>
      if isSpacing c && (!inComment || c == '\r' || c == '\n') then spacingLength false rest + 1
      else if inComment || c == '#' then spacingLength true rest + 1
      else 0

def skip (c : Cursor) : Cursor :=
  if c.freeSpacing && c.classDepth == 0 then c.advance (spacingLength false c.rest) else c

@[simp]
theorem advance_zero (c : Cursor) : c.advance 0 = c := by
  simp [advance]

@[simp]
theorem advance_advance (c : Cursor) (m n : Nat) : (c.advance m).advance n = c.advance (m + n) := by
  simp [advance, List.drop_drop, Nat.add_assoc]

@[simp]
theorem rest_advance (c : Cursor) (n : Nat) : (c.advance n).rest = c.rest.drop n := rfl

@[simp]
theorem index_advance (c : Cursor) (n : Nat) : (c.advance n).index = c.index + n := rfl

/-- One cursor comes after another in the same text, with nothing in between past the end. -/
def Reaches (c c' : Cursor) : Prop :=
  ∃ n, n ≤ c.rest.length ∧ c' = c.advance n

theorem Reaches.refl (c : Cursor) : c.Reaches c :=
  ⟨0, Nat.zero_le _, (advance_zero c).symm⟩

theorem Reaches.step {c : Cursor} {n : Nat} (h : n ≤ c.rest.length) : c.Reaches (c.advance n) :=
  ⟨n, h, rfl⟩

theorem Reaches.trans {a b c : Cursor} (first : a.Reaches b) (second : b.Reaches c) :
    a.Reaches c := by
  obtain ⟨m, hm, rfl⟩ := first
  obtain ⟨n, hn, rfl⟩ := second
  refine ⟨m + n, ?_, advance_advance a m n⟩
  simp only [rest_advance, List.length_drop] at hn
  omega

theorem Reaches.length_le {c c' : Cursor} (h : c.Reaches c') : c'.rest.length ≤ c.rest.length := by
  obtain ⟨n, _, rfl⟩ := h
  simp

theorem Reaches.index_le {c c' : Cursor} (h : c.Reaches c') : c.index ≤ c'.index := by
  obtain ⟨n, _, rfl⟩ := h
  simp

theorem Reaches.freeSpacing_eq {c c' : Cursor} (h : c.Reaches c') :
    c'.freeSpacing = c.freeSpacing := by
  obtain ⟨n, _, rfl⟩ := h
  rfl

theorem Reaches.classDepth_eq {c c' : Cursor} (h : c.Reaches c') : c'.classDepth = c.classDepth := by
  obtain ⟨n, _, rfl⟩ := h
  rfl

theorem reaches_eat (c : Cursor) (char : Char) : c.Reaches (c.eat char).2 := by
  unfold eat
  split
  · next h =>
    refine .step ?_
    cases hr : c.rest with
    | nil => simp [hr] at h
    | cons _ _ => simp
  · exact .refl c

theorem reaches_takeWhile (c : Cursor) (p : Char → Bool) : c.Reaches (c.takeWhile p).2 :=
  .step (List.takeWhile_prefix p).length_le

theorem spacingLength_le (inComment : Bool) (text : List Char) :
    spacingLength inComment text ≤ text.length := by
  induction text generalizing inComment with
  | nil => simp [spacingLength]
  | cons c rest ih =>
      unfold spacingLength
      split
      · simpa using ih false
      · split
        · simpa using ih true
        · simp

theorem reaches_skip (c : Cursor) : c.Reaches c.skip := by
  unfold skip
  split
  · exact .step (spacingLength_le false c.rest)
  · exact .refl c

@[simp]
theorem leaveClass_enterClass (c : Cursor) : c.enterClass.leaveClass = c := rfl

theorem reaches_leaveClass {c c' : Cursor} (h : c.enterClass.Reaches c') :
    c.Reaches c'.leaveClass := by
  obtain ⟨n, left, rfl⟩ := h
  exact ⟨n, left, rfl⟩

end Cursor

end PatternCompiler
