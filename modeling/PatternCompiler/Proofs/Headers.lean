import PatternCompiler.Source
import PatternCompiler.Proofs.Lines
import PatternCompiler.Proofs.Messages

/-!
Taking the directives off a text. A text `Splits` into the longest run of leading lines that are
blank, comments or directives, and the lines of its body. What is found in the two decides what
becomes of the text: the first stray character of a `%flags` line of the header is a fault of the
text, without one the first `%flags` line of the body is a fault of the body, and without either
the body is kept with the flags whose letters the header holds.
-/

set_option autoImplicit false
set_option relaxedAutoImplicit false

namespace PatternCompiler

namespace Flags

def has (flags : Flags) : Char → Bool
  | 'i' => flags.ignoreCase
  | 'm' => flags.multiline
  | 's' => flags.dotAll
  | 'u' => flags.unicode
  | 'x' => flags.extended
  | _ => false

def Foreign (c : Char) : Prop :=
  c ∉ ['i', 'm', 's', 'u', 'x', ',', '[', ']'] ∧ Text.isBlank c = false

variable {flags flag read : Flags} {c : Char} {letters : List Char}

private theorem has_union (a b : Flags) (c : Char) : (a.union b).has c = (a.has c || b.has c) := by
  unfold has
  split <;> rfl

private theorem has_empty (c : Char) : ({} : Flags).has c = false := by
  unfold has
  split <;> rfl

private theorem has_ofLetter? (known : ofLetter? c = some flag) (letter : Char) :
    flag.has letter = (letter == c) := by
  unfold ofLetter? at known
  split at known <;> cases known <;> unfold has <;> split <;> simp_all

private theorem eq_empty (none : ∀ letter, (ofLetter? letter).isSome → ¬ flags.has letter = true) :
    flags = {} := by
  have unset (letter : Char) (flagged : (ofLetter? letter).isSome) : flags.has letter = false :=
    Bool.eq_false_iff.mpr (none letter flagged)
  calc flags = ⟨flags.has 'i', flags.has 'm', flags.has 's', flags.has 'u', flags.has 'x'⟩ := rfl
    _ = {} := by rw [unset 'i' rfl, unset 'm' rfl, unset 's' rfl, unset 'u' rfl, unset 'x' rfl]

private theorem foreign_iff : Foreign c ↔ ofLetter? c = none ∧ isSeparator c = false := by
  unfold Foreign isSeparator ofLetter?
  constructor
  · rintro ⟨other, ink⟩
    simp only [List.mem_cons, List.not_mem_nil, not_or] at other
    split <;> simp_all
  · rintro ⟨unknown, between⟩
    split at unknown <;> simp_all

private theorem union_empty (flags : Flags) : flags.union {} = flags := by
  simp [union]

private theorem readLetters_foreign {index : Nat} (foreign : Foreign c) :
    readLetters index flags (c :: letters) = .error ⟨c, index⟩ := by
  obtain ⟨unknown, between⟩ := foreign_iff.mp foreign
  simp [readLetters, unknown, between]

private theorem readLetters_familiar (index : Nat) (flags : Flags) (letters : List Char)
    (familiar : ¬ Foreign c) :
    ∃ flag : Flags, readLetters index flags (c :: letters) =
        readLetters (index + 1) (flags.union flag) letters ∧
      ∀ letter, (ofLetter? letter).isSome → flag.has letter = (letter == c) := by
  cases known : ofLetter? c with
  | some flag =>
      exact ⟨flag, by simp [readLetters, known], fun letter _ => has_ofLetter? known letter⟩
  | none =>
      have between : isSeparator c = true := by
        by_contra other
        exact familiar (foreign_iff.mpr ⟨known, by simpa using other⟩)
      refine ⟨{}, by simp [readLetters, known, between, union_empty], fun letter flagged => ?_⟩
      have other : letter ≠ c := by
        rintro rfl
        simp [known] at flagged
      simp [has_empty, other]

private theorem readLetters_error {index : Nat} {letter : UnknownLetter}
    (failed : readLetters index flags letters = .error letter) :
    ∃ front back, letters = front ++ letter.char :: back ∧ (∀ x ∈ front, ¬ Foreign x) ∧
      Foreign letter.char ∧ letter.index = index + front.length := by
  induction letters generalizing index flags with
  | nil => cases failed
  | cons c rest ih =>
      by_cases foreign : Foreign c
      · rw [readLetters_foreign foreign] at failed
        cases failed
        exact ⟨[], rest, rfl, by simp, foreign, rfl⟩
      · obtain ⟨flag, step, _⟩ := readLetters_familiar index flags rest foreign
        rw [step] at failed
        obtain ⟨front, back, rfl, clean, found, place⟩ := ih failed
        refine ⟨c :: front, back, rfl, ?_, found, ?_⟩
        · simpa using ⟨foreign, clean⟩
        · rw [place, List.length_cons]
          omega

private theorem readLetters_ok {index : Nat} (done : readLetters index flags letters = .ok read) :
    (∀ x ∈ letters, ¬ Foreign x) ∧
      ∀ letter, (ofLetter? letter).isSome →
        (read.has letter = true ↔ flags.has letter = true ∨ letter ∈ letters) := by
  induction letters generalizing index flags with
  | nil =>
      cases done
      simp
  | cons c rest ih =>
      by_cases foreign : Foreign c
      · rw [readLetters_foreign foreign] at done
        cases done
      · obtain ⟨flag, step, sets⟩ := readLetters_familiar index flags rest foreign
        rw [step] at done
        obtain ⟨clean, held⟩ := ih done
        refine ⟨by simpa using ⟨foreign, clean⟩, fun letter flagged => ?_⟩
        rw [held letter flagged, has_union, sets letter flagged]
        simp [or_assoc]

end Flags

namespace Header

/-- A line that may stand in a header: without content, a comment or a directive. -/
def leads (line : List Char) : Bool :=
  match Text.trim line with
  | [] => true
  | c :: _ => c == '#' || c == '%'

/-- A text is cut into lines, of which the longest run of leading ones that may stand in a header
is the header, and the rest the body. -/
structure Splits (text : List Char) (header body : List (List Char)) : Prop where
  cut : Text.Cut (header ++ body)
  whole : text = header.flatten ++ body.flatten
  leading : ∀ line ∈ header, leads line = true
  longest : ∀ line ∈ body.head?, leads line = false

/-- At a place of a line stands a character that its `%flags` directive cannot hold. -/
def Stray (line : List Char) (place : Nat) : Prop :=
  ∃ lead front c back trail, line = lead ++ (flagsWord ++ (front ++ c :: back)) ++ trail ∧
    (∀ x ∈ lead, Text.isBlank x = true) ∧ Text.trim line = flagsWord ++ (front ++ c :: back) ∧
    Flags.Foreign c ∧ place = (lead ++ flagsWord ++ front).length

/-- At a place of a line stands the word `%flags`, with nothing but white space before it. -/
def Late (line : List Char) (place : Nat) : Prop :=
  ∃ lead rest, line = lead ++ (flagsWord ++ rest) ∧ (∀ x ∈ lead, Text.isBlank x = true) ∧
    place = lead.length

/-- The content of a line is `%flags` and characters behind it, among them a given letter. -/
def Holds (line : List Char) (letter : Char) : Prop :=
  ∃ letters, Text.trim line = flagsWord ++ letters ∧ letter ∈ letters

variable {text line : List Char} {header body lines rest : List (List Char)}

theorem exists_splits (text : List Char) : ∃ header body, Splits text header body := by
  refine ⟨(Text.rawLines text).takeWhile leads, (Text.rawLines text).dropWhile leads, ?_, ?_,
    fun _ mem => List.mem_takeWhile_imp mem, ?_⟩
  · rw [List.takeWhile_append_dropWhile]
    exact Text.cut_rawLines text
  · rw [← List.flatten_append, List.takeWhile_append_dropWhile, Text.flatten_rawLines]
  · intro line first
    have stop := List.head?_dropWhile_not leads (Text.rawLines text)
    rw [Option.mem_def] at first
    rw [first] at stop
    simpa using stop

/-- The parts of a split are read off the text: a text splits in one way. -/
theorem Splits.rawLines_eq (split : Splits text header body) :
    Text.rawLines text = header ++ body := by
  rw [split.whole, ← List.flatten_append, Text.rawLines_flatten split.cut]

private theorem Splits.takeWhile_eq (split : Splits text header body) :
    (header ++ body).takeWhile leads = header := by
  rw [List.takeWhile_append_of_pos split.leading]
  cases body with
  | nil => simp
  | cons line body => simp [split.longest line rfl]

private theorem Splits.dropWhile_eq (split : Splits text header body) :
    (header ++ body).dropWhile leads = body := by
  rw [List.dropWhile_append_of_pos split.leading]
  cases body with
  | nil => simp
  | cons line body => simp [split.longest line rfl]

private theorem Splits.of_body (split : Splits text header body) : Splits body.flatten [] body where
  cut := split.cut.of_append
  whole := by simp
  leading := by simp
  longest := split.longest

private theorem leadLength_eq {lead after : List Char} (blank : ∀ x ∈ lead, Text.isBlank x = true) :
    leadLength (lead ++ (flagsWord ++ after)) = lead.length := by
  rw [leadLength, flagsWord, List.cons_append, Text.takeWhile_isBlank blank (by decide)]

private theorem leadLength_of_cut {lead content trail : List Char}
    (cut : line = lead ++ (flagsWord ++ content) ++ trail)
    (blank : ∀ x ∈ lead, Text.isBlank x = true) : leadLength line = lead.length := by
  rw [cut, List.append_assoc, List.append_assoc, leadLength_eq blank]

private theorem exists_cut {letters : List Char} (content : Text.trim line = flagsWord ++ letters) :
    ∃ lead trail, line = lead ++ (flagsWord ++ letters) ++ trail ∧
      (∀ x ∈ lead, Text.isBlank x = true) ∧ leadLength line = lead.length := by
  obtain ⟨lead, trail, cut, blank, _⟩ := Text.exists_trim line
  rw [content] at cut
  exact ⟨lead, trail, cut, blank, leadLength_of_cut cut blank⟩

private theorem stray_iff {place : Nat} :
    Stray line place ↔
      ∃ front c back, Text.trim line = flagsWord ++ (front ++ c :: back) ∧ Flags.Foreign c ∧
        place = leadLength line + flagsWord.length + front.length := by
  constructor
  · rintro ⟨lead, front, c, back, trail, cut, blank, content, foreign, rfl⟩
    refine ⟨front, c, back, content, foreign, ?_⟩
    simp only [leadLength_of_cut cut blank, List.length_append]
  · rintro ⟨front, c, back, content, foreign, rfl⟩
    obtain ⟨lead, trail, cut, blank, before⟩ := exists_cut content
    refine ⟨lead, front, c, back, trail, cut, blank, content, foreign, ?_⟩
    simp only [before, List.length_append]

private theorem late_iff {place : Nat} :
    Late line place ↔ flagsWord <+: Text.trimStart line ∧ place = leadLength line := by
  constructor
  · rintro ⟨lead, rest, rfl, blank, rfl⟩
    refine ⟨⟨rest, ?_⟩, (leadLength_eq blank).symm⟩
    rw [Text.trimStart, flagsWord, List.cons_append, Text.dropWhile_isBlank blank (by decide)]
  · rintro ⟨⟨rest, starts⟩, rfl⟩
    refine ⟨line.takeWhile Text.isBlank, rest, ?_, fun x mem => List.mem_takeWhile_imp mem, rfl⟩
    rw [starts, Text.trimStart, List.takeWhile_append_dropWhile]

private theorem not_stray (other : ¬ flagsWord <+: Text.trim line) (place : Nat) :
    ¬ Stray line place := by
  intro stray
  obtain ⟨front, c, back, content, _⟩ := stray_iff.mp stray
  exact other ⟨_, content.symm⟩

private theorem not_holds (other : ¬ flagsWord <+: Text.trim line) (letter : Char) :
    ¬ Holds line letter := by
  rintro ⟨letters, content, _⟩
  exact other ⟨_, content.symm⟩

inductive Kind (line : List Char) : HeaderLine → Prop
  | blank : leads line = true → ¬ flagsWord <+: Text.trim line → Kind line .blank
  | unknown {directive : List Char} :
      leads line = true → ¬ flagsWord <+: Text.trim line → Kind line (.unknown directive)
  | flags {letters : List Char} :
      leads line = true → Text.trim line = flagsWord ++ letters →
        Kind line (.flags (leadLength line) letters)
  | body : leads line = false → Kind line .body

private theorem kind_classify (line : List Char) : Kind line (classify line) := by
  unfold classify
  dsimp only
  split
  · next content => exact .blank (by simp [leads, content]) (by simp [content, flagsWord])
  · next content => exact .blank (by simp [leads, content]) (by simp [content, flagsWord])
  · next after content =>
    have leading : leads line = true := by simp [leads, content]
    split
    · next word =>
      obtain ⟨letters, whole⟩ := List.isPrefixOf_iff_prefix.mp word
      rw [← whole, List.drop_left]
      exact .flags leading whole.symm
    · next other => exact .unknown leading (by simpa using other)
  · next none hash percent =>
    refine .body ?_
    unfold leads
    cases content : Text.trim line with
    | nil => exact absurd content none
    | cons c after =>
        have not_hash : c ≠ '#' := by
          rintro rfl
          exact hash after content
        have not_percent : c ≠ '%' := by
          rintro rfl
          exact percent after content
        simp [not_hash, not_percent]

/-- What the first of some header lines leads to: it is passed, and sets the flags whose letters it
holds, its first stray character is a violation, or it starts the body. -/
inductive LineStep (offset : Nat) (flags : Flags) (first : List Char) (rest : List (List Char)) :
    Except Violation Ending → Prop
  | passes {more : Flags} :
      leads first = true → (∀ place, ¬ Stray first place) →
      (∀ letter, (Flags.ofLetter? letter).isSome → (more.has letter = true ↔ Holds first letter)) →
        LineStep offset flags first rest
          (readLines (offset + first.length) (flags.union more) rest).result
  | stops {place : Nat} {c : Char} :
      leads first = true → IsLeast {place | Stray first place} place → first[place]? = some c →
        LineStep offset flags first rest (.error ⟨.invalidFlag c, offset + place⟩)
  | ends :
      leads first = false → LineStep offset flags first rest (.ok ⟨flags, offset, first :: rest⟩)

private theorem step_silent {offset : Nat} {flags : Flags} (leading : leads line = true)
    (other : ¬ flagsWord <+: Text.trim line) :
    LineStep offset flags line rest (readLines (offset + line.length) flags rest).result := by
  have none (letter : Char) : ({} : Flags).has letter = true ↔ Holds line letter := by
    simp [Flags.has_empty, not_holds other]
  have passed : LineStep offset flags line rest
      (readLines (offset + line.length) (flags.union {}) rest).result :=
    .passes leading (not_stray other) fun letter _ => none letter
  rwa [Flags.union_empty] at passed

private theorem isLeast_stray {front back : List Char} {c : Char}
    (content : Text.trim line = flagsWord ++ (front ++ c :: back))
    (clean : ∀ x ∈ front, ¬ Flags.Foreign x) (foreign : Flags.Foreign c) :
    IsLeast {place | Stray line place} (leadLength line + flagsWord.length + front.length) := by
  refine ⟨stray_iff.mpr ⟨front, c, back, content, foreign, rfl⟩, fun place found => ?_⟩
  obtain ⟨front', c', back', content', foreign', rfl⟩ := stray_iff.mp found
  have same : front ++ c :: back = front' ++ c' :: back' :=
    List.append_cancel_left (content.symm.trans content')
  by_contra earlier
  have short : front'.length < front.length := by omega
  have here : front[front'.length]? = some c' := by
    have := congrArg (·[front'.length]?) same
    simpa [List.getElem?_append_left short] using this
  exact clean c' (List.mem_of_getElem? here) foreign'

private theorem getElem_letter {first front back : List Char} {c : Char}
    (content : Text.trim first = flagsWord ++ (front ++ c :: back)) :
    first[leadLength first + flagsWord.length + front.length]? = some c := by
  obtain ⟨lead, trail, cut, _, before⟩ := exists_cut content
  have shape : first = lead ++ flagsWord ++ front ++ c :: (back ++ trail) := by
    simpa using cut
  have place : leadLength first + flagsWord.length + front.length =
      (lead ++ flagsWord ++ front).length := by
    simp only [before, List.length_append]
  rw [place, shape, List.getElem?_append_right (Nat.le_refl _), Nat.sub_self,
    List.getElem?_cons_zero]

private theorem step_readLines (offset : Nat) (flags : Flags) (line : List Char)
    (rest : List (List Char)) :
    LineStep offset flags line rest (readLines offset flags (line :: rest)).result := by
  unfold readLines
  generalize kind : classify line = found
  have known := kind ▸ kind_classify line
  cases known with
  | blank leading other => exact step_silent leading other
  | unknown leading other => exact step_silent leading other
  | body other => exact .ends other
  | @flags letters leading content =>
      dsimp only
      cases done : Flags.ofLetters letters with
      | ok more =>
          obtain ⟨clean, held⟩ := Flags.readLetters_ok done
          refine .passes leading ?_ ?_
          · intro place stray
            obtain ⟨front, c, back, content', foreign, _⟩ := stray_iff.mp stray
            have same := List.append_cancel_left (content.symm.trans content')
            exact clean c (by simp [same]) foreign
          · intro letter flagged
            rw [held letter flagged]
            simp only [Flags.has_empty, Bool.false_eq_true, false_or, Holds, content,
              List.append_cancel_left_eq, exists_eq_left']
      | error letter =>
          obtain ⟨front, back, rfl, clean, foreign, place⟩ := Flags.readLetters_error done
          have shown : offset + leadLength line + flagsWord.length + letter.index =
              offset + (leadLength line + flagsWord.length + front.length) := by
            omega
          dsimp only
          rw [shown]
          exact .stops leading (isLeast_stray content clean foreign) (getElem_letter content)

/-- A letter stands in a `%flags` line of a header. -/
def Sets (header : List (List Char)) (letter : Char) : Prop :=
  ∃ line ∈ header, Holds line letter

/-- What reading header lines leads to, by the header and the body that they split into. -/
inductive LineRun (offset : Nat) (flags : Flags) (header body : List (List Char)) :
    Except Violation Ending → Prop
  | stops {pos : Nat} {c : Char} :
      IsLeast {pos | Text.InLines Stray header pos} pos → header.flatten[pos]? = some c →
        LineRun offset flags header body (.error ⟨.invalidFlag c, offset + pos⟩)
  | ends {ending : Ending} :
      (∀ pos, ¬ Text.InLines Stray header pos) → ending.body = body →
      (∀ letter, (Flags.ofLetter? letter).isSome →
        (ending.flags.has letter = true ↔ flags.has letter = true ∨ Sets header letter)) →
        LineRun offset flags header body (.ok ending)

private theorem run_readLines (offset : Nat) (flags : Flags) (lines : List (List Char)) :
    LineRun offset flags (lines.takeWhile leads) (lines.dropWhile leads)
      (readLines offset flags lines).result := by
  induction lines generalizing offset flags with
  | nil => exact .ends (fun _ => Text.not_inLines_nil) rfl (by simp [Sets])
  | cons line rest ih =>
      generalize result : (readLines offset flags (line :: rest)).result = found
      have step := result ▸ step_readLines offset flags line rest
      cases step with
      | ends other =>
          have stop : ¬ leads line = true := by simp [other]
          rw [List.takeWhile_cons_of_neg stop, List.dropWhile_cons_of_neg stop]
          exact .ends (fun _ => Text.not_inLines_nil) rfl (by simp [Sets])
      | @stops place c leading least char =>
          rw [List.takeWhile_cons_of_pos leading, List.dropWhile_cons_of_pos leading]
          have inside : place < line.length := (List.getElem?_eq_some_iff.mp char).1
          refine .stops (Text.isLeast_here least (Nat.le_of_lt inside)) ?_
          rw [List.flatten_cons, List.getElem?_append_left inside, char]
      | @passes more leading clean holds =>
          rw [List.takeWhile_cons_of_pos leading, List.dropWhile_cons_of_pos leading]
          generalize later : (readLines (offset + line.length) (flags.union more) rest).result =
            reached
          have run := later ▸ ih (offset + line.length) (flags.union more)
          cases run with
          | @stops pos c least char =>
              rw [Nat.add_assoc]
              refine .stops (Text.isLeast_later clean least) ?_
              rw [List.flatten_cons, List.getElem?_append_right (Nat.le_add_right _ _),
                Nat.add_sub_cancel_left, char]
          | @ends ending none body sets =>
              refine .ends ?_ body ?_
              · intro pos found
                rcases Text.inLines_cons.mp found with here | ⟨later, behind, _⟩
                · exact clean pos here
                · exact none later behind
              · intro letter flagged
                rw [sets letter flagged, Flags.has_union, Bool.or_eq_true, holds letter flagged]
                simp [Sets, or_assoc]

private theorem lateDirective?_some {offset pos : Nat}
    (found : lateDirective? offset lines = some pos) :
    ∃ place, pos = offset + place ∧ IsLeast {pos | Text.InLines Late lines pos} place := by
  induction lines generalizing offset with
  | nil => cases found
  | cons line rest ih =>
      unfold lateDirective? at found
      split at found
      · next word =>
        cases found
        have starts := List.isPrefixOf_iff_prefix.mp word
        refine ⟨leadLength line, rfl, Text.isLeast_here ⟨late_iff.mpr ⟨starts, rfl⟩, ?_⟩ ?_⟩
        · intro place late
          exact Nat.le_of_eq (late_iff.mp late).2.symm
        · exact List.takeWhile_sublist _ |>.length_le
      · next other =>
        obtain ⟨place, rfl, least⟩ := ih found
        refine ⟨line.length + place, by omega, Text.isLeast_later ?_ least⟩
        intro place late
        exact other (List.isPrefixOf_iff_prefix.mpr (late_iff.mp late).1)

private theorem lateDirective?_none {offset : Nat} (found : lateDirective? offset lines = none) :
    ∀ line ∈ lines, ¬ flagsWord <+: Text.trimStart line := by
  induction lines generalizing offset with
  | nil => simp
  | cons line rest ih =>
      unfold lateDirective? at found
      split at found
      · cases found
      · next other =>
        have here : ¬ flagsWord <+: Text.trimStart line := fun word =>
          other (List.isPrefixOf_iff_prefix.mpr word)
        simpa using ⟨here, ih found⟩

private theorem not_late (none : ∀ line ∈ lines, ¬ flagsWord <+: Text.trimStart line) (pos : Nat) :
    ¬ Text.InLines Late lines pos := by
  rintro ⟨before, line, after, place, rfl, late, _⟩
  exact none line (by simp) (late_iff.mp late).1

end Header

namespace Source

open Header

variable {text : String} {header body : List (List Char)}

/-- What taking the directives off a text leads to, by its header and its body. -/
inductive Opened (text : String) (header body : List (List Char)) :
    Except Diagnostic Source → Prop
  | stray {pos : Nat} {c : Char} :
      IsLeast {pos | Text.InLines Stray header pos} pos → text.toList[pos]? = some c →
        Opened text header body (.error (Diagnostic.ofViolation text ⟨.invalidFlag c, pos⟩))
  | late {pos : Nat} :
      (∀ pos, ¬ Text.InLines Stray header pos) → IsLeast {pos | Text.InLines Late body pos} pos →
        Opened text header body
          (.error (Diagnostic.ofViolation (.ofList body.flatten) ⟨.lateDirective, pos⟩))
  | taken {flags : Flags} :
      (∀ pos, ¬ Text.InLines Stray header pos) →
      (∀ line ∈ body, ¬ flagsWord <+: Text.trimStart line) →
      (∀ letter, (Flags.ofLetter? letter).isSome → (flags.has letter = true ↔ Sets header letter)) →
        Opened text header body (.ok ⟨flags, .ofList body.flatten⟩)

theorem opened_ofText (split : Splits text.toList header body) :
    Opened text header body (ofText text) := by
  unfold ofText Header.read
  rw [split.rawLines_eq]
  generalize result : (readLines 0 {} (header ++ body)).result = found
  have run := result ▸ run_readLines 0 {} (header ++ body)
  rw [split.takeWhile_eq, split.dropWhile_eq] at run
  cases run with
  | @stops pos c least char =>
      dsimp only
      rw [Nat.zero_add]
      refine .stray least ?_
      have inside := (List.getElem?_eq_some_iff.mp char).1
      rw [split.whole, List.getElem?_append_left inside, char]
  | @ends ending none lines sets =>
      dsimp only
      rw [lines]
      cases late : lateDirective? 0 body with
      | some pos =>
          obtain ⟨place, rfl, least⟩ := lateDirective?_some late
          dsimp only
          rw [Nat.zero_add]
          exact .late none least
      | none =>
          refine .taken none (lateDirective?_none late) fun letter flagged => ?_
          rw [sets letter flagged, Flags.has_empty]
          simp

private theorem ofText_body (split : Splits text.toList header body)
    (none : ∀ line ∈ body, ¬ flagsWord <+: Text.trimStart line) :
    ofText (.ofList body.flatten) = .ok ⟨{}, .ofList body.flatten⟩ := by
  have alone : Splits (String.ofList body.flatten).toList [] body := by
    rw [String.toList_ofList]
    exact split.of_body
  generalize result : ofText (.ofList body.flatten) = found
  have opened := result ▸ opened_ofText alone
  cases opened with
  | stray least => exact absurd least.1 Text.not_inLines_nil
  | late _ least => exact absurd least.1 (not_late none _)
  | @taken flags _ _ sets =>
      have unset : flags = {} :=
        Flags.eq_empty fun letter flagged => by simp [sets letter flagged, Sets]
      rw [unset]

/-- Taking the directives off a text yields what follows its header, and sets the flags whose
letters stand in the `%flags` lines of the header. No `%flags` line is left, and taking the
directives off once more changes nothing. -/
theorem ofText_splits (text : String) (source : Source) (taken : ofText text = .ok source) :
    ∃ header body, Splits text.toList header body ∧
      source.body.toList = body.flatten ∧ text.toList = header.flatten ++ source.body.toList ∧
      (source.flags.ignoreCase = true ↔ Sets header 'i') ∧
      (source.flags.multiline = true ↔ Sets header 'm') ∧
      (source.flags.dotAll = true ↔ Sets header 's') ∧
      (source.flags.unicode = true ↔ Sets header 'u') ∧
      (source.flags.extended = true ↔ Sets header 'x') ∧
      (∀ line ∈ Text.rawLines source.body.toList, ¬ flagsWord <+: Text.trimStart line) ∧
      ofText source.body = .ok ⟨{}, source.body⟩ := by
  obtain ⟨header, body, split⟩ := exists_splits text.toList
  have opened := taken ▸ opened_ofText split
  cases opened with
  | @taken flags _ none sets =>
      have lines : Text.rawLines body.flatten = body := Text.rawLines_flatten split.cut.of_append
      refine ⟨header, body, split, String.toList_ofList, ?_, sets 'i' rfl, sets 'm' rfl,
        sets 's' rfl, sets 'u' rfl, sets 'x' rfl, ?_, ofText_body split none⟩
      · rw [String.toList_ofList, ← split.whole]
      · rw [String.toList_ofList, lines]
        exact none

/-- A header with a comment, two `%flags` lines around a blank one, and an unknown directive. -/
theorem ofText_splits_twice :
    let text := "# né\n%flags [i], x\n\n\t%flags mi\n%title\na %flags"
    let source : Source :=
      ⟨{ ignoreCase := true, multiline := true, extended := true }, "a %flags"⟩
    ofText text = .ok source ∧ ofText source.body = .ok ⟨{}, source.body⟩ ∧
      ∃ header body, Splits text.toList header body ∧ source.body.toList = body.flatten ∧
        Sets header 'i' ∧ Sets header 'm' ∧ ¬ Sets header 's' := by
  intro text source
  have taken : ofText text = .ok source := by decide +kernel
  obtain ⟨header, body, split, rest, _, i, m, s, _, _, _, again⟩ := ofText_splits text source taken
  exact ⟨taken, again, header, body, split, rest, i.mp rfl, m.mp rfl,
    fun set => Bool.false_ne_true (s.mpr set)⟩

/-- A text is refused exactly where a directive is at fault: at its first stray character, if the
header has one, and else at the first `%flags` line of the body, if that has one. -/
theorem ofText_faults (text : String) :
    ∃ header body, Splits text.toList header body ∧
      ((∃ d, ∃ c : Char,
          ofText text = .error d ∧ d.message = "Invalid flag '" ++ c.toString ++ "'") ↔
        ∃ pos, Text.InLines Stray header pos) ∧
      (∀ d, ∀ c : Char, ofText text = .error d → d.message = "Invalid flag '" ++ c.toString ++ "'" →
        IsLeast {pos | Text.InLines Stray header pos} d.pos ∧ text.toList[d.pos]? = some c ∧
          d.text = text) ∧
      ((∀ pos, ¬ Text.InLines Stray header pos) →
        ((∃ d, ofText text = .error d ∧ d.message = "Directive after pattern content") ↔
          ∃ pos, Text.InLines Late body pos) ∧
        (∀ d, ofText text = .error d → d.message = "Directive after pattern content" ∧
          IsLeast {pos | Text.InLines Late body pos} d.pos ∧ d.text.toList = body.flatten) ∧
        ((∀ pos, ¬ Text.InLines Late body pos) → ∃ source, ofText text = .ok source)) := by
  obtain ⟨header, body, split⟩ := exists_splits text.toList
  refine ⟨header, body, split, ?_⟩
  generalize result : ofText text = found
  have opened := result ▸ opened_ofText split
  cases opened with
  | @stray pos c least char =>
      refine ⟨⟨fun _ => ⟨pos, least.1⟩, fun _ => ⟨_, c, rfl, rfl⟩⟩, ?_, fun none => ?_⟩
      · rintro _ c' ⟨⟩ message
        have same : Fault.invalidFlag c = .invalidFlag c' := Fault.message_injective message
        cases same
        exact ⟨least, char, rfl⟩
      · exact absurd least.1 (none pos)
  | @late pos none least =>
      have other (c : Char) :
          Fault.message .lateDirective ≠ "Invalid flag '" ++ c.toString ++ "'" := by
        intro message
        have same : Fault.lateDirective = .invalidFlag c := Fault.message_injective message
        cases same
      refine ⟨⟨?_, ?_⟩, ?_, fun _ => ⟨?_, ?_, ?_⟩⟩
      · rintro ⟨_, c, ⟨⟩, message⟩
        exact absurd message (other c)
      · rintro ⟨place, stray⟩
        exact absurd stray (none place)
      · rintro _ c ⟨⟩ message
        exact absurd message (other c)
      · exact ⟨fun _ => ⟨pos, least.1⟩, fun _ => ⟨_, rfl, rfl⟩⟩
      · rintro _ ⟨⟩
        exact ⟨rfl, least, String.toList_ofList⟩
      · exact fun never => absurd least.1 (never pos)
  | taken none never =>
      refine ⟨⟨?_, ?_⟩, ?_, fun _ => ⟨⟨?_, ?_⟩, ?_, fun _ => ⟨_, rfl⟩⟩⟩
      · rintro ⟨_, _, failed, _⟩
        cases failed
      · rintro ⟨place, stray⟩
        exact absurd stray (none place)
      · rintro _ _ failed
        cases failed
      · rintro ⟨_, failed, _⟩
        cases failed
      · rintro ⟨place, late⟩
        exact absurd late (not_late never place)
      · rintro _ failed
        cases failed

end Source

end PatternCompiler
