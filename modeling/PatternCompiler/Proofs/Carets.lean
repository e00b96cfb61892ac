import PatternCompiler.Proofs.Locations

/-!
Carets. A diagnostic with a text is shown in rows: the message, the line of the source behind its
number, and a caret on the row below. The caret keeps a fixed distance from the margin, so that it
stands under the located character exactly on the lines whose number has one digit.
-/

set_option autoImplicit false
set_option relaxedAutoImplicit false

namespace PatternCompiler

private theorem Text.getElem?_rawLines_feed (front rest : List Char) (row : Nat) :
    (rawLines (front ++ '\n' :: rest))[front.count '\n' + 1 + row]? = (rawLines rest)[row]? := by
  induction front with
  | nil => simp [rawLines, Nat.add_comm 1]
  | cons c front ih =>
      rw [List.cons_append, rawLines]
      split
      · next feed =>
        have index : (c :: front).count '\n' + 1 + row = front.count '\n' + 1 + row + 1 := by
          rw [feed, List.count_cons_self]
          omega
        rw [index, List.getElem?_cons_succ, ih]
      · next other =>
        rw [List.count_cons_of_ne other, ← ih, Nat.add_right_comm]
        generalize rawLines (front ++ '\n' :: rest) = rows
        cases rows with
        | nil => rfl
        | cons first rows => rfl

namespace Diagnostic

/-- What stands before the quoted line: its number between two marks. -/
def gutter (line : Nat) : List Char :=
  ['>', ' '] ++ (Nat.repr line).toList ++ [' ', '|', ' ']

def caretRow (column : Nat) : List Char :=
  ['>', ' ', ' ', ' ', '|', ' '] ++ List.replicate column ' ' ++ ['^']

variable {d : Diagnostic}

private theorem toList_pieces (heading message marks number bar margin tip below : String)
    (content spaces : List Char) :
    (heading ++ message ++ marks ++ number ++ bar ++ String.ofList content ++ margin ++
        String.ofList spaces ++ tip ++ below).toList =
      heading.toList ++ message.toList ++ (marks.toList ++ (number.toList ++ (bar.toList ++
        (content ++ (margin.toList ++ (spaces ++ (tip.toList ++ below.toList))))))) := by
  simp only [String.toList_append, String.toList_ofList, List.append_assoc]

private theorem toList_report (d : Diagnostic) (below : String) :
    ("STRling Parse Error: " ++ d.message ++ "\n\n> " ++ Nat.repr d.location.line ++ " | " ++
        String.ofList d.location.content ++ "\n>   | " ++
        String.ofList (List.replicate d.location.column ' ') ++ "^" ++ below).toList =
      "STRling Parse Error: ".toList ++ d.message.toList ++ '\n' :: ('\n' ::
        (gutter d.location.line ++ d.location.content ++ '\n' ::
          (caretRow d.location.column ++ below.toList))) := by
  have marks : "\n\n> ".toList = ['\n', '\n', '>', ' '] := by decide
  have bar : " | ".toList = [' ', '|', ' '] := by decide
  have margin : "\n>   | ".toList = ['\n', '>', ' ', ' ', ' ', '|', ' '] := by decide
  have tip : "^".toList = ['^'] := by decide
  rw [toList_pieces, marks, bar, margin, tip]
  generalize "STRling Parse Error: ".toList = heading
  simp only [gutter, caretRow, List.append_assoc, List.cons_append, List.nil_append]

private theorem toList_format (attached : d.text ≠ "") :
    ∃ heading below, '\n' ∉ heading ∧ (below = [] ∨ ∃ more, below = '\n' :: more) ∧
      d.format.toList = heading ++ d.message.toList ++ '\n' :: ('\n' ::
        (gutter d.location.line ++ d.location.content ++ '\n' ::
          (caretRow d.location.column ++ below))) := by
  have one_row : '\n' ∉ "STRling Parse Error: ".toList := by decide
  have label : "\n\nHint: ".toList = '\n' :: "\nHint: ".toList := by decide
  rw [format, if_neg attached]
  cases d.hint with
  | none => exact ⟨_, "".toList, one_row, .inl rfl, toList_report d ""⟩
  | some hint =>
      refine ⟨_, ("\n\nHint: " ++ hint).toList, one_row, .inr ⟨"\nHint: ".toList ++ hint.toList, ?_⟩,
        toList_report d ("\n\nHint: " ++ hint)⟩
      exact String.toList_append.trans (congrArg (· ++ hint.toList) label)

private theorem feed_not_mem_gutter (line : Nat) : '\n' ∉ gutter line := by
  have digits : '\n' ∉ Nat.toDigits 10 line := by
    intro mem
    have digit := Nat.isDigit_of_mem_toDigits (by decide) (by decide) mem
    exact absurd digit (by decide)
  simp [gutter, digits]

private theorem feed_not_mem_caretRow (column : Nat) : '\n' ∉ caretRow column := by
  simp [caretRow]

private theorem rows_format (attached : d.text ≠ "") :
    (Text.rawLines d.format.toList)[d.message.toList.count '\n' + 2]? =
        some (gutter d.location.line ++ d.location.content ++ ['\n']) ∧
      ∃ ending, (Text.rawLines d.format.toList)[d.message.toList.count '\n' + 3]? =
        some (caretRow d.location.column ++ ending) := by
  obtain ⟨heading, below, one_row, ending, shown⟩ := toList_format attached
  have quoted : '\n' ∉ gutter d.location.line ++ d.location.content := by
    rw [List.mem_append, not_or]
    exact ⟨feed_not_mem_gutter _, Location.feed_not_mem_content _ _⟩
  have caret := feed_not_mem_caretRow d.location.column
  have feeds : (heading ++ d.message.toList).count '\n' = d.message.toList.count '\n' := by
    rw [List.count_append, List.count_eq_zero.mpr one_row, Nat.zero_add]
  have row (n : Nat) : (Text.rawLines d.format.toList)[d.message.toList.count '\n' + 2 + n]? =
      (Text.rawLines (gutter d.location.line ++ d.location.content ++ '\n' ::
        (caretRow d.location.column ++ below)))[n]? := by
    have skip := Text.getElem?_rawLines_feed (heading ++ d.message.toList)
      ('\n' :: (gutter d.location.line ++ d.location.content ++ '\n' ::
        (caretRow d.location.column ++ below))) (1 + n)
    rw [← shown, feeds, ← Nat.add_assoc] at skip
    exact skip.trans (Text.getElem?_rawLines_feed [] _ n)
  rw [Text.rawLines_line quoted] at row
  refine ⟨row 0, ?_⟩
  rcases ending with rfl | ⟨more, rfl⟩
  · refine ⟨[], (row 1).trans ?_⟩
    rw [List.append_nil, Text.rawLines_last (by simp [caretRow]) caret]
    rfl
  · refine ⟨['\n'], (row 1).trans ?_⟩
    rw [Text.rawLines_line caret]
    rfl

private theorem idxOf_caretRow (column : Nat) (ending : List Char) :
    '^' ∈ caretRow column ++ ending ∧ (caretRow column ++ ending).idxOf '^' = 6 + column := by
  have early : '^' ∉ ['>', ' ', ' ', ' ', '|', ' '] ++ List.replicate column ' ' := by simp
  have mem : '^' ∈ caretRow column := by simp [caretRow]
  refine ⟨List.mem_append_left _ mem, ?_⟩
  rw [List.idxOf_append_of_mem mem, caretRow, List.idxOf_append_of_notMem early, List.length_append,
    List.length_replicate, List.idxOf_cons_self]
  rfl

/-- The caret stands under the located character: on the row below the quoted line, and as far from
the margin as that character. -/
def CaretAligned (d : Diagnostic) : Prop :=
  ∃ below, (Text.rawLines d.format.toList)[d.message.toList.count '\n' + 3]? = some below ∧
    '^' ∈ below ∧ below.idxOf '^' = (gutter d.location.line).length + d.location.column

/-- The caret is shown six characters and the column from the margin, below the quoted line. It
stands under the located character exactly if the number of the line has one digit. -/
theorem caretAligned_iff (d : Diagnostic) (attached : d.text ≠ "") :
    (Text.rawLines d.format.toList)[d.message.toList.count '\n' + 2]? =
        some (gutter d.location.line ++ d.location.content ++ ['\n']) ∧
      (∃ below, (Text.rawLines d.format.toList)[d.message.toList.count '\n' + 3]? = some below ∧
        '^' ∈ below ∧ below.idxOf '^' = 6 + d.location.column) ∧
      (d.CaretAligned ↔ d.location.line < 10) := by
  obtain ⟨quoted, ending, row⟩ := rows_format attached
  obtain ⟨mem, index⟩ := idxOf_caretRow d.location.column ending
  have one_digit : (Nat.toDigits 10 d.location.line).length = 1 ↔ d.location.line < 10 := by
    have bound := Nat.length_toDigits_le_iff (b := 10) (n := d.location.line) (k := 1)
      (by decide) (by decide)
    have positive := Nat.length_toDigits_pos (b := 10) (n := d.location.line)
    rw [Nat.pow_one] at bound
    omega
  have width : (gutter d.location.line).length = 5 + (Nat.toDigits 10 d.location.line).length := by
    simp [gutter]
    omega
  refine ⟨quoted, ⟨_, row, mem, index⟩, ?_⟩
  rw [← one_digit]
  constructor
  · rintro ⟨below, same, _, aligned⟩
    rw [row, Option.some.injEq] at same
    subst same
    omega
  · exact fun single => ⟨_, row, mem, by omega⟩

/-- The ninth line is the last with an aligned caret; the message of the diagnostic has two rows. -/
theorem caretAligned_iff_ninth :
    let d : Diagnostic :=
      { message := "Invalid group name <\n>", pos := 18, text := "\n\n\n\n\n\n\n\n(a)|é(b(?<\n>c)" }
    d.text ≠ "" ∧ d.location.line = 9 ∧ d.CaretAligned := by
  intro d
  have attached : d.text ≠ "" := by decide
  have ninth : d.location.line = 9 := by decide +kernel
  exact ⟨attached, ninth, (caretAligned_iff d attached).2.2.mpr (by rw [ninth]; decide)⟩

/-- On a tenth line the caret stands one character too far to the left. -/
theorem caret_misaligned :
    ∃ d, parse "a\nb\nc\nd\ne\nf\ng\nh\ni\n)" = .error d ∧ d.text ≠ "" ∧
      d.location = ⟨10, 0, [')']⟩ ∧
      (Text.rawLines d.format.toList)[2]? = some "> 10 | )\n".toList ∧
      (∃ below, (Text.rawLines d.format.toList)[3]? = some below ∧ below.idxOf '^' = 6) ∧
      ¬ d.CaretAligned := by
  let source : Source := ⟨{}, "a\nb\nc\nd\ne\nf\ng\nh\ni\n)"⟩
  let d := Diagnostic.ofViolation source.body ⟨.unmatchedParenthesis, 18⟩
  have taken : Source.ofText source.body = .ok source := by decide +kernel
  have read : (Parser.ofSource source).read.result = .error ⟨.unmatchedParenthesis, 18⟩ := by
    decide +kernel
  have attached : d.text ≠ "" := by decide
  have found : d.location = ⟨10, 0, [')']⟩ := by decide +kernel
  have feeds : d.message.toList.count '\n' = 0 := by decide +kernel
  obtain ⟨quoted, ending, row⟩ := rows_format attached
  obtain ⟨_, index⟩ := idxOf_caretRow d.location.column ending
  rw [feeds, found] at quoted row
  rw [found] at index
  refine ⟨d, parse_eq_error taken read, attached, found, quoted.trans (by decide +kernel),
    ⟨_, row, index⟩, ?_⟩
  rintro ⟨below, same, _, aligned⟩
  rw [feeds, row, Option.some.injEq] at same
  rw [← same, index, found] at aligned
  exact absurd aligned (by decide +kernel)

end Diagnostic

end PatternCompiler
