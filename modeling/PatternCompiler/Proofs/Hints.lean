import PatternCompiler.Compile
import PatternCompiler.Proofs.Blame
import PatternCompiler.Proofs.Headers

/-!
Hints for the errors of a parse. The patterns of the hint rules are held against the wordings of the
messages: one of them begins every wording but that of a pattern that ends unexpectedly. Since no
text makes a parse fail in that way, every error comes with a hint.
-/

set_option autoImplicit false
set_option relaxedAutoImplicit false

namespace PatternCompiler

theorem Text.occurs_iff_infix {piece text : List Char} :
    Text.occurs piece text = true ↔ piece <:+: text := by
  induction text with
  | nil => simp [Text.occurs]
  | cons c rest ih =>
      rw [Text.occurs, Bool.or_eq_true, ih, List.isPrefixOf_iff_prefix, List.infix_cons_iff]

namespace Hint

/-- Letters that are those of the patterns of some rules, in the order of the rules. -/
inductive Spells : List (List Char) → List HintRule → Prop
  | nil : Spells [] []
  | cons {letters : List Char} {rest : List (List Char)} {rule : HintRule} {rules : List HintRule} :
      String.ofList letters = rule.pattern → Spells rest rules →
      Spells (letters :: rest) (rule :: rules)

structure Spelling (rules : List HintRule) where
  letters : List (List Char)
  spelled : Spells letters rules

theorem Spelling.letters_eq {table : List HintRule} (s : Spelling table) :
    table.map (fun rule => rule.pattern.toList) = s.letters := by
  obtain ⟨letters, spelled⟩ := s
  induction spelled with
  | nil => rfl
  | cons first _ ih => rw [List.map_cons, ← first, String.toList_ofList, ih]

/-- The letters of all patterns. Each rule of the table determines its own. -/
def spelling : Spelling rules := by
  constructor
  repeat
    apply Spells.cons
    · rfl
  exact .nil

private theorem rule?_of_begins {message : String} {letters : List Char}
    (mem : letters ∈ spelling.letters)
    (begins : letters <+: message.toList) : (rule? message).isSome = true := by
  rw [← spelling.letters_eq] at mem
  obtain ⟨rule, listed, rfl⟩ := List.mem_map.mp mem
  exact List.find?_isSome.mpr ⟨rule, listed, Text.occurs_iff_infix.mpr begins.isInfix⟩

private theorem unhinted_wordings :
    (Wording.all.filter fun w => !spelling.letters.any (·.isPrefixOf w.letters)) =
      [.whole .unexpectedEnd rfl] := rfl

theorem rule?_message {fault : Fault} (other : fault ≠ .unexpectedEnd) :
    (rule? fault.message).isSome = true := by
  obtain ⟨w, mem, begins, tail, told⟩ := Wording.exists_begins fault
  cases hinted : spelling.letters.any (·.isPrefixOf w.letters) with
  | true =>
      obtain ⟨letters, listed, first⟩ := List.any_eq_true.mp hinted
      exact rule?_of_begins listed ((List.isPrefixOf_iff_prefix.mp first).trans begins)
  | false =>
      have left : w ∈ Wording.all.filter fun w => !spelling.letters.any (·.isPrefixOf w.letters) :=
        List.mem_filter.mpr ⟨mem, by rw [hinted]; rfl⟩
      rw [unhinted_wordings, List.mem_singleton] at left
      subst left
      exact absurd told.symm other

end Hint

private theorem Fault.eq_invalidFlag {fault : Fault}
    (begins : "Invalid flag".toList <+: fault.message.toList) : ∃ c, fault = .invalidFlag c := by
  rw [String.toList_ofList] at begins
  obtain ⟨w, mem, tail, rfl⟩ := Wording.exists_nested begins
  have flag : w = ⟨"Invalid flag '", _, rfl, fun tail => .invalidFlag (tail.headD ' ')⟩ :=
    List.mem_singleton.mp mem
  subst flag
  exact ⟨_, rfl⟩

private theorem Fault.begins_invalidFlag (c : Char) :
    "Invalid flag".toList <+: (Fault.invalidFlag c).message.toList := by
  have words : "Invalid flag '" = "Invalid flag" ++ " '" := by decide +kernel
  have whole : "Invalid flag" ++ (" '" ++ c.toString ++ "'") = (Fault.invalidFlag c).message :=
    calc "Invalid flag" ++ (" '" ++ c.toString ++ "'")
      _ = "Invalid flag" ++ " '" ++ c.toString ++ "'" := by simp only [String.append_assoc]
      _ = "Invalid flag '" ++ c.toString ++ "'" := congrArg (· ++ c.toString ++ "'") words.symm
  refine ⟨(" '" ++ c.toString ++ "'").toList, ?_⟩
  rw [← String.toList_append]
  exact congrArg String.toList whole

theorem Fault.Blames.reported {fault : Fault} {text : List Char} {pos : Nat}
    (blames : fault.Blames text pos) :
    fault ≠ .trailingInput ∧ fault ≠ .unexpectedEnd ∧ ∀ c, fault ≠ .invalidFlag c := by
  refine ⟨?_, ?_, ?_⟩
  · rintro rfl
    exact blames
  · rintro rfl
    exact blames
  · rintro c rfl
    exact blames

/-- What an error of a parse is about: an unknown flag in the text, or another fault in its body. -/
theorem violation_of_parse_error {text : String} {d : Diagnostic}
    {header body : List (List Char)} (split : Header.Splits text.toList header body)
    (failed : parse text = .error d) :
    ∃ v : Violation, v.fault ≠ .trailingInput ∧ v.fault ≠ .unexpectedEnd ∧ v.fault.WellQuoted ∧
      ((∃ c, v.fault = .invalidFlag c) ∧ d = Diagnostic.ofViolation text v ∨
        (∀ c, v.fault ≠ .invalidFlag c) ∧
          d = Diagnostic.ofViolation (.ofList body.flatten) v) := by
  unfold parse Stage.parse at failed
  generalize result : Source.ofText text = found at failed
  have opened := result ▸ Source.opened_ofText split
  cases opened with
  | @stray pos c =>
      cases failed
      exact ⟨⟨.invalidFlag c, pos⟩, Fault.noConfusion, Fault.noConfusion, trivial,
        .inl ⟨⟨c, rfl⟩, rfl⟩⟩
  | @late pos =>
      cases failed
      exact ⟨⟨.lateDirective, pos⟩, Fault.noConfusion, Fault.noConfusion, trivial,
        .inr ⟨fun _ => Fault.noConfusion, rfl⟩⟩
  | @taken flags =>
      have parsed : Source.parse ⟨flags, .ofList body.flatten⟩ = .error d := by
        dsimp only at failed
        cases read : Source.parse ⟨flags, .ofList body.flatten⟩ with
        | ok root => simp [read, Except.map] at failed
        | error e => simpa [read, Except.map] using failed
      obtain ⟨v, read, rfl⟩ := Parser.parse_eq_error_iff_read.mp parsed
      have faithful := Source.faithful_read read
      obtain ⟨trailing, ended, flag⟩ := Fault.Blames.reported faithful.blamed
      exact ⟨v, trailing, ended, faithful.quoted, .inr ⟨flag, rfl⟩⟩

/-- Every error of a parse has a hint, is about the text itself if a flag is unknown and about its
body otherwise, and is none of the two that no text can cause. -/
theorem parse_error_hinted (text : String) (d : Diagnostic) (failed : parse text = .error d) :
    d.hint.isSome = true ∧
      (∃ header body, Header.Splits text.toList header body ∧
        ("Invalid flag".toList <+: d.message.toList → d.text = text) ∧
        (¬ "Invalid flag".toList <+: d.message.toList → d.text.toList = body.flatten)) ∧
      d.message ≠ "Unexpected trailing input" ∧ d.message ≠ "Unexpected end of pattern" := by
  obtain ⟨header, body, split⟩ := Header.exists_splits text.toList
  obtain ⟨v, trailing, ended, _, cause⟩ := violation_of_parse_error split failed
  have hinted (about : String) : (Diagnostic.ofViolation about v).hint.isSome = true := by
    rw [Diagnostic.ofViolation, Hint.find?, Option.isSome_map, Hint.rule?_message ended]
  have messages : v.fault.message ≠ "Unexpected trailing input" ∧
      v.fault.message ≠ "Unexpected end of pattern" :=
    ⟨fun same => trailing (Fault.message_injective same),
      fun same => ended (Fault.message_injective same)⟩
  rcases cause with ⟨⟨c, flag⟩, rfl⟩ | ⟨other, rfl⟩
  · refine ⟨hinted _, ⟨_, _, split, fun _ => rfl, fun never => absurd ?_ never⟩, messages⟩
    change _ <+: v.fault.message.toList
    rw [flag]
    exact Fault.begins_invalidFlag c
  · refine ⟨hinted _, ⟨_, _, split, fun begins => ?_, fun _ => String.toList_ofList⟩, messages⟩
    obtain ⟨c, flag⟩ := Fault.eq_invalidFlag begins
    exact absurd flag (other c)

/-- A message that quotes the words of another one, about a pattern below a header. -/
theorem parse_error_hinted_name :
    let text := "# é\n%flags i\n(?<Invalid flag>a)"
    ∃ d, parse text = .error d ∧ d.message = "Invalid group name <Invalid flag>" ∧
      d.hint.isSome = true ∧
      ∃ header body, Header.Splits text.toList header body ∧ d.text.toList = body.flatten := by
  intro text
  let source : Source := ⟨{ ignoreCase := true }, "(?<Invalid flag>a)"⟩
  let v : Violation := ⟨.invalidGroupName "Invalid flag", 3⟩
  let d := Diagnostic.ofViolation source.body v
  have taken : Source.ofText text = .ok source := by decide +kernel
  have read : (Parser.ofSource source).read.result = .error v := by decide +kernel
  have failed : parse text = .error d := parse_eq_error taken read
  have other : ¬ "Invalid flag".toList <+: "Invalid group name <Invalid flag>".toList := by
    decide +kernel
  obtain ⟨hinted, ⟨header, body, split, _, about⟩, _⟩ := parse_error_hinted text d failed
  exact ⟨d, failed, by decide +kernel, hinted, header, body, split, about other⟩

end PatternCompiler
