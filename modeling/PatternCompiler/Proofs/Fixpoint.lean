import PatternCompiler.Compile
import PatternCompiler.Proofs.RoundTrip

/-!
Emitted text is a fixpoint of the compiler. The groups that reading an emitted text brings to light
are those that writing the tree puts in, so that the regrouped tree has the same text.
-/

set_option autoImplicit false
set_option relaxedAutoImplicit false

namespace PatternCompiler

open Grammar Pattern Pcre2

variable {extended : Bool}

private theorem isNumbered_regroup (p : Pattern) : isNumbered p.regroup = isNumbered p := by
  cases p with
  | charClass negated items =>
      obtain ⟨negated', items', same⟩ := exists_foldNegation negated items
      rw [regroup, same]
      rfl
  | _ => rfl

private theorem needsGroup_regroup {p : Pattern} (atom : p.isCompound = false) (sound : p.Sound) :
    needsGroup p.regroup = false := by
  cases p with
  | charClass negated items =>
      obtain ⟨negated', items', same⟩ := exists_foldNegation negated items
      rw [regroup, same]
      rfl
  | literal text => exact (needsGroup_eq sound).trans atom
  | sequence | alternation | repetition | look => exact absurd atom (by simp [isCompound])
  | _ => rfl

private theorem spell_grouped (inSequence : Bool) (p : Pattern) :
    spell extended inSequence (grouped true p) = wrapped true (spell extended false p) := by
  simp [grouped, spell, wrapped, groupOpening]

private theorem classText_foldNegation {negated : Bool} {items : List ClassItem}
    (sound : (charClass negated items).Sound) :
    spell extended false (foldNegation negated items) = classText negated items := by
  fun_cases foldNegation negated items with
  | case2 family capital property named =>
      have folded : (ClassItem.shorthand ⟨family, !capital⟩ property).Sound :=
        sound.2 (.shorthand ⟨family, capital⟩ property) List.mem_cons_self
      obtain ⟨s, bare, -⟩ := bareShorthand_of_named folded named
      simp [spell, classText, bare, Shorthand.negate]
  | _ => rfl

private theorem spell_of_isAlternation {p : Pattern} (several : p.isAlternation = true) :
    spell extended true p = wrapped true (spell extended false p) ∧ isNumbered p = false := by
  cases p with
  | alternation branches => exact ⟨by simp [spell, wrapped], rfl⟩
  | _ => exact absurd several (by simp [isAlternation])

private theorem spell_part {p : Pattern} (digit : Bool)
    (same : spell extended false p.regroup = spell extended false p) :
    spell extended true (grouped (p.isAlternation || isNumbered p && digit) p.regroup) =
        wrapped (isNumbered p && digit) (spell extended true p) ∧
      (isNumbered (grouped (p.isAlternation || isNumbered p && digit) p.regroup) && digit) =
        false := by
  cases several : p.isAlternation with
  | true =>
      obtain ⟨text, unnumbered⟩ := @spell_of_isAlternation extended p several
      rw [Bool.true_or, spell_grouped, same, unnumbered, text]
      exact ⟨rfl, rfl⟩
  | false =>
      rw [Bool.false_or]
      cases wrap : (isNumbered p && digit) with
      | true =>
          rw [spell_grouped, same, spell_inSequence several]
          exact ⟨rfl, rfl⟩
      | false =>
          have one := (regroup_shape p).2.1.trans several
          simp only [grouped, wrapped, Bool.false_eq_true, if_false]
          rw [spell_inSequence one, spell_inSequence several, isNumbered_regroup]
          exact ⟨same, wrap⟩

private theorem startsWithDigit_part {p : Pattern} (digit : Bool)
    (same : spell extended false p.regroup = spell extended false p) :
    startsWithDigit
        (spell extended true (grouped (p.isAlternation || isNumbered p && digit) p.regroup)) =
      startsWithDigit (spell extended true p) := by
  rw [(spell_part digit same).1]
  cases wrap : (isNumbered p && digit) with
  | false => rfl
  | true =>
      cases p with
      | backreference index name =>
          rw [spell]
          fun_cases backreferenceText index name with
          | case3 => exact absurd wrap (by simp [isNumbered])
          | _ => rfl
      | _ => exact absurd wrap (by simp [isNumbered])

private theorem joinPieces_regroupParts {parts : List Pattern}
    (each : ∀ p ∈ parts, spell extended false p.regroup = spell extended false p)
    (sound : ∀ p ∈ parts, p.Throughout Sound) (flat : ∀ p ∈ parts, p.isSequence = false) :
    joinPieces (spellParts extended (regroupParts parts)) =
      joinPieces (spellParts extended parts) := by
  induction parts with
  | nil => rfl
  | cons p parts ih =>
      obtain ⟨here, there⟩ := List.forall_mem_cons.mp each
      have rest := ih there (fun q mem => sound q (List.mem_cons_of_mem _ mem))
        (fun q mem => flat q (List.mem_cons_of_mem _ mem))
      cases parts with
      | nil =>
          have text := (spell_part false here).1
          simpa [regroupParts, ← isNumbered_eq, spellParts, joinPieces, wrapped] using text
      | cons q parts =>
          have digit : startsWithDigit (spell extended true q) = q.beginsWithDigit :=
            startsWithDigit_spell (sound q (by simp)) (flat q (by simp))
          obtain ⟨text, closed⟩ := spell_part q.beginsWithDigit here
          have next := startsWithDigit_part (parts.head?.any beginsWithDigit) (there q (by simp))
          rw [digit] at next
          simp only [regroupParts, ← isNumbered_eq, spellParts, joinPieces, List.head?_cons,
            Option.any_some] at rest ⊢
          rw [next, closed, text, rest, digit]
          rfl

theorem spellBranches_eq (branches : List Pattern) :
    spellBranches extended branches = branches.map (spell extended false) := by
  induction branches with
  | nil => rfl
  | cons b branches ih => rw [spellBranches, ih, List.map_cons]

/-- Regrouping does not change the text of a tree. -/
theorem spell_regroup {p : Pattern} (sound : p.Throughout Sound)
    (canonical : p.Throughout Canonical) :
    spell extended false p.regroup = spell extended false p := by
  induction p with
  | sequence parts ih =>
      obtain ⟨-, below⟩ := throughout_iff.mp sound
      obtain ⟨normal, below'⟩ := throughout_iff.mp canonical
      rw [regroup, spell, spell]
      exact joinPieces_regroupParts (fun p mem => ih p mem (below p mem) (below' p mem)) below
        normal.2.1
  | alternation branches ih =>
      obtain ⟨-, below⟩ := throughout_iff.mp sound
      obtain ⟨-, below'⟩ := throughout_iff.mp canonical
      have texts : (branches.map regroup).map (spell extended false) =
          branches.map (spell extended false) := by
        rw [List.map_map]
        exact List.map_congr_left fun p mem => ih p mem (below p mem) (below' p mem)
      rw [regroup, spell, spell, regroupAll_eq, spellBranches_eq, spellBranches_eq, texts]
  | repetition body least most greed ih =>
      obtain ⟨-, below⟩ := throughout_repetition.mp sound
      obtain ⟨-, below'⟩ := throughout_repetition.mp canonical
      have inner := ih below below'
      have here := (throughout_iff.mp below).1
      rw [regroup, spell, spell, needsGroup_eq here]
      cases compound : body.isCompound with
      | true =>
          rw [spell_grouped, inner]
          rfl
      | false =>
          simp only [grouped, Bool.false_eq_true, if_false]
          rw [needsGroup_regroup compound here, inner]
  | group capturing body name atomic ih =>
      obtain ⟨-, below⟩ := throughout_group.mp sound
      obtain ⟨-, below'⟩ := throughout_group.mp canonical
      rw [regroup, spell, spell, ih below below']
  | look direction negative body ih =>
      obtain ⟨-, below⟩ := throughout_look.mp sound
      obtain ⟨-, below'⟩ := throughout_look.mp canonical
      rw [regroup, spell, spell, ih below below']
  | charClass negated items => exact classText_foldNegation (throughout_iff.mp sound).1
  | _ => rfl

private theorem compile_eq_ok_iff {text : String} {result : FlaggedPattern} :
    compile text = .ok result ↔
      ∃ source t, Source.ofText text = .ok source ∧ source.parse = .ok t ∧
        result = ⟨source.flags, t.normalize⟩ := by
  unfold compile Stage.andThen Stage.parse Stage.normalize Stage.pure
  cases header : Source.ofText text with
  | error d => simp [Except.bind]
  | ok source =>
      cases parsed : source.parse with
      | error d => simp [parsed, Except.bind, Except.map]
      | ok t => simp [parsed, Except.bind, Except.map, eq_comm]

/-- The text that a pattern compiles to is parsed again, compiles to itself, and has the same groups
and uses the same features. -/
theorem compile_emit_fixpoint (text : String) (result : FlaggedPattern)
    (compiled : compile text = .ok result) :
    let emitted := String.ofList (emit false result.flags result.root)
    let again := (Parser.ofSource ⟨result.flags, emitted⟩).parse
    ∃ source p, Source.ofText text = .ok source ∧ again.1 = .ok p ∧
      String.ofList (emit false result.flags p.normalize) = emitted ∧
      again.2.captures.count = (Parser.ofSource source).parse.2.captures.count ∧
      again.2.captures.names = (Parser.ofSource source).parse.2.captures.names ∧
      p.normalize.features = result.root.features := by
  obtain ⟨source, t, header, parsed, rfl⟩ := compile_eq_ok_iff.mp compiled
  obtain ⟨resolved, reached, sound, flat⟩ :=
    resolves_of_spelling (Parser.parse_ok_iff.mp ⟨parsed, rfl⟩)
  rw [← events_normalize] at resolved reached
  have sound' := sound_normalize sound flat
  have canonical := canonical_normalize t
  obtain ⟨p, parsed', captures, same⟩ := @parse_emitted _ source.flags sound' canonical resolved
  refine ⟨source, p, header, parsed', ?_, ?_, ?_, ?_⟩
  · rw [same]
    simp only [emit, spell_regroup sound' canonical]
  · rw [captures, reached]
  · rw [captures, reached]
  · rw [same, features_regroup]

/-- A text with a directive, in free spacing, of which the emitted text needs a group before a
digit. -/
theorem compile_emit_fixpoint_extended :
    let result : FlaggedPattern := ⟨{ extended := true },
      .sequence
        [.group true (.alternation [.literal "b", .literal " c"]) (some "a") false,
          .backreference (some 1) none, .literal "1",
          .charClass true [.shorthand ⟨.digit, false⟩ none]]⟩
    let emitted := "(?<a>b|\\ c)(?:\\1)1\\D"
    compile "%flags x\n(?<a>b|\\ c) \\1 1 [^\\d] # end" = .ok result ∧
      ∃ p, (Source.mk result.flags emitted).parse = .ok p ∧
        String.ofList (emit false result.flags p.normalize) = emitted := by
  intro result emitted
  have compiled : compile "%flags x\n(?<a>b|\\ c) \\1 1 [^\\d] # end" = .ok result := by
    let t := Pattern.sequence
      [.group true (.alternation [.literal "b", .sequence [.literal " ", .literal "c"]]) (some "a")
          false,
        .backreference (some 1) none, .literal "1",
        .charClass true [.shorthand ⟨.digit, false⟩ none]]
    have normal : result.root = t.normalize := by decide +kernel
    exact compile_eq_ok_iff.mpr ⟨⟨{ extended := true }, "(?<a>b|\\ c) \\1 1 [^\\d] # end"⟩, t,
      by decide +kernel, by decide +kernel, congrArg (FlaggedPattern.mk _) normal⟩
  have text : String.ofList (emit false result.flags result.root) = emitted := by decide +kernel
  obtain ⟨_, p, _, parsed, same, _⟩ := compile_emit_fixpoint _ result compiled
  rw [text] at parsed same
  exact ⟨compiled, p, parsed, same⟩

end PatternCompiler
