import PatternCompiler.Proofs.Recognition
import PatternCompiler.Proofs.Shape
import PatternCompiler.Proofs.Tree

/-!
Free spacing reaches only the gaps between terms. Where it is unset, there are no gaps, so a
derivation without it is one with it as soon as none of its literals would be skipped. White space
and `#` inside classes, escapes and names take no part in this: the rules for those do not mention
free spacing.
-/

set_option autoImplicit false
set_option relaxedAutoImplicit false

namespace PatternCompiler

namespace Pattern

/-- A node that free spacing does not skip when it stands as one character in a text. -/
def Inked : Pattern → Prop
  | .literal text => text ∉ [" ", "\t", "\r", "\n", "#"]
  | _ => True

variable {prop : Pattern → Prop} {p : Pattern}

private theorem throughout_of_collapse {rebuild : List Pattern → Pattern} {ps : List Pattern}
    (members : (rebuild ps).children = ps) (h : (collapse rebuild ps).Throughout prop)
    (mem : p ∈ ps) : p.Throughout prop := by
  revert h
  fun_cases collapse rebuild ps with
  | case1 q =>
      intro h
      obtain rfl := List.mem_singleton.mp mem
      exact h
  | case2 =>
      intro h
      have below := (throughout_iff.mp h).2
      rw [members] at below
      exact below p mem

end Pattern

open Grammar Pattern

variable {k k' : Captures} {s after : List Char} {p q : Pattern}

private theorem throughout_of_treeOf {prop : Pattern → Prop} {pss : List (List Pattern)}
    (h : (treeOf pss).Throughout prop) : ∀ ps ∈ pss, ∀ p ∈ ps, p.Throughout prop := by
  rw [treeOf_eq] at h
  intro ps mem p mem'
  have branch := throughout_of_collapse rfl h (List.mem_map_of_mem mem)
  exact throughout_of_collapse rfl branch mem'

private theorem throughout_of_encloses {prop : Pattern → Prop} {inner : Captures} {body : Pattern}
    (h : Encloses k body s inner p) (whole : p.Throughout prop) : body.Throughout prop := by
  cases h with
  | ahead | notAhead | behind | notBehind => exact (throughout_look.mp whole).2
  | capture | named | plain | atomic => exact (throughout_group.mp whole).2

private theorem throughout_of_quantified {prop : Pattern → Prop} (h : Quantified p s q)
    (term : q.Throughout prop) : p.Throughout prop := by
  cases h with
  | bare => exact term
  | repeated => exact (throughout_repetition.mp term).2

private theorem not_skipped_of_inked {c : Char} (inked : (literal (String.singleton c)).Inked) :
    c ∉ [' ', '\t', '\r', '\n', '#'] := by
  intro skipped
  simp only [List.mem_cons, List.not_mem_nil, or_false] at skipped
  rcases skipped with rfl | rfl | rfl | rfl | rfl
  all_goals exact inked (by decide)

private theorem leaf_extended (h : Leaf false k s after p) (inked : p.Inked) :
    Leaf true k s after p := by
  cases h with
  | ordinary plain => exact .ordinary ⟨plain.1, plain.2.1, fun _ => not_skipped_of_inked inked⟩
  | anyChar => exact .anyChar
  | lineStart => exact .lineStart
  | lineEnd => exact .lineEnd
  | bracketClass bracket => exact .bracketClass bracket
  | number numeral head stops opened => exact .number numeral head stops opened
  | name closed bound => exact .name closed bound
  | shorthand escape => exact .shorthand escape
  | anchor letter => exact .anchor letter
  | nul => exact .nul
  | numeric escape => exact .numeric escape
  | control letter => exact .control letter
  | identity letter digit => exact .identity letter digit

private theorem spacing_extended {gap : List Char} (h : Spacing false gap after) :
    Spacing true gap after := by
  cases h with
  | nil => exact .nil

def Grammar.Phrase.IsInked : Phrase → Prop
  | .atom p => p.Throughout Inked
  | .term p => p.Throughout Inked
  | .terms ps => ∀ p ∈ ps, p.Throughout Inked
  | .branches pss => ∀ ps ∈ pss, ∀ p ∈ ps, p.Throughout Inked

private theorem derives_extended {phrase : Phrase} (h : Derives false k s after phrase k')
    (inked : phrase.IsInked) : Derives true k s after phrase k' := by
  induction h with
  | leaf leaf => exact .leaf (leaf_extended leaf (throughout_iff.mp inked).1)
  | bracketed encloses _ proper ih =>
      have inside := throughout_of_treeOf (throughout_of_encloses encloses inked)
      exact .bracketed encloses (ih inside) proper
  | term _ quantified ih => exact .term (ih (throughout_of_quantified quantified inked)) quantified
  | nil => exact .nil
  | cons spaced _ _ ihTerm ihTerms =>
      obtain ⟨here, there⟩ := List.forall_mem_cons.mp inked
      exact .cons (spacing_extended spaced) (ihTerm here) (ihTerms there)
  | single _ spaced ih =>
      exact .single (ih (inked _ List.mem_cons_self)) (spacing_extended spaced)
  | bar _ spaced _ ihTerms ihBranches =>
      obtain ⟨here, there⟩ := List.forall_mem_cons.mp inked
      exact .bar (ihTerms here) (spacing_extended spaced) (ihBranches there)

/-- A body that is accepted without free spacing and has no literal that free spacing would skip is
accepted with it as the same tree, and opens the same groups. -/
theorem Parser.parse_extended (source : Source) (flags : Flags) (t : Pattern) (parser : Parser)
    (unset : source.flags.extended = false) (free : flags.extended = true)
    (parsed : (ofSource source).parse = (.ok t, parser)) (inked : t.Throughout Inked) :
    let again := (ofSource { source with flags := flags }).parse
    again.1 = .ok t ∧ again.2.captures = parser.captures := by
  have spelled := parse_ok_iff.mp ⟨congrArg Prod.fst parsed, congrArg (·.2.captures) parsed⟩
  rw [unset] at spelled
  obtain ⟨pss, derived, proper, rfl⟩ := spelled
  refine parse_ok_iff.mpr ⟨pss, ?_, proper, rfl⟩
  rw [free]
  exact derives_extended derived (throughout_of_treeOf inked)

/-- White space and `#` inside a class and a property name. -/
theorem Parser.parse_extended_class :
    let source : Source := ⟨{ dotAll := true }, "(?<n>[ #\n]x|\\p\x7bL #\x7d+)\\k<n>"⟩
    let flags : Flags := { multiline := true, extended := true }
    let spaces := Pattern.charClass false [.char ' ', .char '#', .char '\n']
    let letters := Pattern.ofShorthand ⟨.property, false⟩ (some "L #")
    let t := Pattern.sequence
      [.group true
          (.alternation
            [.sequence [spaces, .literal "x"], .repetition letters 1 .unbounded .greedy])
          (some "n") false,
        .backreference none (some "n")]
    (ofSource source).parse.1 = .ok t ∧
      (ofSource { source with flags := flags }).parse.1 = .ok t ∧
      (ofSource { source with flags := flags }).parse.2.captures = ⟨1, ["n"]⟩ := by
  intro source flags spaces letters t
  have parsed : (ofSource source).parse.1 = .ok t := by decide +kernel
  have inked : t.Throughout Inked := by
    simp [t, spaces, letters, Throughout, preorder, Inked, ofShorthand]
  have captures : (ofSource source).parse.2.captures = ⟨1, ["n"]⟩ := by decide +kernel
  obtain ⟨again, same⟩ :=
    Parser.parse_extended source flags t _ rfl rfl (Prod.ext parsed rfl) inked
  exact ⟨parsed, again, same.trans captures⟩

end PatternCompiler
