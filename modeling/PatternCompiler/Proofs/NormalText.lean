import PatternCompiler.Proofs.Fixpoint

/-!
Normalisation does not show in emitted text. A sequence is written piece by piece, and what a piece
has to know of the pieces behind it is only whether a digit comes next. Fusing literals changes
neither the text of the pieces nor that digit, as long as no literal is empty, and in the trees that
texts spell normalisation does nothing else to a sequence.
-/

set_option autoImplicit false
set_option relaxedAutoImplicit false

namespace PatternCompiler

open Grammar Pattern Pcre2

variable {extended : Bool} {p : Pattern} {ps qs : List Pattern}

def Pcre2.digitNext (pieces : List Piece) : Bool :=
  pieces.head?.any fun piece => startsWithDigit piece.text

theorem joinPieces_cons (piece : Piece) (pieces : List Piece) :
    joinPieces (piece :: pieces) =
      wrapped (piece.numbered && digitNext pieces) piece.text ++ joinPieces pieces := by
  cases pieces with
  | nil => simp [joinPieces, digitNext, wrapped]
  | cons next rest => rfl

private theorem spellParts_eq (ps : List Pattern) :
    spellParts extended ps = ps.map fun p => ⟨isNumbered p, spell extended true p⟩ := by
  induction ps with
  | nil => rfl
  | cons p ps ih => rw [spellParts, ih, List.map_cons]

/-- Parts that are written alike, whatever stands before them in a sequence. -/
structure SameText (extended : Bool) (ps qs : List Pattern) : Prop where
  text_eq : joinPieces (spellParts extended ps) = joinPieces (spellParts extended qs)
  digit_eq : digitNext (spellParts extended ps) = digitNext (spellParts extended qs)

theorem SameText.refl (ps : List Pattern) : SameText extended ps ps :=
  ⟨rfl, rfl⟩

theorem SameText.trans {rs : List Pattern} (first : SameText extended ps qs)
    (second : SameText extended qs rs) : SameText extended ps rs :=
  ⟨first.text_eq.trans second.text_eq, first.digit_eq.trans second.digit_eq⟩

theorem SameText.cons (h : SameText extended ps qs) (p : Pattern) :
    SameText extended (p :: ps) (p :: qs) := by
  refine ⟨?_, rfl⟩
  rw [spellParts, spellParts, joinPieces_cons, joinPieces_cons, h.text_eq, h.digit_eq]

theorem SameText.append (h : SameText extended ps qs) (before : List Pattern) :
    SameText extended (before ++ ps) (before ++ qs) := by
  induction before with
  | nil => exact h
  | cons p before ih => exact ih.cons p

/-- A literal may be cut in two if its first part is not empty: the text then begins with
the same character. -/
theorem sameText_cut {s : String} (some_text : s ≠ "") (t : String) (ps : List Pattern) :
    SameText extended (.literal (s ++ t) :: ps) (.literal s :: .literal t :: ps) := by
  constructor
  · simp [spellParts, joinPieces_cons, isNumbered, wrapped, spell]
  · have whole := @startsWithDigit_literal extended s some_text
      (t.toList.flatMap (literalChar extended))
    have part := @startsWithDigit_literal extended s some_text []
    rw [List.append_nil] at part
    simpa [spellParts, digitNext, spell] using whole.trans part.symm

private theorem sameText_fuseLiterals {run : String}
    (texts : ∀ text, .literal text ∈ ps → text ≠ "") :
    SameText extended (fuseLiterals run ps) (literalRun run ++ ps) := by
  fun_induction fuseLiterals run ps with
  | case1 run =>
      rw [List.append_nil]
      exact .refl _
  | case2 run text rest ih =>
      have some_text := texts text List.mem_cons_self
      have fused := ih fun t mem => texts t (List.mem_cons_of_mem _ mem)
      have whole : literalRun (run ++ text) = [.literal (run ++ text)] :=
        if_neg fun empty => some_text (String.append_eq_empty_iff.mp empty).2
      rw [whole] at fused
      by_cases none : run = ""
      · subst none
        rw [String.empty_append] at fused
        simpa [literalRun] using fused
      · rw [literalRun, if_neg none]
        exact fused.trans (sameText_cut none text rest)
  | case3 run p rest _ ih =>
      have fused := ih fun t mem => texts t (List.mem_cons_of_mem _ mem)
      exact (fused.cons p).append (literalRun run)

section Normalize

private theorem spell_collapse_terms (terms : ∀ q ∈ qs, q.isAlternation = false) :
    spell extended false (collapse .sequence qs) = joinPieces (spellParts extended qs) := by
  fun_cases collapse sequence qs with
  | case1 q => exact (spell_inSequence (terms q List.mem_cons_self)).symm
  | case2 => rw [spell]

private theorem spell_collapse_branches (qs : List Pattern) :
    spell extended false (collapse .alternation qs) = spell extended false (.alternation qs) := by
  fun_cases collapse alternation qs with
  | case1 q => simp [spell, spellBranches, wrapped, List.intercalate]
  | case2 => rfl

private theorem asked_normalize (single : p.isSequence = false) (one : p.isAlternation = false) :
    isNumbered p.normalize = isNumbered p ∧ needsGroup p.normalize = needsGroup p := by
  cases p with
  | sequence parts => exact absurd single (by simp [isSequence])
  | alternation branches => exact absurd one (by simp [isAlternation])
  | _ => exact ⟨rfl, rfl⟩

private theorem spellParts_normalize
    (each : ∀ p ∈ ps, spell extended false p.normalize = spell extended false p)
    (flat : ∀ p ∈ ps, p.isSequence = false ∧ p.isAlternation = false) :
    spellParts extended (ps.map normalize) = spellParts extended ps := by
  rw [spellParts_eq, spellParts_eq, List.map_map]
  refine List.map_congr_left fun p mem => ?_
  obtain ⟨single, one⟩ := flat p mem
  have text : spell extended true p.normalize = spell extended true p := by
    rw [spell_inSequence (normalize_of_flat single one).2.1, spell_inSequence one, each p mem]
  simp only [Function.comp_apply, (asked_normalize single one).1, text]

private theorem spell_normalize_sequence
    (each : ∀ p ∈ ps, spell extended false p.normalize = spell extended false p)
    (sound : ∀ p ∈ ps, p.Throughout Sound)
    (flat : ∀ p ∈ ps, p.isSequence = false ∧ p.isAlternation = false) :
    spell extended false (sequence ps).normalize = spell extended false (.sequence ps) := by
  have texts : ∀ text, .literal text ∈ ps.map normalize → text ≠ "" := by
    rintro text mem rfl
    obtain ⟨p, member, empty⟩ := List.mem_map.mp mem
    obtain ⟨-, -, -, -, literal⟩ := normalize_of_flat (flat p member).1 (flat p member).2
    rw [(literal "").mp empty] at member
    exact (throughout_iff.mp (sound _ member)).1 rfl
  have fused : SameText extended (fuseLiterals "" (ps.map normalize)) (ps.map normalize) :=
    sameText_fuseLiterals texts
  have terms : ∀ q ∈ fuseLiterals "" (ps.map normalize), q.isAlternation = false :=
    fun q mem => (flat_of_mem_fuseLiterals (flat_normalize flat) mem).2
  rw [normalize_sequence flat, spell_collapse_terms terms, fused.text_eq,
    spellParts_normalize each flat, spell]

private theorem spell_normalize_alternation
    (each : ∀ p ∈ ps, spell extended false p.normalize = spell extended false p)
    (flat : (alternation ps).Throughout Flat) :
    spell extended false (alternation ps).normalize = spell extended false (.alternation ps) := by
  obtain ⟨simple, below⟩ := throughout_iff.mp flat
  have apart : ∀ q ∈ ps.map normalize, q.isAlternation = false := by
    intro q mem
    obtain ⟨p, member, rfl⟩ := List.mem_map.mp mem
    exact normalize_not_alternation (below p member) (simple p member)
  have texts : (ps.map normalize).map (spell extended false) = ps.map (spell extended false) := by
    rw [List.map_map]
    exact List.map_congr_left each
  rw [Pattern.normalize, normalizeAll_eq, flatMap_branchesInAlternation apart,
    spell_collapse_branches, spell, spell, spellBranches_eq, spellBranches_eq, texts]

/-- A flat tree of sound nodes and its normal form have the same text. -/
theorem spell_normalize (sound : p.Throughout Sound) (flat : p.Throughout Flat) :
    spell extended false p.normalize = spell extended false p := by
  induction p with
  | sequence parts ih =>
      obtain ⟨-, below⟩ := throughout_iff.mp sound
      obtain ⟨here, below'⟩ := throughout_iff.mp flat
      exact spell_normalize_sequence (fun p mem => ih p mem (below p mem) (below' p mem)) below here
  | alternation branches ih =>
      obtain ⟨-, below⟩ := throughout_iff.mp sound
      obtain ⟨-, below'⟩ := throughout_iff.mp flat
      exact spell_normalize_alternation (fun p mem => ih p mem (below p mem) (below' p mem)) flat
  | repetition body least most greed ih =>
      obtain ⟨-, below⟩ := throughout_repetition.mp sound
      obtain ⟨⟨single, one⟩, below'⟩ := throughout_repetition.mp flat
      rw [Pattern.normalize, spell, spell, (asked_normalize single one).2, ih below below']
  | group capturing body name atomic ih =>
      obtain ⟨-, below⟩ := throughout_group.mp sound
      obtain ⟨-, below'⟩ := throughout_group.mp flat
      rw [Pattern.normalize, spell, spell, ih below below']
  | look direction negative body ih =>
      obtain ⟨-, below⟩ := throughout_look.mp sound
      obtain ⟨-, below'⟩ := throughout_look.mp flat
      rw [Pattern.normalize, spell, spell, ih below below']
  | _ => rfl

end Normalize

/-- Normalising the tree of a parsed pattern does not change what is emitted for it, with or without
its flags in front. Hence a compiler without that stage would emit the same for every text. -/
theorem emit_normalize_parsed (withFlags : Bool) :
    (∀ (source : Source) (t : Pattern), source.parse = .ok t →
      String.ofList (emit withFlags source.flags t.normalize) =
        String.ofList (emit withFlags source.flags t)) ∧
      (Stage.parse.andThen Stage.normalize).andThen (Stage.emit withFlags) =
        Stage.parse.andThen (Stage.emit withFlags) := by
  have parsed_text (source : Source) (t : Pattern) (parsed : source.parse = .ok t) :
      String.ofList (emit withFlags source.flags t.normalize) =
        String.ofList (emit withFlags source.flags t) := by
    obtain ⟨-, -, sound, flat⟩ := resolves_of_spelling (Parser.parse_ok_iff.mp ⟨parsed, rfl⟩)
    simp only [emit, spell_normalize sound flat]
  refine ⟨parsed_text, funext fun text => ?_⟩
  unfold Stage.andThen Stage.parse Stage.normalize Stage.emit Stage.pure
  cases header : Source.ofText text with
  | error d => rfl
  | ok source =>
      cases parsed : source.parse with
      | error d => simp [parsed, Except.bind, Except.map]
      | ok t => simp [parsed, Except.bind, Except.map, parsed_text source t parsed]

/-- A pattern that normalisation changes in a sequence and in a branch, with a number before the
literals that it fuses. -/
theorem emit_normalize_parsed_fused :
    let source : Source := ⟨{ ignoreCase := true, extended := true }, "(a)\\1 1 2(?:b c|d)*"⟩
    let branches := Pattern.alternation [.sequence [.literal "b", .literal "c"], .literal "d"]
    let t := Pattern.sequence
      [.group true (.literal "a") none false, .backreference (some 1) none, .literal "1",
        .literal "2", .repetition (.group false branches none false) 0 .unbounded .greedy]
    source.parse = .ok t ∧ t.normalize ≠ t ∧
      String.ofList (emit true source.flags t.normalize) = "(?ix)(a)(?:\\1)12(?:bc|d)*" := by
  intro source branches t
  have parsed : source.parse = .ok t := by decide +kernel
  refine ⟨parsed, by decide +kernel, ?_⟩
  rw [(emit_normalize_parsed true).1 source t parsed]
  decide +kernel

end PatternCompiler
