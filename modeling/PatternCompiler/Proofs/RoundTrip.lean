import PatternCompiler.Proofs.Emission

/-!
Reading emitted text back. By induction over the tree that was written, its text derives terms that
normalise to the regrouped tree, and hence the parser recovers the tree up to regrouping.
-/

set_option autoImplicit false
set_option relaxedAutoImplicit false

namespace PatternCompiler

open Grammar Pattern Pcre2

def SameParts (ps qs : List Pattern) : Prop :=
  ∀ run rest, fuseLiterals run (ps ++ rest) = fuseLiterals run (qs ++ rest)

section SameParts

variable {ps qs ps' qs' : List Pattern}

theorem SameParts.refl (ps : List Pattern) : SameParts ps ps :=
  fun _ _ => rfl

private theorem sameParts_cons {p : Pattern} (h : SameParts ps qs) :
    SameParts (p :: ps) (p :: qs) := by
  intro run rest
  by_cases plain : p.isLiteral = false
  · simp only [List.cons_append, fuseLiterals_cons plain, h "" rest]
  · cases p with
    | literal text => exact h (run ++ text) rest
    | _ => exact absurd rfl plain

theorem SameParts.append (first : SameParts ps qs) (second : SameParts ps' qs') :
    SameParts (ps ++ ps') (qs ++ qs') := by
  have prepend : SameParts (qs ++ ps') (qs ++ qs') := by
    clear first
    induction qs with
    | nil => exact second
    | cons q qs ih => exact sameParts_cons ih
  intro run rest
  rw [List.append_assoc, first run (ps' ++ rest), ← List.append_assoc, prepend run rest]

private theorem sameParts_literal (text : String) :
    SameParts (text.toList.map fun c => .literal (String.singleton c)) [.literal text] := by
  have chars : ∀ (cs : List Char) (run : String) (rest : List Pattern),
      fuseLiterals run (cs.map (fun c => .literal (String.singleton c)) ++ rest) =
        fuseLiterals (run ++ String.ofList cs) rest := by
    intro cs
    induction cs with
    | nil => simp
    | cons c cs ih =>
        intro run rest
        rw [List.map_cons, List.cons_append, fuseLiterals, ih, String.ofList_cons,
          String.append_assoc]
  intro run rest
  rw [chars, String.ofList_toList]
  rfl

end SameParts

/-- A table of groups among which the references of a tree are resolved. -/
structure Ready (k : Captures) (events : List Event) : Prop where
  identifiers : ∀ s ∈ k.names, Grammar.Identifier s.toList
  resolved : k.Resolves events

private theorem ready_append {k : Captures} {es es' : List Event} (h : Ready k (es ++ es')) :
    Ready k es ∧ Ready (k.afterAll es) es' := by
  obtain ⟨identifiers, resolved⟩ := h
  obtain ⟨first, second⟩ := Captures.resolves_append.mp resolved
  exact ⟨⟨identifiers, first⟩, Captures.identifier_afterAll first identifiers, second⟩

section Reads

variable (extended : Bool) (t : Pattern)

/-- The text of a tree is an atom that normalises to the regrouped tree. -/
def ReadsAtom : Prop :=
  ∀ k after, Ready k t.events → (isNumbered t = true → ¬ DigitAhead after) →
    ∃ p, Derives extended k (spell extended false t) after (.atom p) (k.afterAll t.events) ∧
      p.normalize = t.regroup

/-- The text of a part of a sequence is one of terms that fuse to the regrouped part. -/
def ReadsPart : Prop :=
  ∀ k after, Ready k t.events → (isNumbered t = true → ¬ DigitAhead after) →
    ∃ ps, ps ≠ [] ∧
      Derives extended k (spell extended true t) after (.terms ps) (k.afterAll t.events) ∧
      SameParts (ps.map normalize) [grouped t.isAlternation t.regroup]

/-- The text of a branch is one of terms that normalise to the regrouped branch. -/
def ReadsBranch : Prop :=
  ∀ k after, Ready k t.events → ¬ DigitAhead after →
    ∃ ps, (t ≠ .sequence [] → ps ≠ []) ∧
      Derives extended k (spell extended false t) after (.terms ps) (k.afterAll t.events) ∧
      (branchOf ps).normalize = t.regroup

/-- The text of a tree is one of branches that normalise to the regrouped tree. -/
def ReadsBody : Prop :=
  ∀ k after, Ready k t.events → ¬ DigitAhead after →
    ∃ pss, Proper pss ∧
      Derives extended k (spell extended false t) after (.branches pss) (k.afterAll t.events) ∧
      (treeOf pss).normalize = t.regroup

end Reads

section

variable {extended : Bool} {t : Pattern} {k k' : Captures} {s after : List Char} {p : Pattern}

private theorem derives_terms_of_term (term : Derives extended k s after (.term p) k') :
    Derives extended k s after (.terms [p]) k' := by
  have terms : Derives extended k ([] ++ (s ++ [])) after (.terms [p]) k' := .cons .nil term .nil
  simpa using terms

theorem derives_terms_of_atom (atom : Derives extended k s after (.atom p) k') :
    Derives extended k s after (.terms [p]) k' := by
  have term : Derives extended k (s ++ []) after (.term p) k' := .term atom .bare
  simpa using derives_terms_of_term term

theorem ReadsAtom.part (h : ReadsAtom extended t) (one : t.isAlternation = false) :
    ReadsPart extended t := by
  intro k after ready stops
  obtain ⟨p, derived, same⟩ := h k after ready stops
  refine ⟨[p], by simp, ?_, ?_⟩
  · rw [spell_inSequence one]
    exact derives_terms_of_atom derived
  · rw [List.map_singleton, same, one]
    exact SameParts.refl _

theorem ReadsBranch.body (h : ReadsBranch extended t) : ReadsBody extended t := by
  intro k after ready stops
  obtain ⟨ps, _, derived, same⟩ := h k after ready stops
  refine ⟨[ps], fun several => absurd several (by simp), ?_, same⟩
  have single : Derives extended k (spell extended false t ++ []) after (.branches [ps])
      (k.afterAll t.events) := .single derived .nil
  simpa using single

theorem ReadsPart.branch (h : ReadsPart extended t) (sound : t.Sound)
    (one : t.isAlternation = false) : ReadsBranch extended t := by
  intro k after ready stops
  obtain ⟨ps, some_term, derived, same⟩ := h k after ready fun _ => stops
  refine ⟨ps, fun _ => some_term, ?_, ?_⟩
  · rw [← spell_inSequence one]
    exact derived
  · have fused := same "" []
    simp only [List.append_nil] at fused
    have some_text : t.regroup ≠ .literal "" := by
      intro empty
      rw [((regroup_shape t).2.2.2.2 "").mp empty] at sound
      exact sound rfl
    rw [branchOf_eq, normalize_collapse_sequence (inShape_of_derives derived), fused, one, grouped,
      if_neg (by decide), fuseLiterals_singleton some_text]
    rfl

theorem ReadsBody.wrapped (h : ReadsBody extended t) (ready : Ready k t.events) :
    ∃ p, Derives extended k (Pcre2.wrapped true (spell extended false t)) after (.atom p)
        (k.afterAll t.events) ∧ p.normalize = grouped true t.regroup := by
  obtain ⟨pss, proper, derived, same⟩ := h k (')' :: after) ready (by simp [DigitAhead])
  refine ⟨Opening.plain.close (treeOf pss), ?_, ?_⟩
  · exact .of_opens .plain derived proper
  · rw [← same]
    rfl

private theorem derives_terms_append {k'' : Captures} {s' : List Char} {ps ps' : List Pattern}
    (first : Derives extended k s (s' ++ after) (.terms ps) k')
    (second : Derives extended k' s' after (.terms ps') k'') :
    Derives extended k (s ++ s') after (.terms (ps ++ ps')) k'' := by
  induction ps generalizing k s with
  | nil =>
      cases first with
      | nil => exact second
  | cons p ps ih =>
      cases first with
      | @cons _ _ _ _ _ u _ _ _ spaced term terms =>
          have follow : u ++ (s' ++ after) = u ++ s' ++ after := (List.append_assoc ..).symm
          rw [follow] at spaced term
          have all := Derives.cons spaced term (ih terms)
          simpa only [List.append_assoc, List.cons_append] using all

private theorem readsPart_repetition {body : Pattern} {least : UInt32} {most : Bound}
    {greed : Greed}
    (sound : (repetition body least most greed).Throughout Sound) (whole : ReadsBody extended body)
    (atom : body.isCompound = false → ReadsAtom extended body) :
    ReadsPart extended (.repetition body least most greed) := by
  obtain ⟨⟨ascending, notAnchor, unnamed⟩, below⟩ := throughout_repetition.mp sound
  have body_sound := (throughout_iff.mp below).1
  obtain ⟨c, tail, bounds, digit⟩ := boundsText_head least most
  intro k after ready _
  rw [events_repetition] at ready ⊢
  obtain ⟨p, derived, same⟩ : ∃ p, Derives extended k
      (Pcre2.wrapped (needsGroup body) (spell extended false body))
      (boundsText least most ++ greedText greed ++ after) (.atom p) (k.afterAll body.events) ∧
      p.normalize = grouped body.isCompound body.regroup := by
    rw [needsGroup_eq body_sound]
    cases compound : body.isCompound with
    | true => exact whole.wrapped ready
    | false => exact atom compound k _ ready fun _ => by simp [bounds, DigitAhead, digit]
  have shape : p.isAnchor = false ∧ p.groupName? = none := by
    have term : p.IsTerm := inShape_of_derives derived
    obtain ⟨-, -, anchor, name, -⟩ := normalize_of_flat term.not_sequence term.not_alternation
    rw [← anchor, ← name, same]
    cases body.isCompound with
    | true => exact ⟨rfl, rfl⟩
    | false =>
        obtain ⟨-, -, anchor, name, -⟩ := regroup_shape body
        exact ⟨anchor.trans notAnchor, name.trans unnamed⟩
  have quantified : Quantified p (boundsText least most ++ greedText greed)
      (.repetition p least most greed) :=
    .repeated (isAnchor_eq_false_iff.mp shape.1) (groupName?_eq_none_iff.mp shape.2)
      (bounds_boundsText ascending) (mark_greedText greed)
  refine ⟨[.repetition p least most greed], by simp, ?_, ?_⟩
  · have term := derives_terms_of_term (.term derived quantified)
    simpa [spell] using term
  · rw [List.map_singleton, Pattern.normalize, same]
    exact .refl _

private theorem reads_wrappedPart (part : ReadsPart extended p)
    (whole : isNumbered p = true → ReadsBody extended p) (ready : Ready k p.events) {wrap : Bool}
    (called : wrap = true → isNumbered p = true)
    (stops : wrap = false → isNumbered p = true → ¬ DigitAhead after) :
    ∃ ps, ps ≠ [] ∧
      Derives extended k (Pcre2.wrapped wrap (spell extended true p)) after (.terms ps)
        (k.afterAll p.events) ∧
      SameParts (ps.map normalize) [grouped (p.isAlternation || wrap) p.regroup] := by
  cases wrap with
  | false =>
      rw [Bool.or_false]
      exact part k after ready (stops rfl)
  | true =>
      have numbered := called rfl
      have one : p.isAlternation = false := by
        cases p with
        | alternation branches => exact absurd numbered (by simp [isNumbered])
        | _ => rfl
      obtain ⟨q, derived, same⟩ := (whole numbered).wrapped ready
      refine ⟨[q], by simp, ?_, ?_⟩
      · rw [spell_inSequence one]
        exact derives_terms_of_atom derived
      · rw [List.map_singleton, same, Bool.or_true]
        exact .refl _

private theorem terms_ne_nil {ps : List Pattern} (h : Derives extended k s after (.terms ps) k')
    (some_term : ps ≠ []) : s ≠ [] := by
  cases h with
  | nil => exact absurd rfl some_term
  | cons _ term _ =>
      obtain ⟨first, tail, rfl, _⟩ := Reading.term_head term
      simp

private theorem not_digitAhead_joinPieces {piece : Piece} {pieces : List Piece}
    (some_text : piece.text ≠ []) (stops : startsWithDigit piece.text = false) :
    ¬ DigitAhead (joinPieces (piece :: pieces) ++ after) := by
  have front : ∃ wrap rest,
      joinPieces (piece :: pieces) = Pcre2.wrapped wrap piece.text ++ rest := by
    cases pieces with
    | nil => exact ⟨false, [], by simp [joinPieces, Pcre2.wrapped]⟩
    | cons next pieces => exact ⟨_, _, rfl⟩
  obtain ⟨wrap, rest, same⟩ := front
  rw [same, List.append_assoc, ← startsWithDigit_iff]
  cases wrap with
  | true => simp [Pcre2.wrapped, startsWithDigit]
  | false => simp [Pcre2.wrapped, startsWithDigit_append some_text, stops]

private theorem reads_parts {parts : List Pattern} (each : ∀ p ∈ parts, ReadsPart extended p)
    (numbered : ∀ p ∈ parts, isNumbered p = true → ReadsBody extended p)
    (sound : ∀ p ∈ parts, p.Throughout Sound)
    (flat : ∀ p ∈ parts, p.isSequence = false)
    (ready : Ready k (parts.flatMap events)) (stops : ¬ DigitAhead after) :
    ∃ ps, (parts ≠ [] → ps ≠ []) ∧
      Derives extended k (joinPieces (spellParts extended parts)) after (.terms ps)
        (k.afterAll (parts.flatMap events)) ∧
      SameParts (ps.map normalize) (regroupParts parts) := by
  induction parts generalizing k with
  | nil => exact ⟨[], by simp, .nil, .refl _⟩
  | cons p parts ih =>
      obtain ⟨here, there⟩ := List.forall_mem_cons.mp each
      rw [List.flatMap_cons] at ready ⊢
      obtain ⟨ready_here, ready_there⟩ := ready_append ready
      obtain ⟨qs, _, derived', same'⟩ := ih there
        (fun q mem => numbered q (List.mem_cons_of_mem _ mem))
        (fun q mem => sound q (List.mem_cons_of_mem _ mem))
        (fun q mem => flat q (List.mem_cons_of_mem _ mem)) ready_there
      rw [Captures.afterAll_append]
      cases parts with
      | nil =>
          obtain ⟨ps, some_term, derived, same⟩ := here k after ready_here fun _ => stops
          refine ⟨ps, fun _ => some_term, derived, ?_⟩
          simpa [regroupParts] using same
      | cons q parts =>
          have some_text : spell extended true q ≠ [] := by
            rw [List.flatMap_cons] at ready_there
            have ready_next := (ready_append ready_there).1
            obtain ⟨_, some_term, derived, _⟩ :=
              each q (by simp) _ [] ready_next fun _ => by simp [DigitAhead]
            exact terms_ne_nil derived some_term
          have digit : startsWithDigit (spell extended true q) = q.beginsWithDigit :=
            startsWithDigit_spell (sound q (by simp)) (flat q (by simp))
          have apart : (isNumbered p && startsWithDigit (spell extended true q)) = false →
              isNumbered p = true →
              ¬ DigitAhead (joinPieces (spellParts extended (q :: parts)) ++ after) := by
            intro unwrapped number
            rw [number, Bool.true_and] at unwrapped
            exact not_digitAhead_joinPieces some_text unwrapped
          obtain ⟨ps, some_term, derived, same⟩ :=
            reads_wrappedPart here (numbered p List.mem_cons_self) ready_here
              (fun both => (Bool.and_eq_true_iff.mp both).1) apart
          refine ⟨ps ++ qs, fun _ => by simp [some_term], derives_terms_append derived derived', ?_⟩
          rw [digit, isNumbered_eq] at same
          rw [List.map_append, regroupParts]
          exact SameParts.append same same'

private theorem reads_branches {branches : List Pattern} (some_branch : branches ≠ [])
    (each : ∀ b ∈ branches, ReadsBranch extended b) (nonempty : .sequence [] ∉ branches)
    (ready : Ready k (branches.flatMap events)) (stops : ¬ DigitAhead after) :
    ∃ pss, [] ∉ pss ∧
      Derives extended k (List.intercalate ['|'] (spellBranches extended branches)) after
        (.branches pss) (k.afterAll (branches.flatMap events)) ∧
      pss.map (fun ps => (branchOf ps).normalize) = branches.map regroup := by
  induction branches generalizing k with
  | nil => exact absurd rfl some_branch
  | cons b branches ih =>
      obtain ⟨here, there⟩ := List.forall_mem_cons.mp each
      simp only [List.mem_cons, not_or] at nonempty
      rw [List.flatMap_cons] at ready ⊢
      obtain ⟨ready_here, ready_there⟩ := ready_append ready
      cases branches with
      | nil =>
          obtain ⟨ps, some_term, derived, same⟩ := here k after ready_here stops
          refine ⟨[ps], ?_, ?_, by simp [same]⟩
          · simpa using (some_term (Ne.symm nonempty.1)).symm
          · have single : Derives extended k (spell extended false b ++ []) after (.branches [ps])
                (k.afterAll b.events) := .single derived .nil
            simpa [spellBranches, List.intercalate] using single
      | cons b' branches =>
          obtain ⟨pss, some_terms, derived', same'⟩ :=
            ih (by simp) there (by simpa using nonempty.2) ready_there
          have text : List.intercalate ['|'] (spellBranches extended (b :: b' :: branches)) =
              spell extended false b ++ ([] ++
                '|' :: List.intercalate ['|'] (spellBranches extended (b' :: branches))) := by
            simp [spellBranches, List.intercalate]
          rw [text]
          generalize List.intercalate ['|'] (spellBranches extended (b' :: branches)) = others
            at derived'
          obtain ⟨ps, some_term, derived, same⟩ :=
            here k ('|' :: (others ++ after)) ready_here (by simp [DigitAhead])
          refine ⟨ps :: pss, ?_, ?_, by simp [same, same']⟩
          · simpa using ⟨some_term (Ne.symm nonempty.1), some_terms⟩
          · rw [Captures.afterAll_append]
            exact .bar derived .nil derived'

private theorem derives_literal (chars : List Char) :
    Derives extended k (chars.flatMap (literalChar extended)) after
      (.terms (chars.map fun c => .literal (String.singleton c))) k := by
  induction chars with
  | nil => exact .nil
  | cons c chars ih =>
      exact derives_terms_append (derives_terms_of_atom (.leaf (leaf_literalChar c))) ih

private theorem readsPart_literal {text : String} (sound : (literal text).Sound) :
    ReadsPart extended (.literal text) := by
  intro k after _ _
  refine ⟨text.toList.map fun c => .literal (String.singleton c), ?_,
    derives_literal text.toList, ?_⟩
  · have some_text : text ≠ "" := sound
    simpa using some_text
  · change SameParts _ [.literal text]
    simpa [Function.comp_def, Pattern.normalize] using sameParts_literal text

private theorem readsAtom_literal {text : String} (sound : (literal text).Sound)
    (one : (literal text).isCompound = false) : ReadsAtom extended (.literal text) := by
  intro k after _ _
  have positive := length_pos_of_sound sound
  have few : ¬ 2 ≤ text.length := by simpa [isCompound] using one
  obtain ⟨c, chars⟩ : ∃ c, text.toList = [c] :=
    List.length_eq_one_iff.mp (by rw [String.length_toList]; omega)
  obtain rfl : text = String.singleton c := String.toList_inj.mp (by simpa using chars)
  refine ⟨.literal (String.singleton c), ?_, rfl⟩
  rw [spell, chars, List.flatMap_singleton]
  exact .leaf (leaf_literalChar c)

private theorem readsBranch_sequence {parts : List Pattern} (canonical : (sequence parts).Canonical)
    (sound : ∀ p ∈ parts, p.Throughout Sound)
    (each : ∀ p ∈ parts, ReadsPart extended p ∧ ReadsBody extended p) :
    ReadsBranch extended (.sequence parts) := by
  obtain ⟨several, flat, fused⟩ := canonical
  intro k after ready stops
  rw [events_sequence] at ready ⊢
  obtain ⟨ps, some_term, derived, same⟩ := reads_parts (fun p mem => (each p mem).1)
    (fun p mem _ => (each p mem).2) sound flat ready stops
  refine ⟨ps, fun some_part => some_term fun none => some_part (by rw [none]), derived, ?_⟩
  have together := same "" []
  simp only [List.append_nil] at together
  rw [branchOf_eq, normalize_collapse_sequence (inShape_of_derives derived), together,
    fuseLiterals_of_fused (fused_regroupParts fused)]
  exact collapse_of_length (by rw [length_regroupParts]; exact several)

private theorem readsBody_alternation {branches : List Pattern}
    (canonical : (alternation branches).Canonical) (sound : (alternation branches).Sound)
    (each : ∀ b ∈ branches, ReadsBranch extended b) :
    ReadsBody extended (.alternation branches) := by
  obtain ⟨several, flat⟩ := canonical
  intro k after ready stops
  rw [events_alternation] at ready ⊢
  obtain ⟨pss, some_terms, derived, same⟩ := reads_branches sound.1 each sound.2 ready stops
  refine ⟨pss, fun _ => some_terms, derived, ?_⟩
  have length : pss.length = branches.length := by simpa using congrArg List.length same
  have apart : ∀ q ∈ branches.map regroup, q.isAlternation = false := by
    intro q mem
    obtain ⟨b, member, rfl⟩ := List.mem_map.mp mem
    rw [(regroup_shape b).2.1]
    exact flat b member
  rw [treeOf_of_length (by rw [length]; exact several), Pattern.normalize, normalizeAll_eq,
    List.map_map]
  change collapse .alternation
    ((pss.map fun ps => (branchOf ps).normalize).flatMap branchesInAlternation) = _
  rw [same, flatMap_branchesInAlternation apart, collapse_of_length (by simpa using several),
    regroup, regroupAll_eq]

/-- All that is claimed of a tree's text, by the places where the tree may stand. -/
structure ReadsBack (extended : Bool) (t : Pattern) : Prop where
  body : ReadsBody extended t
  branch : t.isAlternation = false → ReadsBranch extended t
  part : t.isSequence = false → ReadsPart extended t
  atom : t.isCompound = false → ReadsAtom extended t

private theorem readsBack_of_part (part : ReadsPart extended t) (sound : t.Sound)
    (one : t.isAlternation = false) (atom : t.isCompound = false → ReadsAtom extended t) :
    ReadsBack extended t := by
  have branch := part.branch sound one
  exact ⟨branch.body, fun _ => branch, fun _ => part, atom⟩

private theorem readsBack_of_atom (atom : ReadsAtom extended t) (sound : t.Sound)
    (one : t.isAlternation = false) : ReadsBack extended t :=
  readsBack_of_part (atom.part one) sound one fun _ => atom

private theorem readsPart_alternation {branches : List Pattern}
    (body : ReadsBody extended (.alternation branches)) :
    ReadsPart extended (.alternation branches) := by
  intro k after ready _
  obtain ⟨p, derived, same⟩ := body.wrapped ready
  refine ⟨[p], by simp, derives_terms_of_atom derived, ?_⟩
  rw [List.map_singleton, same]
  exact .refl _

private theorem readsAtom_group {capturing : Bool} {body : Pattern} {name : Option String}
    {atomic : Bool}
    (sound : (group capturing body name atomic).Sound) (inner : ReadsBody extended body) :
    ReadsAtom extended (.group capturing body name atomic) := by
  intro k after ready _
  rw [events_group] at ready ⊢
  obtain ⟨ready_here, ready_inside⟩ := ready_append ready
  have fresh : ∀ s, name = some s → s ∉ k.names := by
    rintro s rfl
    obtain ⟨-, rfl, -⟩ := sound.1 s rfl
    exact (ready_here.resolved.1 s rfl).2
  obtain ⟨opening, opens, closes, opened⟩ := opens_groupOpening sound fresh
  obtain ⟨pss, proper, derived, same⟩ := inner _ (')' :: after) ready_inside (by simp [DigitAhead])
  rw [← opened, ← Captures.enter_eq] at derived
  refine ⟨opening.close (treeOf pss), ?_, ?_⟩
  · rw [spell, Captures.afterAll_append, ← opened, ← Captures.enter_eq]
    exact .of_opens opens derived proper
  · rw [closes, Pattern.normalize, same, regroup]

private theorem readsAtom_look {direction : Direction} {negative : Bool} {body : Pattern}
    (inner : ReadsBody extended body) : ReadsAtom extended (.look direction negative body) := by
  intro k after ready _
  rw [events_look] at ready ⊢
  obtain ⟨pss, proper, derived, same⟩ := inner k (')' :: after) ready (by simp [DigitAhead])
  refine ⟨.look direction negative (treeOf pss), ?_, ?_⟩
  · rw [spell]
    exact .of_opens (opens_lookOpening direction negative) derived proper
  · rw [Pattern.normalize, same, regroup]

/-- The text of a sound tree in normal form is read back as the regrouped tree. -/
theorem readsBack (sound : t.Throughout Sound) (canonical : t.Throughout Canonical) :
    ReadsBack extended t := by
  induction t with
  | alternation branches ih =>
      obtain ⟨here, below⟩ := throughout_iff.mp sound
      obtain ⟨normal, below'⟩ := throughout_iff.mp canonical
      have body : ReadsBody extended (.alternation branches) := readsBody_alternation normal here
        fun b mem => (ih b mem (below b mem) (below' b mem)).branch (normal.2 b mem)
      exact ⟨body, fun one => absurd one (by simp [isAlternation]),
        fun _ => readsPart_alternation body, fun atom => absurd atom (by simp [isCompound])⟩
  | sequence parts ih =>
      obtain ⟨-, below⟩ := throughout_iff.mp sound
      obtain ⟨normal, below'⟩ := throughout_iff.mp canonical
      have branch : ReadsBranch extended (.sequence parts) := readsBranch_sequence normal below
        fun p mem => ⟨(ih p mem (below p mem) (below' p mem)).part (normal.2.1 p mem),
          (ih p mem (below p mem) (below' p mem)).body⟩
      exact ⟨branch.body, fun _ => branch, fun single => absurd single (by simp [isSequence]),
        fun atom => absurd atom (by simp [isCompound])⟩
  | literal text =>
      have here := (throughout_iff.mp sound).1
      exact readsBack_of_part (readsPart_literal here) here rfl (readsAtom_literal here)
  | anyChar => exact readsBack_of_atom (fun _ _ _ _ => ⟨_, .leaf .anyChar, rfl⟩) trivial rfl
  | anchor place =>
      exact readsBack_of_atom (fun _ _ _ _ => ⟨_, .leaf (leaf_anchorText place), rfl⟩) trivial rfl
  | charClass negated items =>
      have here := (throughout_iff.mp sound).1
      refine readsBack_of_atom (fun _ _ _ _ => ⟨_, .leaf (leaf_classText here), ?_⟩) here rfl
      obtain ⟨negated', items', same⟩ := exists_foldNegation negated items
      rw [regroup, same]
      rfl
  | repetition body least most greed ih =>
      obtain ⟨here, below⟩ := throughout_repetition.mp sound
      obtain ⟨-, below'⟩ := throughout_repetition.mp canonical
      have inner := ih below below'
      exact readsBack_of_part (readsPart_repetition sound inner.body inner.atom) here rfl
        fun atom => absurd atom (by simp [isCompound])
  | group capturing body name atomic ih =>
      obtain ⟨here, below⟩ := throughout_group.mp sound
      obtain ⟨-, below'⟩ := throughout_group.mp canonical
      have inner := ih below below'
      exact readsBack_of_atom (readsAtom_group here inner.body) here rfl
  | backreference index name =>
      refine readsBack_of_atom (fun k after ready stops => ⟨.backreference index name, ?_, rfl⟩)
        trivial rfl
      exact .leaf (leaf_backreferenceText ready.resolved.1 ready.identifiers stops)
  | look direction negative body ih =>
      obtain ⟨-, below⟩ := throughout_look.mp sound
      obtain ⟨-, below'⟩ := throughout_look.mp canonical
      have inner := ih below below'
      exact readsBack_of_atom (readsAtom_look inner.body) trivial rfl

/-- An emitted tree is parsed again, with the same groups, as the regrouped tree. -/
theorem parse_emitted {flags : Flags} (sound : t.Throughout Sound)
    (canonical : t.Throughout Canonical) (resolved : Captures.Resolves {} t.events) :
    ∃ p, (Parser.ofSource ⟨flags, String.ofList (emit false flags t)⟩).parse.1 = .ok p ∧
      (Parser.ofSource ⟨flags, String.ofList (emit false flags t)⟩).parse.2.captures =
        Captures.afterAll {} t.events ∧
      p.normalize = t.regroup := by
  have ready : Ready {} t.events := ⟨by simp, resolved⟩
  obtain ⟨pss, proper, derived, same⟩ :=
    (readsBack sound canonical).body {} [] ready (by simp [DigitAhead])
  refine ⟨treeOf pss, and_assoc.mp ⟨Parser.parse_ok_iff.mpr ?_, same⟩⟩
  rw [String.toList_ofList]
  exact ⟨pss, derived, proper, rfl⟩

end

/-- A tree that has a text: its nodes are sound, the names of its groups are distinct, and its
references refer back. -/
structure Pattern.Legal (t : Pattern) : Prop where
  sound : t.Throughout Sound
  distinct : t.groupNames.Nodup
  refers : t.RefersBack

end PatternCompiler
