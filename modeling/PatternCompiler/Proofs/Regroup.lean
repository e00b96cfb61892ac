import PatternCompiler.Pattern.Pcre2
import PatternCompiler.Proofs.NormalForm

/-!
The tree that is read back from an emitted text. It differs from the tree that was written by
non-capturing groups that keep constructs together, and by negated classes of a single escape, which
are written as the complementary escape. Regrouping keeps fused parts fused and uses no further
feature.
-/

set_option autoImplicit false
set_option relaxedAutoImplicit false

namespace PatternCompiler.Pattern

def grouped (wrap : Bool) (p : Pattern) : Pattern :=
  if wrap then .group false p none false else p

def isCompound : Pattern → Bool
  | .literal text => decide (2 ≤ text.length)
  | .sequence _ | .alternation _ | .look .. | .repetition .. => true
  | .charClass .. | .anyChar | .group .. | .backreference .. | .anchor _ => false

/-- Whether a part of a sequence begins with a decimal digit: a literal or a repeated digit. -/
def beginsWithDigit : Pattern → Bool
  | .literal text => text.toList.head?.any Char.isDigit
  | .repetition (.literal text) .. => text.length == 1 && text.toList.head?.any Char.isDigit
  | _ => false

def isNumberReference : Pattern → Bool
  | .backreference (some _) none => true
  | _ => false

/-- A negated class of one escape is the class of the escape for the rest of all characters: `\D` for
`[^\d]`, and `\d` for `[^\D]`. A property without a name stays as it is. -/
def foldNegation (negated : Bool) (items : List ClassItem) : Pattern :=
  match negated, items with
  | true, [.shorthand ⟨family, capital⟩ property] =>
      if property = some "" then .charClass true items
      else .charClass false [.shorthand ⟨family, !capital⟩ property]
  | _, _ => .charClass negated items

mutual

/-- The tree with what keeps its constructs apart made explicit: groups around repeated trees of
more than one atom, around alternations that are parts of a sequence, and around numbered
backreferences before a digit. -/
def regroup : Pattern → Pattern
  | .sequence parts => .sequence (regroupParts parts)
  | .alternation branches => .alternation (regroupAll branches)
  | .repetition body least most greed =>
      .repetition (grouped body.isCompound (regroup body)) least most greed
  | .group capturing body name atomic => .group capturing (regroup body) name atomic
  | .look direction negative body => .look direction negative (regroup body)
  | .charClass negated items => foldNegation negated items
  | .literal text => .literal text
  | .anyChar => .anyChar
  | .anchor place => .anchor place
  | .backreference index name => .backreference index name

/-- The parts of a sequence, each with the group that its neighbour calls for. -/
def regroupParts : List Pattern → List Pattern
  | [] => []
  | p :: ps =>
      grouped (p.isAlternation || p.isNumberReference && ps.head?.any beginsWithDigit) (regroup p) ::
        regroupParts ps

def regroupAll : List Pattern → List Pattern
  | [] => []
  | p :: ps => regroup p :: regroupAll ps

end

@[simp]
theorem regroupAll_eq (ps : List Pattern) : regroupAll ps = ps.map regroup := by
  induction ps with
  | nil => rfl
  | cons p ps ih => rw [regroupAll, ih, List.map_cons]

theorem isNumbered_eq (p : Pattern) : Pcre2.isNumbered p = p.isNumberReference := by
  fun_cases isNumberReference p with
  | case1 => rfl
  | case2 _ other =>
      unfold Pcre2.isNumbered
      split
      · next index => exact absurd rfl (other index)
      · rfl

theorem foldNegation_single {kind : Shorthand} {property : Option String}
    (named : property ≠ some "") (negated : Bool) :
    foldNegation negated [.shorthand kind property] =
      .charClass false [.shorthand (if negated then kind.negate else kind) property] := by
  cases negated with
  | false => rfl
  | true => simp [foldNegation, named, Shorthand.negate]

theorem exists_foldNegation (negated : Bool) (items : List ClassItem) :
    ∃ negated' items', foldNegation negated items = .charClass negated' items' := by
  fun_cases foldNegation negated items with
  | _ => exact ⟨_, _, rfl⟩

theorem regroup_shape (p : Pattern) :
    p.regroup.isSequence = p.isSequence ∧ p.regroup.isAlternation = p.isAlternation ∧
      p.regroup.isAnchor = p.isAnchor ∧ p.regroup.groupName? = p.groupName? ∧
      ∀ text, p.regroup = .literal text ↔ p = .literal text := by
  cases p with
  | charClass negated items =>
      obtain ⟨negated', items', same⟩ := exists_foldNegation negated items
      rw [regroup, same]
      simp [isSequence, isAlternation, isAnchor, groupName?]
  | _ => simp [regroup, isSequence, isAlternation, isAnchor, groupName?]

theorem length_regroupParts (ps : List Pattern) : (regroupParts ps).length = ps.length := by
  induction ps with
  | nil => rfl
  | cons p ps ih => simp [regroupParts, ih]

private theorem grouped_eq_literal (p : Pattern) (digit : Bool) (text : String) :
    grouped (p.isAlternation || p.isNumberReference && digit) p.regroup = .literal text ↔
      p = .literal text := by
  constructor
  · intro same
    cases wrap : (p.isAlternation || p.isNumberReference && digit) with
    | true => simp [wrap, grouped] at same
    | false =>
        rw [wrap] at same
        exact ((regroup_shape p).2.2.2.2 text).mp same
  · rintro rfl
    rfl

private theorem isLiteral_eq_false_iff {p : Pattern} :
    p.isLiteral = false ↔ ∀ text, p ≠ .literal text := by
  cases p with
  | _ => simp [isLiteral]

theorem fused_regroupParts {ps : List Pattern} (h : Fused ps) : Fused (regroupParts ps) := by
  induction ps with
  | nil => exact h
  | cons p ps ih =>
      have rest := ih h.tail
      refine ⟨?_, List.isChain_cons.mpr ⟨?_, rest.2⟩⟩
      · intro text mem
        rcases List.mem_cons.mp mem with same | mem
        · exact h.1 text (List.mem_cons.mpr (.inl ((grouped_eq_literal ..).mp same.symm).symm))
        · exact rest.1 text mem
      · intro y head
        cases ps with
        | nil => simp [regroupParts] at head
        | cons q ps =>
            obtain rfl : _ = y := by simpa [regroupParts] using head
            have apart := (List.isChain_cons_cons.mp h.2).1
            simp only [isLiteral_eq_false_iff] at apart ⊢
            simpa only [Ne, grouped_eq_literal] using apart

section Features

variable (feature : Feature)

@[simp]
private theorem uses_grouped (wrap : Bool) (p : Pattern) :
    uses feature (grouped wrap p) = uses feature p := by
  cases wrap with
  | false => rfl
  | true => simp [grouped, uses, shows]

private theorem uses_foldNegation (negated : Bool) (items : List ClassItem) :
    uses feature (foldNegation negated items) = uses feature (.charClass negated items) := by
  fun_cases foldNegation negated items with
  | _ => rfl

private theorem usesAny_regroupParts {ps : List Pattern}
    (each : ∀ p ∈ ps, uses feature p.regroup = uses feature p) :
    (regroupParts ps).any (uses feature) = ps.any (uses feature) := by
  induction ps with
  | nil => rfl
  | cons p ps ih =>
      obtain ⟨here, there⟩ := List.forall_mem_cons.mp each
      rw [regroupParts, List.any_cons, List.any_cons, ih there, uses_grouped, here]

private theorem uses_regroup (p : Pattern) : uses feature p.regroup = uses feature p := by
  induction p with
  | sequence parts ih => simp [regroup, uses, usesAny_regroupParts feature ih]
  | alternation branches ih =>
      rw [regroup, uses, uses, usesAny_eq, usesAny_eq, regroupAll_eq, List.any_map]
      rw [Bool.eq_iff_iff, List.any_eq_true, List.any_eq_true]
      exact exists_congr fun p => and_congr_right fun mem => by rw [Function.comp_apply, ih p mem]
  | repetition body least most greed ih => simp [regroup, uses, shows, ih]
  | group capturing body name atomic ih => simp [regroup, uses, shows, ih]
  | look direction negative body ih => simp [regroup, uses, shows, ih]
  | charClass negated items => exact uses_foldNegation feature negated items
  | _ => rfl

theorem features_regroup (p : Pattern) : p.regroup.features = p.features := by
  simp [features, uses_regroup]

end Features

end PatternCompiler.Pattern
