import PatternCompiler.Proofs.References

/-!
Well-formed trees. Every node of an accepted pattern is well-formed: besides being sound and flat,
the trees that texts spell have no node that could be left out. A literal is one character, no list
of parts or branches has a single member, and a repetition is not repeated again.
-/

set_option autoImplicit false
set_option relaxedAutoImplicit false

namespace PatternCompiler

namespace Pattern

def isRepetition : Pattern → Bool
  | .repetition .. => true
  | _ => false

/-- What a node of an accepted pattern looks like. -/
def WellFormed : Pattern → Prop
  | .alternation branches =>
      2 ≤ branches.length ∧ ∀ p ∈ branches, p.isAlternation = false ∧ p ≠ .sequence []
  | .sequence parts =>
      parts.length ≠ 1 ∧ ∀ p ∈ parts, p.isSequence = false ∧ p.isAlternation = false
  | .literal text => text.length = 1
  | .charClass _ items => items ≠ [] ∧ ∀ item ∈ items, item.Sound
  | .repetition body least most _ =>
      (∀ n, most = .finite n → least ≤ n) ∧ body.isAnchor = false ∧ body.groupName? = none ∧
        body.isRepetition = false ∧ body.isSequence = false ∧ body.isAlternation = false
  | .group capturing _ name atomic =>
      (∀ s, name = some s → Grammar.Identifier s.toList ∧ capturing = true ∧ atomic = false) ∧
        (atomic = true → capturing = false ∧ name = none)
  | .anyChar | .anchor _ | .backreference .. | .look .. => True

def Tight : Pattern → Prop
  | .literal text => text.length = 1
  | .sequence parts => parts.length ≠ 1
  | .alternation branches => branches.length ≠ 1
  | .repetition body .. => body.isRepetition = false
  | _ => True

private theorem wellFormed_of_tight {p : Pattern} (sound : p.Sound) (flat : p.Flat)
    (tight : p.Tight) :
    p.WellFormed := by
  cases p with
  | alternation branches =>
      obtain ⟨some_branch, some_part⟩ := sound
      have positive := List.length_pos_iff.mpr some_branch
      have several : branches.length ≠ 1 := tight
      refine ⟨by omega, fun p mem => ⟨flat p mem, ?_⟩⟩
      rintro rfl
      exact some_part mem
  | sequence parts => exact ⟨tight, flat⟩
  | repetition body least most greed =>
      obtain ⟨ascending, notAnchor, unnamed⟩ := sound
      exact ⟨ascending, notAnchor, unnamed, tight, flat⟩
  | group capturing body name atomic =>
      obtain ⟨named, atomic_plain⟩ := sound
      refine ⟨named, fun closed => ⟨atomic_plain closed, ?_⟩⟩
      -- A name would make the group capturing.
      cases name with
      | none => rfl
      | some s => exact absurd (named s rfl).2.2 (by simp [closed])
  | literal text => exact tight
  | charClass negated items => exact sound
  | _ => trivial

end Pattern

open Grammar Pattern

variable {free : Bool} {k k' : Captures} {s after : List Char} {p q : Pattern}

private theorem tight_of_leaf (h : Leaf free k s after p) :
    p.isRepetition = false ∧ p.Throughout Tight := by
  cases h with
  | ordinary | nul | numeric | control | identity =>
      exact ⟨rfl, (throughout_leaf rfl).mpr String.length_singleton⟩
  | _ => exact ⟨rfl, (throughout_leaf rfl).mpr trivial⟩

private theorem tight_of_quantified (h : Quantified p s q) (single : p.isRepetition = false)
    (tight : p.Throughout Tight) : q.Throughout Tight := by
  cases h with
  | bare => exact tight
  | repeated => exact throughout_repetition.mpr ⟨single, tight⟩

private theorem tight_of_encloses {inner : Captures} {body : Pattern}
    (h : Encloses k body s inner p)
    (tight : body.Throughout Tight) : p.isRepetition = false ∧ p.Throughout Tight := by
  cases h with
  | ahead | notAhead | behind | notBehind => exact ⟨rfl, throughout_look.mpr ⟨trivial, tight⟩⟩
  | capture | named | plain | atomic => exact ⟨rfl, throughout_group.mpr ⟨trivial, tight⟩⟩

private theorem tight_treeOf {pss : List (List Pattern)}
    (terms : ∀ ps ∈ pss, ∀ p ∈ ps, p.Throughout Tight) : (treeOf pss).Throughout Tight := by
  rw [treeOf_eq]
  have branches : ∀ q ∈ pss.map (collapse sequence), q.Throughout Tight := by
    intro q mem
    obtain ⟨ps, mem', rfl⟩ := List.mem_map.mp mem
    exact throughout_collapse rfl (terms ps mem') fun several => several
  exact throughout_collapse rfl branches fun several => several

def Grammar.Phrase.IsTight : Phrase → Prop
  | .atom p => p.isRepetition = false ∧ p.Throughout Tight
  | .term p => p.Throughout Tight
  | .terms ps => ∀ p ∈ ps, p.Throughout Tight
  | .branches pss => ∀ ps ∈ pss, ∀ p ∈ ps, p.Throughout Tight

private theorem tight_of_derives {phrase : Phrase} (h : Derives free k s after phrase k') :
    phrase.IsTight := by
  induction h with
  | leaf leaf => exact tight_of_leaf leaf
  | bracketed encloses _ _ ih => exact tight_of_encloses encloses (tight_treeOf ih)
  | term _ quantified ih => exact tight_of_quantified quantified ih.1 ih.2
  | nil => exact fun p mem => absurd mem (by simp)
  | cons _ _ _ ihTerm ihTerms => exact List.forall_mem_cons.mpr ⟨ihTerm, ihTerms⟩
  | single _ _ ih => exact List.forall_mem_cons.mpr ⟨ih, by simp⟩
  | bar _ _ _ ihTerms ihBranches => exact List.forall_mem_cons.mpr ⟨ihTerms, ihBranches⟩

/-- Every node of an accepted pattern is well-formed. -/
theorem Source.parse_wellFormed (source : Source) (t : Pattern) (parsed : source.parse = .ok t) :
    t.Throughout WellFormed := by
  have spelled := Parser.parse_ok_iff.mp ⟨parsed, rfl⟩
  obtain ⟨-, -, sound, flat⟩ := resolves_of_spelling spelled
  obtain ⟨pss, derived, -, rfl⟩ := spelled
  have tight := tight_treeOf (tight_of_derives derived)
  intro q mem
  exact wellFormed_of_tight (sound q mem) (flat q mem) (tight q mem)

/-- A pattern with all the constructs that well-formedness speaks of. -/
theorem Source.parse_wellFormed_mixed :
    let source : Source := ⟨{ extended := true },
      "(?<n> a | b c ) (?> [^a-z\\p\x7bL\x7d-]\x7b2,3\x7d+ )? ^ \\x41"⟩
    let items : List ClassItem :=
      [.range 'a' 'z', .shorthand ⟨.property, false⟩ (some "L"), .char '-']
    let t := Pattern.sequence
      [.group true (.alternation [.literal "a", .sequence [.literal "b", .literal "c"]]) (some "n")
          false,
        .repetition
          (.group false (.repetition (.charClass true items) 2 (.finite 3) .possessive) none true)
          0 (.finite 1) .greedy,
        .anchor .lineStart, .literal "A"]
    source.parse = .ok t ∧ t.Throughout WellFormed := by
  intro source items t
  have parsed : source.parse = .ok t := by decide +kernel
  exact ⟨parsed, Source.parse_wellFormed source t parsed⟩

end PatternCompiler
