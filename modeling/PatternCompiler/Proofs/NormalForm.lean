import Mathlib.Data.List.Chain
import PatternCompiler.Proofs.References
import PatternCompiler.Proofs.Rewriting

/-!
Normal forms. `Canonical` describes the sequences and alternations of a normal form. Every tree that
normalisation yields is canonical throughout, and it changes exactly the trees that are not, since no
rule of normalisation applies to a canonical tree. Normalisation keeps the events of a tree, and the
soundness of the trees that texts spell.
-/

set_option autoImplicit false
set_option relaxedAutoImplicit false

namespace PatternCompiler.Pattern

def isLiteral : Pattern → Bool
  | .literal _ => true
  | _ => false

/-- Parts among which no literal is empty and no two neighbours are literals. -/
def Fused (parts : List Pattern) : Prop :=
  (∀ text, .literal text ∈ parts → text ≠ "") ∧
    parts.IsChain fun p q => p.isLiteral = false ∨ q.isLiteral = false

/-- A sequence of a normal form has no sequence among its parts, which are fused, and an alternation
has no alternation among its branches. Neither has exactly one member. -/
def Canonical : Pattern → Prop
  | .sequence parts => parts.length ≠ 1 ∧ (∀ p ∈ parts, p.isSequence = false) ∧ Fused parts
  | .alternation branches => branches.length ≠ 1 ∧ ∀ p ∈ branches, p.isAlternation = false
  | _ => True

section Fusing

variable {run : String} {p q : Pattern} {ps : List Pattern}

theorem fuseLiterals_cons (plain : p.isLiteral = false) :
    fuseLiterals run (p :: ps) = literalRun run ++ p :: fuseLiterals "" ps := by
  cases p with
  | literal text => exact absurd plain (by simp [isLiteral])
  | _ => rfl

private theorem mem_literalRun (h : q ∈ literalRun run) : q = .literal run ∧ run ≠ "" := by
  unfold literalRun at h
  split at h
  · simp at h
  · next some_text => exact ⟨by simpa using h, some_text⟩

private theorem mem_fuseLiterals (h : q ∈ fuseLiterals run ps) : q.isLiteral = true ∨ q ∈ ps := by
  fun_induction fuseLiterals run ps with
  | case1 run =>
      rw [(mem_literalRun h).1]
      exact .inl rfl
  | case2 run text rest ih =>
      rcases ih h with literal | mem
      · exact .inl literal
      · exact .inr (List.mem_cons_of_mem _ mem)
  | case3 run p rest _ ih =>
      rcases List.mem_append.mp h with mem | mem
      · rw [(mem_literalRun mem).1]
        exact .inl rfl
      · rcases List.mem_cons.mp mem with rfl | mem
        · exact .inr List.mem_cons_self
        · rcases ih mem with literal | mem
          · exact .inl literal
          · exact .inr (List.mem_cons_of_mem _ mem)

private theorem fused_literalRun_append (plain : p.isLiteral = false) (h : Fused ps) :
    Fused (literalRun run ++ p :: ps) := by
  have after : Fused (p :: ps) := by
    refine ⟨?_, List.isChain_cons.mpr ⟨fun _ _ => .inl plain, h.2⟩⟩
    intro text mem
    rcases List.mem_cons.mp mem with rfl | mem
    · exact absurd plain (by simp [isLiteral])
    · exact h.1 text mem
  unfold literalRun
  split
  · exact after
  · next some_text =>
    refine ⟨?_, List.isChain_cons_cons.mpr ⟨.inr plain, after.2⟩⟩
    intro text mem
    rcases List.mem_cons.mp mem with same | mem
    · obtain rfl : text = run := by simpa using same
      exact some_text
    · exact after.1 text mem

private theorem fused_fuseLiterals (run : String) (ps : List Pattern) :
    Fused (fuseLiterals run ps) := by
  fun_induction fuseLiterals run ps with
  | case1 run =>
      refine ⟨fun text mem => ?_, ?_⟩
      · obtain ⟨same, some_text⟩ := mem_literalRun mem
        obtain rfl : text = run := by simpa using same
        exact some_text
      · unfold literalRun
        split
        · exact .nil
        · exact .singleton _
  | case2 run text rest ih => exact ih
  | case3 run p rest plain ih =>
      refine fused_literalRun_append ?_ ih
      cases p with
      | literal text => exact absurd rfl (plain text)
      | _ => rfl

theorem Fused.tail (h : Fused (p :: ps)) : Fused ps :=
  ⟨fun text mem => h.1 text (List.mem_cons_of_mem _ mem), (List.isChain_cons.mp h.2).2⟩

theorem fuseLiterals_of_fused (h : Fused ps) : fuseLiterals "" ps = ps := by
  induction ps with
  | nil => rfl
  | cons p ps ih =>
      have rest := ih h.tail
      by_cases literal : p.isLiteral = false
      · rw [fuseLiterals_cons literal, rest]
        rfl
      · obtain ⟨text, rfl⟩ : ∃ text, p = .literal text := by
          cases p with
          | literal text => exact ⟨text, rfl⟩
          | _ => exact absurd rfl literal
        have single : literalRun text = [.literal text] := if_neg (h.1 text List.mem_cons_self)
        rw [fuseLiterals, String.empty_append]
        cases ps with
        | nil => exact single
        | cons q ps =>
            have plain : q.isLiteral = false := by
              have apart := (List.isChain_cons_cons.mp h.2).1
              exact apart.resolve_left (by simp [isLiteral])
            rw [fuseLiterals_cons plain] at rest ⊢
            rw [single, ← rest]
            rfl

end Fusing

section Canonical

variable {p q : Pattern} {ps : List Pattern}

private theorem mem_partsInSequence (canonical : p.Throughout Canonical)
    (mem : q ∈ p.partsInSequence) :
    q.isSequence = false ∧ q.Throughout Canonical := by
  cases p with
  | sequence parts =>
      obtain ⟨here, below⟩ := throughout_iff.mp canonical
      exact ⟨here.2.1 q mem, below q mem⟩
  | _ =>
      obtain rfl := List.mem_singleton.mp mem
      exact ⟨rfl, canonical⟩

private theorem mem_branchesInAlternation (canonical : p.Throughout Canonical)
    (mem : q ∈ p.branchesInAlternation) : q.isAlternation = false ∧ q.Throughout Canonical := by
  cases p with
  | alternation branches =>
      obtain ⟨here, below⟩ := throughout_iff.mp canonical
      exact ⟨here.2 q mem, below q mem⟩
  | _ =>
      obtain rfl := List.mem_singleton.mp mem
      exact ⟨rfl, canonical⟩

private theorem throughout_canonical_of_isLiteral (literal : q.isLiteral = true) :
    q.isSequence = false ∧ q.Throughout Canonical := by
  cases q with
  | literal text => exact ⟨rfl, (throughout_leaf rfl).mpr trivial⟩
  | _ => exact absurd literal (by simp [isLiteral])

private theorem mem_normalizedParts
    (mem : q ∈ fuseLiterals "" ((ps.map normalize).flatMap partsInSequence)) :
    q.isLiteral = true ∨ ∃ p ∈ ps, q ∈ p.normalize.partsInSequence := by
  rcases mem_fuseLiterals mem with literal | mem
  · exact .inl literal
  · obtain ⟨p', mem', inside⟩ := List.mem_flatMap.mp mem
    obtain ⟨p, member, rfl⟩ := List.mem_map.mp mem'
    exact .inr ⟨p, member, inside⟩

/-- Normalisation yields canonical trees. -/
theorem canonical_normalize (p : Pattern) : p.normalize.Throughout Canonical := by
  induction p with
  | sequence parts ih =>
      rw [normalize, normalizeAll_eq]
      have each : ∀ q ∈ fuseLiterals "" ((parts.map normalize).flatMap partsInSequence),
          q.isSequence = false ∧ q.Throughout Canonical := by
        intro q mem
        rcases mem_normalizedParts mem with literal | ⟨p, member, inside⟩
        · exact throughout_canonical_of_isLiteral literal
        · exact mem_partsInSequence (ih p member) inside
      exact throughout_collapse rfl (fun q mem => (each q mem).2) fun several =>
        ⟨several, fun q mem => (each q mem).1, fused_fuseLiterals ..⟩
  | alternation branches ih =>
      rw [normalize, normalizeAll_eq]
      have each : ∀ q ∈ (branches.map normalize).flatMap branchesInAlternation,
          q.isAlternation = false ∧ q.Throughout Canonical := by
        intro q mem
        obtain ⟨p', mem', inside⟩ := List.mem_flatMap.mp mem
        obtain ⟨p, member, rfl⟩ := List.mem_map.mp mem'
        exact mem_branchesInAlternation (ih p member) inside
      exact throughout_collapse rfl (fun q mem => (each q mem).2) fun several =>
        ⟨several, fun q mem => (each q mem).1⟩
  | repetition body least most greed ih => exact throughout_repetition.mpr ⟨trivial, ih⟩
  | group capturing body name atomic ih => exact throughout_group.mpr ⟨trivial, ih⟩
  | look direction negative body ih => exact throughout_look.mpr ⟨trivial, ih⟩
  | _ => exact (throughout_leaf rfl).mpr trivial

/-- No rule of normalisation applies to a canonical tree. -/
theorem not_canonical_of_rewrites (h : Rewrites p q) : ¬ p.Throughout Canonical := by
  induction h with
  | splice variadic before members after =>
      intro canonical
      obtain ⟨here, -⟩ := throughout_iff.mp canonical
      cases variadic with
      | sequence => exact absurd (here.2.1 (.sequence members) (by simp)) (by simp [isSequence])
      | alternation =>
          exact absurd (here.2 (.alternation members) (by simp)) (by simp [isAlternation])
  | only variadic p =>
      intro canonical
      obtain ⟨here, -⟩ := throughout_iff.mp canonical
      cases variadic with
      | sequence => exact here.1 rfl
      | alternation => exact here.1 rfl
  | fuse before after s t =>
      intro canonical
      obtain ⟨⟨-, -, -, apart⟩, -⟩ := throughout_iff.mp canonical
      have neighbours := (List.isChain_append_cons_cons.mp apart).2.1
      simp [isLiteral] at neighbours
  | dropEmpty before after =>
      intro canonical
      obtain ⟨⟨-, -, some_text, -⟩, -⟩ := throughout_iff.mp canonical
      exact some_text "" (by simp) rfl
  | member variadic before after _ ih =>
      intro canonical
      obtain ⟨-, below⟩ := throughout_iff.mp canonical
      apply ih
      apply below
      cases variadic with
      | sequence => simp [children]
      | alternation => simp [children]
  | repetition least most greed _ ih =>
      exact fun canonical => ih (throughout_repetition.mp canonical).2
  | group capturing name atomic _ ih => exact fun canonical => ih (throughout_group.mp canonical).2
  | look direction negative _ ih => exact fun canonical => ih (throughout_look.mp canonical).2

private theorem normalize_of_canonical (canonical : p.Throughout Canonical) : p.normalize = p := by
  rcases (rewritesTo_normalize p).cases_head with same | ⟨q, step, -⟩
  · exact same.symm
  · exact absurd canonical (not_canonical_of_rewrites step)

/-- Normal forms are canonical, and the canonical trees are exactly those that normalisation leaves
as they are. Normalising twice is normalising once. -/
theorem normalize_canonical_fixed (t : Pattern) :
    t.normalize.Throughout Canonical ∧ (t.normalize = t ↔ t.Throughout Canonical) ∧
      t.normalize.normalize = t.normalize := by
  have canonical := canonical_normalize t
  refine ⟨canonical, ⟨?_, normalize_of_canonical⟩, normalize_of_canonical canonical⟩
  intro same
  rw [← same]
  exact canonical

end Canonical

section Events

private theorem events_of_rewrites {p q : Pattern} (h : Rewrites p q) : q.events = p.events := by
  induction h with
  | splice variadic before members after =>
      cases variadic with
      | sequence => simp
      | alternation => simp
  | only variadic p =>
      cases variadic with
      | sequence => simp
      | alternation => simp
  | fuse before after s t =>
      have none (text : String) : (literal text).events = [] := rfl
      simp [none]
  | dropEmpty before after =>
      have none : (literal "").events = [] := rfl
      simp [none]
  | member variadic before after _ ih =>
      cases variadic with
      | sequence => simp [ih]
      | alternation => simp [ih]
  | repetition least most greed _ ih => simp [ih]
  | group capturing name atomic _ ih => simp [ih]
  | look direction negative _ ih => simp [ih]

theorem events_normalize (p : Pattern) : p.normalize.events = p.events :=
  (rewritesTo_normalize p).keeps fun _ _ => events_of_rewrites

end Events

section Terms

variable {p q : Pattern} {ps : List Pattern}

theorem normalize_of_flat (single : p.isSequence = false) (one : p.isAlternation = false) :
    p.normalize.isSequence = false ∧ p.normalize.isAlternation = false ∧
      p.normalize.isAnchor = p.isAnchor ∧ p.normalize.groupName? = p.groupName? ∧
      ∀ text, p.normalize = .literal text ↔ p = .literal text := by
  cases p with
  | sequence parts => exact absurd single (by simp [isSequence])
  | alternation branches => exact absurd one (by simp [isAlternation])
  | _ => simp [normalize, isSequence, isAlternation, isAnchor, groupName?]

private theorem flatMap_partsInSequence (flat : ∀ p ∈ ps, p.isSequence = false) :
    ps.flatMap partsInSequence = ps := by
  have each : ∀ p ∈ ps, p.partsInSequence = [p] := by
    intro p mem
    cases p with
    | sequence parts => exact absurd (flat _ mem) (by simp [isSequence])
    | _ => rfl
  rw [List.flatMap_congr each, List.flatMap_singleton']

theorem flatMap_branchesInAlternation (flat : ∀ p ∈ ps, p.isAlternation = false) :
    ps.flatMap branchesInAlternation = ps := by
  have each : ∀ p ∈ ps, p.branchesInAlternation = [p] := by
    intro p mem
    cases p with
    | alternation branches => exact absurd (flat _ mem) (by simp [isAlternation])
    | _ => rfl
  rw [List.flatMap_congr each, List.flatMap_singleton']

private theorem IsTerm.normalize_ne (h : p.IsTerm) : p.normalize ≠ .literal "" := by
  intro empty
  have same := ((normalize_of_flat h.not_sequence h.not_alternation).2.2.2.2 "").mp empty
  subst same
  exact (throughout_iff.mp h.sound).1 rfl

theorem fuseLiterals_singleton (some_text : p ≠ .literal "") : fuseLiterals "" [p] = [p] := by
  refine fuseLiterals_of_fused ⟨?_, .singleton _⟩
  rintro text mem rfl
  exact some_text (List.mem_singleton.mp mem).symm

theorem flat_normalize (flat : ∀ p ∈ ps, p.isSequence = false ∧ p.isAlternation = false) :
    ∀ q ∈ ps.map normalize, q.isSequence = false ∧ q.isAlternation = false := by
  intro q mem
  obtain ⟨p, member, rfl⟩ := List.mem_map.mp mem
  obtain ⟨single, one, -⟩ := normalize_of_flat (flat p member).1 (flat p member).2
  exact ⟨single, one⟩

theorem normalize_sequence (flat : ∀ p ∈ ps, p.isSequence = false ∧ p.isAlternation = false) :
    (sequence ps).normalize = collapse .sequence (fuseLiterals "" (ps.map normalize)) := by
  rw [normalize, normalizeAll_eq,
    flatMap_partsInSequence fun q mem => (flat_normalize flat q mem).1]

theorem normalize_collapse_sequence (terms : ∀ p ∈ ps, p.IsTerm) :
    (collapse .sequence ps).normalize =
      collapse .sequence (fuseLiterals "" (ps.map normalize)) := by
  fun_cases collapse sequence ps with
  | case1 p =>
      rw [List.map_singleton, fuseLiterals_singleton (terms p List.mem_cons_self).normalize_ne]
      rfl
  | case2 =>
      exact normalize_sequence fun p mem =>
        ⟨(terms p mem).not_sequence, (terms p mem).not_alternation⟩

private theorem fuseLiterals_eq_nil {run : String} (h : fuseLiterals run ps = []) :
    run = "" ∧ ∀ p ∈ ps, p = .literal "" := by
  fun_induction fuseLiterals run ps with
  | case1 run =>
      refine ⟨?_, by simp⟩
      by_contra some_text
      rw [literalRun, if_neg some_text] at h
      exact absurd h (by simp)
  | case2 run text rest ih =>
      obtain ⟨empty, others⟩ := ih h
      obtain ⟨rfl, rfl⟩ := String.append_eq_empty_iff.mp empty
      exact ⟨rfl, List.forall_mem_cons.mpr ⟨rfl, others⟩⟩
  | case3 run p rest _ _ => exact absurd h (by simp)

private theorem eq_of_collapse_eq_empty (h : collapse .sequence ps = .sequence []) :
    ps = [] ∨ ps = [.sequence []] := by
  match ps, h with
  | [], _ => exact .inl rfl
  | [p], h => exact .inr (congrArg (fun p => [p]) h)
  | p :: q :: ps, h => exact absurd h (by simp [collapse])

theorem flat_of_mem_fuseLiterals (flat : ∀ p ∈ ps, p.isSequence = false ∧ p.isAlternation = false)
    (mem : q ∈ fuseLiterals "" ps) : q.isSequence = false ∧ q.isAlternation = false := by
  rcases mem_fuseLiterals mem with literal | mem
  · cases q with
    | literal text => exact ⟨rfl, rfl⟩
    | _ => exact absurd literal (by simp [isLiteral])
  · exact flat q mem

private theorem normalize_ne_empty (sound : p.Throughout Sound) (flat : p.Throughout Flat)
    (one : p.isAlternation = false) (some_part : p ≠ .sequence []) :
    p.normalize ≠ .sequence [] := by
  intro empty
  cases p with
  | sequence parts =>
      obtain ⟨here, _⟩ := throughout_iff.mp flat
      obtain ⟨-, parts_sound⟩ := throughout_iff.mp sound
      rw [normalize_sequence here] at empty
      rcases eq_of_collapse_eq_empty empty with none | nested
      · obtain ⟨p, member⟩ := List.exists_mem_of_ne_nil parts (by simpa using some_part)
        have void := (fuseLiterals_eq_nil none).2 _ (List.mem_map_of_mem member)
        obtain ⟨-, -, -, -, literal⟩ := normalize_of_flat (here p member).1 (here p member).2
        rw [(literal "").mp void] at member
        exact (throughout_iff.mp (parts_sound _ member)).1 rfl
      · have mem : Pattern.sequence [] ∈ fuseLiterals "" (parts.map normalize) := by simp [nested]
        exact absurd (flat_of_mem_fuseLiterals (flat_normalize here) mem).1 (by decide)
  | alternation branches => exact absurd one (by simp [isAlternation])
  | _ => simp [normalize] at empty

theorem normalize_not_alternation (flat : p.Throughout Flat) (one : p.isAlternation = false) :
    p.normalize.isAlternation = false := by
  cases p with
  | sequence parts =>
      obtain ⟨here, _⟩ := throughout_iff.mp flat
      rw [normalize_sequence here]
      generalize fused : fuseLiterals "" (parts.map normalize) = qs
      fun_cases collapse sequence qs with
      | case1 q =>
          have mem : q ∈ fuseLiterals "" (parts.map normalize) := by simp [fused]
          exact (flat_of_mem_fuseLiterals (flat_normalize here) mem).2
      | case2 => rfl
  | alternation branches => exact absurd one (by simp [isAlternation])
  | _ => rfl

private theorem throughout_partsInSequence {prop : Pattern → Prop} (h : p.Throughout prop) :
    ∀ q ∈ p.partsInSequence, q.Throughout prop := by
  cases p with
  | sequence parts => exact (throughout_iff.mp h).2
  | _ => simpa [partsInSequence] using h

private theorem sound_normalize_sequence (each : ∀ p ∈ ps, p.normalize.Throughout Sound) :
    (sequence ps).normalize.Throughout Sound := by
  rw [normalize, normalizeAll_eq]
  refine throughout_collapse rfl (fun q mem => ?_) fun _ => trivial
  have fused := fused_fuseLiterals "" ((ps.map normalize).flatMap partsInSequence)
  rcases mem_normalizedParts mem with literal | ⟨p, member, inside⟩
  · cases q with
    | literal text => exact (throughout_leaf rfl).mpr (fused.1 text mem)
    | _ => exact absurd literal (by simp [isLiteral])
  · exact throughout_partsInSequence (each p member) q inside

private theorem sound_normalize_alternation (sound : (alternation ps).Throughout Sound)
    (flat : (alternation ps).Throughout Flat) (each : ∀ p ∈ ps, p.normalize.Throughout Sound) :
    (alternation ps).normalize.Throughout Sound := by
  obtain ⟨here, below⟩ := throughout_iff.mp sound
  obtain ⟨simple, below'⟩ := throughout_iff.mp flat
  have apart : ∀ q ∈ ps.map normalize, q.isAlternation = false := by
    intro q mem
    obtain ⟨p, member, rfl⟩ := List.mem_map.mp mem
    exact normalize_not_alternation (below' p member) (simple p member)
  rw [normalize, normalizeAll_eq, flatMap_branchesInAlternation apart]
  refine throughout_collapse rfl (by simpa using each) fun _ => ⟨by simpa using here.1, ?_⟩
  intro mem
  obtain ⟨p, member, empty⟩ := List.mem_map.mp mem
  refine normalize_ne_empty (below p member) (below' p member) (simple p member) ?_ empty
  rintro rfl
  exact here.2 member

theorem sound_normalize (sound : p.Throughout Sound) (flat : p.Throughout Flat) :
    p.normalize.Throughout Sound := by
  induction p with
  | sequence parts ih =>
      obtain ⟨-, below⟩ := throughout_iff.mp sound
      obtain ⟨-, below'⟩ := throughout_iff.mp flat
      exact sound_normalize_sequence fun p mem => ih p mem (below p mem) (below' p mem)
  | alternation branches ih =>
      obtain ⟨-, below⟩ := throughout_iff.mp sound
      obtain ⟨-, below'⟩ := throughout_iff.mp flat
      exact sound_normalize_alternation sound flat fun p mem =>
        ih p mem (below p mem) (below' p mem)
  | repetition body least most greed ih =>
      obtain ⟨⟨ascending, notAnchor, unnamed⟩, below⟩ := throughout_repetition.mp sound
      obtain ⟨simple, below'⟩ := throughout_repetition.mp flat
      obtain ⟨-, -, anchor, name, -⟩ := normalize_of_flat simple.1 simple.2
      exact throughout_repetition.mpr
        ⟨⟨ascending, anchor.trans notAnchor, name.trans unnamed⟩, ih below below'⟩
  | group capturing body name atomic ih =>
      obtain ⟨here, below⟩ := throughout_group.mp sound
      obtain ⟨-, below'⟩ := throughout_group.mp flat
      exact throughout_group.mpr ⟨here, ih below below'⟩
  | look direction negative body ih =>
      obtain ⟨-, below⟩ := throughout_look.mp sound
      obtain ⟨-, below'⟩ := throughout_look.mp flat
      exact throughout_look.mpr ⟨trivial, ih below below'⟩
  | _ => exact sound

end Terms

end PatternCompiler.Pattern
