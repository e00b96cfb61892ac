import Mathlib.Logic.Relation
import PatternCompiler.Proofs.Tree

/-!
Normalisation as rewriting. The rules say what may change in one place of a tree: a nested list of
members is spliced into the list around it, two neighbouring literals are fused, an empty literal is
dropped, and an only member stands for itself. Normalisation does nothing else, so whatever every
rule keeps, normalisation keeps.
-/

set_option autoImplicit false
set_option relaxedAutoImplicit false

namespace PatternCompiler.Pattern

open Relation

inductive Variadic : (List Pattern → Pattern) → Prop
  | sequence : Variadic .sequence
  | alternation : Variadic .alternation

inductive Rewrites : Pattern → Pattern → Prop
  | splice {rebuild : List Pattern → Pattern} (variadic : Variadic rebuild)
      (before members after : List Pattern) :
      Rewrites (rebuild (before ++ rebuild members :: after)) (rebuild (before ++ members ++ after))
  | only {rebuild : List Pattern → Pattern} (variadic : Variadic rebuild) (p : Pattern) :
      Rewrites (rebuild [p]) p
  | fuse (before after : List Pattern) (s t : String) :
      Rewrites (.sequence (before ++ .literal s :: .literal t :: after))
        (.sequence (before ++ .literal (s ++ t) :: after))
  | dropEmpty (before after : List Pattern) :
      Rewrites (.sequence (before ++ .literal "" :: after)) (.sequence (before ++ after))
  | member {rebuild : List Pattern → Pattern} (variadic : Variadic rebuild)
      (before after : List Pattern) {p q : Pattern} :
      Rewrites p q → Rewrites (rebuild (before ++ p :: after)) (rebuild (before ++ q :: after))
  | repetition {p q : Pattern} (least : UInt32) (most : Bound) (greed : Greed) :
      Rewrites p q → Rewrites (.repetition p least most greed) (.repetition q least most greed)
  | group {p q : Pattern} (capturing : Bool) (name : Option String) (atomic : Bool) :
      Rewrites p q → Rewrites (.group capturing p name atomic) (.group capturing q name atomic)
  | look {p q : Pattern} (direction : Direction) (negative : Bool) :
      Rewrites p q → Rewrites (.look direction negative p) (.look direction negative q)

abbrev RewritesTo : Pattern → Pattern → Prop :=
  ReflTransGen Rewrites

theorem RewritesTo.inside {p q : Pattern} (h : RewritesTo p q) {context : Pattern → Pattern}
    (congruent : ∀ p q, Rewrites p q → Rewrites (context p) (context q)) :
    RewritesTo (context p) (context q) :=
  ReflTransGen.lift context congruent _ _ h

theorem RewritesTo.keeps {α : Type*} {f : Pattern → α} {p q : Pattern} (h : RewritesTo p q)
    (each : ∀ p q, Rewrites p q → f q = f p) : f q = f p := by
  induction h with
  | refl => rfl
  | tail _ step ih => exact (each _ _ step).trans ih

section Members

variable {rebuild : List Pattern → Pattern} (variadic : Variadic rebuild)

include variadic

private theorem rewritesTo_map {f : Pattern → Pattern} {ps : List Pattern}
    (each : ∀ p ∈ ps, RewritesTo p (f p)) (before : List Pattern) :
    RewritesTo (rebuild (before ++ ps)) (rebuild (before ++ ps.map f)) := by
  induction ps generalizing before with
  | nil => exact .refl
  | cons p ps ih =>
      obtain ⟨here, there⟩ := List.forall_mem_cons.mp each
      have first : RewritesTo (rebuild (before ++ p :: ps)) (rebuild (before ++ f p :: ps)) :=
        here.inside fun _ _ => .member variadic before ps
      have others := ih there (before ++ [f p])
      simp only [List.append_assoc, List.singleton_append] at others
      exact first.trans others

private theorem rewritesTo_flatMap {contribute : Pattern → List Pattern}
    (contributes : ∀ p, contribute p = [p] ∨ p = rebuild (contribute p))
    (before ps : List Pattern) :
    RewritesTo (rebuild (before ++ ps)) (rebuild (before ++ ps.flatMap contribute)) := by
  induction ps generalizing before with
  | nil => exact .refl
  | cons p ps ih =>
      have others := ih (before ++ contribute p)
      rw [List.append_assoc before (contribute p) (ps.flatMap contribute)] at others
      rw [List.flatMap_cons]
      rcases contributes p with single | nested
      · rw [single, List.append_assoc] at others
        rw [single]
        exact others
      · have spliced := Rewrites.splice variadic before (contribute p) ps
        rw [← nested] at spliced
        exact .head spliced others

private theorem rewritesTo_collapse (ps : List Pattern) :
    RewritesTo (rebuild ps) (collapse rebuild ps) := by
  fun_cases collapse rebuild ps with
  | case1 p => exact .single (.only variadic p)
  | case2 => exact .refl

end Members

private theorem partsInSequence_contributes (p : Pattern) :
    p.partsInSequence = [p] ∨ p = .sequence p.partsInSequence := by
  cases p with
  | sequence parts => exact .inr rfl
  | _ => exact .inl rfl

private theorem branchesInAlternation_contributes (p : Pattern) :
    p.branchesInAlternation = [p] ∨ p = .alternation p.branchesInAlternation := by
  cases p with
  | alternation branches => exact .inr rfl
  | _ => exact .inl rfl

private theorem rewritesTo_literalRun (before after : List Pattern) (text : String) :
    RewritesTo (.sequence (before ++ .literal text :: after))
      (.sequence (before ++ literalRun text ++ after)) := by
  unfold literalRun
  split
  · next empty =>
    subst empty
    simpa using ReflTransGen.single (Rewrites.dropEmpty before after)
  · simp [ReflTransGen.refl]

private theorem rewritesTo_longerRun (before after : List Pattern) (run text : String) :
    RewritesTo (.sequence (before ++ literalRun run ++ .literal text :: after))
      (.sequence (before ++ literalRun (run ++ text) ++ after)) := by
  by_cases empty : run = ""
  · subst empty
    have single := rewritesTo_literalRun before after text
    simpa [literalRun] using single
  · have fused := ReflTransGen.single (Rewrites.fuse before after run text)
    have longer : run ++ text ≠ "" := fun none => empty (String.append_eq_empty_iff.mp none).1
    simpa [literalRun, empty, longer] using fused

private theorem rewritesTo_fuseLiterals (run : String) (before ps : List Pattern) :
    RewritesTo (.sequence (before ++ literalRun run ++ ps))
      (.sequence (before ++ fuseLiterals run ps)) := by
  fun_induction fuseLiterals run ps generalizing before with
  | case1 run => rw [List.append_nil]
  | case2 run text rest ih => exact (rewritesTo_longerRun before rest run text).trans (ih before)
  | case3 run p rest _ ih =>
      have others := ih (before ++ literalRun run ++ [p])
      simpa [literalRun] using others

/-- Normalisation rewrites by the rules. -/
theorem rewritesTo_normalize (p : Pattern) : RewritesTo p p.normalize := by
  induction p with
  | sequence parts ih =>
      rw [normalize, normalizeAll_eq]
      have parts_normal := rewritesTo_map .sequence ih []
      have flattened :=
        rewritesTo_flatMap .sequence partsInSequence_contributes [] (parts.map normalize)
      have fused := rewritesTo_fuseLiterals "" [] ((parts.map normalize).flatMap partsInSequence)
      exact ((parts_normal.trans flattened).trans fused).trans (rewritesTo_collapse .sequence _)
  | alternation branches ih =>
      rw [normalize, normalizeAll_eq]
      have branches_normal := rewritesTo_map .alternation ih []
      have flattened :=
        rewritesTo_flatMap .alternation branchesInAlternation_contributes []
          (branches.map normalize)
      exact (branches_normal.trans flattened).trans (rewritesTo_collapse .alternation _)
  | repetition body least most greed ih =>
      exact ih.inside fun _ _ => .repetition least most greed
  | group capturing body name atomic ih =>
      exact ih.inside fun _ _ => .group capturing name atomic
  | look direction negative body ih =>
      exact ih.inside fun _ _ => .look direction negative
  | _ => exact .refl

end PatternCompiler.Pattern
