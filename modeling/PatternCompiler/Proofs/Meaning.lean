import Mathlib.Algebra.BigOperators.Group.List.Basic
import PatternCompiler.Proofs.References
import PatternCompiler.Proofs.Rewriting

/-!
Compositional meanings. An interpretation takes sequences to products and alternations to sums,
texts to products of their pieces, and every other construct to a value that depends on its fields
and on the meaning of its body alone. Whatever the products and sums are, normalisation does not
change the meaning of a tree: each of its rules is an instance of associativity or of a unit law.
The events of a tree are such a meaning.
-/

set_option autoImplicit false
set_option relaxedAutoImplicit false

namespace PatternCompiler

/-- Values for the constructs of a pattern, in a type with products and with sums. -/
structure Interpretation (M : Type*) [Monoid M] [AddMonoid M] where
  text : String → M
  text_empty : text "" = 1
  text_append : ∀ s t, text (s ++ t) = text s * text t
  anyChar : M
  anchor : Anchor → M
  charClass : Bool → List ClassItem → M
  repetition : M → UInt32 → Bound → Greed → M
  group : Bool → M → Option String → Bool → M
  backreference : Option UInt32 → Option String → M
  look : Direction → Bool → M → M

namespace Interpretation

open Pattern

variable {M : Type*} [Monoid M] [AddMonoid M] (I : Interpretation M)

mutual

def meaning : Pattern → M
  | .sequence parts => (meanings parts).prod
  | .alternation branches => (meanings branches).sum
  | .literal text => I.text text
  | .anyChar => I.anyChar
  | .anchor place => I.anchor place
  | .charClass negated items => I.charClass negated items
  | .repetition body least most greed => I.repetition (meaning body) least most greed
  | .group capturing body name atomic => I.group capturing (meaning body) name atomic
  | .backreference index name => I.backreference index name
  | .look direction negative body => I.look direction negative (meaning body)

def meanings : List Pattern → List M
  | [] => []
  | p :: ps => meaning p :: meanings ps

end

@[simp]
private theorem meanings_eq (ps : List Pattern) : I.meanings ps = ps.map I.meaning := by
  induction ps with
  | nil => rfl
  | cons p ps ih => rw [meanings, ih, List.map_cons]

/-- Each rule of normalisation keeps the meaning of a tree. -/
theorem meaning_of_rewrites {p q : Pattern} (h : Rewrites p q) : I.meaning q = I.meaning p := by
  induction h with
  | splice variadic before members after =>
      cases variadic with
      | sequence => simp [meaning]
      | alternation => simp [meaning]
  | only variadic p =>
      cases variadic with
      | sequence => simp [meaning]
      | alternation => simp [meaning]
  | fuse before after s t => simp [meaning, I.text_append, mul_assoc]
  | dropEmpty before after => simp [meaning, I.text_empty]
  | member variadic before after _ ih =>
      cases variadic with
      | sequence => simp [meaning, ih]
      | alternation => simp [meaning, ih]
  | repetition least most greed _ ih => rw [meaning, meaning, ih]
  | group capturing name atomic _ ih => rw [meaning, meaning, ih]
  | look direction negative _ ih => rw [meaning, meaning, ih]

/-- Events one after the other, where parts follow each other and where branches do. -/
structure Trail where
  events : List Event

namespace Trail

instance : One Trail := ⟨⟨[]⟩⟩

instance : Mul Trail := ⟨fun a b => ⟨a.events ++ b.events⟩⟩

instance : Zero Trail := ⟨1⟩

instance : Add Trail := ⟨(· * ·)⟩

instance : Monoid Trail where
  one_mul _ := rfl
  mul_one a := congrArg mk (List.append_nil a.events)
  mul_assoc a b c := congrArg mk (List.append_assoc a.events b.events c.events)

instance : AddMonoid Trail where
  zero_add := one_mul
  add_zero := mul_one
  add_assoc := mul_assoc
  nsmul := nsmulRec

private theorem prod_map_mk (f : Pattern → List Event) (ps : List Pattern) :
    (ps.map fun p => mk (f p)).prod = ⟨ps.flatMap f⟩ := by
  induction ps with
  | nil => rfl
  | cons p ps ih =>
      rw [List.map_cons, List.prod_cons, ih]
      rfl

private theorem sum_eq_prod (ts : List Trail) : ts.sum = ts.prod :=
  rfl

/-- Capturing groups and backreferences leave a trace, and the other constructs none. -/
def interpretation : Interpretation Trail where
  text _ := 1
  text_empty := rfl
  text_append _ _ := rfl
  anyChar := 1
  anchor _ := 1
  charClass _ _ := 1
  repetition body _ _ _ := body
  group capturing body name _ := if capturing then ⟨[.opens name]⟩ * body else body
  backreference index name := ⟨[.refers index name]⟩
  look _ _ body := body

private theorem meaning_eq (p : Pattern) : interpretation.meaning p = ⟨p.events⟩ := by
  induction p with
  | sequence parts ih =>
      rw [meaning, meanings_eq, List.map_congr_left ih, prod_map_mk, events_sequence]
  | alternation branches ih =>
      rw [meaning, meanings_eq, sum_eq_prod, List.map_congr_left ih, prod_map_mk,
        events_alternation]
  | repetition body least most greed ih => rw [meaning, ih, events_repetition]; rfl
  | group capturing body name atomic ih =>
      rw [meaning, ih, events_group]
      cases capturing with
      | false => rfl
      | true => rfl
  | look direction negative body ih => rw [meaning, ih, events_look]; rfl
  | _ => rfl

end Trail

/-- Normalisation preserves every compositional meaning. -/
theorem meaning_normalize (t : Pattern) : I.meaning t.normalize = I.meaning t :=
  (rewritesTo_normalize t).keeps fun _ _ => I.meaning_of_rewrites

/-- The groups and references of a tree in which every rule of normalisation applies. -/
theorem meaning_normalize_trail :
    let t : Pattern := .sequence [.sequence [.literal "a", .literal "b"], .literal "",
      .group true (.alternation [.sequence [.anyChar], .alternation [.sequence [],
        .group true (.backreference (some 1) none) none false]]) (some "n") false,
      .sequence [.backreference none (some "n")]]
    t.normalize = .sequence [.literal "ab",
        .group true (.alternation [.anyChar, .sequence [],
          .group true (.backreference (some 1) none) none false]) (some "n") false,
        .backreference none (some "n")] ∧
      t.normalize.events =
        [.opens (some "n"), .opens none, .refers (some 1) none, .refers none (some "n")] := by
  intro t
  refine ⟨by decide +kernel, ?_⟩
  have kept := Trail.interpretation.meaning_normalize t
  rw [Trail.meaning_eq, Trail.meaning_eq] at kept
  exact congrArg Trail.events kept

end Interpretation

end PatternCompiler
