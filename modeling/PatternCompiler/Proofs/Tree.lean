import PatternCompiler.Pattern.Feature
import PatternCompiler.Pattern.Normal

/-!
Trees in general. The induction over trees gives its hypothesis for every member of a list of
subtrees, and the functions that recurse through such lists are maps over them. `preorder` lists the
nodes of a tree in the order of a walk that visits a node before its subtrees and the subtrees from
left to right.
-/

set_option autoImplicit false
set_option relaxedAutoImplicit false

namespace PatternCompiler.Pattern

/-- Induction over trees, one case per constructor. -/
@[elab_as_elim, induction_eliminator]
theorem inductionOn {motive : Pattern → Prop}
    (alternation : ∀ branches, (∀ p ∈ branches, motive p) → motive (.alternation branches))
    (sequence : ∀ parts, (∀ p ∈ parts, motive p) → motive (.sequence parts))
    (literal : ∀ text, motive (.literal text))
    (anyChar : motive .anyChar)
    (anchor : ∀ place, motive (.anchor place))
    (charClass : ∀ negated items, motive (.charClass negated items))
    (repetition : ∀ body least most greed, motive body →
      motive (.repetition body least most greed))
    (group : ∀ capturing body name atomic, motive body →
      motive (.group capturing body name atomic))
    (backreference : ∀ index name, motive (.backreference index name))
    (look : ∀ direction negative body, motive body → motive (.look direction negative body))
    (p : Pattern) : motive p := by
  refine @Pattern.rec motive (fun ps => ∀ p ∈ ps, motive p)
    alternation sequence literal anyChar anchor charClass repetition group backreference look
    ?_ ?_ p
  · simp
  · intro p ps here there q mem
    rcases List.mem_cons.mp mem with rfl | mem
    · exact here
    · exact there q mem

private theorem sameAll_iff {ps qs : List Pattern} (each : ∀ p ∈ ps, ∀ q, same p q = true ↔ p = q) :
    sameAll ps qs = true ↔ ps = qs := by
  induction ps generalizing qs with
  | nil =>
      cases qs with
      | nil => simp [sameAll]
      | cons q qs => simp [sameAll]
  | cons p ps ih =>
      obtain ⟨here, there⟩ := List.forall_mem_cons.mp each
      cases qs with
      | nil => simp [sameAll]
      | cons q qs => simp [sameAll, here q, ih there]

private theorem same_iff (p q : Pattern) : same p q = true ↔ p = q := by
  induction p generalizing q with
  | alternation branches ih =>
      cases q with
      | alternation branches' => simp [same, sameAll_iff ih]
      | _ => simp [same]
  | sequence parts ih =>
      cases q with
      | sequence parts' => simp [same, sameAll_iff ih]
      | _ => simp [same]
  | repetition body least most greed ih =>
      cases q with
      | repetition => simp [same, ih, and_assoc]
      | _ => simp [same]
  | group capturing body name atomic ih =>
      cases q with
      | group => simp [same, ih, and_assoc]
      | _ => simp [same]
  | look direction negative body ih =>
      cases q with
      | look => simp [same, ih, and_assoc]
      | _ => simp [same]
  | _ =>
      cases q with
      | _ => simp [same]

instance : DecidableEq Pattern :=
  fun p q => decidable_of_iff _ (same_iff p q)

mutual

/-- The nodes of a tree, each before the nodes of its subtrees. -/
def preorder : Pattern → List Pattern
  | .alternation branches => .alternation branches :: preorderAll branches
  | .sequence parts => .sequence parts :: preorderAll parts
  | .repetition body least most greed => .repetition body least most greed :: preorder body
  | .group capturing body name atomic => .group capturing body name atomic :: preorder body
  | .look direction negative body => .look direction negative body :: preorder body
  | .literal text => [.literal text]
  | .anyChar => [.anyChar]
  | .anchor place => [.anchor place]
  | .charClass negated items => [.charClass negated items]
  | .backreference index name => [.backreference index name]

def preorderAll : List Pattern → List Pattern
  | [] => []
  | p :: ps => preorder p ++ preorderAll ps

end

@[simp]
theorem preorderAll_eq (ps : List Pattern) : preorderAll ps = ps.flatMap preorder := by
  induction ps with
  | nil => rfl
  | cons p ps ih => rw [preorderAll, ih, List.flatMap_cons]

theorem preorder_eq (p : Pattern) : preorder p = p :: p.children.flatMap preorder := by
  cases p with
  | _ => simp [preorder, children]

@[simp]
theorem normalizeAll_eq (ps : List Pattern) : normalizeAll ps = ps.map normalize := by
  induction ps with
  | nil => rfl
  | cons p ps ih => rw [normalizeAll, ih, List.map_cons]

theorem collapse_of_length {rebuild : List Pattern → Pattern} {ps : List Pattern}
    (several : ps.length ≠ 1) : collapse rebuild ps = rebuild ps := by
  fun_cases collapse rebuild ps with
  | case1 p => exact absurd rfl several
  | case2 => rfl

@[simp]
theorem usesAny_eq (feature : Feature) (ps : List Pattern) :
    usesAny feature ps = ps.any (uses feature) := by
  induction ps with
  | nil => rfl
  | cons p ps ih => rw [usesAny, ih, List.any_cons]

end PatternCompiler.Pattern
