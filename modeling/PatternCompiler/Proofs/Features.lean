import Mathlib.Data.List.Basic
import PatternCompiler.Compile
import PatternCompiler.Proofs.Rewriting

/-!
The features of a pattern. `Feature.SeenIn` says by which nodes a feature is used. The features of a
tree are those that some node of it uses, and no rule of normalisation adds or takes away a use. So
the features that are reported for a normal form are those of the tree as it was parsed.
-/

set_option autoImplicit false
set_option relaxedAutoImplicit false

namespace PatternCompiler

/-- The nodes that are themselves a use of a feature. A class uses a property whether it is negated
or not, and whatever its other items are. -/
inductive Feature.SeenIn : Feature → Pattern → Prop
  | atomicGroup (capturing : Bool) (body : Pattern) (name : Option String) :
      SeenIn .atomicGroup (.group capturing body name true)
  | backreference (index : Option UInt32) (name : Option String) :
      SeenIn .backreference (.backreference index name)
  | lookahead (negative : Bool) (body : Pattern) : SeenIn .lookahead (.look .ahead negative body)
  | lookbehind (negative : Bool) (body : Pattern) : SeenIn .lookbehind (.look .behind negative body)
  | namedGroup (capturing : Bool) (body : Pattern) (name : String) (atomic : Bool) :
      SeenIn .namedGroup (.group capturing body (some name) atomic)
  | possessiveQuantifier (body : Pattern) (least : UInt32) (most : Bound) :
      SeenIn .possessiveQuantifier (.repetition body least most .possessive)
  | unicodeProperty (negated : Bool) {items : List ClassItem} {kind : Shorthand}
      {property : Option String} :
      kind.letter ∈ ['p', 'P'] → .shorthand kind property ∈ items →
      SeenIn .unicodeProperty (.charClass negated items)

private theorem Shorthand.isProperty_iff (kind : Shorthand) :
    kind.isProperty = true ↔ kind.letter ∈ ['p', 'P'] := by
  rcases kind with ⟨family, negated⟩
  cases family <;> cases negated <;> decide

private theorem ClassItem.isProperty_iff (item : ClassItem) :
    item.isProperty = true ↔
      ∃ kind property, kind.letter ∈ ['p', 'P'] ∧ item = .shorthand kind property := by
  cases item with
  | shorthand kind property => simp [isProperty, Shorthand.isProperty_iff]
  | char c => simp [isProperty]
  | range first last => simp [isProperty]

private theorem Feature.pairwise_all : all.Pairwise fun f g => f.name < g.name := by
  decide

namespace Pattern

variable {feature : Feature} {p q : Pattern}

private theorem shows_iff : shows feature p = true ↔ feature.SeenIn p := by
  constructor
  · intro shown
    cases p with
    | group capturing body name atomic =>
        simp only [shows, Bool.or_eq_true, Bool.and_eq_true, beq_iff_eq,
          Option.isSome_iff_exists] at shown
        rcases shown with ⟨rfl, rfl⟩ | ⟨rfl, name, rfl⟩
        · exact .atomicGroup capturing body name
        · exact .namedGroup capturing body name atomic
    | repetition body least most greed =>
        simp only [shows, Bool.and_eq_true, beq_iff_eq] at shown
        obtain ⟨rfl, rfl⟩ := shown
        exact .possessiveQuantifier body least most
    | look direction negative body =>
        cases direction with
        | ahead =>
            obtain rfl : feature = .lookahead := by simpa [shows] using shown
            exact .lookahead negative body
        | behind =>
            obtain rfl : feature = .lookbehind := by simpa [shows] using shown
            exact .lookbehind negative body
    | backreference index name =>
        obtain rfl : feature = .backreference := by simpa [shows] using shown
        exact .backreference index name
    | charClass negated items =>
        simp only [shows, Bool.and_eq_true, beq_iff_eq, List.any_eq_true] at shown
        obtain ⟨rfl, item, mem, property⟩ := shown
        obtain ⟨kind, name, letter, rfl⟩ := item.isProperty_iff.mp property
        exact .unicodeProperty negated letter mem
    | _ => simp [shows] at shown
  · intro seen
    cases seen with
    | unicodeProperty negated letter mem =>
        simp only [shows, beq_self_eq_true, Bool.true_and, List.any_eq_true]
        exact ⟨_, mem, (ClassItem.isProperty_iff _).mpr ⟨_, _, letter, rfl⟩⟩
    | _ => simp [shows]

private theorem uses_eq (feature : Feature) (p : Pattern) :
    uses feature p = (shows feature p || p.children.any (uses feature)) := by
  cases p with
  | _ => simp [uses, shows, children]

private theorem uses_iff_of_children
    (below : ∀ c ∈ p.children, uses feature c = true ↔ ∃ q ∈ c.preorder, feature.SeenIn q) :
    uses feature p = true ↔ ∃ q ∈ p.preorder, feature.SeenIn q := by
  rw [uses_eq, preorder_eq, Bool.or_eq_true, shows_iff, List.any_eq_true]
  simp only [List.mem_cons, List.mem_flatMap, or_and_right, exists_or, exists_eq_left]
  refine or_congr Iff.rfl ⟨?_, ?_⟩
  · rintro ⟨c, child, used⟩
    obtain ⟨q, node, seen⟩ := (below c child).mp used
    exact ⟨q, ⟨c, child, node⟩, seen⟩
  · rintro ⟨q, ⟨c, child, node⟩, seen⟩
    exact ⟨c, child, (below c child).mpr ⟨q, node, seen⟩⟩

/-- A feature is used in a tree exactly if some node of the tree is a use. -/
theorem uses_iff : uses feature p = true ↔ ∃ q ∈ p.preorder, feature.SeenIn q := by
  induction p with
  | alternation branches ih => exact uses_iff_of_children ih
  | sequence parts ih => exact uses_iff_of_children ih
  | repetition body least most greed ih => exact uses_iff_of_children (by simpa [children] using ih)
  | group capturing body name atomic ih => exact uses_iff_of_children (by simpa [children] using ih)
  | look direction negative body ih => exact uses_iff_of_children (by simpa [children] using ih)
  | _ => exact uses_iff_of_children (by simp [children])

private theorem uses_of_rewrites (h : Rewrites p q) : uses feature q = uses feature p := by
  induction h with
  | splice variadic before members after =>
      cases variadic with
      | sequence => simp [uses]
      | alternation => simp [uses]
  | only variadic p =>
      cases variadic with
      | sequence => simp [uses]
      | alternation => simp [uses]
  | fuse before after s t => simp [uses]
  | dropEmpty before after => simp [uses]
  | member variadic before after _ ih =>
      cases variadic with
      | sequence => simp [uses, ih]
      | alternation => simp [uses, ih]
  | repetition least most greed _ ih => simp [uses, shows, ih]
  | group capturing name atomic _ ih => simp [uses, shows, ih]
  | look direction negative _ ih => simp [uses, shows, ih]

private theorem uses_normalize (feature : Feature) (p : Pattern) :
    uses feature p.normalize = uses feature p :=
  (rewritesTo_normalize p).keeps fun _ _ => uses_of_rewrites

private theorem mem_features_normalize :
    feature ∈ p.normalize.features ↔ ∃ q ∈ p.preorder, feature.SeenIn q := by
  have listed : feature ∈ Feature.all := by
    cases feature <;> decide
  rw [features, List.mem_filter, uses_normalize, uses_iff]
  exact and_iff_right listed

private theorem pairwise_features (p : Pattern) : p.features.Pairwise fun f g => f.name < g.name :=
  Feature.pairwise_all.filter _

end Pattern

/-- A source text that parses compiles to an artifact whose features are in strict alphabetical
order, and are those that some node of the parsed tree uses. -/
theorem compileArtifact_features (text : String) (tree : FlaggedPattern)
    (parsed : parse text = .ok tree) :
    ∃ a, compileArtifact text = .ok a ∧ (a.features.Pairwise fun f g => f.name < g.name) ∧
      ∀ feature, feature ∈ a.features ↔ ∃ q ∈ tree.root.preorder, feature.SeenIn q := by
  refine ⟨.ofPattern tree.root, ?_, tree.root.normalize.pairwise_features, fun feature => ?_⟩
  · rw [compileArtifact, parsed]
    rfl
  · exact Pattern.mem_features_normalize

/-- A negated class with a property among other items, in a part of an atomic group that stands in a
branch; no group has a name. -/
theorem compileArtifact_features_nested :
    let text := "%flags i\na|b(?>c[^x\\P\x7bL\x7d])"
    let items : List ClassItem := [.char 'x', .shorthand ⟨.property, true⟩ (some "L")]
    let body := Pattern.sequence [.literal "c", .charClass true items]
    let tree : FlaggedPattern := ⟨{ ignoreCase := true },
      .alternation [.literal "a", .sequence [.literal "b", .group false body none true]]⟩
    parse text = .ok tree ∧
      ∃ a, compileArtifact text = .ok a ∧ .atomicGroup ∈ a.features ∧
        .unicodeProperty ∈ a.features ∧ .namedGroup ∉ a.features := by
  intro text items body tree
  let source : Source := ⟨{ ignoreCase := true }, "a|b(?>c[^x\\P\x7bL\x7d])"⟩
  have header : Source.ofText text = .ok source := by decide +kernel
  have root : source.parse = .ok tree.root := by decide +kernel
  have parsed : parse text = .ok tree := by
    rw [parse, Stage.parse, header]
    dsimp only
    rw [root]
    rfl
  have property : Shorthand.letter ⟨.property, true⟩ ∈ ['p', 'P'] := by decide
  obtain ⟨a, compiled, -, listed⟩ := compileArtifact_features text tree parsed
  refine ⟨parsed, a, compiled, (listed _).mpr ⟨.group false body none true, ?_, .atomicGroup ..⟩,
    (listed _).mpr ⟨.charClass true items, ?_, .unicodeProperty true property (.tail _ (.head _))⟩,
    fun mem => ?_⟩
  · simp [tree, Pattern.preorder]
  · simp [tree, body, Pattern.preorder]
  · obtain ⟨q, node, seen⟩ := (listed _).mp mem
    cases seen
    simp [tree, body, Pattern.preorder] at node

end PatternCompiler
