import PatternCompiler.Proofs.Agreement
import PatternCompiler.Proofs.Tree

/-!
The shape of the trees that texts spell. `Sound` is what every node of such a tree has to satisfy
for the tree to be written back, and `Flat` says that sequences and alternations are not nested
directly.
-/

set_option autoImplicit false
set_option relaxedAutoImplicit false

namespace PatternCompiler

/-- A class item that a text can spell: a range ascends, and just the property escapes carry a name,
which no brace ends early. -/
def ClassItem.Sound : ClassItem → Prop
  | .char _ => True
  | .range first last => first ≤ last
  | .shorthand kind property =>
      (property.isSome = true ↔ kind.family = .property) ∧
        ∀ name, property = some name → '}' ∉ name.toList

namespace Pattern

def isSequence : Pattern → Bool
  | .sequence _ => true
  | _ => false

def isAlternation : Pattern → Bool
  | .alternation _ => true
  | _ => false

/-- What a single node owes: literals and classes are not empty, nor are alternations and their
branches. Bounds ascend, and neither an anchor nor a named group is repeated. The named groups are
capturing, and the atomic ones are not. -/
def Sound : Pattern → Prop
  | .literal text => text ≠ ""
  | .alternation branches => branches ≠ [] ∧ .sequence [] ∉ branches
  | .charClass _ items => items ≠ [] ∧ ∀ item ∈ items, item.Sound
  | .repetition body least most _ =>
      (∀ n, most = .finite n → least ≤ n) ∧ body.isAnchor = false ∧ body.groupName? = none
  | .group capturing _ name atomic =>
      (∀ s, name = some s → Grammar.Identifier s.toList ∧ capturing = true ∧ atomic = false) ∧
        (atomic = true → capturing = false)
  | .sequence _ | .anyChar | .anchor _ | .backreference .. | .look .. => True

/-- No part of a sequence and no repeated tree is a sequence or an alternation, and no branch of an
alternation is an alternation. -/
def Flat : Pattern → Prop
  | .sequence parts => ∀ p ∈ parts, p.isSequence = false ∧ p.isAlternation = false
  | .repetition body .. => body.isSequence = false ∧ body.isAlternation = false
  | .alternation branches => ∀ p ∈ branches, p.isAlternation = false
  | _ => True

/-- A property of all nodes of a tree. -/
def Throughout (prop : Pattern → Prop) (p : Pattern) : Prop :=
  ∀ q ∈ p.preorder, prop q

theorem throughout_iff {prop : Pattern → Prop} {p : Pattern} :
    p.Throughout prop ↔ prop p ∧ ∀ q ∈ p.children, q.Throughout prop := by
  simp only [Throughout]
  rw [preorder_eq]
  simp only [List.mem_cons, List.mem_flatMap]
  constructor
  · intro h
    exact ⟨h p (.inl rfl), fun q mem x mem' => h x (.inr ⟨q, mem, mem'⟩)⟩
  · rintro ⟨here, below⟩ x (rfl | ⟨q, mem, mem'⟩)
    · exact here
    · exact below q mem x mem'

section Throughout

variable {prop : Pattern → Prop} {body : Pattern}

theorem throughout_leaf {p : Pattern} (leaf : p.children = []) : p.Throughout prop ↔ prop p := by
  rw [throughout_iff, leaf]
  simp

theorem throughout_repetition {least : UInt32} {most : Bound} {greed : Greed} :
    (repetition body least most greed).Throughout prop ↔
      prop (.repetition body least most greed) ∧ body.Throughout prop := by
  rw [throughout_iff]
  simp [children]

theorem throughout_group {capturing : Bool} {name : Option String} {atomic : Bool} :
    (group capturing body name atomic).Throughout prop ↔
      prop (.group capturing body name atomic) ∧ body.Throughout prop := by
  rw [throughout_iff]
  simp [children]

theorem throughout_look {direction : Direction} {negative : Bool} :
    (look direction negative body).Throughout prop ↔
      prop (.look direction negative body) ∧ body.Throughout prop := by
  rw [throughout_iff]
  simp [children]

theorem throughout_collapse {rebuild : List Pattern → Pattern} {ps : List Pattern}
    (members : (rebuild ps).children = ps) (each : ∀ p ∈ ps, p.Throughout prop)
    (node : ps.length ≠ 1 → prop (rebuild ps)) : (collapse rebuild ps).Throughout prop := by
  fun_cases collapse rebuild ps with
  | case1 p => exact each p List.mem_cons_self
  | case2 _ several =>
      refine throughout_iff.mpr ⟨node ?_, members.symm ▸ each⟩
      intro single
      obtain ⟨p, rfl⟩ := List.length_eq_one_iff.mp single
      exact several p rfl

end Throughout

/-- A term of a branch: it is neither a sequence nor an alternation, and its nodes are in shape. -/
structure IsTerm (p : Pattern) : Prop where
  not_sequence : p.isSequence = false
  not_alternation : p.isAlternation = false
  sound : p.Throughout Sound
  flat : p.Throughout Flat

end Pattern

open Grammar Pattern

variable {free : Bool} {k k' : Captures} {s after : List Char} {p q : Pattern}

private theorem sound_of_classEscape {kind : Shorthand} {property : Option String}
    (h : ClassEscape s kind property) : (ClassItem.shorthand kind property).Sound := by
  cases h with
  | plain letters =>
      have plain := (mem_classLetters_iff.mp letters).2
      refine ⟨?_, fun name none => absurd none (by simp)⟩
      simpa [Shorthand.isProperty] using plain
  | property letters closed =>
      have named := (mem_propertyLetters_iff.mp letters).2
      refine ⟨by simpa [Shorthand.isProperty] using named, ?_⟩
      rintro name ⟨⟩
      simpa using closed

private theorem sound_of_item {item : ClassItem} (h : Item s item) : item.Sound := by
  cases h with
  | shorthand escape => exact sound_of_classEscape escape
  | _ => exact trivial

private theorem sound_of_items {items : List ClassItem} (h : Items s after items) :
    (s ≠ [] → items ≠ []) ∧ ∀ item ∈ items, item.Sound := by
  induction h with
  | nil => simp
  | snoc _ extended _ ih =>
      cases extended with
      | item item _ => exact ⟨by simp, List.forall_mem_cons.mpr ⟨sound_of_item item, ih.2⟩⟩
      | range _ _ ascending =>
          exact ⟨by simp, List.forall_mem_cons.mpr ⟨ascending, (List.forall_mem_cons.mp ih.2).2⟩⟩
      | dash item =>
          exact ⟨by simp, List.forall_mem_cons.mpr
            ⟨sound_of_item item, List.forall_mem_cons.mpr ⟨trivial, ih.2⟩⟩⟩

private theorem sound_of_bracketClass {negated : Bool} {items : List ClassItem}
    (h : BracketClass s after negated items) : (charClass negated items).Sound := by
  cases h with
  | plain inside some_item _ =>
      have sound := sound_of_items inside
      exact ⟨by simpa using sound.1 some_item, by simpa using sound.2⟩
  | negated inside some_item =>
      have sound := sound_of_items inside
      exact ⟨by simpa using sound.1 some_item, by simpa using sound.2⟩

private theorem sound_of_leaf (h : Leaf free k s after p) : p.Sound := by
  cases h with
  | bracketClass bracket => exact sound_of_bracketClass bracket
  | shorthand escape =>
      exact ⟨by simp, List.forall_mem_singleton.mpr (sound_of_classEscape escape)⟩
  | ordinary | nul | numeric | control | identity => simp [Sound]
  | _ => trivial

private theorem isTerm_of_leaf (h : Leaf free k s after p) : p.IsTerm := by
  have sound := sound_of_leaf h
  cases h with
  | _ => exact ⟨rfl, rfl, (throughout_leaf rfl).mpr sound, (throughout_leaf rfl).mpr trivial⟩

private theorem ascending_of_bounds {least : UInt32} {most : Bound} (h : Bounds s least most) :
    ∀ n, most = .finite n → least ≤ n := by
  cases h with
  | star | plus | atLeast => simp
  | optional =>
      rintro n ⟨⟩
      decide
  | exactly =>
      rintro n ⟨⟩
      exact UInt32.le_refl _
  | between _ _ le =>
      rintro n ⟨⟩
      exact le

private theorem isTerm_of_quantified (h : Quantified p s q) (term : p.IsTerm) : q.IsTerm := by
  cases h with
  | bare => exact term
  | repeated notAnchor unnamed bounds _ =>
      exact ⟨rfl, rfl,
        throughout_repetition.mpr ⟨⟨ascending_of_bounds bounds,
          isAnchor_eq_false_iff.mpr notAnchor, groupName?_eq_none_iff.mpr unnamed⟩, term.sound⟩,
        throughout_repetition.mpr ⟨⟨term.not_sequence, term.not_alternation⟩, term.flat⟩⟩

/-- A branch in shape: no alternation, and all its nodes are in shape. -/
structure IsBranch (p : Pattern) : Prop where
  not_alternation : p.isAlternation = false
  sound : p.Throughout Sound
  flat : p.Throughout Flat

private theorem isBranch_collapse {ps : List Pattern} (terms : ∀ p ∈ ps, p.IsTerm) :
    IsBranch (collapse .sequence ps) := by
  refine ⟨?_, ?_, ?_⟩
  · fun_cases collapse sequence ps with
    | case1 p => exact (terms p List.mem_cons_self).not_alternation
    | case2 => rfl
  · exact throughout_collapse rfl (fun p mem => (terms p mem).sound) fun _ => trivial
  · exact throughout_collapse rfl (fun p mem => (terms p mem).flat) fun _ p mem =>
      ⟨(terms p mem).not_sequence, (terms p mem).not_alternation⟩

private theorem collapse_ne_empty {ps : List Pattern} (terms : ∀ p ∈ ps, p.IsTerm)
    (some_term : ps ≠ []) :
    collapse .sequence ps ≠ .sequence [] := by
  fun_cases collapse sequence ps with
  | case1 p =>
      rintro rfl
      exact absurd (terms (.sequence []) (by simp)).not_sequence (by decide)
  | case2 => simpa using some_term

theorem shape_treeOf {pss : List (List Pattern)} (some_branch : pss ≠ []) (proper : Proper pss)
    (terms : ∀ ps ∈ pss, ∀ p ∈ ps, p.IsTerm) :
    (treeOf pss).Throughout Sound ∧ (treeOf pss).Throughout Flat := by
  rw [treeOf_eq]
  have branches : ∀ q ∈ pss.map (collapse sequence), IsBranch q := by
    intro q mem
    obtain ⟨ps, mem', rfl⟩ := List.mem_map.mp mem
    exact isBranch_collapse (terms ps mem')
  refine ⟨throughout_collapse rfl (fun q mem => (branches q mem).sound) fun several => ⟨?_, ?_⟩,
    throughout_collapse rfl (fun q mem => (branches q mem).flat) fun _ q mem =>
      (branches q mem).not_alternation⟩
  · simpa using some_branch
  · intro mem
    obtain ⟨ps, mem, empty⟩ := List.mem_map.mp mem
    have two : 2 ≤ pss.length := by
      have positive := List.length_pos_iff.mpr some_branch
      rw [List.length_map] at several
      omega
    have some_term : ps ≠ [] := by
      rintro rfl
      exact proper two mem
    exact collapse_ne_empty (terms ps mem) some_term empty

private theorem isTerm_of_encloses {inner : Captures} {body : Pattern}
    (h : Encloses k body s inner p)
    (sound : body.Throughout Sound) (flat : body.Throughout Flat) : p.IsTerm := by
  cases h with
  | named identifier _ =>
      refine ⟨rfl, rfl, throughout_group.mpr ⟨⟨?_, nofun⟩, sound⟩,
        throughout_group.mpr ⟨trivial, flat⟩⟩
      rintro name ⟨⟩
      simpa using identifier
  | ahead | notAhead | behind | notBehind =>
      exact ⟨rfl, rfl, throughout_look.mpr ⟨trivial, sound⟩, throughout_look.mpr ⟨trivial, flat⟩⟩
  | capture | plain | atomic =>
      exact ⟨rfl, rfl, throughout_group.mpr ⟨⟨nofun, by simp⟩, sound⟩,
        throughout_group.mpr ⟨trivial, flat⟩⟩

def Grammar.Phrase.InShape : Phrase → Prop
  | .atom p => p.IsTerm
  | .term p => p.IsTerm
  | .terms ps => ∀ p ∈ ps, p.IsTerm
  | .branches pss => pss ≠ [] ∧ ∀ ps ∈ pss, ∀ p ∈ ps, p.IsTerm

theorem inShape_of_derives {phrase : Phrase} (h : Derives free k s after phrase k') :
    phrase.InShape := by
  induction h with
  | leaf leaf => exact isTerm_of_leaf leaf
  | bracketed encloses _ proper ih =>
      obtain ⟨sound, flat⟩ := shape_treeOf ih.1 proper ih.2
      exact isTerm_of_encloses encloses sound flat
  | term _ quantified ih => exact isTerm_of_quantified quantified ih
  | nil => exact fun p mem => absurd mem (by simp)
  | cons _ _ _ ihTerm ihTerms => exact List.forall_mem_cons.mpr ⟨ihTerm, ihTerms⟩
  | single _ _ ih => exact ⟨by simp, List.forall_mem_cons.mpr ⟨ih, by simp⟩⟩
  | bar _ _ _ ihTerms ihBranches =>
      exact ⟨by simp, List.forall_mem_cons.mpr ⟨ihTerms, ihBranches.2⟩⟩

end PatternCompiler
