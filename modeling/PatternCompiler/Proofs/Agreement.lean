import PatternCompiler.Proofs.Grammar
import PatternCompiler.Reading.Escape

/-!
What the grammar writes out for itself is what the reader computes: the letters of the escapes, the
characters that hexadecimal digits name, the names of groups, and the trees and tables that openings
and branches lead to.
-/

set_option autoImplicit false
set_option relaxedAutoImplicit false

namespace PatternCompiler.Grammar

open Reading

section Letters

variable {letter c : Char} {kind : Shorthand} {place : Anchor}

theorem isSpacing_iff : Cursor.isSpacing c = true ↔ c ∈ [' ', '\t', '\r', '\n'] := by
  simp [Cursor.isSpacing, or_assoc]

theorem not_mem_skipped_iff :
    c ∉ [' ', '\t', '\r', '\n', '#'] ↔ Cursor.isSpacing c = false ∧ c ≠ '#' := by
  rw [← Bool.not_eq_true, isSpacing_iff]
  simp [and_assoc]

theorem mem_classLetters_iff :
    (letter, kind) ∈ classLetters ↔
      Shorthand.ofLetter? letter = some kind ∧ kind.isProperty = false := by
  constructor
  · intro mem
    simp only [classLetters, List.mem_cons, Prod.mk.injEq, List.not_mem_nil, or_false] at mem
    rcases mem with ⟨rfl, rfl⟩ | ⟨rfl, rfl⟩ | ⟨rfl, rfl⟩ | ⟨rfl, rfl⟩ | ⟨rfl, rfl⟩ | ⟨rfl, rfl⟩
    all_goals exact ⟨rfl, rfl⟩
  · rintro ⟨names, plain⟩
    unfold Shorthand.ofLetter? at names
    split at names
    all_goals cases names
    case h_7 | h_8 => cases plain
    all_goals simp [classLetters]

theorem mem_propertyLetters_iff :
    (letter, kind) ∈ propertyLetters ↔
      Shorthand.ofLetter? letter = some kind ∧ kind.isProperty = true := by
  constructor
  · intro mem
    simp only [propertyLetters, List.mem_cons, Prod.mk.injEq, List.not_mem_nil, or_false] at mem
    rcases mem with ⟨rfl, rfl⟩ | ⟨rfl, rfl⟩
    all_goals exact ⟨rfl, rfl⟩
  · rintro ⟨names, named⟩
    unfold Shorthand.ofLetter? at names
    split at names
    all_goals cases names
    case h_7 | h_8 => simp [propertyLetters]
    all_goals cases named

theorem mem_controlLetters_iff : (letter, c) ∈ controlLetters ↔ controlChar? letter = some c := by
  constructor
  · intro mem
    simp only [controlLetters, List.mem_cons, Prod.mk.injEq, List.not_mem_nil, or_false] at mem
    rcases mem with ⟨rfl, rfl⟩ | ⟨rfl, rfl⟩ | ⟨rfl, rfl⟩ | ⟨rfl, rfl⟩ | ⟨rfl, rfl⟩
    all_goals rfl
  · intro names
    unfold controlChar? at names
    split at names
    all_goals cases names
    all_goals simp [controlLetters]

theorem mem_anchorLetters_iff :
    (letter, place) ∈ anchorLetters ↔ anchorOfLetter? letter = some place := by
  constructor
  · intro mem
    simp only [anchorLetters, List.mem_cons, Prod.mk.injEq, List.not_mem_nil, or_false] at mem
    rcases mem with ⟨rfl, rfl⟩ | ⟨rfl, rfl⟩ | ⟨rfl, rfl⟩ | ⟨rfl, rfl⟩ | ⟨rfl, rfl⟩
    all_goals rfl
  · intro names
    unfold anchorOfLetter? at names
    split at names
    all_goals cases names
    all_goals simp [anchorLetters]

theorem not_mem_meanings_iff :
    c ∉ ['d', 'D', 'w', 'W', 's', 'S', 'p', 'P', 'n', 't', 'r', 'f', 'v', 'x', 'u', 'U', '0', 'b'] ↔
      Shorthand.ofLetter? c = none ∧ controlChar? c = none ∧ c ∉ ['x', 'u', 'U', '0', 'b'] := by
  constructor
  · intro unused
    refine ⟨?_, ?_, fun mem => unused (by simp_all)⟩
    · unfold Shorthand.ofLetter?
      split
      case h_9 => rfl
      all_goals simp at unused
    · unfold controlChar?
      split
      case h_6 => rfl
      all_goals simp at unused
  · rintro ⟨kind, control, others⟩ mem
    have parts : c ∈ ['d', 'D', 'w', 'W', 's', 'S', 'p', 'P'] ∨ c ∈ ['n', 't', 'r', 'f', 'v'] ∨
        c ∈ ['x', 'u', 'U', '0', 'b'] := by
      simpa [or_assoc] using mem
    rcases parts with classes | controls | rest
    · simp only [List.mem_cons, List.not_mem_nil, or_false] at classes
      rcases classes with rfl | rfl | rfl | rfl | rfl | rfl | rfl | rfl
      all_goals cases kind
    · simp only [List.mem_cons, List.not_mem_nil, or_false] at controls
      rcases controls with rfl | rfl | rfl | rfl | rfl
      all_goals cases control
    · exact others rest

end Letters

section Digits

variable {d c : Char} {digits : List Char}

private theorem ascii_of_isHexDigit (hex : isHexDigit d = true) : d.toNat < 128 := by
  simp only [isHexDigit, Bool.or_eq_true, Bool.and_eq_true, Char.isDigit_iff_toNat,
    decide_eq_true_eq, Char.le_def, UInt32.le_iff_toNat_le] at hex
  change d.val.toNat < 128
  rcases hex with (⟨-, bound⟩ | ⟨-, bound⟩) | ⟨-, bound⟩
  · exact Nat.lt_of_le_of_lt bound (by decide)
  · exact Nat.lt_of_le_of_lt bound (by decide)
  · exact Nat.lt_of_le_of_lt bound (by decide)

private theorem ascii_of_toLower_mem (mem : d.toLower ∈ hexDigits) : d.toNat < 128 := by
  unfold Char.toLower at mem
  split at mem
  · next upper => exact Nat.lt_of_le_of_lt (UInt32.le_iff_toNat_le.mp upper.2) (by decide)
  · simp only [hexDigits, List.mem_cons, List.not_mem_nil, or_false] at mem
    rcases mem with rfl | rfl | rfl | rfl | rfl | rfl | rfl | rfl | rfl | rfl | rfl | rfl | rfl |
      rfl | rfl | rfl <;> decide

private theorem of_ascii {P : Char → Prop} (ascii : ∀ n < 128, P (Char.ofNat n))
    (small : d.toNat < 128) : P d := by
  have known := ascii d.toNat small
  rwa [Char.ofNat_toNat] at known

theorem isHexDigit_iff : isHexDigit d = true ↔ d.toLower ∈ hexDigits := by
  have here : d.toNat < 128 → (isHexDigit d = true ↔ d.toLower ∈ hexDigits) :=
    of_ascii (P := fun d => isHexDigit d = true ↔ d.toLower ∈ hexDigits) (by decide)
  constructor
  · intro hex
    exact (here (ascii_of_isHexDigit hex)).mp hex
  · intro mem
    exact (here (ascii_of_toLower_mem mem)).mpr mem

private theorem hexDigitValue_eq (hex : isHexDigit d = true) :
    hexDigitValue d = hexDigits.idxOf d.toLower :=
  of_ascii (P := fun d => isHexDigit d = true → hexDigitValue d = hexDigits.idxOf d.toLower)
    (by decide) (ascii_of_isHexDigit hex) hex

private theorem foldl_hexDigitValue (hex : ∀ d ∈ digits, isHexDigit d = true) (value : Nat) :
    digits.foldl (fun value c => 16 * value + hexDigitValue c) value =
      value * Nat.pow 16 digits.length + placeValue digits := by
  induction digits generalizing value with
  | nil => simp [placeValue]
  | cons d digits ih =>
      have first : isHexDigit d = true := hex d (by simp)
      have others := ih fun x mem => hex x (by simp [mem])
      have place : Nat.pow 16 (digits.length + 1) = Nat.pow 16 digits.length * 16 := rfl
      rw [List.foldl_cons, others, hexDigitValue_eq first, placeValue, List.length_cons, place,
        Nat.add_mul, Nat.add_assoc, Nat.mul_comm 16 value, Nat.mul_assoc, Nat.mul_comm 16]

theorem hexValue_eq (hex : ∀ d ∈ digits, isHexDigit d = true) :
    hexValue digits = placeValue digits := by
  unfold hexValue
  rw [foldl_hexDigitValue hex, Nat.zero_mul, Nat.zero_add]

private theorem scalar?_eq_some_iff {n : Nat} : scalar? n = some c ↔ n = c.toNat := by
  by_cases valid : n.isValidChar
  · have named : scalar? n = some (Char.ofNatAux n valid) := dif_pos valid
    rw [named, Option.some.injEq]
    constructor
    · rintro rfl
      rfl
    · intro same
      exact Char.toNat_inj.mp same
  · have unnamed : scalar? n = none := dif_neg valid
    rw [unnamed]
    constructor
    · intro named
      cases named
    · rintro rfl
      exact absurd c.valid valid

theorem hexNumeral_iff :
    HexNumeral digits c ↔ (∀ d ∈ digits, isHexDigit d = true) ∧ namedChar? digits = some c := by
  have same_digits : (∀ d ∈ digits, isHexDigit d = true) ↔ ∀ d ∈ digits, d.toLower ∈ hexDigits :=
    forall₂_congr fun _ _ => isHexDigit_iff
  unfold HexNumeral namedChar?
  rw [same_digits]
  constructor
  · rintro ⟨nonempty, hex, value⟩
    refine ⟨hex, ?_⟩
    rw [if_neg (by simpa using nonempty), hexValue_eq (same_digits.mpr hex)]
    exact scalar?_eq_some_iff.mpr value
  · rintro ⟨hex, named⟩
    split at named
    · cases named
    · next nonempty =>
      rw [hexValue_eq (same_digits.mpr hex)] at named
      exact ⟨by simpa using nonempty, hex, scalar?_eq_some_iff.mp named⟩

end Digits

section Groups

variable {k inner : Captures} {s name : List Char} {body p : Pattern}

theorem isIdentifier_iff : isIdentifier name = true ↔ Identifier name := by
  cases name with
  | nil => simp [isIdentifier, Identifier]
  | cons c rest => simp [isIdentifier, Identifier, Char.isAlphanum, or_assoc]

instance : DecidablePred Identifier :=
  fun name => decidable_of_iff (isIdentifier name = true) isIdentifier_iff

theorem Identifier.mem (h : Identifier name) {x : Char} (mem : x ∈ name) :
    (x.isAlphanum || x == '_') = true := by
  cases name with
  | nil => simp at mem
  | cons first others =>
      simp only [Char.isAlphanum, Bool.or_eq_true, beq_iff_eq]
      rcases List.mem_cons.mp mem with rfl | mem
      · exact h.1.elim (fun alpha => .inl (.inl alpha)) .inr
      · exact or_assoc.mpr (h.2 x mem)

inductive Opens (k : Captures) : List Char → Opening → Prop
  | capture : Opens k ['('] .capture
  | plain : Opens k ['(', '?', ':'] .plain
  | atomic : Opens k ['(', '?', '>'] .atomic
  | ahead : Opens k ['(', '?', '='] (.look .ahead false)
  | notAhead : Opens k ['(', '?', '!'] (.look .ahead true)
  | behind : Opens k ['(', '?', '<', '='] (.look .behind false)
  | notBehind : Opens k ['(', '?', '<', '!'] (.look .behind true)
  | named {name : List Char} :
      Identifier name → String.ofList name ∉ k.names →
      Opens k ('(' :: '?' :: '<' :: name ++ ['>']) (.named (String.ofList name))

theorem Opens.length_pos {opening : Opening} (h : Opens k s opening) : 1 ≤ s.length := by
  cases h with
  | _ => simp

theorem encloses_iff :
    Encloses k body s inner p ↔
      ∃ opening, Opens k s opening ∧ inner = k.enter opening ∧ p = opening.close body := by
  constructor
  · intro encloses
    cases encloses with
    | capture => exact ⟨_, .capture, rfl, rfl⟩
    | named identifier fresh => exact ⟨_, .named identifier fresh, rfl, rfl⟩
    | plain => exact ⟨_, .plain, rfl, rfl⟩
    | atomic => exact ⟨_, .atomic, rfl, rfl⟩
    | ahead => exact ⟨_, .ahead, rfl, rfl⟩
    | notAhead => exact ⟨_, .notAhead, rfl, rfl⟩
    | behind => exact ⟨_, .behind, rfl, rfl⟩
    | notBehind => exact ⟨_, .notBehind, rfl, rfl⟩
  · rintro ⟨opening, opens, rfl, rfl⟩
    cases opens with
    | capture => exact .capture
    | named identifier fresh => exact .named identifier fresh
    | plain => exact .plain
    | atomic => exact .atomic
    | ahead => exact .ahead
    | notAhead => exact .notAhead
    | behind => exact .behind
    | notBehind => exact .notBehind

theorem Derives.of_opens {free : Bool} {k' : Captures} {s' after : List Char}
    {pss : List (List Pattern)} {opening : Opening} (opens : Opens k s opening)
    (inside : Derives free (k.enter opening) s' (')' :: after) (.branches pss) k')
    (proper : Proper pss) :
    Derives free k (s ++ s' ++ [')']) after (.atom (opening.close (treeOf pss))) k' :=
  .bracketed (encloses_iff.mpr ⟨opening, opens, rfl, rfl⟩) inside proper

end Groups

section Trees

variable {p : Pattern}

theorem branchOf_eq (ps : List Pattern) : branchOf ps = Pattern.collapse .sequence ps := by
  cases ps with
  | nil => rfl
  | cons p ps =>
      cases ps with
      | nil => rfl
      | cons q ps => rfl

theorem treeOf_eq (pss : List (List Pattern)) :
    treeOf pss = Pattern.collapse .alternation (pss.map (Pattern.collapse .sequence)) := by
  rw [← funext branchOf_eq]
  cases pss with
  | nil => rfl
  | cons ps pss =>
      cases pss with
      | nil => rfl
      | cons ps' pss => rfl

theorem treeOf_of_length {pss : List (List Pattern)} (several : pss.length ≠ 1) :
    treeOf pss = .alternation (pss.map branchOf) := by
  cases pss with
  | nil => rfl
  | cons ps pss =>
      cases pss with
      | nil => exact absurd rfl several
      | cons ps' pss => rfl

theorem isAnchor_eq_false_iff : p.isAnchor = false ↔ ∀ place, p ≠ .anchor place := by
  cases p with
  | _ => simp [Pattern.isAnchor]

theorem groupName?_eq_none_iff :
    p.groupName? = none ↔
      ∀ capturing body name atomic, p ≠ .group capturing body (some name) atomic := by
  cases p with
  | group capturing body name atomic =>
      cases name with
      | none => simp [Pattern.groupName?]
      | some s => exact iff_of_false (by simp [Pattern.groupName?]) fun apart => apart _ _ _ _ rfl
  | _ => simp [Pattern.groupName?]

end Trees

end PatternCompiler.Grammar
