import PatternCompiler.Proofs.Tokens

/-!
What an engine in its extended mode leaves out of an emitted text. The engine ignores characters
with the Unicode property `Pattern_White_Space`, and a comment from `#` to the end of its line,
unless a backslash or the brackets of a class shield them. The writer shields the characters with
the property `White_Space`. The two directional marks are of the first kind and not of the second;
nothing else in an emitted text is lost.
-/

set_option autoImplicit false
set_option relaxedAutoImplicit false

namespace PatternCompiler

open Pattern Pcre2

namespace Pcre2

def patternSpaceRanges : List (Nat × Nat) :=
  [(0x0009, 0x000D), (0x0020, 0x0020), (0x0085, 0x0085), (0x200E, 0x200F), (0x2028, 0x2029)]

def isPatternSpace (c : Char) : Bool :=
  Text.inRanges patternSpaceRanges c

/-- What the extended mode does not read as itself: white space, and the start of a comment. -/
def isLoose (c : Char) : Bool :=
  isPatternSpace c || c == '#'

def isSolid (text : List Char) : Bool :=
  text.all fun c => !isLoose c

def isMark (c : Char) : Bool :=
  Text.inRanges [(0x200E, 0x200F)] c

/-- The characters of a token, each with whether it stands bare: neither behind a backslash nor in
the brackets of a class. -/
def Token.exposed : Token → List (Char × Bool)
  | .char c => [(c, true)]
  | t => t.text.map fun c => (c, false)

/-- What the extended mode keeps of a text. A comment ends with its line, whatever stands in it. -/
def kept (inComment : Bool) : List (Char × Bool) → List Char
  | [] => []
  | (c, bare) :: rest =>
      if inComment then kept (c != '\n') rest
      else if bare && isPatternSpace c then kept false rest
      else if bare && c == '#' then kept true rest
      else c :: kept false rest

/-- Outside the brackets of classes, white space and `#` stand only behind a backslash of their
own. -/
def Shielded (ts : List Token) : Prop :=
  ∀ t ∈ ts, (∀ negated items, t ≠ .bracket negated items) →
    ∀ c ∈ t.text, isLoose c = true → t = .escape c

def Tight (ts : List Token) : Prop :=
  ∀ c, .char c ∈ ts → isLoose c = false

end Pcre2

namespace Pattern

def heldNames : Pattern → List String
  | .group _ _ name _ => name.toList
  | .backreference _ name => name.toList
  | .charClass _ items => items.filterMap ClassItem.property?
  | _ => []

/-- The names of a node have no white space and no `#`. -/
def TightNames (p : Pattern) : Prop :=
  ∀ name ∈ p.heldNames, isSolid name.toList = true

/-- A node that is no literal with a directional mark. -/
def Unmarked : Pattern → Prop
  | .literal text => ∀ c ∈ text.toList, isMark c = false
  | _ => True

end Pattern

namespace Pcre2

variable {inSequence : Bool} {p : Pattern} {ps : List Pattern} {ts us : List Token}

section Kept

private theorem length_kept_le (inComment : Bool) (xs : List (Char × Bool)) :
    (kept inComment xs).length ≤ xs.length := by
  induction xs generalizing inComment with
  | nil => simp [kept]
  | cons x rest ih =>
      have space := ih false
      have comment := ih true
      have line := ih (x.1 != '\n')
      rw [kept]
      split_ifs <;> simp only [List.length_cons] <;> omega

private theorem kept_loose {c : Char} (loose : isLoose c = true) (rest : List (Char × Bool)) :
    kept false ((c, true) :: rest) = kept (!isPatternSpace c) rest := by
  cases space : isPatternSpace c with
  | true => simp [kept, space]
  | false =>
      have hash : c = '#' := by simpa [isLoose, space] using loose
      simp [kept, hash, show isPatternSpace '#' = false by decide]

private theorem kept_solid {c : Char} {bare : Bool} (solid : (bare && isLoose c) = false)
    (rest : List (Char × Bool)) : kept false ((c, bare) :: rest) = c :: kept false rest := by
  simp only [isLoose, Bool.and_or_distrib_left, Bool.or_eq_false_iff] at solid
  simp [kept, solid.1, solid.2]

private theorem kept_eq_iff (xs : List (Char × Bool)) :
    kept false xs = xs.map Prod.fst ↔ ∀ c, (c, true) ∈ xs → isLoose c = false := by
  induction xs with
  | nil => simp [kept]
  | cons x rest ih =>
      obtain ⟨c, bare⟩ := x
      cases loose : bare && isLoose c with
      | true =>
          obtain ⟨rfl, out⟩ := Bool.and_eq_true_iff.mp loose
          rw [kept_loose out]
          constructor
          · intro same
            -- The character is left out, and nothing makes up for it.
            have short := length_kept_le (!isPatternSpace c) rest
            have length := congrArg List.length same
            simp only [List.map_cons, List.length_cons, List.length_map] at length
            omega
          · intro tight
            exact absurd (tight c List.mem_cons_self) (by simp [out])
      | false =>
          have head (d : Char) (same : (d, true) = (c, bare)) : isLoose d = false := by
            obtain ⟨rfl, rfl⟩ := Prod.mk.inj same
            exact loose
          rw [kept_solid loose, List.map_cons, List.cons_inj_right, ih]
          constructor
          · intro tight d mem
            rcases List.mem_cons.mp mem with same | mem
            · exact head d same
            · exact tight d mem
          · intro tight d mem
            exact tight d (List.mem_cons_of_mem _ mem)

private theorem map_fst_exposed (ts : List Token) :
    (ts.flatMap Token.exposed).map Prod.fst = written ts := by
  rw [List.map_flatMap, written]
  refine List.flatMap_congr fun t _ => ?_
  cases t with
  | char c => rfl
  | _ => simp [Token.exposed, Function.comp_def]

private theorem mem_exposed_iff {c : Char} :
    (c, true) ∈ ts.flatMap Token.exposed ↔ .char c ∈ ts := by
  rw [List.mem_flatMap]
  constructor
  · rintro ⟨t, mem, bare⟩
    cases t with
    | char d =>
        obtain rfl : c = d := by simpa [Token.exposed] using bare
        exact mem
    | _ => exact absurd bare (by simp [Token.exposed])
  · intro mem
    exact ⟨.char c, mem, by simp [Token.exposed]⟩

private theorem kept_exposed_iff :
    kept false (ts.flatMap Token.exposed) = written ts ↔ Tight ts := by
  rw [← map_fst_exposed, kept_eq_iff]
  exact forall_congr' fun c => by rw [mem_exposed_iff]

end Kept

section Solid

private theorem isSolid_iff {text : List Char} :
    isSolid text = true ↔ ∀ c ∈ text, isLoose c = false := by
  simp [isSolid]

@[simp]
private theorem isSolid_nil : isSolid [] = true :=
  rfl

@[simp]
private theorem isSolid_cons (c : Char) (text : List Char) :
    isSolid (c :: text) = (!isLoose c && isSolid text) :=
  rfl

@[simp]
private theorem isSolid_append (text rest : List Char) :
    isSolid (text ++ rest) = (isSolid text && isSolid rest) :=
  List.all_append

private theorem isLoose_iff_toNat {c : Char} : isLoose c = true ↔
    (9 ≤ c.toNat ∧ c.toNat ≤ 13) ∨ c.toNat = 32 ∨ c.toNat = 35 ∨ c.toNat = 133 ∨
      (8206 ≤ c.toNat ∧ c.toNat ≤ 8207) ∨ (8232 ≤ c.toNat ∧ c.toNat ≤ 8233) := by
  have hash : c = '#' ↔ c.toNat = 35 := ⟨by rintro rfl; rfl, fun h => Char.toNat_inj.mp h⟩
  simp only [isLoose, isPatternSpace, Text.inRanges, patternSpaceRanges, List.any_cons,
    List.any_nil, Bool.or_false, Bool.or_eq_true, Bool.and_eq_true, decide_eq_true_eq, beq_iff_eq,
    hash]
  omega

private theorem isLoose_of_isDigit {c : Char} (digit : c.isDigit = true) : isLoose c = false := by
  rw [Bool.eq_false_iff, Ne, isLoose_iff_toNat]
  rw [Char.isDigit_iff_toNat] at digit
  simp only [Char.reduceToNat] at digit
  omega

private theorem isSolid_decimal (n : UInt32) : isSolid (decimal n) = true :=
  isSolid_iff.mpr fun c mem => isLoose_of_isDigit ((numeral_decimal n).2.1 c mem)

end Solid

section Tight

private theorem shielded_iff_tight : Shielded ts ↔ Tight ts := by
  constructor
  · intro shielded c mem
    by_contra loose
    have escape := shielded _ mem (by simp) c (by simp [Token.text]) (by simpa using loose)
    exact absurd escape (by simp)
  · intro tight t mem outside c char loose
    cases t with
    | char d =>
        obtain rfl : c = d := by simpa [Token.text] using char
        exact absurd loose (by simp [tight c mem])
    | escape d =>
        rcases List.mem_pair.mp char with rfl | rfl
        · exact absurd loose (by decide)
        · rfl
    | number index =>
        rcases List.mem_cons.mp char with rfl | digit
        · exact absurd loose (by decide)
        · exact absurd loose (by simp [isSolid_iff.mp (isSolid_decimal index) c digit])
    | bracket negated items => exact absurd rfl (outside negated items)

@[simp]
private theorem tight_append : Tight (ts ++ us) ↔ Tight ts ∧ Tight us := by
  simp only [Tight, List.mem_append, or_imp, forall_and]

private theorem tight_lex {text : List Char} (solid : isSolid text = true) : Tight (lex text) :=
  fun _ mem => isSolid_iff.mp solid _ (mem_of_char_mem_lex mem)

@[simp]
private theorem tight_wrappedTokens {wrap : Bool} : Tight (wrappedTokens wrap ts) ↔ Tight ts := by
  have opening : Tight (lex ['(', '?', ':']) := tight_lex (by decide)
  have closing : Tight (lex [')']) := tight_lex (by decide)
  cases wrap with
  | false => rfl
  | true => simp [wrappedTokens, opening, closing]

private theorem tight_intercalate {separator : List Token} (tight : Tight separator)
    (tss : List (List Token)) :
    Tight (List.intercalate separator tss) ↔ ∀ ts ∈ tss, Tight ts := by
  induction tss with
  | nil => simp [List.intercalate, Tight]
  | cons ts tss ih =>
      cases tss with
      | nil => simp [List.intercalate]
      | cons us tss =>
          have split : List.intercalate separator (ts :: us :: tss) =
              ts ++ (separator ++ List.intercalate separator (us :: tss)) := by
            simp [List.intercalate]
          rw [split, tight_append, tight_append, List.forall_mem_cons, ih]
          exact and_congr_right fun _ => and_iff_right tight

private theorem tight_partTokens :
    Tight (partTokens true ps) ↔ ∀ p ∈ ps, Tight (tokens true true p) := by
  induction ps with
  | nil => simp [partTokens, Tight]
  | cons p ps ih => rw [partTokens, tight_append, tight_wrappedTokens, ih, List.forall_mem_cons]

end Tight

section Literals

private theorem isMark_iff {c : Char} :
    isMark c = true ↔ isLoose c = true ∧ (Text.isBlank c || c == '#') = false := by
  have hash : c = '#' ↔ c.toNat = 35 := ⟨by rintro rfl; rfl, fun h => Char.toNat_inj.mp h⟩
  rw [Bool.eq_false_iff, Ne, isLoose_iff_toNat]
  simp only [isMark, Text.isBlank, Text.inRanges, Text.blankRanges, List.any_cons,
    List.any_nil, Bool.or_false, Bool.or_eq_true, Bool.and_eq_true, decide_eq_true_eq, beq_iff_eq,
    hash]
  omega

private theorem ne_backslash_of_not_isLiteralMeta {c : Char} (plain : ¬ isLiteralMeta c = true) :
    c ≠ '\\' := by
  rintro rfl
  exact plain (by decide)

private theorem isLoose_of_isLiteralMeta {c : Char} (special : isLiteralMeta c = true) :
    isLoose c = false := by
  have each : isSolid ['.', '^', '$', '|', '(', ')', '?', '*', '+', '{', '}', '[', ']', '\\'] =
      true := by decide
  exact isSolid_iff.mp each c (by simpa only [isLiteralMeta, decide_eq_true_eq] using special)

private theorem lex_literalChar (extended : Bool) (c : Char) (rest : List Char) :
    lex (literalChar extended c ++ rest) = lex (literalChar extended c) ++ lex rest := by
  unfold literalChar spaceEscape
  split
  · simp [lex]
  · next plain =>
      have other := ne_backslash_of_not_isLiteralMeta plain
      split_ifs
      all_goals simp [lex, lex_cons, other]

private theorem tight_spaceEscape (c : Char) : Tight (lex (spaceEscape c)) := by
  unfold spaceEscape
  split_ifs
  all_goals simp [lex, Tight, isLoose, isPatternSpace, Text.inRanges, patternSpaceRanges]

private theorem tight_literalChar {c : Char} :
    Tight (lex (literalChar true c)) ↔ isMark c = false := by
  rw [Bool.eq_false_iff, Ne, isMark_iff]
  unfold literalChar
  split
  · next special => simp [lex, Tight, isLoose_of_isLiteralMeta special]
  · next plain =>
      have other := ne_backslash_of_not_isLiteralMeta plain
      rw [Bool.true_and]
      split
      · next spaced => simp [tight_spaceEscape, spaced]
      · next solid => simp [lex_cons other, lex, Tight, Bool.eq_false_iff.mpr solid]

private theorem tight_literal (text : List Char) :
    Tight (lex (text.flatMap (literalChar true))) ↔ ∀ c ∈ text, isMark c = false := by
  induction text with
  | nil => simp [lex, Tight]
  | cons c text ih =>
      rw [List.flatMap_cons, lex_literalChar, tight_append, tight_literalChar, ih,
        List.forall_mem_cons]

end Literals

section Leaves

private theorem isSolid_bracedName {name : String} (solid : isSolid name.toList = true) :
    isSolid (bracedName name) = true := by
  simp [bracedName, solid, isLoose, isPatternSpace, Text.inRanges, patternSpaceRanges]

private theorem isSolid_bareShorthand {kind : Shorthand} {property : Option String}
    {text : List Char} (solid : ∀ name ∈ property, isSolid name.toList = true)
    (found : bareShorthand kind property = some text) : isSolid text = true := by
  have backslash : isLoose '\\' = false := by decide
  have letter : isLoose kind.letter = false := by
    obtain ⟨family, negated⟩ := kind
    cases family <;> cases negated <;> decide
  unfold bareShorthand at found
  split at found
  · cases property with
    | none => simp at found
    | some name =>
        obtain ⟨-, rfl⟩ : ¬ name = "" ∧ '\\' :: kind.letter :: bracedName name = text := by
          simpa using found
        simp [backslash, letter, isSolid_bracedName (solid name rfl)]
  · obtain rfl : ['\\', kind.letter] = text := by simpa using found
    simp [backslash, letter]

private theorem tight_classTokens {negated : Bool} {items : List ClassItem}
    (names : (charClass negated items).TightNames) : Tight (classTokens negated items) := by
  unfold classTokens
  split
  · simp [Tight]
  · next bare =>
      refine tight_lex ?_
      revert bare
      fun_cases classText negated items with
      | case1 kind property text found =>
          intro _
          refine isSolid_bareShorthand (fun name mem => names name ?_) found
          simpa [heldNames, ClassItem.property?] using mem
      | case2 => simp
      | case3 => simp

private theorem isSolid_boundsText (least : UInt32) (most : Bound) :
    isSolid (boundsText least most) = true := by
  unfold boundsText
  repeat' split
  all_goals simp [isSolid_decimal, isLoose, isPatternSpace, Text.inRanges, patternSpaceRanges]

private theorem isSolid_groupOpening {capturing atomic : Bool} {name : Option String}
    (solid : ∀ text ∈ name, isSolid text.toList = true) :
    isSolid (groupOpening capturing name atomic) = true := by
  fun_cases groupOpening capturing name atomic with
  | case2 name => simp [solid, isLoose, isPatternSpace, Text.inRanges, patternSpaceRanges]
  | _ => rfl

private theorem isSolid_backreferenceText {index : Option UInt32} {name : Option String}
    (solid : ∀ text ∈ name, isSolid text.toList = true) :
    isSolid (backreferenceText index name) = true := by
  fun_cases backreferenceText index name with
  | case1 _ name => simp [solid, isLoose, isPatternSpace, Text.inRanges, patternSpaceRanges]
  | case2 index =>
      simp [isSolid_decimal, isLoose, isPatternSpace, Text.inRanges, patternSpaceRanges]
  | case3 => rfl

end Leaves

/-- The text of a tree with tight names is tight exactly if no literal of the tree has a mark. -/
theorem tight_tokens_iff (names : p.Throughout TightNames) :
    Tight (tokens true inSequence p) ↔ p.Throughout Unmarked := by
  induction p generalizing inSequence with
  | sequence parts ih =>
      have below := (throughout_iff.mp names).2
      have each : (∀ p ∈ parts, Tight (tokens true true p)) ↔
          ∀ p ∈ parts, p.Throughout Unmarked :=
        forall₂_congr fun p mem => ih p mem (below p mem)
      rw [tokens, tight_partTokens, each, throughout_iff]
      simp [Unmarked, children]
  | alternation branches ih =>
      have below := (throughout_iff.mp names).2
      have each : (∀ p ∈ branches, Tight (tokens true false p)) ↔
          ∀ p ∈ branches, p.Throughout Unmarked :=
        forall₂_congr fun p mem => ih p mem (below p mem)
      have bar : Tight (lex ['|']) := tight_lex (by decide)
      rw [tokens, tight_wrappedTokens, tight_intercalate bar, branchTokens_eq, List.forall_mem_map,
        each, throughout_iff]
      simp [Unmarked, children]
  | repetition body least most greed ih =>
      have mark : isSolid (greedText greed) = true := by cases greed <;> rfl
      have bounds : Tight (lex (boundsText least most ++ greedText greed)) :=
        tight_lex (by rw [isSolid_append, isSolid_boundsText, mark, Bool.and_self])
      rw [tokens, tight_append, tight_wrappedTokens, ih (throughout_repetition.mp names).2,
        throughout_repetition]
      simp [bounds, Unmarked]
  | group capturing body name atomic ih =>
      obtain ⟨here, below⟩ := throughout_group.mp names
      have opening : Tight (lex (groupOpening capturing name atomic)) :=
        tight_lex (isSolid_groupOpening (by simpa [TightNames, heldNames] using here))
      have closing : Tight (lex [')']) := tight_lex (by decide)
      rw [tokens, tight_append, tight_append, ih below, throughout_group]
      simp [opening, closing, Unmarked]
  | look direction negative body ih =>
      have opening : Tight (lex (lookOpening direction negative)) := by
        refine tight_lex ?_
        cases direction <;> cases negative <;> rfl
      have closing : Tight (lex [')']) := tight_lex (by decide)
      rw [tokens, tight_append, tight_append, ih (throughout_look.mp names).2, throughout_look]
      simp [opening, closing, Unmarked]
  | charClass negated items =>
      have here := (throughout_iff.mp names).1
      rw [throughout_leaf rfl]
      simp [tokens, tight_classTokens here, Unmarked]
  | backreference index name =>
      have here := (throughout_iff.mp names).1
      have text : isSolid (backreferenceText index name) = true :=
        isSolid_backreferenceText (by simpa [TightNames, heldNames] using here)
      rw [throughout_leaf rfl]
      fun_cases backreferenceText index name with
      | case2 index => simp [tokens, Tight, Unmarked]
      | _ => simp [tokens, tight_lex text, Unmarked]
  | literal text =>
      rw [throughout_leaf rfl, tokens, tight_literal]
      rfl
  | anyChar =>
      have dot : Tight (lex ['.']) := tight_lex (by decide)
      rw [throughout_leaf rfl, tokens]
      simp [dot, Unmarked]
  | anchor place =>
      have text : isSolid (anchorText place) = true := by cases place <;> rfl
      rw [throughout_leaf rfl, tokens]
      simp [tight_lex text, Unmarked]

end Pcre2

/-- In the extended mode, the tokens of the emitted text of a tree with tight names shield white
space and `#` exactly if no literal of the tree has a directional mark, and exactly then the engine
leaves nothing of the text out. -/
theorem emit_shielded_iff (flags : Flags) (p : Pattern) (extended : flags.extended = true)
    (names : p.Throughout TightNames) :
    let ts := tokens flags.extended false p
    emit false flags p = written ts ∧
      (Shielded ts ↔ p.Throughout Unmarked) ∧
      (kept false (ts.flatMap Token.exposed) = written ts ↔ p.Throughout Unmarked) := by
  intro ts
  have tight : Tight ts ↔ p.Throughout Unmarked := by
    simp only [ts, extended]
    exact tight_tokens_iff names
  refine ⟨?_, shielded_iff_tight.trans tight, kept_exposed_iff.trans tight⟩
  rw [emit, written_tokens]
  rfl

/-- White space of several kinds and a comment sign, in literals, in a class and in a group. -/
theorem emit_shielded_iff_spaced :
    let p := Pattern.sequence [.literal "a #\u000b\n\u2028", .charClass true [.char ' ', .char '#'],
      .group true (.literal "\u0085b") (some "name") false]
    let ts := tokens true false p
    p.Throughout TightNames ∧
      String.ofList (emit false { extended := true } p) =
        "a\\ \\#\\x\x7bb\x7d\\n\\\u2028[^ #](?<name>\\\u0085b)" ∧
      kept false (ts.flatMap Token.exposed) = written ts ∧ p.Throughout Unmarked ∧ Shielded ts := by
  intro p ts
  have names : p.Throughout TightNames := by
    simp [p, Throughout, preorder, TightNames, heldNames, ClassItem.property?, isLoose,
      isPatternSpace, Text.inRanges, patternSpaceRanges]
  have whole : kept false (ts.flatMap Token.exposed) = written ts := by decide +kernel
  obtain ⟨-, shielded, kept⟩ := emit_shielded_iff { extended := true } p rfl names
  have unmarked := kept.mp whole
  exact ⟨names, by decide +kernel, whole, unmarked, shielded.mpr unmarked⟩

/-- Directional marks are written bare, and the engine leaves them out. -/
theorem emit_marks_ignored :
    let p := Pattern.literal "a\u200eb\u200f"
    let ts := tokens true false p
    p.Throughout TightNames ∧
      String.ofList (emit false { extended := true } p) = "a\u200eb\u200f" ∧
      ¬ Shielded ts ∧ String.ofList (kept false (ts.flatMap Token.exposed)) = "ab" := by
  intro p ts
  refine ⟨?_, by decide +kernel, ?_, by decide +kernel⟩
  · exact (throughout_leaf rfl).mpr (by simp [p, TightNames, heldNames])
  · intro shielded
    have same : ts = [.char 'a', .char '\u200e', .char 'b', .char '\u200f'] := by decide +kernel
    have mark : .char '\u200e' ∈ ts := by simp [same]
    have escape := shielded _ mark (by simp) '\u200e' (by simp [Token.text]) (by decide)
    exact absurd escape (by simp)

end PatternCompiler
