import PatternCompiler.Proofs.NormalText

/-!
Emitted text, token by token. `tokens` cuts the text of a tree into characters, escapes, the numbers
of backreferences and the classes in brackets. Put together again the tokens are the text, and the
numbers among them are those of the tree, in the order of the walk. What stands in an emitted text,
and for which node, can thus be said of its tokens.
-/

set_option autoImplicit false
set_option relaxedAutoImplicit false

namespace PatternCompiler

open Pattern

def ClassItem.property? : ClassItem → Option String
  | .shorthand _ property => property
  | _ => none

namespace Pcre2

/-- A piece of emitted text: a character, a character behind a backslash, a backreference by number,
or a class in brackets. -/
inductive Token
  | char (c : Char)
  | escape (c : Char)
  | number (index : UInt32)
  | bracket (negated : Bool) (items : List ClassItem)
  deriving DecidableEq

namespace Token

def text : Token → List Char
  | .char c => [c]
  | .escape c => ['\\', c]
  | .number index => '\\' :: decimal index
  | .bracket negated items => bracketText negated items

def index? : Token → Option UInt32
  | .number index => some index
  | _ => none

end Token

/-- The text of some tokens, one token after the other. -/
def written (ts : List Token) : List Char :=
  ts.flatMap Token.text

/-- A text as characters and escapes: a backslash takes the character behind it along. -/
def lex : List Char → List Token
  | '\\' :: c :: rest => .escape c :: lex rest
  | c :: rest => .char c :: lex rest
  | [] => []

def classTokens (negated : Bool) (items : List ClassItem) : List Token :=
  if classText negated items = bracketText negated items then [.bracket negated items]
  else lex (classText negated items)

def wrappedTokens (wrap : Bool) (ts : List Token) : List Token :=
  if wrap then lex ['(', '?', ':'] ++ ts ++ lex [')'] else ts

mutual

/-- The tokens of a tree, `inSequence` telling whether it is a part of a sequence. -/
def tokens (extended inSequence : Bool) : Pattern → List Token
  | .literal text => lex (text.toList.flatMap (literalChar extended))
  | .anyChar => lex ['.']
  | .anchor place => lex (anchorText place)
  | .backreference (some index) none => [.number index]
  | .backreference index name => lex (backreferenceText index name)
  | .charClass negated items => classTokens negated items
  | .sequence parts => partTokens extended parts
  | .alternation branches =>
      wrappedTokens inSequence (List.intercalate (lex ['|']) (branchTokens extended branches))
  | .repetition body least most greed =>
      wrappedTokens (needsGroup body) (tokens extended false body) ++
        lex (boundsText least most ++ greedText greed)
  | .group capturing body name atomic =>
      lex (groupOpening capturing name atomic) ++ tokens extended false body ++ lex [')']
  | .look direction negative body =>
      lex (lookOpening direction negative) ++ tokens extended false body ++ lex [')']

/-- The tokens of the parts of a sequence, those of a number before a digit wrapped. -/
def partTokens (extended : Bool) : List Pattern → List Token
  | [] => []
  | p :: ps =>
      wrappedTokens (isNumbered p && digitNext (spellParts extended ps)) (tokens extended true p) ++
        partTokens extended ps

def branchTokens (extended : Bool) : List Pattern → List (List Token)
  | [] => []
  | p :: ps => tokens extended false p :: branchTokens extended ps

end

variable {extended inSequence : Bool} {ts us : List Token}

theorem lex_cons {c : Char} (other : c ≠ '\\') (rest : List Char) :
    lex (c :: rest) = .char c :: lex rest := by
  rw [lex]
  rintro _ _ rfl _
  exact other rfl

theorem mem_of_char_mem_lex {c : Char} {text : List Char} (mem : .char c ∈ lex text) :
    c ∈ text := by
  fun_induction lex text with
  | case1 d rest ih => simp_all
  | case2 d rest _ ih => grind
  | case3 => simp at mem

theorem branchTokens_eq (branches : List Pattern) :
    branchTokens extended branches = branches.map (tokens extended false) := by
  induction branches with
  | nil => rfl
  | cons p ps ih => rw [branchTokens, ih, List.map_cons]

section Written

@[simp]
private theorem written_nil : written [] = [] :=
  rfl

@[simp]
theorem written_cons (t : Token) (ts : List Token) : written (t :: ts) = t.text ++ written ts :=
  List.flatMap_cons

@[simp]
theorem written_append (ts us : List Token) : written (ts ++ us) = written ts ++ written us :=
  List.flatMap_append

@[simp]
theorem written_lex (text : List Char) : written (lex text) = text := by
  fun_induction lex text with
  | case1 c rest ih => simp [Token.text, ih]
  | case2 c rest _ ih => simp [Token.text, ih]
  | case3 => rfl

@[simp]
private theorem written_wrappedTokens (wrap : Bool) (ts : List Token) :
    written (wrappedTokens wrap ts) = wrapped wrap (written ts) := by
  cases wrap with
  | false => rfl
  | true => simp [wrappedTokens, wrapped]

private theorem written_classTokens (negated : Bool) (items : List ClassItem) :
    written (classTokens negated items) = classText negated items := by
  unfold classTokens
  split
  · next bracketed => simp [Token.text, bracketed]
  · exact written_lex _

private theorem written_intercalate (separator : List Token) (tss : List (List Token)) :
    written (List.intercalate separator tss) =
      List.intercalate (written separator) (tss.map written) := by
  induction tss with
  | nil => rfl
  | cons ts tss ih =>
      cases tss with
      | nil => simp [List.intercalate]
      | cons us tss =>
          simp only [List.intercalate, List.intersperse, List.flatten_cons, List.map_cons,
            written_append] at ih ⊢
          rw [ih]

theorem written_partTokens {ps : List Pattern}
    (each : ∀ p ∈ ps, written (tokens extended true p) = spell extended true p) :
    written (partTokens extended ps) = joinPieces (spellParts extended ps) := by
  induction ps with
  | nil => rfl
  | cons p ps ih =>
      obtain ⟨here, there⟩ := List.forall_mem_cons.mp each
      rw [partTokens, written_append, written_wrappedTokens, here, ih there, spellParts,
        joinPieces_cons]

/-- The tokens of a tree make up its text. -/
theorem written_tokens (p : Pattern) :
    written (tokens extended inSequence p) = spell extended inSequence p := by
  induction p generalizing inSequence with
  | sequence parts ih =>
      rw [tokens, spell]
      exact written_partTokens fun p mem => ih p mem
  | alternation branches ih =>
      have texts : branches.map (written ∘ tokens extended false) =
          branches.map (spell extended false) :=
        List.map_congr_left fun p mem => ih p mem
      rw [tokens, spell, written_wrappedTokens, written_intercalate, branchTokens_eq, List.map_map,
        texts, spellBranches_eq, written_lex]
  | repetition body least most greed ih => simp [tokens, spell, ih]
  | group capturing body name atomic ih => simp [tokens, spell, ih]
  | look direction negative body ih => simp [tokens, spell, ih]
  | charClass negated items => rw [tokens, spell, written_classTokens]
  | backreference index name =>
      fun_cases backreferenceText index name with
      | case1 => simp [tokens, spell]
      | case2 index => simp [tokens, spell, Token.text, backreferenceText]
      | case3 => simp [tokens, spell]
  | literal text => simp [tokens, spell]
  | anyChar => simp [tokens, spell]
  | anchor place => simp [tokens, spell]

end Written

section Numbers

def numbers (ts : List Token) : List UInt32 :=
  ts.filterMap Token.index?

@[simp]
private theorem numbers_append (ts us : List Token) :
    numbers (ts ++ us) = numbers ts ++ numbers us :=
  List.filterMap_append

theorem numbers_eq_nil_iff : numbers ts = [] ↔ ∀ index, .number index ∉ ts := by
  simp only [numbers, List.filterMap_eq_nil_iff]
  constructor
  · intro none index mem
    exact absurd (none _ mem) (by simp [Token.index?])
  · intro none t mem
    cases t with
    | number index => exact absurd mem (none index)
    | _ => rfl

@[simp]
theorem numbers_lex (text : List Char) : numbers (lex text) = [] := by
  fun_induction lex text with
  | case1 c rest ih => simpa [numbers, Token.index?] using ih
  | case2 c rest _ ih => simpa [numbers, Token.index?] using ih
  | case3 => rfl

@[simp]
private theorem numbers_wrappedTokens (wrap : Bool) (ts : List Token) :
    numbers (wrappedTokens wrap ts) = numbers ts := by
  cases wrap with
  | false => rfl
  | true => simp [wrappedTokens]

@[simp]
private theorem numbers_classTokens (negated : Bool) (items : List ClassItem) :
    numbers (classTokens negated items) = [] := by
  unfold classTokens
  split
  · rfl
  · exact numbers_lex _

private theorem numbers_intercalate {separator : List Token} (none : numbers separator = [])
    (tss : List (List Token)) :
    numbers (List.intercalate separator tss) = tss.flatMap numbers := by
  induction tss with
  | nil => rfl
  | cons ts tss ih =>
      cases tss with
      | nil => simp [List.intercalate]
      | cons us tss =>
          simp only [List.intercalate, List.intersperse, List.flatten_cons, numbers_append, none,
            List.nil_append] at ih ⊢
          exact congrArg (numbers ts ++ ·) ih

end Numbers

end Pcre2

open Pcre2

/-- The number by which a tree refers to a group, if that is what the tree does. -/
def Pattern.number? : Pattern → Option UInt32
  | .backreference (some index) none => some index
  | _ => none

/-- The numbers of the backreferences of a tree, in the order of the walk. -/
def Pattern.numbers (p : Pattern) : List UInt32 :=
  p.preorder.filterMap number?

private theorem Pattern.numbers_eq (p : Pattern) :
    p.numbers = p.number?.toList ++ p.children.flatMap Pattern.numbers := by
  rw [Pattern.numbers, preorder_eq, List.filterMap_cons, List.filterMap_flatMap]
  cases p.number? with
  | none => rfl
  | some index => rfl

private theorem Pcre2.numbers_partTokens {extended : Bool} {ps : List Pattern}
    (each : ∀ p ∈ ps, numbers (tokens extended true p) = p.numbers) :
    numbers (partTokens extended ps) = ps.flatMap Pattern.numbers := by
  induction ps with
  | nil => rfl
  | cons p ps ih =>
      obtain ⟨here, there⟩ := List.forall_mem_cons.mp each
      rw [partTokens, numbers_append, numbers_wrappedTokens, here, ih there, List.flatMap_cons]

/-- The numbers among the tokens of a tree are those of its backreferences. -/
theorem Pcre2.numbers_tokens {extended inSequence : Bool} (p : Pattern) :
    numbers (tokens extended inSequence p) = p.numbers := by
  induction p generalizing inSequence with
  | sequence parts ih =>
      rw [Pattern.numbers_eq, tokens]
      exact numbers_partTokens fun p mem => ih p mem
  | alternation branches ih =>
      have each : branches.flatMap (numbers ∘ tokens extended false) =
          branches.flatMap Pattern.numbers :=
        List.flatMap_congr fun p mem => ih p mem
      rw [Pattern.numbers_eq, tokens, numbers_wrappedTokens, numbers_intercalate (numbers_lex _),
        branchTokens_eq, List.flatMap_map]
      exact each
  | repetition body least most greed ih =>
      simp [Pattern.numbers_eq (.repetition ..), tokens, ih, number?, children]
  | group capturing body name atomic ih =>
      simp [Pattern.numbers_eq (.group ..), tokens, ih, number?, children]
  | look direction negative body ih =>
      simp [Pattern.numbers_eq (.look ..), tokens, ih, number?, children]
  | backreference index name =>
      rw [Pattern.numbers_eq]
      fun_cases backreferenceText index name with
      | case1 => simp [tokens, number?, children]
      | case2 index => rfl
      | case3 => simp [tokens, number?, children]
  | charClass negated items => simp [Pattern.numbers_eq, tokens, number?, children]
  | literal text => simp [Pattern.numbers_eq, tokens, number?, children]
  | anyChar => simp [Pattern.numbers_eq, tokens, number?, children]
  | anchor place => simp [Pattern.numbers_eq, tokens, number?, children]

end PatternCompiler
