import PatternCompiler.Reading.Captures

/-!
The grammar of pattern texts, stated by rules and apart from the reader: its letters, its trees and
its table of groups are written out here, and none of the reader's functions is used. A rule relates
a text to what it spells. Where the text that follows decides whether a spelling is one, the rule
names that text as well, always called `after`. `Spelling` is the relation between a whole body and
its tree.
-/

set_option autoImplicit false
set_option relaxedAutoImplicit false

namespace PatternCompiler.Grammar

def DigitAhead : List Char → Prop
  | [] => False
  | c :: _ => c.isDigit = true

def EndsLine : List Char → Prop
  | [] => True
  | c :: _ => c = '\r' ∨ c = '\n'

/-- What may stand between terms: nothing, or in free spacing also white space and comments, which
run up to the end of their line. -/
inductive Spacing : Bool → List Char → List Char → Prop
  | nil {free : Bool} {after : List Char} : Spacing free [] after
  | blank {c : Char} {s after : List Char} :
      c ∈ [' ', '\t', '\r', '\n'] → Spacing true s after → Spacing true (c :: s) after
  | comment {body s after : List Char} :
      (∀ c ∈ body, c ≠ '\r' ∧ c ≠ '\n') → EndsLine (s ++ after) → Spacing true s after →
      Spacing true ('#' :: body ++ s) after

def Numeral (digits : List Char) (n : UInt32) : Prop :=
  digits ≠ [] ∧ (∀ c ∈ digits, c.isDigit = true) ∧ Nat.ofDigitChars 10 digits 0 = n.toNat

/-- The hexadecimal digits in the order of their values. -/
def hexDigits : List Char :=
  ['0', '1', '2', '3', '4', '5', '6', '7', '8', '9', 'a', 'b', 'c', 'd', 'e', 'f']

/-- The number that hexadecimal digits of either case denote by their places. -/
def placeValue : List Char → Nat
  | [] => 0
  | d :: digits => hexDigits.idxOf d.toLower * Nat.pow 16 digits.length + placeValue digits

def HexNumeral (digits : List Char) (c : Char) : Prop :=
  digits ≠ [] ∧ (∀ d ∈ digits, d.toLower ∈ hexDigits) ∧ placeValue digits = c.toNat

/-- A numeric escape after its backslash, with the character that it names. -/
inductive NumericEscape : List Char → Char → Prop
  | braced {letter : Char} {digits : List Char} {c : Char} :
      letter ∈ ['x', 'u'] → HexNumeral digits c →
      NumericEscape (letter :: '{' :: digits ++ ['}']) c
  | fixed {letter : Char} {digits : List Char} {c : Char} :
      (letter, digits.length) ∈ [('x', 2), ('u', 4), ('U', 8)] → HexNumeral digits c →
      NumericEscape (letter :: digits) c

def classLetters : List (Char × Shorthand) :=
  [('d', ⟨.digit, false⟩), ('D', ⟨.digit, true⟩), ('w', ⟨.word, false⟩), ('W', ⟨.word, true⟩),
    ('s', ⟨.space, false⟩), ('S', ⟨.space, true⟩)]

def propertyLetters : List (Char × Shorthand) :=
  [('p', ⟨.property, false⟩), ('P', ⟨.property, true⟩)]

def controlLetters : List (Char × Char) :=
  [('n', '\n'), ('t', '\t'), ('r', '\r'), ('f', '\x0c'), ('v', '\x0b')]

def anchorLetters : List (Char × Anchor) :=
  [('b', .wordBoundary), ('B', .notWordBoundary), ('A', .absoluteStart),
    ('Z', .endBeforeFinalNewline), ('z', .absoluteEnd)]

/-- A class escape after its backslash; the property escapes carry a name in braces. -/
inductive ClassEscape : List Char → Shorthand → Option String → Prop
  | plain {letter : Char} {kind : Shorthand} :
      (letter, kind) ∈ classLetters → ClassEscape [letter] kind none
  | property {letter : Char} {kind : Shorthand} {name : List Char} :
      (letter, kind) ∈ propertyLetters → '}' ∉ name →
      ClassEscape (letter :: '{' :: name ++ ['}']) kind (some (String.ofList name))

/-- One item of a bracket class: a raw character or an escape. -/
inductive Item : List Char → ClassItem → Prop
  | raw {c : Char} : c ≠ '\\' → Item [c] (.char c)
  | shorthand {s : List Char} {kind : Shorthand} {property : Option String} :
      ClassEscape s kind property → Item ('\\' :: s) (.shorthand kind property)
  | numeric {s : List Char} {c : Char} : NumericEscape s c → Item ('\\' :: s) (.char c)
  | nul : Item ['\\', '0'] (.char '\x00')
  | backspace : Item ['\\', 'b'] (.char '\x08')
  | control {letter c : Char} : (letter, c) ∈ controlLetters → Item ['\\', letter] (.char c)
  | identity {c : Char} :
      c ∉ ['d', 'D', 'w', 'W', 's', 'S', 'p', 'P', 'n', 't', 'r', 'f', 'v', 'x', 'u', 'U', '0',
        'b'] →
      Item ['\\', c] (.char c)

def AfterLiteral (items : List ClassItem) : Prop :=
  ∃ c before, items = .char c :: before

/-- One more item, or a dash and the item after it; the last item heads each list. A raw `-` after a
literal is data only before the closing bracket. Elsewhere it makes a range with a literal that
follows it, and is data again when a class escape follows. -/
inductive Extends : List ClassItem → List Char → List Char → List ClassItem → Prop
  | item {s after : List Char} {items : List ClassItem} {item : ClassItem} :
      Item s item → (s = ['-'] → AfterLiteral items → after.head? = some ']') →
      Extends items s after (item :: items)
  | range {s after : List Char} {items : List ClassItem} {first last : Char} :
      Item s (.char last) → s ≠ [']'] → first ≤ last →
      Extends (.char first :: items) ('-' :: s) after (.range first last :: items)
  | dash {s after : List Char} {items : List ClassItem} {first : Char} {kind : Shorthand}
      {property : Option String} :
      Item s (.shorthand kind property) →
      Extends (.char first :: items) ('-' :: s) after
        (.shorthand kind property :: .char '-' :: .char first :: items)

/-- The items that a text inside a class spells, the last one first. A raw `]` is data in front
only. -/
inductive Items : List Char → List Char → List ClassItem → Prop
  | nil {after : List Char} : Items [] after []
  | snoc {s s' after : List Char} {items items' : List ClassItem} :
      Items s (s' ++ after) items → Extends items s' after items' → (s' = [']'] → s = []) →
      Items (s ++ s') after items'

/-- A bracket class; it is negated by a `^` right after the bracket. -/
inductive BracketClass : List Char → List Char → Bool → List ClassItem → Prop
  | plain {s after : List Char} {items : List ClassItem} :
      Items s (']' :: after) items → s ≠ [] → s.head? ≠ some '^' →
      BracketClass ('[' :: s ++ [']']) after false items.reverse
  | negated {s after : List Char} {items : List ClassItem} :
      Items s (']' :: after) items → s ≠ [] →
      BracketClass ('[' :: '^' :: s ++ [']']) after true items.reverse

/-- A character that stands for itself outside classes. A brace does so unless a digit follows. -/
def Ordinary (free : Bool) (c : Char) (after : List Char) : Prop :=
  c ∉ ['.', '^', '$', '|', '(', ')', '[', '\\', '*', '+', '?'] ∧
    (c = '{' → ¬ DigitAhead after) ∧ (free = true → c ∉ [' ', '\t', '\r', '\n', '#'])

/-- The atoms other than bracketed groups. A backreference names a group opened before it. -/
inductive Leaf (free : Bool) (captures : Captures) : List Char → List Char → Pattern → Prop
  | anyChar {after : List Char} : Leaf free captures ['.'] after .anyChar
  | lineStart {after : List Char} : Leaf free captures ['^'] after (.anchor .lineStart)
  | lineEnd {after : List Char} : Leaf free captures ['$'] after (.anchor .lineEnd)
  | ordinary {c : Char} {after : List Char} :
      Ordinary free c after → Leaf free captures [c] after (.literal (String.singleton c))
  | bracketClass {s after : List Char} {negated : Bool} {items : List ClassItem} :
      BracketClass s after negated items → Leaf free captures s after (.charClass negated items)
  | number {digits after : List Char} {n : UInt32} :
      Numeral digits n → digits.head? ≠ some '0' → ¬ DigitAhead after →
      n ≤ captures.counter →
      Leaf free captures ('\\' :: digits) after (.backreference (some n) none)
  | name {name after : List Char} :
      '>' ∉ name → String.ofList name ∈ captures.names →
      Leaf free captures ('\\' :: 'k' :: '<' :: name ++ ['>']) after
        (.backreference none (some (String.ofList name)))
  | shorthand {s after : List Char} {kind : Shorthand} {property : Option String} :
      ClassEscape s kind property →
      Leaf free captures ('\\' :: s) after (.charClass false [.shorthand kind property])
  | anchor {letter : Char} {after : List Char} {place : Anchor} :
      (letter, place) ∈ anchorLetters →
      Leaf free captures ['\\', letter] after (.anchor place)
  | nul {after : List Char} :
      Leaf free captures ['\\', '0'] after (.literal (String.singleton '\x00'))
  | numeric {s after : List Char} {c : Char} :
      NumericEscape s c → Leaf free captures ('\\' :: s) after (.literal (String.singleton c))
  | control {letter c : Char} {after : List Char} :
      (letter, c) ∈ controlLetters →
      Leaf free captures ['\\', letter] after (.literal (String.singleton c))
  | identity {c : Char} {after : List Char} :
      c.isAlpha = false → c.isDigit = false →
      Leaf free captures ['\\', c] after (.literal (String.singleton c))

/-- An ASCII letter or an underscore, with letters, digits and underscores after it. -/
def Identifier : List Char → Prop
  | [] => False
  | c :: rest =>
      (c.isAlpha = true ∨ c = '_') ∧ ∀ x ∈ rest, x.isAlpha = true ∨ x.isDigit = true ∨ x = '_'

/-- What encloses a body: the opening text, the table of groups inside, and the tree that is made of
the body. The name of a group is an identifier that no earlier group has. -/
inductive Encloses (k : Captures) (body : Pattern) : List Char → Captures → Pattern → Prop
  | capture : Encloses k body ['('] ⟨k.counter + 1, k.names⟩ (.group true body none false)
  | named {name : List Char} :
      Identifier name → String.ofList name ∉ k.names →
      Encloses k body ('(' :: '?' :: '<' :: name ++ ['>'])
        ⟨k.counter + 1, k.names ++ [String.ofList name]⟩
        (.group true body (some (String.ofList name)) false)
  | plain : Encloses k body ['(', '?', ':'] k (.group false body none false)
  | atomic : Encloses k body ['(', '?', '>'] k (.group false body none true)
  | ahead : Encloses k body ['(', '?', '='] k (.look .ahead false body)
  | notAhead : Encloses k body ['(', '?', '!'] k (.look .ahead true body)
  | behind : Encloses k body ['(', '?', '<', '='] k (.look .behind false body)
  | notBehind : Encloses k body ['(', '?', '<', '!'] k (.look .behind true body)

inductive Bounds : List Char → UInt32 → Bound → Prop
  | star : Bounds ['*'] 0 .unbounded
  | plus : Bounds ['+'] 1 .unbounded
  | optional : Bounds ['?'] 0 (.finite 1)
  | exactly {digits : List Char} {n : UInt32} :
      Numeral digits n → Bounds ('{' :: digits ++ ['}']) n (.finite n)
  | atLeast {digits : List Char} {n : UInt32} :
      Numeral digits n → Bounds ('{' :: digits ++ [',', '}']) n .unbounded
  | between {low high : List Char} {m n : UInt32} :
      Numeral low m → Numeral high n → m ≤ n →
      Bounds ('{' :: low ++ ',' :: (high ++ ['}'])) m (.finite n)

inductive Mark : List Char → Greed → Prop
  | greedy : Mark [] .greedy
  | lazy : Mark ['?'] .lazy
  | possessive : Mark ['+'] .possessive

/-- What follows an atom immediately: nothing or a quantifier. Anchors and named groups take no
quantifier. -/
inductive Quantified (atom : Pattern) : List Char → Pattern → Prop
  | bare : Quantified atom [] atom
  | repeated {s s' : List Char} {least : UInt32} {most : Bound} {greed : Greed} :
      (∀ place, atom ≠ .anchor place) →
      (∀ capturing body name atomic, atom ≠ .group capturing body (some name) atomic) →
      Bounds s least most → Mark s' greed →
      Quantified atom (s ++ s') (.repetition atom least most greed)

/-- The phrases of the grammar, each with the trees that it spells. -/
inductive Phrase
  | atom (p : Pattern)
  | term (p : Pattern)
  | terms (ps : List Pattern)
  | branches (pss : List (List Pattern))

def Proper (pss : List (List Pattern)) : Prop :=
  2 ≤ pss.length → [] ∉ pss

def branchOf : List Pattern → Pattern
  | [p] => p
  | ps => .sequence ps

def treeOf : List (List Pattern) → Pattern
  | [ps] => branchOf ps
  | pss => .alternation (pss.map branchOf)

/-- The texts of the phrases. A phrase is read among the groups opened before it, and the last
argument is the table of groups after it. -/
inductive Derives (free : Bool) : Captures → List Char → List Char → Phrase → Captures → Prop
  | leaf {k : Captures} {s after : List Char} {p : Pattern} :
      Leaf free k s after p → Derives free k s after (.atom p) k
  | bracketed {k inner k' : Captures} {s s' after : List Char} {pss : List (List Pattern)}
      {p : Pattern} :
      Encloses k (treeOf pss) s inner p → Derives free inner s' (')' :: after) (.branches pss) k' →
      Proper pss → Derives free k (s ++ s' ++ [')']) after (.atom p) k'
  | term {k k' : Captures} {s s' after : List Char} {p q : Pattern} :
      Derives free k s (s' ++ after) (.atom p) k' → Quantified p s' q →
      Derives free k (s ++ s') after (.term q) k'
  | nil {k : Captures} {after : List Char} : Derives free k [] after (.terms []) k
  | cons {k k' k'' : Captures} {gap s s' after : List Char} {p : Pattern} {ps : List Pattern} :
      Spacing free gap (s ++ (s' ++ after)) → Derives free k s (s' ++ after) (.term p) k' →
      Derives free k' s' after (.terms ps) k'' →
      Derives free k (gap ++ (s ++ s')) after (.terms (p :: ps)) k''
  | single {k k' : Captures} {s gap after : List Char} {ps : List Pattern} :
      Derives free k s (gap ++ after) (.terms ps) k' → Spacing free gap after →
      Derives free k (s ++ gap) after (.branches [ps]) k'
  | bar {k k' k'' : Captures} {s gap s' after : List Char} {ps : List Pattern}
      {pss : List (List Pattern)} :
      Derives free k s (gap ++ '|' :: (s' ++ after)) (.terms ps) k' →
      Spacing free gap ('|' :: (s' ++ after)) → Derives free k' s' after (.branches pss) k'' →
      Derives free k (s ++ (gap ++ '|' :: s')) after (.branches (ps :: pss)) k''

def SpellingWith (free : Bool) (body : List Char) (p : Pattern) (captures : Captures) : Prop :=
  ∃ pss, Derives free {} body [] (.branches pss) captures ∧ Proper pss ∧ p = treeOf pss

def Spelling (free : Bool) (body : List Char) (p : Pattern) : Prop :=
  ∃ captures, SpellingWith free body p captures

end PatternCompiler.Grammar
