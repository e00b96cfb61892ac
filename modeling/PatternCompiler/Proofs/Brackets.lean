import PatternCompiler.Proofs.Tokens

/-!
POSIX items in emitted classes. Inside the brackets of a class, and even for its opening bracket, an
engine reads `[:`, `[.` or `[=` as the start of a POSIX item, if the same mark stands before a
closing bracket further on. The writer escapes each item of a class on its own and leaves `[` and
the marks as they are, so neighbouring items can spell one together: one that ends in `[` before one
that begins with a mark. The last item of the class then has to end in that mark too, for the other
closing brackets are behind a backslash. The name of a property is written as it is, so it can open
and close a POSIX item by itself.
-/

set_option autoImplicit false
set_option relaxedAutoImplicit false

namespace PatternCompiler

open Pcre2

namespace Pcre2

def posixMarks : List Char :=
  [':', '.', '=']

/-- A text with a bracket that no backslash escapes, a mark right behind it, and the same mark once
more right before a closing bracket. -/
def HasPosixItem (text : List Char) : Prop :=
  ∃ mark ∈ posixMarks, ∃ before after, lex text = before ++ .char '[' :: .char mark :: after ∧
    [mark, ']'] <:+: written after

def itemsText (items : List ClassItem) : List Char :=
  items.flatMap classItemText

end Pcre2

namespace ClassItem

/-- The character with which an item begins, unless it is a class escape. -/
def first? : ClassItem → Option Char
  | .char c => some c
  | .range first _ => some first
  | .shorthand .. => none

def last? : ClassItem → Option Char
  | .char c => some c
  | .range _ last => some last
  | .shorthand .. => none

def name? : ClassItem → Option String
  | .shorthand kind (some name) => if kind.isProperty then some name else none
  | _ => none

/-- The mark stands before a closing bracket: in the name of one of the items, or because the last
of them ends in it. -/
def Closes (mark : Char) (items : List ClassItem) : Prop :=
  (∃ item ∈ items, ∃ name ∈ item.name?, [mark, ']'] <:+: name.toList) ∨
    items.getLast?.bind last? = some mark

/-- Items that spell a POSIX item. Either one ends in a bracket and the next begins with a mark that
those from there on close, or a name has both side by side and goes on to close the mark, unless
the items behind it do. -/
def SpellPosixItem (items : List ClassItem) : Prop :=
  ∃ mark ∈ posixMarks,
    (∃ front a b more, items = front ++ a :: b :: more ∧ a.last? = some '[' ∧
      b.first? = some mark ∧ Closes mark (b :: more) ∧ b :: more ≠ [.char mark]) ∨
    ∃ front item more name before after, items = front ++ item :: more ∧ item.name? = some name ∧
      lex (bracedName name) = before ++ .char '[' :: .char mark :: after ∧
      ([mark, ']'] <:+: written after ∨ Closes mark more)

end ClassItem

namespace Pcre2

open ClassItem

variable {c d mark : Char} {text rest : List Char} {item : ClassItem} {items : List ClassItem}

section Lex

private theorem lex_append_cons (text : List Char) (other : c ≠ '\\') (rest : List Char) :
    lex (text ++ c :: rest) = lex (text ++ [c]) ++ lex rest := by
  fun_induction lex text with
  | case1 d text ih => simp [lex, ih]
  | case2 d text single ih =>
      by_cases backslash : d = '\\'
      · subst backslash
        have none : text = [] := by
          cases text with
          | nil => rfl
          | cons e text => exact absurd rfl (single e text rfl)
        simp [none, lex]
      · rw [List.cons_append, List.cons_append, lex_cons backslash, lex_cons backslash, ih,
          List.cons_append]
  | case3 => simp [lex_cons other, lex]

def classToken (c : Char) : Token :=
  if isClassMeta c then .escape c else .char c

private theorem lex_classChar (c : Char) (rest : List Char) :
    lex (classChar c ++ rest) = classToken c :: lex rest := by
  unfold classChar classToken
  split
  · rfl
  · next plain =>
      have other : c ≠ '\\' := by
        rintro rfl
        exact plain (by decide)
      rw [List.singleton_append, lex_cons other]

private theorem lex_item_char (c : Char) : lex (classItemText (.char c)) = [classToken c] := by
  simpa [lex, classItemText] using lex_classChar c []

private theorem lex_item_range (first last : Char) :
    lex (classItemText (.range first last)) = [classToken first, .char '-', classToken last] := by
  rw [classItemText, lex_classChar, lex_cons (by decide)]
  simpa [classItemText] using lex_item_char last

private theorem lex_bracedName (name : String) (rest : List Char) :
    lex (bracedName name ++ rest) = lex (bracedName name) ++ lex rest := by
  have split : bracedName name ++ rest = ('{' :: name.toList) ++ '}' :: rest := by
    simp [bracedName]
  rw [split, lex_append_cons _ (by decide)]
  rfl

private theorem lex_classItemText (item : ClassItem) (rest : List Char) :
    lex (classItemText item ++ rest) = lex (classItemText item) ++ lex rest := by
  cases item with
  | char c => rw [lex_item_char, classItemText, lex_classChar, List.singleton_append]
  | range first last =>
      rw [lex_item_range, classItemText, List.append_assoc, lex_classChar, List.cons_append,
        lex_cons (by decide), lex_classChar]
      rfl
  | shorthand kind property =>
      cases property with
      | none => simp [classItemText, lex]
      | some name =>
          cases isProperty : kind.isProperty with
          | false => simp [classItemText, lex, isProperty]
          | true => simp [classItemText, lex, isProperty, lex_bracedName]

private theorem lex_itemsText (items : List ClassItem) (rest : List Char) :
    lex (itemsText items ++ rest) = lex (itemsText items) ++ lex rest := by
  induction items with
  | nil => rfl
  | cons item items ih =>
      rw [itemsText, List.flatMap_cons, List.append_assoc, lex_classItemText, lex_classItemText,
        List.append_assoc, ← itemsText, ih]

end Lex

private theorem classItemText_shorthand (kind : Shorthand) (property : Option String) :
    classItemText (.shorthand kind property) =
      '\\' :: kind.letter :: ((ClassItem.shorthand kind property).name?.elim [] bracedName) := by
  cases property with
  | none => rfl
  | some name =>
      cases isProperty : kind.isProperty with
      | false => simp [classItemText, name?, isProperty]
      | true => simp [classItemText, name?, isProperty]

private theorem classItemText_of_name? {name : String} (named : item.name? = some name) :
    ∃ letter, classItemText item = '\\' :: letter :: bracedName name := by
  cases item with
  | shorthand kind property =>
      rw [classItemText_shorthand, named]
      exact ⟨_, rfl⟩
  | _ => cases named

section Edges

/-- The bracket and the marks, which are written as they are and end no class escape. -/
def isEdge (c : Char) : Bool :=
  c ∈ ['[', ':', '.', '=']

private theorem isEdge_of_mem (mem : mark ∈ posixMarks) : isEdge mark = true := by
  rw [isEdge, decide_eq_true_eq]
  exact List.mem_cons_of_mem _ mem

private theorem not_isClassMeta_of_isEdge (edge : isEdge c = true) : isClassMeta c = false := by
  have cases : c = '[' ∨ c = ':' ∨ c = '.' ∨ c = '=' := by simpa [isEdge] using edge
  rcases cases with rfl | rfl | rfl | rfl <;> rfl

private theorem ne_backslash_of_isEdge (edge : isEdge c = true) : '\\' ≠ c := by
  rintro rfl
  exact absurd edge (by decide)

private theorem ne_letter_of_isEdge (edge : isEdge c = true) (kind : Shorthand) :
    kind.letter ≠ c := by
  rintro rfl
  obtain ⟨family, negated⟩ := kind
  cases family <;> cases negated <;> exact absurd edge (by decide)

private theorem head?_classChar (edge : isEdge c = true) :
    (classChar d).head? = some c ↔ d = c := by
  unfold classChar
  split
  · next special =>
      have other : d ≠ c := by
        rintro rfl
        exact absurd special (by simp [not_isClassMeta_of_isEdge edge])
      simp [ne_backslash_of_isEdge edge, other]
  · simp

private theorem getLast?_classChar (c : Char) : (classChar c).getLast? = some c := by
  unfold classChar
  split <;> rfl

private theorem classChar_ne_nil (c : Char) : classChar c ≠ [] := by
  unfold classChar
  split <;> simp

private theorem classItemText_ne_nil (item : ClassItem) : classItemText item ≠ [] := by
  cases item with
  | char c => exact classChar_ne_nil c
  | range first last => simp [classItemText]
  | shorthand kind property => simp [classItemText]

private theorem head?_classItemText (edge : isEdge c = true) :
    (classItemText item).head? = some c ↔ item.first? = some c := by
  cases item with
  | char d => simp [classItemText, first?, head?_classChar edge]
  | range first last =>
      rw [classItemText, List.head?_append_of_ne_nil _ (classChar_ne_nil first),
        head?_classChar edge]
      simp [first?]
  | shorthand kind property => simp [classItemText, first?, ne_backslash_of_isEdge edge]

private theorem head?_classItemText_ne (item : ClassItem) :
    (classItemText item).head? ≠ some ']' := by
  have unescaped (c : Char) : (classChar c).head? ≠ some ']' := by
    unfold classChar
    split
    · simp
    · next plain =>
        rintro same
        cases same
        exact plain (by decide)
  cases item with
  | char c => exact unescaped c
  | range first last =>
      rw [classItemText, List.head?_append_of_ne_nil _ (classChar_ne_nil first)]
      exact unescaped first
  | shorthand kind property => simp [classItemText]

private theorem getLast?_classItemText (edge : isEdge c = true) :
    (classItemText item).getLast? = some c ↔ item.last? = some c := by
  cases item with
  | char d => rw [classItemText, getLast?_classChar, last?]
  | range first last =>
      rw [classItemText, List.getLast?_append_of_ne_nil _ (by simp), List.getLast?_cons,
        getLast?_classChar, last?, Option.getD_some]
  | shorthand kind property =>
      have letter := ne_letter_of_isEdge edge kind
      have brace : '}' ≠ c := by
        rintro rfl
        exact absurd edge (by decide)
      cases property with
      | none => simp [classItemText, last?, letter]
      | some name =>
          cases isProperty : kind.isProperty with
          | false => simp [classItemText, last?, isProperty, letter]
          | true => simp [classItemText, last?, isProperty, bracedName, List.getLast?_cons, brace]

private theorem head?_itemsText :
    (itemsText items ++ [']']).head? = some ']' ↔ items = [] := by
  cases items with
  | nil => simp [itemsText]
  | cons item items =>
      rw [itemsText, List.flatMap_cons, List.append_assoc,
        List.head?_append_of_ne_nil _ (classItemText_ne_nil item)]
      refine iff_of_false (fun head => ?_) (List.cons_ne_nil _ _)
      exact head?_classItemText_ne item head

private theorem classChar_of_isEdge (edge : isEdge c = true) : classChar c = [c] := by
  simp [classChar, not_isClassMeta_of_isEdge edge]

private theorem singleton_of_closed (edge : isEdge c = true)
    (starts : itemsText items ++ [']'] = c :: ']' :: rest) : items = [.char c] := by
  cases items with
  | nil =>
      obtain ⟨rfl, -⟩ := List.cons.inj starts
      exact absurd edge (by decide)
  | cons item more =>
      rw [itemsText, List.flatMap_cons, List.append_assoc, ← itemsText] at starts
      have first : item.first? = some c := by
        have head := congrArg List.head? starts
        rw [List.head?_append_of_ne_nil _ (classItemText_ne_nil item)] at head
        exact (head?_classItemText edge).mp head
      cases item with
      | char d =>
          obtain rfl := Option.some.inj first
          rw [classItemText, classChar_of_isEdge edge] at starts
          have behind := congrArg List.head? (List.cons.inj starts).2
          rw [head?_itemsText.mp behind]
      | range d last =>
          obtain rfl := Option.some.inj first
          rw [classItemText, classChar_of_isEdge edge] at starts
          simp at starts
      | shorthand kind property => cases first

end Edges

section Closing

private theorem pair_infix_append {xs ys : List Char} :
    [c, d] <:+: xs ++ ys ↔
      [c, d] <:+: xs ∨ [c, d] <:+: ys ∨ xs.getLast? = some c ∧ ys.head? = some d := by
  rw [List.infix_append_iff]
  constructor
  · rintro (first | second | ⟨_ | ⟨_, _ | ⟨_, _⟩⟩, back, split, ends, starts⟩)
    · exact .inl first
    · exact .inr (.inl second)
    · obtain rfl : [c, d] = back := split
      exact .inr (.inl starts.isInfix)
    · obtain ⟨rfl, rfl⟩ : c = _ ∧ [d] = back := List.cons.inj split
      obtain ⟨front, rfl⟩ := ends
      obtain ⟨rest, rfl⟩ := starts
      exact .inr (.inr ⟨List.getLast?_concat, rfl⟩)
    · obtain ⟨rfl, rfl, none⟩ : c = _ ∧ d = _ ∧ [] = _ ++ back := by simpa using split
      obtain ⟨rfl, rfl⟩ := List.append_eq_nil_iff.mp none.symm
      exact .inl ends.isInfix
  · rintro (first | second | ⟨ends, starts⟩)
    · exact .inl first
    · exact .inr (.inl second)
    · obtain ⟨front, rfl⟩ := List.getLast?_eq_some_iff.mp ends
      obtain ⟨rest, rfl⟩ := List.head?_eq_some_iff.mp starts
      exact .inr (.inr ⟨[c], [d], rfl, ⟨front, rfl⟩, ⟨rest, rfl⟩⟩)

private theorem not_closes_classChar (mem : mark ∈ posixMarks) :
    ¬ [mark, ']'] <:+: classChar c := by
  unfold classChar
  intro stands
  split at stands
  · obtain ⟨rfl, -⟩ := List.cons.inj (stands.eq_of_length rfl)
    exact absurd mem (by decide)
  · exact absurd stands.length_le (by simp)

private theorem closes_item_iff (mem : mark ∈ posixMarks) :
    [mark, ']'] <:+: classItemText item ↔ ∃ name ∈ item.name?, [mark, ']'] <:+: name.toList := by
  have edge := isEdge_of_mem mem
  have differs (other : Char) (plain : isEdge other = false) : mark ≠ other := by
    rintro rfl
    exact absurd edge (by simp [plain])
  cases item with
  | char c => simp [classItemText, name?, not_closes_classChar mem]
  | range first last =>
      have dash : ¬ [mark, ']'] <:+: '-' :: classChar last := by
        rw [List.infix_cons_iff, List.cons_prefix_cons]
        simp [differs '-' (by decide), not_closes_classChar mem]
      simp [classItemText, name?, pair_infix_append, not_closes_classChar mem, dash]
  | shorthand kind property =>
      rw [classItemText_shorthand, List.infix_cons_iff, List.infix_cons_iff]
      simp only [List.cons_prefix_cons, differs '\\' (by decide),
        (ne_letter_of_isEdge edge kind).symm, false_and, false_or]
      cases ClassItem.name? (.shorthand kind property) with
      | none => simp
      | some name =>
          rw [Option.elim_some, bracedName, pair_infix_append, List.infix_cons_iff,
            List.cons_prefix_cons]
          simp [differs '{' (by decide), List.infix_cons_iff]

private theorem closes_iff (mem : mark ∈ posixMarks) :
    [mark, ']'] <:+: itemsText items ++ [']'] ↔ Closes mark items := by
  induction items with
  | nil =>
      refine iff_of_false (fun stands => ?_) (by simp [Closes])
      exact absurd stands.length_le (by simp [itemsText])
  | cons item items ih =>
      rw [itemsText, List.flatMap_cons, List.append_assoc, ← itemsText, pair_infix_append,
        closes_item_iff mem, ih, getLast?_classItemText (isEdge_of_mem mem), head?_itemsText]
      unfold Closes
      cases items with
      | nil => simp
      | cons next more => simp [or_assoc]

private theorem closes_behind_iff (mem : mark ∈ posixMarks)
    (starts : itemsText items ++ [']'] = mark :: rest) :
    [mark, ']'] <:+: rest ↔ Closes mark items ∧ items ≠ [.char mark] := by
  have edge := isEdge_of_mem mem
  have whole : [mark, ']'] <:+: itemsText items ++ [']'] ↔ Closes mark items := closes_iff mem
  rw [starts, List.infix_cons_iff, List.cons_prefix_cons] at whole
  by_cases single : items = [.char mark]
  · have behind : [']'] = rest := by
      simpa [single, itemsText, classItemText, classChar_of_isEdge edge] using starts
    rw [← behind]
    exact iff_of_false (fun stands => absurd stands.length_le (by simp)) (fun both => both.2 single)
  · have apart : ¬ [']'] <+: rest := by
      rintro ⟨more, rfl⟩
      exact single (singleton_of_closed edge starts)
    simp [single, ← whole, apart]

end Closing

section Opening

private theorem pair_in_name {before after : List Token} (mem : mark ∈ posixMarks)
    (pair : lex (classItemText item) = before ++ .char '[' :: .char mark :: after) :
    ∃ name before, item.name? = some name ∧
      lex (bracedName name) = before ++ .char '[' :: .char mark :: after := by
  cases item with
  | char c =>
      have length := congrArg List.length pair
      simp [lex_item_char] at length
      omega
  | range first last =>
      rw [lex_item_range] at pair
      rcases before with _ | ⟨t, _ | ⟨u, before⟩⟩
      · obtain ⟨-, rfl, -⟩ : classToken first = .char '[' ∧ '-' = mark ∧
            [classToken last] = after := by simpa using pair
        exact absurd mem (by decide)
      · simp at pair
      · have length := congrArg List.length pair
        simp at length
        omega
  | shorthand kind property =>
      rw [classItemText_shorthand, lex] at pair
      rcases before with _ | ⟨t, before⟩
      · simp at pair
      · obtain ⟨-, inside⟩ := List.cons.inj pair
        cases named : ClassItem.name? (.shorthand kind property) with
        | none => simp [named, lex] at inside
        | some name =>
            rw [named] at inside
            exact ⟨name, before, rfl, inside⟩

private theorem last?_of_lex {before : List Token}
    (ends : lex (classItemText item) = before ++ [.char '[']) : item.last? = some '[' := by
  have back := congrArg written ends
  rw [written_lex, written_append] at back
  refine (getLast?_classItemText (by decide)).mp ?_
  rw [back]
  exact List.getLast?_concat

private theorem lex_of_last? (last : item.last? = some '[') :
    ∃ before, lex (classItemText item) = before ++ [.char '['] := by
  cases item with
  | char c =>
      obtain rfl := Option.some.inj last
      exact ⟨[], lex_item_char '['⟩
  | range first c =>
      obtain rfl := Option.some.inj last
      exact ⟨[classToken first, .char '-'], lex_item_range first '['⟩
  | shorthand kind property => exact absurd last (by simp [last?])

private theorem append_eq_pair_cases {xs ys before after : List Token} {t u : Token}
    (same : xs ++ ys = before ++ t :: u :: after) :
    (∃ middle, xs = before ++ t :: u :: middle ∧ after = middle ++ ys) ∨
      (xs = before ++ [t] ∧ ys = u :: after) ∨
      ∃ middle, ys = middle ++ t :: u :: after := by
  rcases List.append_eq_append_iff.mp same with ⟨middle, rfl, tail⟩ | ⟨middle, rfl, tail⟩
  · exact .inr (.inr ⟨middle, tail⟩)
  · rcases middle with _ | ⟨v, _ | ⟨w, middle⟩⟩
    · exact .inr (.inr ⟨[], tail.symm⟩)
    · rw [List.cons_append] at tail
      obtain ⟨rfl, rest⟩ := List.cons.inj tail
      exact .inr (.inl ⟨rfl, rest.symm⟩)
    · rw [List.cons_append, List.cons_append] at tail
      obtain ⟨rfl, rest⟩ := List.cons.inj tail
      obtain ⟨rfl, behind⟩ := List.cons.inj rest
      exact .inl ⟨middle, rfl, behind⟩

/-- Two neighbouring items open a POSIX item, with `rest` behind its mark. -/
private def OpensBetween (mark : Char) (items : List ClassItem) (rest : List Char) : Prop :=
  ∃ front a b more, items = front ++ a :: b :: more ∧ a.last? = some '[' ∧
    b.first? = some mark ∧ itemsText (b :: more) ++ [']'] = mark :: rest

/-- The name of an item opens a POSIX item, with `rest` behind its mark. -/
private def OpensWithin (mark : Char) (items : List ClassItem) (rest : List Char) : Prop :=
  ∃ front item more name before after, items = front ++ item :: more ∧ item.name? = some name ∧
    lex (bracedName name) = before ++ .char '[' :: .char mark :: after ∧
    rest = written after ++ (itemsText more ++ [']'])

private theorem opens_of_pair {before after : List Token} (mem : mark ∈ posixMarks)
    (pair : lex (itemsText items ++ [']']) = before ++ .char '[' :: .char mark :: after) :
    OpensBetween mark items (written after) ∨ OpensWithin mark items (written after) := by
  induction items generalizing before with
  | nil =>
      have length := congrArg List.length pair
      simp [itemsText, lex] at length
      omega
  | cons item items ih =>
      rw [itemsText, List.flatMap_cons, List.append_assoc, lex_classItemText, ← itemsText] at pair
      rcases append_eq_pair_cases pair with ⟨middle, inside, rfl⟩ | ⟨ends, starts⟩ | ⟨middle, later⟩
      · obtain ⟨name, before, named, inside⟩ := pair_in_name mem inside
        refine .inr ⟨[], item, items, name, before, middle, rfl, named, inside, ?_⟩
        rw [written_append, written_lex]
      · have text : itemsText items ++ [']'] = mark :: written after := by
          have back := congrArg written starts
          rwa [written_lex, written_cons] at back
        cases items with
        | nil =>
            obtain rfl : ']' = mark := (List.cons.inj text).1
            exact absurd mem (by decide)
        | cons b more =>
            have head := congrArg List.head? text
            rw [itemsText, List.flatMap_cons, List.append_assoc,
              List.head?_append_of_ne_nil _ (classItemText_ne_nil b)] at head
            have first := (head?_classItemText (isEdge_of_mem mem)).mp head
            exact .inl ⟨[], item, b, more, rfl, last?_of_lex ends, first, text⟩
      · rcases ih later with ⟨front, a, b, more, rfl, facts⟩ |
          ⟨front, a, more, name, t, u, rfl, facts⟩
        · exact .inl ⟨item :: front, a, b, more, rfl, facts⟩
        · exact .inr ⟨item :: front, a, more, name, t, u, rfl, facts⟩

private theorem pair_of_between (mem : mark ∈ posixMarks) (opens : OpensBetween mark items rest) :
    ∃ before after, lex (itemsText items ++ [']']) = before ++ .char '[' :: .char mark :: after ∧
      written after = rest := by
  obtain ⟨front, a, b, more, rfl, last, -, tail⟩ := opens
  obtain ⟨before, ends⟩ := lex_of_last? last
  have split : itemsText (front ++ a :: b :: more) ++ [']'] =
      itemsText front ++ (classItemText a ++ (itemsText (b :: more) ++ [']'])) := by
    simp [itemsText]
  refine ⟨lex (itemsText front) ++ before, lex rest, ?_, written_lex rest⟩
  rw [split, lex_itemsText, lex_classItemText, ends, tail,
    lex_cons (ne_backslash_of_isEdge (isEdge_of_mem mem)).symm]
  simp

private theorem pair_of_within (opens : OpensWithin mark items rest) :
    ∃ before after, lex (itemsText items ++ [']']) = before ++ .char '[' :: .char mark :: after ∧
      written after = rest := by
  obtain ⟨front, item, more, name, before, after, rfl, named, inside, rfl⟩ := opens
  obtain ⟨letter, text⟩ := classItemText_of_name? named
  have split : itemsText (front ++ item :: more) ++ [']'] =
      itemsText front ++ (classItemText item ++ (itemsText more ++ [']'])) := by
    simp [itemsText]
  refine ⟨lex (itemsText front) ++ .escape letter :: before,
    after ++ lex (itemsText more ++ [']']), ?_, ?_⟩
  · rw [split, lex_itemsText, lex_classItemText, text, lex, inside]
    simp
  · rw [written_append, written_lex]

end Opening

private theorem closes_within_iff {name : String} {before after : List Token}
    (mem : mark ∈ posixMarks)
    (inside : lex (bracedName name) = before ++ .char '[' :: .char mark :: after) :
    [mark, ']'] <:+: written after ++ (itemsText items ++ [']']) ↔
      [mark, ']'] <:+: written after ∨ Closes mark items := by
  have ends : (written after).getLast? ≠ some mark := by
    intro last
    have back := congrArg List.getLast? (congrArg written inside)
    rw [written_lex, written_append, List.getLast?_append, written_cons, written_cons] at back
    obtain rfl : '}' = mark := by
      simpa [bracedName, Token.text, List.getLast?_cons, last] using back
    exact absurd mem (by decide)
  rw [pair_infix_append, closes_iff mem]
  simp [ends]

/-- The text of a class has a POSIX item exactly if its items spell one. -/
theorem hasPosixItem_iff (items : List ClassItem) :
    HasPosixItem (itemsText items ++ [']']) ↔ SpellPosixItem items := by
  constructor
  · rintro ⟨mark, mem, before, after, pair, closes⟩
    refine ⟨mark, mem, ?_⟩
    rcases opens_of_pair mem pair with ⟨front, a, b, more, rfl, last, first, text⟩ |
      ⟨front, item, more, name, t, u, rfl, named, inside, text⟩
    · exact .inl ⟨front, a, b, more, rfl, last, first, (closes_behind_iff mem text).mp closes⟩
    · rw [text] at closes
      exact .inr ⟨front, item, more, name, t, u, rfl, named, inside,
        (closes_within_iff mem inside).mp closes⟩
  · rintro ⟨mark, mem, ⟨front, a, b, more, rfl, last, first, closes⟩ |
      ⟨front, item, more, name, t, u, rfl, named, inside, closes⟩⟩
    · obtain ⟨rest, text⟩ : ∃ rest, itemsText (b :: more) ++ [']'] = mark :: rest := by
        refine List.head?_eq_some_iff.mp ?_
        rw [itemsText, List.flatMap_cons, List.append_assoc,
          List.head?_append_of_ne_nil _ (classItemText_ne_nil b)]
        exact (head?_classItemText (isEdge_of_mem mem)).mpr first
      obtain ⟨before, after, pair, rfl⟩ :=
        pair_of_between mem ⟨front, a, b, more, rfl, last, first, text⟩
      exact ⟨mark, mem, before, after, pair, (closes_behind_iff mem text).mpr closes⟩
    · obtain ⟨before, after, pair, behind⟩ :=
        pair_of_within ⟨front, item, more, name, t, u, rfl, named, inside, rfl⟩
      refine ⟨mark, mem, before, after, pair, ?_⟩
      rw [behind]
      exact (closes_within_iff mem inside).mpr closes

private theorem hasPosixItem_negated (text : List Char) :
    HasPosixItem ('[' :: '^' :: text) ↔ HasPosixItem text := by
  have front : lex ('[' :: '^' :: text) = .char '[' :: .char '^' :: lex text := by
    rw [lex_cons (by decide), lex_cons (by decide)]
  unfold HasPosixItem
  rw [front]
  constructor
  · rintro ⟨mark, mem, before, after, pair, closes⟩
    rcases before with _ | ⟨t, _ | ⟨u, before⟩⟩
    · obtain ⟨rfl, -⟩ : '^' = mark ∧ lex text = after := by simpa using pair
      exact absurd mem (by decide)
    · simp at pair
    · obtain ⟨-, -, rest⟩ : .char '[' = t ∧ .char '^' = u ∧
          lex text = before ++ .char '[' :: .char mark :: after := by simpa using pair
      exact ⟨mark, mem, before, after, rest, closes⟩
  · rintro ⟨mark, mem, before, after, pair, closes⟩
    exact ⟨mark, mem, .char '[' :: .char '^' :: before, after, by rw [pair]; rfl, closes⟩

end Pcre2

open ClassItem

/-- A class written with brackets has a POSIX item between them exactly if its items spell one; with
the opening bracket, exactly if the items do so behind a bracket of their own, unless the class is
negated. -/
theorem classText_posix_iff (negated : Bool) (items : List ClassItem)
    (bracketed : classText negated items = bracketText negated items) :
    let body := itemsText items ++ [']']
    classText negated items = '[' :: (if negated then ['^'] else []) ++ body ∧
      (HasPosixItem body ↔ SpellPosixItem items) ∧
      (HasPosixItem (classText negated items) ↔
        SpellPosixItem (if negated then items else .char '[' :: items)) := by
  intro body
  have text : classText negated items = '[' :: (if negated then ['^'] else []) ++ body := by
    simp [bracketed, bracketText, body, itemsText]
  refine ⟨text, hasPosixItem_iff items, ?_⟩
  rw [text]
  cases negated with
  | false => exact hasPosixItem_iff (.char '[' :: items)
  | true => exact (hasPosixItem_negated body).trans (hasPosixItem_iff items)

/-- A range up to the bracket, and further on one that ends in the mark behind it. The name of the
property has the mark before a bracket as well. -/
theorem classText_posix_iff_ranges :
    let items : List ClassItem := [.range 'A' '[', .char '.',
      .shorthand ⟨.property, true⟩ (some "L.]"), .char ']', .range '*' '.']
    classText true items = bracketText true items ∧
      String.ofList (classText true items) = "[^A-[.\\P\x7bL.]\x7d\\]*-.]" ∧
      SpellPosixItem items ∧ HasPosixItem (classText true items) := by
  intro items
  have bracketed : classText true items = bracketText true items := rfl
  have spelled : SpellPosixItem items :=
    ⟨'.', by decide, .inl ⟨[], .range 'A' '[', .char '.', _, rfl, rfl, rfl, .inr rfl, by simp⟩⟩
  obtain ⟨-, -, whole⟩ := classText_posix_iff true items bracketed
  exact ⟨bracketed, by decide +kernel, spelled, whole.mpr spelled⟩

/-- The characters `[`, `:` and those of a name, listed one by one, are read as a POSIX class. -/
theorem classText_spells_posix_class :
    let items := ['[', ':', 'a', 'l', 'p', 'h', 'a', ':'].map ClassItem.char
    String.ofList (classText false items) = "[[:alpha:]" ∧
      HasPosixItem (itemsText items ++ [']']) := by
  intro items
  refine ⟨by decide +kernel, ':', by decide, [], lex ['a', 'l', 'p', 'h', 'a', ':', ']'], rfl, ?_⟩
  exact ⟨['a', 'l', 'p', 'h', 'a'], [], rfl⟩

end PatternCompiler
