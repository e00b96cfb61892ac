import PatternCompiler.Proofs.Tokens

/-!
Numbers of backreferences in emitted text. A number runs into a digit only where the parts of one
sequence meet: everywhere else the writer puts a sign in between. Two parts meet if all parts
between them are written as nothing, and the first of them may hide its number at the end of a
sequence of its own. The group that keeps a number apart is written only if the number itself is
the part right before the digit, which is enough for normal forms.
-/

set_option autoImplicit false
set_option relaxedAutoImplicit false

namespace PatternCompiler

open Pattern Pcre2

namespace Pattern

/-- A backreference has either a number or a name. -/
def SingleTarget : Pattern → Prop
  | .backreference index name => index.isSome ≠ name.isSome
  | _ => True

/-- A part of a sequence whose text ends in the number of a backreference: the backreference itself,
or a sequence of which only parts without text follow such a part. -/
inductive EndsInNumber (extended : Bool) : Pattern → Prop
  | reference (index : UInt32) : EndsInNumber extended (.backreference (some index) none)
  | sequence {front back : List Pattern} {p : Pattern} : EndsInNumber extended p →
      (∀ q ∈ back, spell extended true q = []) →
      EndsInNumber extended (.sequence (front ++ p :: back))

/-- Wherever a part that ends in a number meets a digit, that part is the number and the digit is in
the next part. -/
def Seamless (extended : Bool) : Pattern → Prop
  | .sequence parts => ∀ front p gap q back, parts = front ++ p :: (gap ++ q :: back) →
      EndsInNumber extended p → (∀ r ∈ gap, spell extended true r = []) →
      startsWithDigit (spell extended true q) = true → isNumbered p = true ∧ gap = []
  | _ => True

end Pattern

namespace Pcre2

/-- No number among some tokens runs into a digit. -/
def Separate (ts : List Token) : Prop :=
  ∀ before index after, ts = before ++ .number index :: after →
    startsWithDigit (written after) = false

def EndsNumbered (ts : List Token) : Prop :=
  ∃ before index, ts = before ++ [.number index]

variable {extended inSequence : Bool} {ts us : List Token} {p : Pattern} {ps : List Pattern}

section Tokens

private theorem Token.text_ne_nil (t : Token) : t.text ≠ [] := by
  cases t with
  | bracket negated items => simp [text, bracketText]
  | _ => simp [text]

private theorem written_eq_nil_iff : written ts = [] ↔ ts = [] := by
  cases ts with
  | nil => simp
  | cons t ts => simp [t.text_ne_nil]

private theorem startsWithDigit_written (some_token : ts ≠ []) (text : List Char) :
    startsWithDigit (written ts ++ text) = startsWithDigit (written ts) :=
  startsWithDigit_append (mt written_eq_nil_iff.mp some_token) text

private theorem not_endsNumbered (none : numbers ts = []) : ¬ EndsNumbered ts := by
  rintro ⟨before, index, rfl⟩
  exact numbers_eq_nil_iff.mp none index (by simp)

private theorem separate_of_numbers (none : numbers ts = []) : Separate ts := by
  rintro before index after rfl
  exact absurd (by simp) (numbers_eq_nil_iff.mp none index)

private theorem separate_nil : Separate [] :=
  separate_of_numbers rfl

private theorem separate_singleton (t : Token) : Separate [t] := by
  intro before index after same
  have length := congrArg List.length same
  simp only [List.length_append, List.length_cons, List.length_nil] at length
  obtain rfl : after = [] := List.length_eq_zero_iff.mp (by omega)
  rfl

private theorem endsNumbered_append_iff (some_token : us ≠ []) :
    EndsNumbered (ts ++ us) ↔ EndsNumbered us := by
  constructor
  · rintro ⟨before, index, same⟩
    have last : us.getLast? = some (.number index) := by
      have ends := congrArg List.getLast? same
      rwa [List.getLast?_append_of_ne_nil _ some_token, List.getLast?_concat] at ends
    obtain ⟨front, rfl⟩ := List.getLast?_eq_some_iff.mp last
    exact ⟨front, index, rfl⟩
  · rintro ⟨before, index, rfl⟩
    exact ⟨ts ++ before, index, by simp⟩

private theorem separate_append : Separate (ts ++ us) ↔
    Separate ts ∧ Separate us ∧ (EndsNumbered ts → startsWithDigit (written us) = false) := by
  constructor
  · intro joined
    refine ⟨?_, ?_, ?_⟩
    · rintro before index after rfl
      have apart := joined before index (after ++ us) (by simp)
      by_cases none : after = []
      · simp [none, startsWithDigit]
      · rwa [written_append, startsWithDigit_written none] at apart
    · rintro before index after rfl
      exact joined (ts ++ before) index after (by simp)
    · rintro ⟨before, index, rfl⟩
      exact joined before index us (by simp)
  · rintro ⟨first, second, seam⟩ before index after same
    rcases List.append_eq_append_iff.mp same with ⟨middle, rfl, rest⟩ | ⟨middle, rfl, rest⟩
    · exact second middle index after rest
    · cases middle with
      | nil => exact second [] index after rest.symm
      | cons t middle =>
          rw [List.cons_append] at rest
          obtain ⟨rfl, rfl⟩ := List.cons.inj rest
          rw [written_append]
          by_cases none : middle = []
          · subst none
            exact seam ⟨before, index, rfl⟩
          · rw [startsWithDigit_written none]
            exact first before index middle rfl

private theorem separate_between {opening closing : List Char}
    (stops : startsWithDigit closing = false) :
    Separate (lex opening ++ ts ++ lex closing) ↔ Separate ts := by
  have front := separate_of_numbers (numbers_lex opening)
  have back := separate_of_numbers (numbers_lex closing)
  have start := not_endsNumbered (numbers_lex opening)
  rw [separate_append, separate_append, written_lex]
  tauto

private theorem separate_wrappedTokens (wrap : Bool) :
    Separate (wrappedTokens wrap ts) ↔ Separate ts := by
  cases wrap with
  | false => rfl
  | true => exact separate_between rfl

private theorem separate_intercalate (tss : List (List Token)) :
    Separate (List.intercalate (lex ['|']) tss) ↔ ∀ ts ∈ tss, Separate ts := by
  have bar := separate_of_numbers (numbers_lex ['|'])
  have ends := not_endsNumbered (numbers_lex ['|'])
  induction tss with
  | nil => simpa [List.intercalate] using separate_nil
  | cons ts tss ih =>
      cases tss with
      | nil => simp [List.intercalate]
      | cons us tss =>
          have stops (vs : List Token) : startsWithDigit (written (lex ['|'] ++ vs)) = false := by
            rw [written_append, written_lex]
            rfl
          have split : List.intercalate (lex ['|']) (ts :: us :: tss) =
              ts ++ (lex ['|'] ++ List.intercalate (lex ['|']) (us :: tss)) := by
            simp [List.intercalate]
          rw [split, separate_append, separate_append, stops, List.forall_mem_cons]
          tauto

end Tokens

section Parts

private theorem digitNext_spellParts (p : Pattern) (ps : List Pattern) :
    digitNext (spellParts extended (p :: ps)) = startsWithDigit (spell extended true p) := by
  simp [spellParts, digitNext]

private theorem spell_of_isNumbered (numbered : isNumbered p = true) :
    spell extended true p ≠ [] ∧ startsWithDigit (spell extended true p) = false := by
  cases p with
  | backreference index name =>
      rw [spell]
      fun_cases backreferenceText index name with
      | case1 => exact ⟨by simp, rfl⟩
      | case2 => exact ⟨by simp, rfl⟩
      | case3 => exact absurd numbered (by simp [isNumbered])
  | _ => exact absurd numbered (by simp [isNumbered])

private theorem startsWithDigit_wrapped (digit : Bool) :
    startsWithDigit (wrapped (isNumbered p && digit) (spell extended true p)) =
      startsWithDigit (spell extended true p) := by
  cases wrap : (isNumbered p && digit) with
  | false => rfl
  | true => exact (spell_of_isNumbered (Bool.and_eq_true_iff.mp wrap).1).2.symm

private theorem startsWithDigit_joinPieces :
    startsWithDigit (joinPieces (spellParts extended ps)) = true ↔
      ∃ gap q back, ps = gap ++ q :: back ∧ (∀ r ∈ gap, spell extended true r = []) ∧
        startsWithDigit (spell extended true q) = true := by
  induction ps with
  | nil => simp [spellParts, joinPieces, startsWithDigit]
  | cons p ps ih =>
      rw [spellParts, joinPieces_cons]
      generalize digitNext (spellParts extended ps) = digit
      by_cases none : spell extended true p = []
      · have plain : isNumbered p = false := by
          by_contra numbered
          exact (spell_of_isNumbered (Bool.not_eq_false _ ▸ numbered)).1 none
        rw [plain, none, Bool.false_and, wrapped, if_neg (by decide), List.nil_append, ih]
        constructor
        · rintro ⟨gap, q, back, rfl, empty, found⟩
          exact ⟨p :: gap, q, back, rfl, List.forall_mem_cons.mpr ⟨none, empty⟩, found⟩
        · rintro ⟨gap, q, back, split, empty, found⟩
          cases gap with
          | nil =>
              obtain ⟨rfl, rfl⟩ := List.cons.inj split
              rw [none] at found
              exact absurd found (by simp [startsWithDigit])
          | cons r gap =>
              obtain ⟨rfl, rfl⟩ := List.cons.inj split
              exact ⟨gap, q, back, rfl, (List.forall_mem_cons.mp empty).2, found⟩
      · have some_text : wrapped (isNumbered p && digit) (spell extended true p) ≠ [] := by
          cases isNumbered p && digit with
          | false => exact none
          | true => simp [wrapped]
        rw [startsWithDigit_append some_text, startsWithDigit_wrapped]
        constructor
        · intro found
          exact ⟨[], p, ps, rfl, by simp, found⟩
        · rintro ⟨gap, q, back, split, empty, found⟩
          cases gap with
          | nil =>
              obtain ⟨rfl, rfl⟩ := List.cons.inj split
              exact found
          | cons r gap =>
              obtain ⟨rfl, rfl⟩ := List.cons.inj split
              exact absurd (empty _ List.mem_cons_self) none

private theorem wrappedTokens_eq_nil_iff {wrap : Bool} :
    wrappedTokens wrap ts = [] ↔ wrap = false ∧ ts = [] := by
  cases wrap with
  | false => simp [wrappedTokens]
  | true => simp [wrappedTokens, lex]

private theorem tokens_eq_nil_iff :
    tokens extended inSequence p = [] ↔ spell extended inSequence p = [] := by
  rw [← written_tokens, written_eq_nil_iff]

private theorem partTokens_eq_nil_iff :
    partTokens extended ps = [] ↔ ∀ p ∈ ps, spell extended true p = [] := by
  induction ps with
  | nil => simp [partTokens]
  | cons p ps ih =>
      rw [partTokens, List.append_eq_nil_iff, wrappedTokens_eq_nil_iff, tokens_eq_nil_iff, ih,
        List.forall_mem_cons]
      constructor
      · rintro ⟨⟨_, none⟩, rest⟩
        exact ⟨none, rest⟩
      · rintro ⟨none, rest⟩
        refine ⟨⟨?_, none⟩, rest⟩
        by_contra wrap
        have numbered := (Bool.and_eq_true_iff.mp (Bool.not_eq_false _ ▸ wrap)).1
        exact (spell_of_isNumbered numbered).1 none

private theorem endsNumbered_wrappedTokens {wrap : Bool} :
    EndsNumbered (wrappedTokens wrap ts) ↔ wrap = false ∧ EndsNumbered ts := by
  cases wrap with
  | false => simp [wrappedTokens]
  | true =>
      have closing : lex [')'] ≠ [] := by simp [lex]
      rw [wrappedTokens, if_pos rfl, endsNumbered_append_iff closing]
      simp [not_endsNumbered (numbers_lex [')'])]

private theorem endsNumbered_partTokens :
    EndsNumbered (partTokens extended ps) ↔
      ∃ front p back, ps = front ++ p :: back ∧ EndsNumbered (tokens extended true p) ∧
        ∀ q ∈ back, spell extended true q = [] := by
  induction ps with
  | nil => simp [partTokens, EndsNumbered]
  | cons p ps ih =>
      rw [partTokens]
      by_cases none : partTokens extended ps = []
      · have empty := partTokens_eq_nil_iff.mp none
        have no_digit : digitNext (spellParts extended ps) = false := by
          cases ps with
          | nil => rfl
          | cons q ps => simp [digitNext_spellParts, empty q List.mem_cons_self, startsWithDigit]
        rw [none, List.append_nil, no_digit, Bool.and_false, endsNumbered_wrappedTokens]
        constructor
        · rintro ⟨_, ends⟩
          exact ⟨[], p, ps, rfl, ends, empty⟩
        · rintro ⟨front, q, back, split, ends, _⟩
          cases front with
          | nil =>
              obtain ⟨rfl, rfl⟩ := List.cons.inj split
              exact ⟨rfl, ends⟩
          | cons r front =>
              obtain ⟨rfl, rfl⟩ := List.cons.inj split
              have no_tokens : tokens extended true q = [] :=
                tokens_eq_nil_iff.mpr (empty q (by simp))
              rw [no_tokens] at ends
              exact absurd ends (not_endsNumbered rfl)
      · rw [endsNumbered_append_iff none, ih]
        constructor
        · rintro ⟨front, q, back, rfl, ends, empty⟩
          exact ⟨p :: front, q, back, rfl, ends, empty⟩
        · rintro ⟨front, q, back, split, ends, empty⟩
          cases front with
          | nil =>
              obtain ⟨rfl, rfl⟩ := List.cons.inj split
              exact absurd (partTokens_eq_nil_iff.mpr empty) none
          | cons r front =>
              obtain ⟨rfl, rfl⟩ := List.cons.inj split
              exact ⟨front, q, back, rfl, ends, empty⟩

private theorem endsInNumber_iff :
    p.EndsInNumber extended ↔ EndsNumbered (tokens extended true p) := by
  constructor
  · intro ends
    induction ends with
    | reference index => exact ⟨[], index, rfl⟩
    | sequence _ empty ih =>
        rw [tokens, endsNumbered_partTokens]
        exact ⟨_, _, _, rfl, ih, empty⟩
  · intro ends
    induction p with
    | sequence parts ih =>
        rw [tokens, endsNumbered_partTokens] at ends
        obtain ⟨front, p, back, rfl, ends, empty⟩ := ends
        exact .sequence (ih p (by simp) ends) empty
    | alternation branches =>
        rw [tokens, endsNumbered_wrappedTokens] at ends
        exact absurd ends.1 (by decide)
    | repetition body least most greed =>
        obtain ⟨c, s, bounds, -⟩ := boundsText_head least most
        have some_token : lex (boundsText least most ++ greedText greed) ≠ [] := by
          refine mt written_eq_nil_iff.mpr ?_
          simp [bounds]
        rw [tokens, endsNumbered_append_iff some_token] at ends
        exact absurd ends (not_endsNumbered (numbers_lex _))
    | group capturing body name atomic =>
        rw [tokens, endsNumbered_append_iff (by simp [lex])] at ends
        exact absurd ends (not_endsNumbered (numbers_lex _))
    | look direction negative body =>
        rw [tokens, endsNumbered_append_iff (by simp [lex])] at ends
        exact absurd ends (not_endsNumbered (numbers_lex _))
    | backreference index name =>
        fun_cases backreferenceText index name with
        | case1 => exact absurd ends (not_endsNumbered (by simp [tokens]))
        | case2 index => exact .reference index
        | case3 => exact absurd ends (not_endsNumbered (by simp [tokens]))
    | _ => exact absurd ends (not_endsNumbered (by simp [tokens]))

private theorem seamless_cons : (sequence (p :: ps)).Seamless extended ↔
    (∀ gap q back, ps = gap ++ q :: back → p.EndsInNumber extended →
      (∀ r ∈ gap, spell extended true r = []) →
      startsWithDigit (spell extended true q) = true → isNumbered p = true ∧ gap = []) ∧
    (sequence ps).Seamless extended := by
  constructor
  · intro seamless
    refine ⟨fun gap q back split => seamless [] p gap q back (by rw [split]; rfl), ?_⟩
    intro front r gap q back split
    exact seamless (p :: front) r gap q back (by rw [split]; rfl)
  · rintro ⟨here, there⟩ front r gap q back split
    cases front with
    | nil =>
        obtain ⟨rfl, rest⟩ := List.cons.inj split
        exact here gap q back rest
    | cons s front =>
        obtain ⟨-, rest⟩ := List.cons.inj split
        exact there front r gap q back rest

/-- Behind a part, and wrapped if need be, the text of the sequence keeps its number apart exactly
if the parts that meet there are seamless. -/
theorem seam_iff :
    (EndsNumbered (wrappedTokens (isNumbered p && digitNext (spellParts extended ps))
        (tokens extended true p)) → startsWithDigit (written (partTokens extended ps)) = false) ↔
      ∀ gap q back, ps = gap ++ q :: back → p.EndsInNumber extended →
        (∀ r ∈ gap, spell extended true r = []) →
        startsWithDigit (spell extended true q) = true → isNumbered p = true ∧ gap = [] := by
  have text : written (partTokens extended ps) = joinPieces (spellParts extended ps) :=
    written_partTokens fun q _ => written_tokens q
  rw [endsNumbered_wrappedTokens, text, ← endsInNumber_iff]
  constructor
  · rintro apart gap q back rfl ends empty found
    have digit := startsWithDigit_joinPieces.mpr ⟨gap, q, back, rfl, empty, found⟩
    have wrap : (isNumbered p && digitNext (spellParts extended (gap ++ q :: back))) = true := by
      by_contra plain
      exact absurd (apart ⟨Bool.not_eq_true _ ▸ plain, ends⟩) (by simp [digit])
    obtain ⟨numbered, next⟩ := Bool.and_eq_true_iff.mp wrap
    refine ⟨numbered, ?_⟩
    -- The group is called for by the part that comes next, which therefore has a text.
    cases gap with
    | nil => rfl
    | cons r gap =>
        rw [List.cons_append, digitNext_spellParts, empty r List.mem_cons_self] at next
        exact absurd next (by simp [startsWithDigit])
  · rintro seamless ⟨plain, ends⟩
    rw [Bool.eq_false_iff]
    intro digit
    obtain ⟨gap, q, back, rfl, empty, found⟩ := startsWithDigit_joinPieces.mp digit
    obtain ⟨numbered, rfl⟩ := seamless gap q back rfl ends empty found
    rw [numbered, List.nil_append, digitNext_spellParts, found] at plain
    exact absurd plain (by decide)

private theorem separate_partTokens :
    Separate (partTokens extended ps) ↔
      (∀ p ∈ ps, Separate (tokens extended true p)) ∧ (sequence ps).Seamless extended := by
  induction ps with
  | nil => simp [partTokens, separate_nil, Seamless]
  | cons p ps ih =>
      rw [partTokens, separate_append, separate_wrappedTokens, seam_iff, seamless_cons,
        List.forall_mem_cons]
      tauto

end Parts

/-- In the text of a tree no number runs into a digit exactly if all its sequences are seamless. -/
theorem separate_tokens_iff :
    Separate (tokens extended inSequence p) ↔ p.Throughout (Seamless extended) := by
  induction p generalizing inSequence with
  | sequence parts ih =>
      have each : (∀ p ∈ parts, Separate (tokens extended true p)) ↔
          ∀ p ∈ parts, p.Throughout (Seamless extended) :=
        forall₂_congr fun p mem => ih p mem
      rw [tokens, separate_partTokens, throughout_iff, each]
      exact and_comm
  | alternation branches ih =>
      have each : (∀ p ∈ branches, Separate (tokens extended false p)) ↔
          ∀ p ∈ branches, p.Throughout (Seamless extended) :=
        forall₂_congr fun p mem => ih p mem
      rw [tokens, separate_wrappedTokens, separate_intercalate, branchTokens_eq,
        List.forall_mem_map, each, throughout_iff]
      simp [Seamless, children]
  | repetition body least most greed ih =>
      obtain ⟨c, s, bounds, digit⟩ := boundsText_head least most
      have stops : startsWithDigit (boundsText least most ++ greedText greed) = false := by
        rw [bounds]
        exact digit
      have between := @separate_between (wrappedTokens (needsGroup body)
        (tokens extended false body)) [] _ stops
      have wrap := @separate_wrappedTokens (tokens extended false body) (needsGroup body)
      rw [tokens, throughout_repetition, ← @ih false, ← wrap]
      simpa [lex, Seamless] using between
  | group capturing body name atomic ih =>
      rw [tokens, separate_between rfl, throughout_group, ih]
      simp [Seamless]
  | look direction negative body ih =>
      rw [tokens, separate_between rfl, throughout_look, ih]
      simp [Seamless]
  | backreference index name =>
      rw [throughout_leaf rfl]
      fun_cases backreferenceText index name with
      | case1 => simp [Seamless, separate_of_numbers, tokens]
      | case2 index => simp [Seamless, separate_singleton, tokens]
      | case3 => simp [Seamless, separate_of_numbers, tokens]
  | _ =>
      rw [throughout_leaf rfl]
      simp [Seamless, separate_of_numbers, tokens]

private theorem count?_takeWhile_decimal {index : UInt32} {after : List Char}
    (stops : startsWithDigit after = false) :
    Reading.count? ((decimal index ++ after).takeWhile Char.isDigit) = some index := by
  have numeral := numeral_decimal index
  have run : (decimal index ++ after).takeWhile Char.isDigit = decimal index := by
    rw [List.takeWhile_append_of_pos numeral.2.1]
    cases after with
    | nil => simp
    | cons c after =>
        have other : c.isDigit = false := stops
        simp [other]
  rw [run]
  exact Reading.count?_eq_some_iff.mpr numeral.2.2

section NormalForms

private theorem throughout_children {prop : Pattern → Prop} (h : p.Throughout prop) :
    p.Throughout fun q => ∀ r ∈ q.children, prop r := by
  induction p with
  | alternation branches ih =>
      obtain ⟨-, below⟩ := throughout_iff.mp h
      exact throughout_iff.mpr ⟨fun q mem => (throughout_iff.mp (below q mem)).1,
        fun q mem => ih q mem (below q mem)⟩
  | sequence parts ih =>
      obtain ⟨-, below⟩ := throughout_iff.mp h
      exact throughout_iff.mpr ⟨fun q mem => (throughout_iff.mp (below q mem)).1,
        fun q mem => ih q mem (below q mem)⟩
  | repetition body least most greed ih =>
      obtain ⟨-, below⟩ := throughout_repetition.mp h
      have here := (throughout_iff.mp below).1
      exact throughout_repetition.mpr ⟨by simpa [children] using here, ih below⟩
  | group capturing body name atomic ih =>
      obtain ⟨-, below⟩ := throughout_group.mp h
      have here := (throughout_iff.mp below).1
      exact throughout_group.mpr ⟨by simpa [children] using here, ih below⟩
  | look direction negative body ih =>
      obtain ⟨-, below⟩ := throughout_look.mp h
      have here := (throughout_iff.mp below).1
      exact throughout_look.mpr ⟨by simpa [children] using here, ih below⟩
  | _ => exact (throughout_leaf rfl).mpr (by simp [children])

private theorem spell_ne_nil (single : p.isSequence = false) (some_text : p ≠ .literal "")
    (target : p.SingleTarget) : spell extended true p ≠ [] := by
  cases p with
  | sequence parts => exact absurd single (by simp [isSequence])
  | literal text =>
      obtain ⟨c, cs, chars⟩ : ∃ c cs, text.toList = c :: cs := by
        refine List.exists_cons_of_ne_nil fun none => some_text ?_
        rw [String.toList_eq_nil_iff.mp none]
      have char : literalChar extended c ≠ [] := by
        unfold literalChar spaceEscape
        repeat' split
        all_goals simp
      simp [spell, chars, char]
  | alternation branches => simp [spell, wrapped]
  | anyChar => simp [spell]
  | anchor place =>
      cases place with
      | _ => simp [spell, anchorText]
  | charClass negated items =>
      obtain ⟨c, s, text, -⟩ := classText_head negated items
      simp [spell, text]
  | repetition body least most greed =>
      obtain ⟨c, s, bounds, -⟩ := boundsText_head least most
      simp [spell, bounds]
  | group capturing body name atomic => simp [spell]
  | look direction negative body => simp [spell]
  | backreference index name =>
      rw [spell]
      fun_cases backreferenceText index name with
      | case3 => exact absurd rfl target
      | _ => simp

private theorem seamless_of_canonical (canonical : p.Canonical)
    (targets : ∀ q ∈ p.children, q.SingleTarget) : p.Seamless extended := by
  cases p with
  | sequence parts =>
      obtain ⟨-, flat, texts, -⟩ := canonical
      rintro front q gap r back rfl ends empty -
      have single : q.isSequence = false := flat q (by simp)
      constructor
      · cases ends with
        | reference index => rfl
        | sequence => exact absurd single (by simp [isSequence])
      · refine List.eq_nil_iff_forall_not_mem.mpr fun s mem => ?_
        have member : s ∈ front ++ q :: (gap ++ r :: back) := by simp [mem]
        refine spell_ne_nil (flat s member) ?_ (targets s member) (empty s mem)
        rintro rfl
        exact texts "" member rfl
  | _ => trivial

end NormalForms

end Pcre2

/-- The tokens of an emitted text are its text, behind the flags, and their numbers are those of the
tree. No number runs into a digit exactly if the sequences of the tree are seamless, and then each
is read back as itself. In normal forms no number does. -/
theorem emit_numbers_separate_iff (withFlags : Bool) (flags : Flags) (p : Pattern)
    (targets : p.Throughout SingleTarget) :
    let ts := tokens flags.extended false p
    emit withFlags flags p = (if withFlags then flagsPrefix flags else []) ++ written ts ∧
      numbers ts = p.numbers ∧
      (Separate ts ↔ p.Throughout (Seamless flags.extended)) ∧
      (Separate ts → ∀ before index after, ts = before ++ .number index :: after →
        Reading.count? ((decimal index ++ written after).takeWhile Char.isDigit) = some index) ∧
      (p.normalize = p → Separate ts) := by
  intro ts
  refine ⟨by rw [emit, written_tokens], numbers_tokens p, separate_tokens_iff, ?_, ?_⟩
  · intro separate before index after split
    exact count?_takeWhile_decimal (separate before index after split)
  · intro normal
    have canonical : p.Throughout Canonical := normal ▸ canonical_normalize p
    exact separate_tokens_iff.mpr fun q mem =>
      seamless_of_canonical (canonical q mem) (throughout_children targets q mem)

/-- A normal form with a number before a digit and another whose quantifier stands before one. -/
theorem emit_numbers_separate_iff_quantified :
    let p := Pattern.sequence [.backreference (some 1) none, .literal "0 ",
      .repetition (.backreference (some 12) none) 1 .unbounded .lazy, .literal "3"]
    p.Throughout SingleTarget ∧ p.normalize = p ∧
      String.ofList (emit true { extended := true } p) = "(?x)(?:\\1)0\\ \\12+?3" ∧
      Separate (tokens true false p) ∧ p.Throughout (Seamless true) := by
  intro p
  have targets : p.Throughout SingleTarget := by
    simp [p, Throughout, preorder, SingleTarget]
  have normal : p.normalize = p := by decide +kernel
  obtain ⟨-, -, seamless, -, separate⟩ :=
    emit_numbers_separate_iff true { extended := true } p targets
  exact ⟨targets, normal, by decide +kernel, separate normal, seamless.mp (separate normal)⟩

/-- A number at the end of an inner sequence, or before a literal without text, is read together
with the digit behind it. -/
theorem emit_numbers_run_together :
    let around (parts : List Pattern) :=
      Pattern.sequence (.group true (.literal "a") none false :: parts ++ [.literal "0"])
    let nested := around [.sequence [.backreference (some 1) none]]
    let spaced := around [.backreference (some 1) none, .literal ""]
    (nested.Throughout SingleTarget ∧ String.ofList (emit false {} nested) = "(a)\\10" ∧
      ¬ Separate (tokens false false nested)) ∧
    (spaced.Throughout SingleTarget ∧ String.ofList (emit false {} spaced) = "(a)\\10" ∧
      ¬ Separate (tokens false false spaced)) := by
  intro around nested spaced
  have merged {p : Pattern} (written : tokens false false p =
      [.char '(', .char 'a', .char ')'] ++ .number 1 :: [.char '0']) :
      ¬ Separate (tokens false false p) := by
    intro separate
    have apart := separate _ _ _ written
    exact absurd apart (by decide)
  refine ⟨⟨?_, by decide +kernel, merged (by decide +kernel)⟩,
    ⟨?_, by decide +kernel, merged (by decide +kernel)⟩⟩
  · simp [nested, around, Throughout, preorder, SingleTarget]
  · simp [spaced, around, Throughout, preorder, SingleTarget]

end PatternCompiler
