import Mathlib.Data.List.Chain
import Mathlib.Data.List.DropRight
import PatternCompiler.Diagnostic

/-!
Codes of messages. A code is written in one pass over the message and then trimmed. Its second
description splits the message: the maximal runs of ASCII letters and digits, in lower case, are
joined by single underscores. A code reads back as the words of which it is made, so it tells as
much of the message as its words do, and it is its own code.
-/

set_option autoImplicit false
set_option relaxedAutoImplicit false

namespace PatternCompiler.Diagnostic

/-- The maximal runs of ASCII letters and digits of a text, in order. -/
def runs (text : List Char) : List (List Char) :=
  (text.splitOnP fun c => !c.isAlphanum).filter fun r => !r.isEmpty

def words (text : List Char) : List (List Char) :=
  (runs text).map fun r => r.map Char.toLower

structure IsRun (r : List Char) : Prop where
  ne_nil : r ≠ []
  alphanum : ∀ c ∈ r, c.isAlphanum = true

variable {c : Char} {r s s' text after : List Char}

section Runs

private theorem runs_append_cons (gap : c.isAlphanum = false) :
    runs (s ++ c :: s') = runs s ++ runs s' := by
  rw [runs, List.splitOnP_append_cons s s' (by rw [gap]; rfl), List.filter_append]
  rfl

private theorem runs_nil : runs [] = [] := by
  simp [runs]

private theorem runs_cons (gap : c.isAlphanum = false) : runs (c :: text) = runs text := by
  rw [← List.nil_append (c :: text), runs_append_cons gap, runs_nil, List.nil_append]

private theorem IsRun.runs_eq (h : IsRun r) : runs r = [r] := by
  have whole : (r.splitOnP fun c => !c.isAlphanum) = [r] := by
    refine List.splitOnP_eq_singleton ?_
    intro c member
    rw [h.alphanum c member]
    rfl
  rw [runs, whole]
  simp [h.ne_nil]

private theorem IsRun.runs_append (h : IsRun r)
    (ends : ∀ c, after.head? = some c → c.isAlphanum = false) :
    runs (r ++ after) = r :: runs after := by
  cases after with
  | nil => rw [List.append_nil, h.runs_eq, runs_nil]
  | cons c after =>
      have gap := ends c rfl
      rw [runs_append_cons gap, h.runs_eq, runs_cons gap]
      rfl

/-- Every text is made up of maximal runs and of the characters between them. -/
theorem induction_on_runs {motive : List Char → Prop} (text : List Char) (nil : motive [])
    (gap : ∀ c text, c.isAlphanum = false → motive text → motive (c :: text))
    (run : ∀ r after, IsRun r → (∀ c, after.head? = some c → c.isAlphanum = false) →
      motive after → motive (r ++ after)) : motive text := by
  -- a run that has begun may go on, so the text behind any run is taken along
  suffices motive text ∧ ∀ r, IsRun r → motive (r ++ text) from this.1
  induction text with
  | nil => exact ⟨nil, fun r started => run r [] started (by simp) nil⟩
  | cons c text ih =>
      cases kind : c.isAlphanum with
      | false =>
          have here := gap c text kind ih.1
          refine ⟨here, fun r started => run r (c :: text) started ?_ here⟩
          intro x head
          obtain rfl : c = x := by simpa using head
          exact kind
      | true =>
          refine ⟨ih.2 [c] ⟨by simp, by simpa using kind⟩, fun r started => ?_⟩
          rw [List.append_cons]
          refine ih.2 (r ++ [c]) ⟨by simp, ?_⟩
          intro x member
          rcases List.mem_append.mp member with inside | last
          · exact started.alphanum x inside
          · rw [List.mem_singleton.mp last, kind]

private theorem isRun_of_mem_runs (member : r ∈ runs text) : IsRun r := by
  induction text using induction_on_runs with
  | nil =>
      rw [runs_nil] at member
      cases member
  | gap c text other ih =>
      rw [runs_cons other] at member
      exact ih member
  | run s after started ends ih =>
      rw [started.runs_append ends] at member
      rcases List.mem_cons.mp member with rfl | later
      · exact started
      · exact ih later

end Runs

section Case

private theorem toLower_of_not_isUpper (other : c.isUpper = false) : c.toLower = c :=
  dif_neg (of_decide_eq_false other)

private theorem isLower_toLower (upper : c.isUpper = true) : c.toLower.isLower = true := by
  have range : 'A'.val ≤ c.val ∧ c.val ≤ 'Z'.val := of_decide_eq_true upper
  have least : 65 ≤ c.val.toNat := UInt32.le_iff_toNat_le.mp range.1
  have most : c.val.toNat ≤ 90 := UInt32.le_iff_toNat_le.mp range.2
  have shifted : c.toLower.val.toNat = c.val.toNat + 32 := by
    have value : c.toLower.val = c.val + 32 := congrArg Char.val (dif_pos range)
    rw [value, UInt32.toNat_add]
    exact Nat.mod_eq_of_lt (by change c.val.toNat + 32 < 4294967296; omega)
  have lower : 97 ≤ c.toLower.val.toNat ∧ c.toLower.val.toNat ≤ 122 := by omega
  exact Bool.and_eq_true_iff.mpr ⟨decide_eq_true (UInt32.le_iff_toNat_le.mpr lower.1),
    decide_eq_true (UInt32.le_iff_toNat_le.mpr lower.2)⟩

private theorem isUpper_of_isLower (lower : c.isLower = true) : c.isUpper = false := by
  have least : 'a'.val ≤ c.val := of_decide_eq_true (Bool.and_eq_true_iff.mp lower).1
  refine decide_eq_false fun upper => ?_
  exact absurd (UInt32.le_trans least upper.2) (by decide)

private theorem isAlphanum_iff :
    c.isAlphanum = true ↔ (c.isUpper = true ∨ c.isLower = true) ∨ c.isDigit = true := by
  rw [← Bool.or_eq_true, ← Bool.or_eq_true]
  exact Iff.rfl

private theorem isAlphanum_toLower (c : Char) : c.toLower.isAlphanum = c.isAlphanum := by
  cases upper : c.isUpper with
  | false => rw [toLower_of_not_isUpper upper]
  | true =>
      rw [isAlphanum_iff.mpr (.inl (.inr (isLower_toLower upper))),
        isAlphanum_iff.mpr (.inl (.inl upper))]

private theorem toLower_comp_toLower : Char.toLower ∘ Char.toLower = Char.toLower := by
  funext c
  cases upper : c.isUpper with
  | false => exact congrArg Char.toLower (toLower_of_not_isUpper upper)
  | true => exact toLower_of_not_isUpper (isUpper_of_isLower (isLower_toLower upper))

private theorem lower_or_digit_of_toLower (alphanum : c.isAlphanum = true) :
    c.toLower.isLower = true ∨ c.toLower.isDigit = true := by
  cases upper : c.isUpper with
  | false =>
      rw [isAlphanum_iff, upper] at alphanum
      rw [toLower_of_not_isUpper upper]
      simpa using alphanum
  | true => exact .inl (isLower_toLower upper)

theorem IsRun.lower (h : IsRun r) : IsRun (r.map Char.toLower) := by
  refine ⟨by simp [h.ne_nil], ?_⟩
  intro c member
  obtain ⟨x, inside, rfl⟩ := List.mem_map.mp member
  rw [isAlphanum_toLower, h.alphanum x inside]

end Case

section Words

private theorem words_nil : words [] = [] := by
  rw [words, runs_nil, List.map_nil]

private theorem words_cons (gap : c.isAlphanum = false) : words (c :: text) = words text := by
  rw [words, runs_cons gap, words]

private theorem words_append (run : IsRun r)
    (ends : ∀ c, after.head? = some c → c.isAlphanum = false) :
    words (r ++ after) = r.map Char.toLower :: words after := by
  rw [words, run.runs_append ends, List.map_cons, words]

private theorem exists_run_of_mem_words {w : List Char} (member : w ∈ words text) :
    ∃ r, IsRun r ∧ w = r.map Char.toLower := by
  obtain ⟨r, listed, rfl⟩ := List.mem_map.mp member
  exact ⟨r, isRun_of_mem_runs listed, rfl⟩

private theorem words_map_toLower (text : List Char) :
    words (text.map Char.toLower) = words text := by
  induction text using induction_on_runs with
  | nil => rfl
  | gap c text other ih =>
      have other' : c.toLower.isAlphanum = false := by rw [isAlphanum_toLower, other]
      rw [List.map_cons, words_cons other', words_cons other, ih]
  | run r after started ends ih =>
      have ends' : ∀ c, (after.map Char.toLower).head? = some c → c.isAlphanum = false := by
        intro c head
        rw [List.head?_map, Option.map_eq_some_iff] at head
        obtain ⟨x, first, rfl⟩ := head
        rw [isAlphanum_toLower, ends x first]
      rw [List.map_append, words_append started.lower ends', words_append started ends, ih,
        List.map_map, toLower_comp_toLower]

private theorem runs_intercalate {rs : List (List Char)} (all : ∀ r ∈ rs, IsRun r) :
    runs (['_'].intercalate rs) = rs := by
  induction rs with
  | nil => exact runs_nil
  | cons r rs ih =>
      obtain ⟨here, others⟩ := List.forall_mem_cons.mp all
      cases rs with
      | nil => rw [List.intercalate_singleton, here.runs_eq]
      | cons r' rs =>
          rw [List.intercalate_cons_cons, List.append_assoc, List.singleton_append,
            runs_append_cons (by decide), here.runs_eq, ih others]
          rfl

private theorem runs_intercalate_words (text : List Char) :
    runs (['_'].intercalate (words text)) = words text := by
  refine runs_intercalate fun w member => ?_
  obtain ⟨r, run, rfl⟩ := exists_run_of_mem_words member
  exact run.lower

private theorem words_intercalate_words (text : List Char) :
    words (['_'].intercalate (words text)) = words text := by
  have same : ∀ w ∈ words text, w.map Char.toLower = w := by
    intro w member
    obtain ⟨r, _, rfl⟩ := exists_run_of_mem_words member
    rw [List.map_map, toLower_comp_toLower]
  rw [words, runs_intercalate_words, List.map_congr_left same, List.map_id']

end Words

section Joins

/-- The form of a code: lower case letters, digits and underscores, where each underscore stands
alone between two of the others. -/
structure IsCode (s : List Char) : Prop where
  chars : ∀ c ∈ s, c.isLower = true ∨ c.isDigit = true ∨ c = '_'
  head : s.head? ≠ some '_'
  last : s.getLast? ≠ some '_'
  alone : s.IsChain fun a b => a = '_' → b ≠ '_'

private theorem toLower_ne_underscore (alphanum : c.isAlphanum = true) : c.toLower ≠ '_' := by
  intro same
  rw [← isAlphanum_toLower, same] at alphanum
  revert alphanum
  decide

private theorem IsRun.not_mem_lower (h : IsRun r) : '_' ∉ r.map Char.toLower := by
  intro member
  obtain ⟨x, inside, same⟩ := List.mem_map.mp member
  exact toLower_ne_underscore (h.alphanum x inside) same

private theorem IsRun.isCode_lower (h : IsRun r) : IsCode (r.map Char.toLower) where
  chars := by
    intro c member
    obtain ⟨x, inside, rfl⟩ := List.mem_map.mp member
    rcases lower_or_digit_of_toLower (h.alphanum x inside) with lower | digit
    · exact .inl lower
    · exact .inr (.inl digit)
  head := fun first => h.not_mem_lower (List.mem_of_head? first)
  last := fun final => h.not_mem_lower (List.mem_of_getLast? final)
  alone := by
    refine List.Pairwise.isChain (List.pairwise_of_forall_mem_list ?_)
    intro a here b _ same
    exact absurd (same ▸ here) h.not_mem_lower

theorem IsCode.cons (h : IsCode s) (some_left : s ≠ []) (run : IsRun r) :
    IsCode (r.map Char.toLower ++ '_' :: s) where
  chars := by
    intro c member
    rcases List.mem_append.mp member with word | behind
    · exact run.isCode_lower.chars c word
    · rcases List.mem_cons.mp behind with rfl | later
      · exact .inr (.inr rfl)
      · exact h.chars c later
  head := by
    rw [List.head?_append_of_ne_nil _ run.lower.ne_nil]
    exact run.isCode_lower.head
  last := by
    rw [List.getLast?_append_of_ne_nil _ (List.cons_ne_nil _ _),
      List.getLast?_cons_of_ne_nil some_left]
    exact h.last
  alone := by
    refine List.isChain_append.mpr ⟨run.isCode_lower.alone, ?_, ?_⟩
    · refine List.isChain_cons.mpr ⟨?_, h.alone⟩
      intro y first _ same
      exact h.head (same ▸ first)
    · intro x final _ _ same
      exact absurd (same ▸ final) run.isCode_lower.last

private theorem intercalate_words_eq_nil (text : List Char) :
    ['_'].intercalate (words text) = [] ↔ words text = [] := by
  constructor
  · intro none
    rw [← runs_intercalate_words, none, runs_nil]
  · intro none
    rw [none]
    rfl

private theorem isCode_intercalate_words (text : List Char) :
    IsCode (['_'].intercalate (words text)) := by
  induction text using induction_on_runs with
  | nil =>
      rw [words_nil]
      exact ⟨by simp, by simp, by simp, by simp⟩
  | gap c text other ih => rwa [words_cons other]
  | run r after started ends ih =>
      rw [words_append started ends]
      by_cases last : words after = []
      · rw [last, List.intercalate_singleton]
        exact started.isCode_lower
      · rw [List.intercalate_cons_of_ne_nil last, List.append_assoc, List.singleton_append]
        exact ih.cons (mt (intercalate_words_eq_nil after).mp last) started

end Joins

section Writing

private theorem codeChars_append (all : ∀ c ∈ r, c.isAlphanum = true) :
    codeChars false (r ++ after) = r.map Char.toLower ++ codeChars false after := by
  induction r with
  | nil => rfl
  | cons c r ih =>
      obtain ⟨here, others⟩ := List.forall_mem_cons.mp all
      rw [List.cons_append, codeChars, if_pos here, ih others]
      rfl

private theorem IsRun.codeChars_append (h : IsRun r) :
    codeChars true (r ++ after) = r.map Char.toLower ++ codeChars false after := by
  rw [← Diagnostic.codeChars_append h.alphanum]
  cases r with
  | nil => exact absurd rfl h.ne_nil
  | cons c r =>
      have here := h.alphanum c List.mem_cons_self
      rw [List.cons_append, codeChars, codeChars, if_pos here, if_pos here]

private theorem codeChars_cons (gap : c.isAlphanum = false) :
    codeChars true (c :: text) = codeChars true text := by
  simp [codeChars, gap]

/-- One pass writes the words, joined, and at most one underscore after them. -/
theorem codeChars_eq (text : List Char) :
    ∃ tail, codeChars true text = ['_'].intercalate (words text) ++ tail ∧
      (tail = [] ∨ tail = ['_'] ∧ words text ≠ []) := by
  induction text using induction_on_runs with
  | nil => exact ⟨[], rfl, .inl rfl⟩
  | gap c text other ih =>
      rw [codeChars_cons other, words_cons other]
      exact ih
  | run r after started ends ih =>
      obtain ⟨tail, written, kind⟩ := ih
      rw [started.codeChars_append, words_append started ends]
      cases after with
      | nil => exact ⟨[], by rw [words_nil, List.intercalate_singleton]; rfl, .inl rfl⟩
      | cons c after =>
          have gap := ends c rfl
          have mark : codeChars false (c :: after) = '_' :: codeChars true (c :: after) := by
            simp [codeChars, gap]
          rw [mark, written]
          by_cases last : words (c :: after) = []
          · -- nothing but the underscore is written after the last word
            obtain rfl : tail = [] := kind.resolve_right fun h => h.2 last
            rw [last]
            exact ⟨['_'], by simp, .inr ⟨rfl, by simp⟩⟩
          · rw [List.intercalate_cons_of_ne_nil last]
            refine ⟨tail, by simp, kind.imp_right fun h => ⟨h.1, by simp⟩⟩

private theorem dropWhile_codeChars (afterUnderscore : Bool) (text : List Char) :
    (codeChars afterUnderscore text).dropWhile (· == '_') = codeChars true text := by
  induction text generalizing afterUnderscore with
  | nil => rfl
  | cons c text ih =>
      cases kind : c.isAlphanum with
      | true =>
          have other := toLower_ne_underscore kind
          simp [codeChars, kind, other]
      | false =>
          rw [codeChars_cons kind, ← ih true]
          cases afterUnderscore with
          | true => rw [codeChars_cons kind]
          | false => simp [codeChars, kind]

private theorem IsCode.rdropWhile_append (h : IsCode s) {tail : List Char}
    (kind : tail = [] ∨ tail = ['_']) : (s ++ tail).rdropWhile (· == '_') = s := by
  have whole : s.rdropWhile (· == '_') = s := by
    rw [List.rdropWhile_eq_self_iff]
    intro some_left final
    refine h.last ?_
    rw [List.getLast?_eq_some_getLast some_left, beq_iff_eq.mp final]
  rcases kind with rfl | rfl
  · rw [List.append_nil, whole]
  · rw [List.rdropWhile_concat_pos _ _ _ rfl, whole]

private theorem codeOf_eq (message : String) :
    codeOf message = String.ofList (['_'].intercalate (words message.toList)) := by
  obtain ⟨tail, written, kind⟩ := codeChars_eq message.toList
  have trimmed : trimUnderscores (codeChars false message.toList) =
      (codeChars true message.toList).rdropWhile (· == '_') := by
    rw [← dropWhile_codeChars false]
    rfl
  rw [codeOf, trimmed, written,
    (isCode_intercalate_words message.toList).rdropWhile_append (kind.imp_right And.left)]

end Writing

/-- The code of a diagnostic is made of the maximal runs of ASCII letters and digits of its message,
in lower case, joined by single underscores. So it consists of lower case letters, digits and
underscores, neither begins nor ends with an underscore and never has two in a row. Codes agree
exactly if the runs agree up to the case of letters, in particular if the messages do, and the code
of a code is that code. -/
theorem code_canonical (d : Diagnostic) :
    d.code = String.ofList (['_'].intercalate
        ((runs d.message.toList).map fun r => r.map Char.toLower)) ∧
      (∀ c ∈ d.code.toList, c.isLower = true ∨ c.isDigit = true ∨ c = '_') ∧
      d.code.toList.head? ≠ some '_' ∧ d.code.toList.getLast? ≠ some '_' ∧
      ¬ ['_', '_'] <:+: d.code.toList ∧
      (∀ e : Diagnostic, e.code = d.code ↔ words e.message.toList = words d.message.toList) ∧
      (∀ e : Diagnostic,
        e.message.toList.map Char.toLower = d.message.toList.map Char.toLower → e.code = d.code) ∧
      ∀ e : Diagnostic, e.message = d.code → e.code = d.code := by
  have code_eq (e : Diagnostic) :
      e.code = String.ofList (['_'].intercalate (words e.message.toList)) := codeOf_eq e.message
  have form : IsCode d.code.toList := by
    rw [code_eq, String.toList_ofList]
    exact isCode_intercalate_words d.message.toList
  have same_words (e : Diagnostic) (same : words e.message.toList = words d.message.toList) :
      e.code = d.code := by
    rw [code_eq, code_eq, same]
  refine ⟨code_eq d, form.chars, form.head, form.last, ?_, ?_, ?_, ?_⟩
  · intro double
    have alone := form.alone.infix double
    simp at alone
  · intro e
    refine ⟨?_, same_words e⟩
    intro same
    rw [code_eq, code_eq, String.ofList_inj] at same
    rw [← runs_intercalate_words, same, runs_intercalate_words]
  · intro e same
    refine same_words e ?_
    rw [← words_map_toLower, same, words_map_toLower]
  · intro e same
    refine same_words e ?_
    rw [same, code_eq, String.toList_ofList, words_intercalate_words]

/-- A name with underscores of its own, in another case, and the code of its code. -/
theorem code_canonical_name :
    let d : Diagnostic := ⟨"Bad <A__b>", 0, "", none⟩
    let e : Diagnostic := ⟨"bAD <a__B>", 0, "", none⟩
    d.code = "bad_a_b" ∧ e.code = d.code ∧ code { d with message := d.code } = d.code := by
  intro d e
  obtain ⟨_, _, _, _, _, _, cased, again⟩ := code_canonical d
  exact ⟨by decide, cased e (by decide), again _ rfl⟩

end PatternCompiler.Diagnostic
