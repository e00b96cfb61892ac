import PatternCompiler.Reading.CharClass
import PatternCompiler.Proofs.Escapes

/-!
The class reader takes exactly the bracket classes of the grammar. Each of its steps adds one item,
or a dash and the item after it, to the items of a text inside the class.
-/

set_option autoImplicit false
set_option relaxedAutoImplicit false

namespace PatternCompiler.Reading

open Scan Grammar

variable {c c' : Cursor}

private theorem letterItem_ok {letter : Char} {start : Nat} {item : ClassItem} :
    letterItem letter start c = .ok item c' ↔
      ∃ s, c.Passes s c' ∧ Item ('\\' :: letter :: s) item := by
  constructor
  · intro taken
    unfold letterItem at taken
    cases kind : Shorthand.ofLetter? letter with
    | some kind' =>
        simp only [kind, map_ok, shorthandProperty_ok kind] at taken
        obtain ⟨property, ⟨s, passed, spelled⟩, rfl⟩ := taken
        exact ⟨s, passed, .shorthand spelled⟩
    | none =>
        cases numeric : numericEscape? start letter with
        | some scan =>
            simp only [kind, numeric, map_ok, numericEscape?_ok numeric] at taken
            obtain ⟨ch, ⟨s, passed, spelled⟩, rfl⟩ := taken
            exact ⟨s, passed, .numeric spelled⟩
        | none =>
            simp only [kind, numeric] at taken
            split at taken
            · next zero =>
              obtain ⟨rfl, rfl⟩ := pure_ok.mp taken
              exact ⟨[], by simp, zero ▸ .nul⟩
            · next nonzero =>
              split at taken
              · next back =>
                obtain ⟨rfl, rfl⟩ := pure_ok.mp taken
                exact ⟨[], by simp, back ▸ .backspace⟩
              · next noback =>
                cases control : controlChar? letter with
                | some named =>
                    simp only [control, pure_ok] at taken
                    obtain ⟨rfl, rfl⟩ := taken
                    exact ⟨[], by simp, .control (mem_controlLetters_iff.mpr control)⟩
                | none =>
                    simp only [control, pure_ok] at taken
                    obtain ⟨rfl, rfl⟩ := taken
                    have others := numericEscape?_eq_none_iff.mp numeric
                    refine ⟨[], by simp, .identity (not_mem_meanings_iff.mpr ⟨kind, control, ?_⟩)⟩
                    simp_all
  · rintro ⟨s, passed, spelled⟩
    unfold letterItem
    cases spelled with
    | shorthand spelled =>
        have names := ofLetter?_of_classEscape spelled
        simp only [names]
        exact map_ok.mpr ⟨_, (shorthandProperty_ok names).mpr ⟨s, passed, spelled⟩, rfl⟩
    | numeric spelled =>
        rcases letter_of_numericEscape spelled with rfl | rfl | rfl
        · exact map_ok.mpr ⟨_, (numericEscape?_ok rfl).mpr ⟨s, passed, spelled⟩, rfl⟩
        · exact map_ok.mpr ⟨_, (numericEscape?_ok rfl).mpr ⟨s, passed, spelled⟩, rfl⟩
        · exact map_ok.mpr ⟨_, (numericEscape?_ok rfl).mpr ⟨s, passed, spelled⟩, rfl⟩
    | nul =>
        obtain rfl := Cursor.passes_nil.mp passed
        rfl
    | backspace =>
        obtain rfl := Cursor.passes_nil.mp passed
        rfl
    | control letters =>
        obtain rfl := Cursor.passes_nil.mp passed
        have names := mem_controlLetters_iff.mp letters
        unfold controlChar? at names
        split at names <;> cases names <;> rfl
    | identity unused =>
        obtain rfl := Cursor.passes_nil.mp passed
        obtain ⟨kind, control, others⟩ := not_mem_meanings_iff.mp unused
        have numeric : numericEscape? start letter = none :=
          numericEscape?_eq_none_iff.mpr (by simp_all)
        have nonzero : letter ≠ '0' := by
          rintro rfl
          simp at others
        have noback : letter ≠ 'b' := by
          rintro rfl
          simp at others
        simp only [kind, numeric, if_neg nonzero, if_neg noback, control]
        rfl

theorem itemOf_raw {start : Nat} {raw : Char} {after : List Char} (plain : raw ≠ '\\') :
    itemOf start (raw :: after) = (do pass 1; pure (.char raw)) := by
  unfold itemOf
  split
  · simp_all
  · simp_all
  · simp_all
  · simp_all

theorem classItem_ok {item : ClassItem} :
    classItem c = .ok item c' ↔ ∃ s, c.Passes s c' ∧ Item s item := by
  change itemOf c.index c.rest c = .ok item c' ↔ _
  constructor
  · intro taken
    cases text : c.rest with
    | nil => simp [text, itemOf] at taken
    | cons raw after =>
        rw [text] at taken
        by_cases escaped : raw = '\\'
        · subst escaped
          cases after with
          | nil => simp [itemOf] at taken
          | cons letter after =>
              obtain ⟨_, d, passed, read⟩ := bind_ok.mp taken
              have passed := (pass_ok (s := ['\\', letter]) text).mp passed
              obtain ⟨s, passed', spelled⟩ := letterItem_ok.mp read
              exact ⟨_, passed.append passed', spelled⟩
        · rw [itemOf_raw escaped] at taken
          obtain ⟨_, d, passed, read⟩ := bind_ok.mp taken
          have passed := (pass_ok (s := [raw]) text).mp passed
          obtain ⟨rfl, rfl⟩ := pure_ok.mp read
          exact ⟨_, passed, .raw escaped⟩
  · rintro ⟨s, passed, spelled⟩
    by_cases escaped : s.head? = some '\\'
    · obtain ⟨tail, rfl⟩ := List.head?_eq_some_iff.mp escaped
      cases tail with
      | nil =>
          cases spelled with
          | raw plain => exact absurd rfl plain
          | shorthand spelled => cases spelled
          | numeric spelled => cases spelled
      | cons letter tail =>
          obtain ⟨d, first, second⟩ := (Cursor.passes_append (s := ['\\', letter])).mp passed
          rw [passed.1]
          refine bind_ok.mpr ⟨(), d, (pass_ok (s := ['\\', letter]) first.1).mpr first, ?_⟩
          exact letterItem_ok.mpr ⟨tail, second, spelled⟩
    · cases spelled with
      | raw plain =>
          rw [passed.1, List.singleton_append, itemOf_raw plain]
          exact bind_ok.mpr ⟨(), c', (pass_ok (s := [_]) passed.1).mpr passed, rfl⟩
      | shorthand => simp at escaped
      | numeric => simp at escaped
      | nul => simp at escaped
      | backspace => simp at escaped
      | control => simp at escaped
      | identity => simp at escaped

private theorem eq_of_item_head {x : Char} {s : List Char} {item : ClassItem} (h : Item s item)
    (after : List Char) (head : (s ++ after).head? = some x) (plain : x ≠ '\\') :
    s = [x] ∧ item = .char x := by
  cases h with
  | raw => simp_all
  | _ => exact absurd (by simpa using head.symm) plain

private theorem ne_nil_of_item {s : List Char} {item : ClassItem} (h : Item s item) : s ≠ [] := by
  rintro rfl
  cases h

private theorem item_unique {s : List Char} {item item' : ClassItem} (h : Item s item)
    (h' : Item s item') : item = item' := by
  have passed : Cursor.Passes { size := 0, rest := s } s _ := .of_rest (List.append_nil s).symm
  have read := classItem_ok.mpr ⟨s, passed, h⟩
  have read' := classItem_ok.mpr ⟨s, passed, h'⟩
  rw [read] at read'
  cases read'
  rfl

private theorem joinRange_ok {before items : List ClassItem} {first : Char} {dash : Nat}
    {s after : List Char} {item : ClassItem} (spelled : Item s item) (inside : s ≠ [']']) :
    joinRange before first dash item = .ok items ↔
      Extends (.char first :: before) ('-' :: s) after items := by
  unfold joinRange
  constructor
  · intro joined
    split at joined
    · split at joined
      · next ascending =>
        cases joined
        exact .range spelled inside ascending
      · cases joined
    · next other =>
      cases joined
      cases item with
      | char last => exact absurd rfl (other last)
      | range => cases spelled
      | shorthand => exact .dash spelled
  · intro extended
    cases extended with
    | item single =>
        obtain ⟨same, _⟩ := eq_of_item_head single [] rfl (by decide)
        cases same
        exact absurd rfl (ne_nil_of_item spelled)
    | range last _ ascending =>
        obtain rfl := item_unique spelled last
        simp [ascending]
    | dash last =>
        obtain rfl := item_unique spelled last
        rfl

private theorem classItemStep_next {d d' : ClassDraft} :
    classItemStep d = .next d' ↔
      ∃ s, d.cursor.Passes s d'.cursor ∧ Extends d.items s d'.cursor.rest d'.items := by
  obtain ⟨c, items⟩ := d
  obtain ⟨c', items'⟩ := d'
  unfold classItemStep
  simp only
  split
  · next first before tail text =>
    have dash : c.Passes ['-'] (c.advance 1) := .of_rest text
    have rest : (c.advance 1).rest = tail := dash.rest_eq text
    split
    · next closing =>
      constructor
      · intro taken
        cases taken
        refine ⟨['-'], dash, .item (.raw (by decide)) fun _ _ => ?_⟩
        rw [rest]
        exact closing
      · rintro ⟨s, passed, extended⟩
        have starts := passed.1.symm.trans text
        cases extended with
        | item spelled =>
            obtain ⟨rfl, rfl⟩ := eq_of_item_head spelled _ (by rw [starts]; rfl) (by decide)
            rw [dash.unique passed]
        | range spelled inside =>
            simp only [List.cons_append, List.cons.injEq, true_and] at starts
            rw [← starts] at closing
            exact absurd (eq_of_item_head spelled _ closing (by decide)).1 inside
        | dash spelled =>
            simp only [List.cons_append, List.cons.injEq, true_and] at starts
            rw [← starts] at closing
            cases (eq_of_item_head spelled _ closing (by decide)).2
    · next inside =>
      constructor
      · intro taken
        split at taken
        · cases taken
        · next item e read =>
          split at taken
          · next items' joined =>
            cases taken
            obtain ⟨s, passed, spelled⟩ := classItem_ok.mp read
            refine ⟨'-' :: s, dash.append passed, ?_⟩
            refine (joinRange_ok spelled ?_).mp joined
            rintro rfl
            rw [← rest, passed.1] at inside
            exact inside rfl
          · cases taken
      · rintro ⟨s, passed, extended⟩
        have starts := passed.1.symm.trans text
        cases extended with
        | item spelled closing =>
            obtain ⟨rfl, rfl⟩ := eq_of_item_head spelled _ (by rw [starts]; rfl) (by decide)
            simp only [List.cons_append, List.nil_append, List.cons.injEq, true_and] at starts
            rw [← starts] at inside
            exact absurd (closing rfl ⟨first, before, rfl⟩) inside
        | range spelled inside' ascending =>
            obtain ⟨e, dash', passed⟩ := Cursor.passes_cons.mp passed
            obtain rfl := dash'.unique dash
            simp only [classItem_ok.mpr ⟨_, passed, spelled⟩, joinRange, if_pos ascending]
        | dash spelled =>
            obtain ⟨e, dash', passed⟩ := Cursor.passes_cons.mp passed
            obtain rfl := dash'.unique dash
            simp only [classItem_ok.mpr ⟨_, passed, spelled⟩]
            rfl
  · next choice =>
    constructor
    · intro taken
      split at taken
      · next item e read =>
        cases taken
        obtain ⟨s, passed, spelled⟩ := classItem_ok.mp read
        refine ⟨s, passed, .item spelled ?_⟩
        rintro rfl ⟨first, before, items⟩
        exact absurd passed.1 (choice first before _ items)
      · cases taken
    · rintro ⟨s, passed, extended⟩
      cases extended with
      | item spelled => simp [classItem_ok.mpr ⟨s, passed, spelled⟩]
      | range => exact absurd passed.1 (choice _ _ _ rfl)
      | dash => exact absurd passed.1 (choice _ _ _ rfl)

private theorem classStep_of_item {first : Nat} {d : ClassDraft} (some_left : d.cursor.rest ≠ [])
    (front : d.cursor.rest.head? = some ']' → d.cursor.index = first) :
    classStep first d = classItemStep d := by
  unfold classStep
  split
  · next text => exact absurd text some_left
  · next text =>
    rw [if_neg]
    have := front (by rw [text]; rfl)
    omega
  · rfl

private theorem classItemStep_of_next {first : Nat} {d d' : ClassDraft}
    (taken : classStep first d = .next d') :
    classItemStep d = .next d' ∧ (d.cursor.rest.head? = some ']' → d.cursor.index ≤ first) := by
  unfold classStep at taken
  split at taken
  · cases taken
  · split at taken
    · cases taken
    · next early => exact ⟨taken, fun _ => by omega⟩
  · next inside =>
    refine ⟨taken, fun head => ?_⟩
    obtain ⟨after, text⟩ := List.head?_eq_some_iff.mp head
    exact absurd text (inside after)

private theorem classItemStep_not_ok {d : ClassDraft} {items : List ClassItem} :
    classItemStep d ≠ .halt (.ok items c) := by
  unfold classItemStep
  intro taken
  split at taken
  · split at taken
    · cases taken
    · split at taken
      · cases taken
      · split at taken
        · cases taken
        · cases taken
  · split at taken
    · cases taken
    · cases taken

private theorem eq_of_extends_head {items items' : List ClassItem} {s after : List Char}
    (h : Extends items s after items') (head : (s ++ after).head? = some ']') : s = [']'] := by
  cases h with
  | item spelled => exact (eq_of_item_head spelled _ head (by decide)).1
  | range => simp at head
  | dash => simp at head

/-- The class reader from a draft on, for a class whose first item starts at `first`. -/
def classRun (first : Nat) (d : ClassDraft) : ClassAnswer :=
  Step.run (fun d => d.cursor.rest.length) (classStep first)
    (Step.falls_of_moves (classStep_moves first)) d

/-- The class reader comes to every place that the grammar's items lead to. -/
theorem classRun_of_items {s after : List Char} {items : List ClassItem}
    (h : Items s after items) (passed : c.Passes s c') (rest : c'.rest = after)
    (some_left : after ≠ []) : classItems c = classRun c.index ⟨c', items⟩ := by
  induction h generalizing c' with
  | nil =>
      obtain rfl := Cursor.passes_nil.mp passed
      rfl
  | @snoc s s' after items items' _ extended front ih =>
      obtain ⟨d, first, second⟩ := Cursor.passes_append.mp passed
      have text : d.rest = s' ++ after := rest ▸ second.1
      rw [ih first text (by simp [some_left])]
      refine Step.run_next ?_
      rw [classStep_of_item]
      · exact classItemStep_next.mpr ⟨s', second, rest ▸ extended⟩
      · simp [text, some_left]
      · intro head
        simp only [text] at head
        obtain rfl := front (eq_of_extends_head extended head)
        rw [Cursor.passes_nil.mp first]

/-- What the class reader has read is a text of the grammar. -/
private theorem items_of_classRun {items : List ClassItem} (read : classItems c = .ok items c') :
    ∃ s, c.Passes (s ++ [']']) c' ∧ s ≠ [] ∧ Items s (']' :: c'.rest) items.reverse := by
  refine Step.run_induct
    (fun d : ClassDraft => ∃ s, c.Passes s d.cursor ∧ Items s d.cursor.rest d.items)
    (fun answer : ClassAnswer => ∀ items c', answer = .ok items c' →
      ∃ s, c.Passes (s ++ [']']) c' ∧ s ≠ [] ∧ Items s (']' :: c'.rest) items.reverse)
    ?_ ?_ _ ⟨[], by simp, .nil⟩ items c' read
  · rintro d d' ⟨s, passed, spelled⟩ taken
    obtain ⟨taken, front⟩ := classItemStep_of_next taken
    obtain ⟨s', passed', extended⟩ := classItemStep_next.mp taken
    refine ⟨s ++ s', passed.append passed', .snoc (passed'.1 ▸ spelled) extended ?_⟩
    rintro rfl
    have := front (by rw [passed'.1]; rfl)
    have := passed.index_eq
    exact List.length_eq_zero_iff.mp (by omega)
  · rintro d answer ⟨s, passed, spelled⟩ taken items c' rfl
    unfold classStep at taken
    split at taken
    · cases taken
    · next after text =>
      split at taken
      · next later =>
        cases taken
        have closing : d.cursor.Passes [']'] (d.cursor.advance 1) := .of_rest text
        refine ⟨s, passed.append closing, ?_, ?_⟩
        · rintro rfl
          rw [Cursor.passes_nil.mp passed] at later
          omega
        · rw [List.reverse_reverse, closing.rest_eq text, ← text]
          exact spelled
      · exact absurd taken classItemStep_not_ok
    · exact absurd taken classItemStep_not_ok

private theorem classItems_ok {items : List ClassItem} :
    classItems c = .ok items c' ↔
      ∃ s, c.Passes (s ++ [']']) c' ∧ s ≠ [] ∧ Items s (']' :: c'.rest) items.reverse := by
  constructor
  · exact items_of_classRun
  · rintro ⟨s, passed, inside, spelled⟩
    obtain ⟨d, first, second⟩ := Cursor.passes_append.mp passed
    rw [classRun_of_items spelled first second.1 (by simp)]
    refine Step.run_halt ?_
    have later : c.index < d.index := by
      have := first.index_eq
      have := List.length_pos_iff.mpr inside
      omega
    unfold classStep
    simp only [second.1, List.cons_append, if_pos later, List.reverse_reverse, second.2]
    rfl

private theorem classBody_ok {p : Pattern} :
    classBody c = .ok p c' ↔
      ∃ s negated items, c.Passes s c' ∧ BracketClass ('[' :: s) c'.rest negated items ∧
        p = .charClass negated items := by
  unfold classBody
  simp only [bind_ok, map_ok, classItems_ok]
  constructor
  · rintro ⟨negated, d, mark, items, ⟨s, passed, inside, spelled⟩, rfl⟩
    rw [← List.reverse_reverse items]
    cases negated with
    | true =>
        exact ⟨_, true, _, (eat_true.mp mark).append passed, .negated spelled inside, rfl⟩
    | false =>
        obtain ⟨head, rfl⟩ := eat_false.mp mark
        refine ⟨_, false, _, passed, .plain spelled inside ?_, rfl⟩
        cases s with
        | nil => exact absurd rfl inside
        | cons x _ => simpa [passed.1] using head
  · rintro ⟨s, negated, items, passed, bracket, rfl⟩
    cases bracket with
    | @plain s _ items spelled inside plain =>
        have unmarked : c.rest.head? ≠ some '^' := by
          cases s with
          | nil => exact absurd rfl inside
          | cons x _ => simpa [passed.1] using plain
        exact ⟨false, c, eat_false.mpr ⟨unmarked, rfl⟩, items.reverse,
          ⟨s, passed, inside, by simpa using spelled⟩, rfl⟩
    | @negated s _ items spelled inside =>
        obtain ⟨d, mark, passed⟩ := Cursor.passes_cons.mp passed
        exact ⟨true, d, eat_true.mpr mark, items.reverse,
          ⟨s, passed, inside, by simpa using spelled⟩, rfl⟩

theorem charClass_ok {p : Pattern} :
    charClass c = .ok p c' ↔
      ∃ s negated items, c.Passes s c' ∧ BracketClass ('[' :: s) c'.rest negated items ∧
        p = .charClass negated items := by
  unfold charClass
  rw [inClass_ok]
  constructor
  · rintro ⟨d, read, rfl⟩
    obtain ⟨s, negated, items, passed, bracket, rfl⟩ := classBody_ok.mp read
    exact ⟨s, negated, items, passed.outside_class, bracket, rfl⟩
  · rintro ⟨s, negated, items, passed, bracket, rfl⟩
    exact ⟨c'.enterClass, classBody_ok.mpr ⟨s, negated, items, passed.inside_class, bracket, rfl⟩,
      c'.leaveClass_enterClass⟩

end PatternCompiler.Reading
