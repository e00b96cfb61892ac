import PatternCompiler.Proofs.Courses
import PatternCompiler.Proofs.Eagerness
import PatternCompiler.Proofs.RoundTrip

/-!
What may come behind an accepted body. The reading of a longer text comes to the place where the
body ends as the reading of the body does, in no group and with the groups of the body's tree in its
table, and goes on from there. So the rules for backreferences and group names hold behind every
body, and are stated by what its tree holds.
-/

set_option autoImplicit false
set_option relaxedAutoImplicit false

namespace PatternCompiler

namespace Reading

open Scan Grammar

/-- A reading in no group, without free spacing, at a position before a text, with a table of
groups. -/
structure Stands (r : Reading) (pos : Nat) (k : Captures) (text : List Char) : Prop where
  frames_eq : r.frames = []
  captures_eq : r.captures = k
  index_eq : r.cursor.index = pos
  rest_eq : r.cursor.rest = text
  dense : r.cursor.freeSpacing = false
  outside : r.cursor.classDepth = 0

section Next

variable {r : Reading} {pos : Nat} {k k' : Captures} {s after : List Char} {p : Pattern}
  {v : Violation} {c : Cursor}

theorem Stands.skip_eq (h : Stands r pos k s) : r.cursor.skip = r.cursor := by
  simp [Cursor.skip, h.dense]

theorem Stands.accepts (h : Stands r pos k s) (atom : Derives false k s [] (.atom p) k') :
    ∃ t, r.run.result = .ok t := by
  obtain ⟨c, table, d, frames, braces⟩ := r
  obtain ⟨rfl, rfl, rfl, rfl, dense, outside⟩ := h
  have term : Derives false table c.rest [] (.term p) k' := by
    have bare : Derives false table (c.rest ++ []) [] (.term p) k' := .term atom .bare
    rwa [List.append_nil] at bare
  have passed : c.Passes c.rest (c.advance c.rest.length) := .of_rest (List.append_nil _).symm
  have done : (c.advance c.rest.length).rest = [] := by simp
  have led : Leads [] c table d (c.advance c.rest.length) k' (d.push p) :=
    reads_of_derives term ⟨dense, outside, passed⟩ done rfl
  obtain ⟨braces', same⟩ := led braces
  have solid : (c.advance c.rest.length).skip = c.advance c.rest.length :=
    skip_solid outside (done ▸ EndsBody.solid (.inl rfl))
  exact ⟨_, by rw [same, run_end rfl (by rw [solid, done])]⟩

private theorem Stands.stops_atom {first : Char} (h : Stands r pos k (first :: after))
    (inside : first ≠ '|' ∧ first ≠ ')' ∧ first ≠ '(')
    (failed : atomFrom k pos first after r.cursor = .error v c) : r.run.result = .error v := by
  rw [run_term (by rw [h.skip_eq, h.rest_eq]) inside]
  simp only [h.skip_eq, readTerm, h.captures_eq, h.index_eq, h.rest_eq, atom, failed]
  rfl

private theorem Stands.stops_opening (h : Stands r pos k ('(' :: after))
    (failed : opening k pos (r.cursor.advance 1) = .error v c) : r.run.result = .error v := by
  rw [run_opening (by rw [h.skip_eq, h.rest_eq])]
  simp only [h.skip_eq, readOpening, h.captures_eq, h.index_eq, failed]
  rfl

end Next

section Faults

variable {captures : Captures} {start : Nat} {c : Cursor} {digits name after : List Char}

private theorem numberedReference_undefined (start : Nat) (all : ∀ x ∈ digits, x.isDigit = true)
    (beyond : captures.count < Nat.ofDigitChars 10 digits 0) (text : c.rest = digits) :
    ∃ d, numberedReference captures start c =
      .error ⟨.undefinedNumber (String.ofList digits), start⟩ d := by
  have passed : c.Passes digits (c.advance digits.length) :=
    .of_rest (text.trans (List.append_nil digits).symm)
  have taken : takeWhile Char.isDigit c = .ok digits (c.advance digits.length) :=
    takeWhile_ok.mpr ⟨passed, all, by simp [text]⟩
  refine ⟨c.advance digits.length, ?_⟩
  unfold numberedReference
  rw [bind_of_ok taken]
  cases value : count? digits with
  | none => rfl
  | some n =>
      have value := count?_eq_some_iff.mp value
      have denied : ¬ n ≤ captures.counter := by
        rw [UInt32.le_iff_toNat_le, ← value]
        exact Nat.not_le.mpr beyond
      simp only
      rw [if_neg denied]
      rfl

private theorem takeWhile_name (inside : '>' ∉ name) (text : c.rest = name ++ '>' :: after) :
    ∃ d d', takeWhile (· != '>') c = .ok name d ∧ eat '>' d = .ok true d' := by
  have passed : c.Passes name (c.advance name.length) := .of_rest text
  have closing := passed.rest_eq text
  refine ⟨_, _, takeWhile_ok.mpr ⟨passed, fun x mem => ?_, by rw [closing]; simp⟩,
    eat_true.mpr (.of_rest (s := ['>']) closing)⟩
  have other : x ≠ '>' := fun same => inside (same ▸ mem)
  simpa using other

private theorem namedReference_undefined (start : Nat) (inside : '>' ∉ name)
    (unknown : String.ofList name ∉ captures.names) (text : c.rest = '<' :: (name ++ ['>'])) :
    ∃ d, namedReference captures start c =
      .error ⟨.undefinedName (String.ofList name), start⟩ d := by
  have opened : c.Passes ['<'] (c.advance 1) := .of_rest text
  obtain ⟨d, d', taken, closed⟩ := takeWhile_name inside (opened.rest_eq text)
  have named : (String.ofList <$> takeWhile (· != '>')) (c.advance 1) = .ok (.ofList name) d :=
    map_ok.mpr ⟨name, taken, rfl⟩
  refine ⟨d', ?_⟩
  unfold namedReference
  rw [bind_of_ok (eat_true.mpr opened), if_pos rfl, bind_of_ok named, bind_of_ok closed, if_pos rfl,
    if_neg unknown]
  rfl

private theorem namedOpening_duplicate (start : Nat) (identifier : Grammar.Identifier name)
    (known : String.ofList name ∈ captures.names) (text : c.rest = name ++ '>' :: after) :
    ∃ d, namedOpening captures start c =
      .error ⟨.duplicateGroupName (String.ofList name), start⟩ d := by
  have inside : '>' ∉ name := fun mem => absurd (identifier.mem mem) (by decide)
  obtain ⟨d, d', taken, closed⟩ := takeWhile_name inside text
  refine ⟨d', ?_⟩
  unfold namedOpening
  rw [bind_of_ok (index_ok.mpr ⟨rfl, rfl⟩), bind_of_ok taken, bind_of_ok closed, if_pos rfl,
    if_pos (isIdentifier_iff.mpr identifier), if_pos known]
  rfl

private theorem escape_number {first : Char} {others : List Char} (text : c.rest = first :: others)
    (digit : first.isDigit = true) (nonzero : first ≠ '0') :
    escape captures start c = numberedReference captures start c := by
  unfold escape
  rw [bind_of_ok (rest_ok.mpr ⟨text, rfl⟩)]
  simp only [digit, bne_iff_ne.mpr nonzero, Bool.and_self, if_true]

private theorem escape_name (text : c.rest = 'k' :: after) :
    escape captures start c = namedReference captures start (c.advance 1) := by
  have passed : pass 1 c = .ok () (c.advance 1) := (pass_ok (s := ['k']) text).mpr (.of_rest text)
  unfold escape
  rw [bind_of_ok (rest_ok.mpr ⟨text, rfl⟩)]
  change (pass 1 >>= fun _ => letterEscape captures 'k' start) c = _
  rw [bind_of_ok passed]
  rfl

theorem atomFrom_escape (text : c.rest = '\\' :: after) :
    atomFrom captures start '\\' after c = escape captures start (c.advance 1) := by
  have passed : pass 1 c = .ok () (c.advance 1) := (pass_ok (s := ['\\']) text).mpr (.of_rest text)
  change (pass 1 >>= fun _ => escape captures start) c = _
  rw [bind_of_ok passed]

end Faults

section Rules

open Pcre2 (numeral_decimal head_toDigits)

variable {r : Reading} {pos : Nat} {k : Captures} {n : Nat} {name after : List Char}

private theorem derives_number (positive : 1 ≤ n) (opened : n ≤ k.count) :
    ∃ p, Derives false k ('\\' :: Nat.toDigits 10 n) [] (.atom p) k := by
  have small : n < UInt32.size := Nat.lt_of_le_of_lt opened k.counter.toNat_lt
  have numeral : Numeral (Nat.toDigits 10 n) (UInt32.ofNatLT n small) :=
    numeral_decimal (UInt32.ofNatLT n small)
  exact ⟨_, .leaf (.number numeral (head_toDigits positive) id (UInt32.le_iff_toNat_le.mpr opened))⟩

private theorem Stands.number_undefined (h : Stands r pos k ('\\' :: Nat.toDigits 10 n))
    (positive : 1 ≤ n)
    (beyond : k.count < n) : r.run.result = .error ⟨.undefinedNumber n.repr, pos⟩ := by
  have all : ∀ x ∈ Nat.toDigits 10 n, x.isDigit = true := fun x mem =>
    Nat.isDigit_of_mem_toDigits (by decide) (by decide) mem
  have text : (r.cursor.advance 1).rest = Nat.toDigits 10 n := by simp [h.rest_eq]
  have value : Nat.ofDigitChars 10 (Nat.toDigits 10 n) 0 = n :=
    Nat.ofDigitChars_toDigits (by decide) (by decide)
  obtain ⟨d, failed⟩ := numberedReference_undefined pos all (by rwa [value]) text
  obtain ⟨first, others, digits⟩ :=
    List.exists_cons_of_ne_nil (Nat.toDigits_ne_nil (n := n) (b := 10))
  have nonzero : first ≠ '0' := by
    rintro rfl
    exact head_toDigits positive (by rw [digits, List.head?_cons])
  refine h.stops_atom (by decide) (c := d) ?_
  have digit := all first (by simp [digits])
  rw [atomFrom_escape h.rest_eq, escape_number (text.trans digits) digit nonzero, failed]
  rfl

private theorem Stands.name_undefined (h : Stands r pos k ('\\' :: 'k' :: '<' :: (name ++ ['>'])))
    (inside : '>' ∉ name) (unknown : String.ofList name ∉ k.names) :
    r.run.result = .error ⟨.undefinedName (.ofList name), pos⟩ := by
  have text : (r.cursor.advance 1).rest = 'k' :: '<' :: (name ++ ['>']) := by simp [h.rest_eq]
  have quoted : ((r.cursor.advance 1).advance 1).rest = '<' :: (name ++ ['>']) := by
    rw [Cursor.rest_advance, text]
    rfl
  obtain ⟨d, failed⟩ := namedReference_undefined pos inside unknown quoted
  exact h.stops_atom (by decide) (by rw [atomFrom_escape h.rest_eq, escape_name text, failed])

private theorem derives_named (identifier : Grammar.Identifier name)
    (fresh : String.ofList name ∉ k.names) :
    ∃ p k', Derives false k ('(' :: '?' :: '<' :: (name ++ ['>', 'x', ')'])) [] (.atom p) k' := by
  have ordinary : Ordinary false 'x' [')'] := ⟨by decide, by simp, by simp⟩
  have body : Derives false (k.enter (.named (.ofList name))) (['x'] ++ []) [')']
      (.branches [[.literal (.singleton 'x')]]) _ :=
    .single (derives_terms_of_atom (.leaf (.ordinary ordinary))) .nil
  have group := Derives.of_opens (.named identifier fresh) body fun several =>
    absurd several (by simp)
  simp only [List.cons_append, List.append_assoc, List.append_nil] at group
  exact ⟨_, _, group⟩

private theorem Stands.group_duplicate
    (h : Stands r pos k ('(' :: '?' :: '<' :: (name ++ '>' :: after)))
    (identifier : Grammar.Identifier name) (known : String.ofList name ∈ k.names) :
    r.run.result = .error ⟨.duplicateGroupName (.ofList name), pos⟩ := by
  have text : (r.cursor.advance 1).rest = '?' :: '<' :: (name ++ '>' :: after) := by
    simp [h.rest_eq]
  have passed : pass 2 (r.cursor.advance 1) = .ok () ((r.cursor.advance 1).advance 2) :=
    (pass_ok (s := ['?', '<']) text).mpr (.of_rest text)
  have named : ((r.cursor.advance 1).advance 2).rest = name ++ '>' :: after := by
    rw [Cursor.rest_advance, text]
    rfl
  obtain ⟨d, failed⟩ := namedOpening_duplicate pos identifier known named
  refine h.stops_opening (c := d) ?_
  change openingOf k pos (r.cursor.advance 1).rest (r.cursor.advance 1) = _
  rw [text, openingOf.eq_4 _ _ _ (fun _ => name_head_ne identifier rfl) fun _ =>
    name_head_ne identifier rfl, bind_of_ok passed, failed]

end Rules

end Reading

namespace Source

open Reading Grammar

def Accepts (source : Source) : Prop :=
  ∃ t, source.parse = .ok t

/-- A text behind the body is accepted just if it is allowed, and is otherwise rejected for a fault
where the body ends. -/
def Takes (source : Source) (more : String) (allowed : Prop) (fault : Fault) : Prop :=
  ((source.append more).Accepts ↔ allowed) ∧
    (¬ allowed → (source.append more).FailsAt fault source.body.length)

variable {source : Source} {t : Pattern} {fault : Fault} {pos : Nat} {more : String}

private theorem takes_of {allowed : Prop} (yes : allowed → (source.append more).Accepts)
    (no : ¬ allowed → (source.append more).FailsAt fault source.body.length) :
    source.Takes more allowed fault := by
  refine ⟨⟨fun accepted => ?_, yes⟩, no⟩
  by_contra denied
  obtain ⟨t, parsed⟩ := accepted
  obtain ⟨d, failed, _⟩ := no denied
  cases parsed.symm.trans failed

private theorem captures_run (parsed : source.parse = .ok t) :
    source.start.run.captures = t.table :=
  table_of_spelling (Parser.parse_ok_iff.mp ⟨parsed, rfl⟩)

private theorem stands_append (parsed : source.parse = .ok t)
    (dense : source.flags.extended = false) (breaks : Breaks more.toList) :
    ∃ r, Stands r source.body.length t.table more.toList ∧
      (source.append more).start.run = r.run := by
  have read : source.start.run.result = .ok t := Parser.parse_eq_ok_iff_read.mp parsed
  have table := captures_run parsed
  have reached : source.start.cursor.Reaches source.start.run.cursor :=
    Step.reaches_run step_moves source.start
  have carried := (run_extend more.toList source.start).resolve_right fun mendable => by
    unfold Mendable at mendable
    rw [read] at mendable
    exact mendable breaks
  unfold Carries at carried
  rw [read] at carried
  obtain ⟨last, halted, later⟩ := carried
  obtain ⟨frames, done, place⟩ := ended_of_step halted read
  have skipped := last.cursor.reaches_skip
  have dense : last.cursor.freeSpacing = false := by
    rw [← skipped.freeSpacing_eq, ← place, reached.freeSpacing_eq]
    exact dense
  have outside : last.cursor.classDepth = 0 := by
    rw [← skipped.classDepth_eq, ← place, reached.classDepth_eq]
    rfl
  -- Nothing is skipped without free spacing, so that the last step stands at the very end.
  have solid : last.cursor.skip = last.cursor := by simp [Cursor.skip, dense]
  rw [solid] at done place
  have index : last.cursor.index = source.body.length := by
    have within := (Cursor.within_ofText source.body.toList source.flags.extended).reaches reached
    rw [place] at within
    rw [within.index_eq_length done, String.length_toList]
  have known := (captures_of_step halted).symm.trans table
  refine ⟨last.extend more.toList, ⟨frames, known, index, ?_, dense, outside⟩, ?_⟩
  · change last.cursor.rest ++ more.toList = _
    rw [done, List.nil_append]
  · rw [start_append]
    exact later

/-- A text behind a body is taken as its first atom is. -/
theorem takes_of_atom (parsed : source.parse = .ok t) (dense : source.flags.extended = false)
    {allowed : Prop} {first : Char} {after : List Char} (text : more.toList = first :: after)
    (mark : first ∈ ['\\', '('])
    (yes : allowed →
      ∃ p k, Derives false t.table (first :: after) [] (.atom p) k)
    (no : ¬ allowed → ∀ r,
      Stands r source.body.length t.table (first :: after) →
        r.run.result = .error ⟨fault, source.body.length⟩) :
    source.Takes more allowed fault := by
  have breaks : Breaks more.toList := by
    rw [text]
    rintro x ⟨⟩
    rcases List.mem_pair.mp mark with rfl | rfl
    · decide
    · decide
  obtain ⟨r, stands, same⟩ := stands_append parsed dense breaks
  rw [text] at stands
  refine takes_of (fun permitted => ?_) fun denied => ?_
  · obtain ⟨p, k, atom⟩ := yes permitted
    obtain ⟨t', read⟩ := stands.accepts atom
    exact ⟨t', Parser.parse_eq_ok_iff_read.mpr ((congrArg Outcome.result same).trans read)⟩
  · refine failsAt_iff.mpr ?_
    change (source.append more).start.run.result = _
    rw [same, no denied r stands]

/-- Behind every accepted body, a reference by number or by name is accepted just if the body has
opened the group, and a group of some name just if the body has no group of that name; otherwise the
fault is found where the body ends. What the body has opened is what the parser has counted and
named, which are the groups of the tree, counted in 32 bits. -/
theorem takes_reference_or_group (source : Source) (t : Pattern) (parser : Parser)
    (parsed : (Parser.ofSource source).parse = (.ok t, parser))
    (dense : source.flags.extended = false) :
    parser.captures = ⟨UInt32.ofNat t.captureCount, t.groupNames⟩ ∧
      (source.body.length < UInt32.size → parser.captures.count = t.captureCount) ∧
      (∀ n : Nat, 1 ≤ n →
        source.Takes ("\\" ++ n.repr) (n ≤ parser.captures.count) (.undefinedNumber n.repr)) ∧
      (∀ name : String, '>' ∉ name.toList →
        source.Takes ("\\k<" ++ name ++ ">") (name ∈ parser.captures.names)
          (.undefinedName name)) ∧
      ∀ name : String, Identifier name.toList →
        source.Takes ("(?<" ++ name ++ ">x)") (name ∉ parser.captures.names)
          (.duplicateGroupName name) := by
  have accepted : source.parse = .ok t := congrArg Prod.fst parsed
  have spelled := Parser.parse_ok_iff.mp ⟨accepted, congrArg (·.2.captures) parsed⟩
  have exactly (short : source.body.length < UInt32.size) :
      parser.captures.count = t.captureCount :=
    count_of_spelling spelled (by rwa [String.length_toList])
  have table : parser.captures = t.table := table_of_spelling spelled
  refine ⟨table, exactly, ?_⟩
  rw [table]
  refine ⟨fun n positive => ?_, fun name inside => ?_, fun name identifier => ?_⟩
  · have text : ("\\" ++ n.repr).toList = '\\' :: Nat.toDigits 10 n := by simp
    refine takes_of_atom accepted dense text (by simp) (fun opened => ?_) fun beyond r stands => ?_
    · obtain ⟨p, atom⟩ := derives_number positive opened
      exact ⟨p, _, atom⟩
    · exact stands.number_undefined positive (Nat.not_le.mp beyond)
  · have text : ("\\k<" ++ name ++ ">").toList = '\\' :: 'k' :: '<' :: (name.toList ++ ['>']) := by
      simp
    refine takes_of_atom accepted dense text (by simp) (fun known => ?_) fun unknown r stands => ?_
    · exact ⟨_, _, .leaf (.name inside (by simpa using known))⟩
    · simpa using stands.name_undefined inside (by simpa using unknown)
  · have text : ("(?<" ++ name ++ ">x)").toList =
        '(' :: '?' :: '<' :: (name.toList ++ ['>', 'x', ')']) := by
      simp
    refine takes_of_atom accepted dense text (by simp) (fun fresh => ?_) fun known r stands => ?_
    · exact derives_named identifier (by simpa using fresh)
    · simpa using stands.group_duplicate identifier (by simpa using known)

/-- A named group in one branch and a group inside a lookahead in the other. -/
theorem takes_reference_or_group_branches :
    let source : Source := ⟨{}, "(?:(?<a>x)|(?=(y)))"⟩
    (source.append "\\2").Accepts ∧ (source.append "\\3").FailsAt (.undefinedNumber "3") 19 ∧
      (source.append "\\k<a>").Accepts ∧
      (source.append "\\k<b>").FailsAt (.undefinedName "b") 19 ∧
      (source.append "(?<b>x)").Accepts ∧
      (source.append "(?<a>x)").FailsAt (.duplicateGroupName "a") 19 := by
  intro source
  let t : Pattern := .group false
    (.alternation
      [.group true (.literal "x") (some "a") false,
        .look .ahead false (.group true (.literal "y") none false)]) none false
  have parsed : source.parse = .ok t := Parser.parse_eq_ok_iff_read.mpr (by decide +kernel)
  have count : t.captureCount = 2 := by decide +kernel
  have names : t.groupNames = ["a"] := by decide +kernel
  have length : source.body.length = 19 := by decide +kernel
  obtain ⟨table, _, taken⟩ := takes_reference_or_group source t _ (Prod.ext parsed rfl) rfl
  rw [table, count, names] at taken
  simp only [Takes, length] at taken
  obtain ⟨number, reference, group⟩ := taken
  exact ⟨(number 2 (by decide)).1.mpr (by decide), (number 3 (by decide)).2 (by decide),
    (reference "a" (by decide)).1.mpr (by decide), (reference "b" (by decide)).2 (by decide),
    (group "b" (by decide)).1.mpr (by decide), (group "a" (by decide)).2 (by decide)⟩

end Source

end PatternCompiler
