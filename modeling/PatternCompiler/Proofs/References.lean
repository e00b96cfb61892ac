import PatternCompiler.Proofs.Recognition
import PatternCompiler.Proofs.Shape

/-!
The resolution of group names and backreferences. What a walk through a tree meets of capturing
groups and backreferences are its events. A table of groups admits the events of a tree one after
the other, and the table that a parser threads through a text is the one that the walk through the
finished tree leads to.
-/

set_option autoImplicit false
set_option relaxedAutoImplicit false

namespace PatternCompiler

/-- What a walk meets: a capturing group opens, or a backreference refers to one. -/
inductive Event
  | opens (name : Option String)
  | refers (index : Option UInt32) (name : Option String)

namespace Pattern

def event? : Pattern → Option Event
  | .group true _ name _ => some (.opens name)
  | .backreference index name => some (.refers index name)
  | _ => none

/-- The events of a tree, in the order of the walk. -/
def events (p : Pattern) : List Event :=
  p.preorder.filterMap event?

def isCapturing : Pattern → Bool
  | .group capturing .. => capturing
  | _ => false

/-- The names of the groups of a tree, in the order of the walk. -/
def groupNames (p : Pattern) : List String :=
  p.preorder.filterMap groupName?

/-- The number of capturing groups of a tree. -/
def captureCount (p : Pattern) : Nat :=
  p.preorder.countP isCapturing

/-- Each backreference is either by number or by name, and refers to a group that the walk has met
before it. The groups are counted in 32 bits. -/
def RefersBack (p : Pattern) : Prop :=
  ∀ before index name after, p.preorder = before ++ .backreference index name :: after →
    (∃ n, index = some n ∧ name = none ∧ 1 ≤ n.toNat ∧
        n.toNat ≤ before.countP isCapturing % UInt32.size) ∨
      ∃ s, index = none ∧ name = some s ∧ s ∈ before.filterMap groupName?

private theorem events_eq (p : Pattern) :
    p.events = p.event?.toList ++ p.children.flatMap events := by
  rw [events, preorder_eq, List.filterMap_cons, List.filterMap_flatMap]
  cases p.event? with
  | none => rfl
  | some event => rfl

section

variable (ps : List Pattern) (body : Pattern)

@[simp]
theorem events_sequence : (sequence ps).events = ps.flatMap events :=
  events_eq _

@[simp]
theorem events_alternation : (alternation ps).events = ps.flatMap events :=
  events_eq _

@[simp]
theorem events_repetition (least : UInt32) (most : Bound) (greed : Greed) :
    (repetition body least most greed).events = body.events := by
  simp [events_eq (repetition ..), event?, children]

@[simp]
theorem events_look (direction : Direction) (negative : Bool) :
    (look direction negative body).events = body.events := by
  simp [events_eq (look ..), event?, children]

@[simp]
theorem events_group (capturing : Bool) (name : Option String) (atomic : Bool) :
    (group capturing body name atomic).events =
      (if capturing then [.opens name] else []) ++ body.events := by
  cases capturing with
  | false => simp [events_eq (group ..), event?, children]
  | true => simp [events_eq (group ..), event?, children]

private theorem events_collapse_sequence : (collapse .sequence ps).events = ps.flatMap events := by
  fun_cases collapse sequence ps with
  | case1 p => simp
  | case2 => simp

private theorem events_collapse_alternation :
    (collapse .alternation ps).events = ps.flatMap events := by
  fun_cases collapse alternation ps with
  | case1 p => simp
  | case2 => simp

end

end Pattern

namespace Captures

def after (k : Captures) : Event → Captures
  | .opens name => ⟨k.counter + 1, k.names ++ name.toList⟩
  | .refers _ _ => k

def afterAll (k : Captures) (events : List Event) : Captures :=
  events.foldl after k

/-- A table admits the opening of a group whose name, if it has one, is a new identifier, and a
reference by either number or name to a group that the table has. -/
def Admits (k : Captures) : Event → Prop
  | .opens name => ∀ s, name = some s → Grammar.Identifier s.toList ∧ s ∉ k.names
  | .refers index name =>
      (∃ n, index = some n ∧ name = none ∧ 1 ≤ n.toNat ∧ n ≤ k.counter) ∨
        ∃ s, index = none ∧ name = some s ∧ s ∈ k.names

/-- Each event is admitted by the table that the events before it lead to. -/
def Resolves (k : Captures) : List Event → Prop
  | [] => True
  | event :: events => k.Admits event ∧ (k.after event).Resolves events

variable {k : Captures} {es es' : List Event}

@[simp]
theorem afterAll_append : k.afterAll (es ++ es') = (k.afterAll es).afterAll es' :=
  List.foldl_append

@[simp]
theorem resolves_append :
    k.Resolves (es ++ es') ↔ k.Resolves es ∧ (k.afterAll es).Resolves es' := by
  induction es generalizing k with
  | nil => simp [Resolves, afterAll]
  | cons e es ih =>
      rw [List.cons_append, Resolves, Resolves, ih, and_assoc]
      rfl

private theorem nodup_afterAll (h : k.Resolves es) (distinct : k.names.Nodup) :
    (k.afterAll es).names.Nodup := by
  induction es generalizing k with
  | nil => exact distinct
  | cons e es ih =>
      refine ih h.2 ?_
      cases e with
      | refers index name => exact distinct
      | opens name =>
          cases name with
          | none => simpa [after] using distinct
          | some s =>
              have fresh := (h.1 s rfl).2
              refine List.nodup_append.mpr ⟨distinct, by simp, ?_⟩
              intro a mem b last same
              obtain rfl : b = s := by simpa using last
              exact fresh (same ▸ mem)

theorem identifier_afterAll (h : k.Resolves es)
    (before : ∀ s ∈ k.names, Grammar.Identifier s.toList) :
    ∀ s ∈ (k.afterAll es).names, Grammar.Identifier s.toList := by
  induction es generalizing k with
  | nil => exact before
  | cons e es ih =>
      refine ih h.2 ?_
      cases e with
      | refers index name => exact before
      | opens name =>
          intro s mem
          rcases List.mem_append.mp mem with mem | mem
          · exact before s mem
          · exact (h.1 s (by simpa using mem)).1

end Captures

open Grammar

def Opening.events : Opening → List Event
  | .capture => [.opens none]
  | .named name => [.opens (some name)]
  | .plain | .atomic | .look .. => []

private theorem Opening.events_close (opening : Opening) (body : Pattern) :
    (opening.close body).events = opening.events ++ body.events := by
  cases opening with
  | _ => simp [close, Opening.events]

theorem Captures.enter_eq (k : Captures) (opening : Opening) :
    k.enter opening = k.afterAll opening.events := by
  cases opening with
  | capture => simp [enter, Opening.events, afterAll, after]
  | named name => simp [enter, Opening.events, afterAll, after]
  | _ => rfl

private theorem resolves_of_opens {k : Captures} {s : List Char} {opening : Opening}
    (h : Opens k s opening) : k.Resolves opening.events := by
  cases h with
  | named identifier fresh =>
      simp [Opening.events, Captures.Resolves, Captures.Admits, identifier, fresh]
  | _ => simp [Opening.events, Captures.Resolves, Captures.Admits]

private theorem one_le_of_numeral {digits : List Char} {n : UInt32} (h : Numeral digits n)
    (head : digits.head? ≠ some '0') : 1 ≤ n.toNat := by
  obtain ⟨nonempty, digit, value⟩ := h
  cases digits with
  | nil => exact absurd rfl nonempty
  | cons c cs =>
      have above : 48 ≤ c.toNat := by
        have isDigit := digit c (by simp)
        simp only [Char.isDigit, Bool.and_eq_true, decide_eq_true_eq] at isDigit
        exact isDigit.1
      have nonzero : c.toNat ≠ 48 := by
        intro same
        exact head (congrArg some (Char.toNat_inj.mp same))
      have positive : 0 < 10 ^ cs.length * (c.toNat - 48) :=
        Nat.mul_pos (Nat.pow_pos (by decide)) (by omega)
      rw [Nat.ofDigitChars_cons, Nat.ofDigitChars_eq_ofDigitChars_zero] at value
      simp only [Nat.mul_zero, Nat.zero_add] at value
      change 10 ^ cs.length * (c.toNat - 48) + _ = _ at value
      omega

private theorem resolves_of_leaf {free : Bool} {k : Captures} {s after : List Char} {p : Pattern}
    (h : Leaf free k s after p) : k.Resolves p.events ∧ k.afterAll p.events = k := by
  cases h with
  | @number _ _ n numeral head _ le =>
      refine ⟨⟨.inl ⟨n, rfl, rfl, ?_, le⟩, trivial⟩, rfl⟩
      exact one_le_of_numeral numeral head
  | name _ mem => exact ⟨⟨.inr ⟨_, rfl, rfl, mem⟩, trivial⟩, rfl⟩
  | _ => exact ⟨trivial, rfl⟩

def Grammar.Phrase.events : Phrase → List Event
  | .atom p => p.events
  | .term p => p.events
  | .terms ps => ps.flatMap Pattern.events
  | .branches pss => pss.flatten.flatMap Pattern.events

private theorem events_treeOf (pss : List (List Pattern)) :
    (treeOf pss).events = pss.flatten.flatMap Pattern.events := by
  rw [treeOf_eq, Pattern.events_collapse_alternation]
  induction pss with
  | nil => rfl
  | cons ps pss ih =>
      rw [List.map_cons, List.flatMap_cons, ih, Pattern.events_collapse_sequence,
        List.flatten_cons, List.flatMap_append]

private theorem events_of_quantified {p q : Pattern} {s : List Char} (h : Quantified p s q) :
    q.events = p.events := by
  cases h with
  | bare => rfl
  | repeated => exact Pattern.events_repetition ..

/-- The table that the grammar threads through a text is the one that the walk through its tree
leads to, and it admits all that the walk meets. -/
theorem resolves_of_derives {free : Bool} {k k' : Captures} {s after : List Char} {phrase : Phrase}
    (h : Derives free k s after phrase k') :
    k.Resolves phrase.events ∧ k.afterAll phrase.events = k' := by
  induction h with
  | leaf leaf => exact resolves_of_leaf leaf
  | bracketed encloses _ _ ih =>
      obtain ⟨opening, opens, rfl, rfl⟩ := encloses_iff.mp encloses
      simp only [Phrase.events, Opening.events_close, events_treeOf, Captures.resolves_append,
        Captures.afterAll_append, ← Captures.enter_eq]
      exact ⟨⟨resolves_of_opens opens, ih.1⟩, ih.2⟩
  | term _ quantified ih =>
      simp only [Phrase.events, events_of_quantified quantified]
      exact ih
  | nil => exact ⟨trivial, rfl⟩
  | cons _ _ _ ihTerm ihTerms =>
      simp only [Phrase.events] at ihTerm ihTerms
      simp only [Phrase.events, List.flatMap_cons, Captures.resolves_append,
        Captures.afterAll_append, ihTerm.2]
      exact ⟨⟨ihTerm.1, ihTerms.1⟩, ihTerms.2⟩
  | single _ _ ih => simpa [Phrase.events] using ih
  | bar _ _ _ ihTerms ihBranches =>
      simp only [Phrase.events] at ihTerms ihBranches
      simp only [Phrase.events, List.flatten_cons, List.flatMap_append, Captures.resolves_append,
        Captures.afterAll_append, ihTerms.2]
      exact ⟨⟨ihTerms.1, ihBranches.1⟩, ihBranches.2⟩

private theorem Captures.afterAll_nodes (k : Captures) {nodes : List Pattern}
    (sound : ∀ q ∈ nodes, q.Sound) :
    k.afterAll (nodes.filterMap Pattern.event?) =
      ⟨k.counter + UInt32.ofNat (nodes.countP Pattern.isCapturing),
        k.names ++ nodes.filterMap Pattern.groupName?⟩ := by
  induction nodes generalizing k with
  | nil => simp [afterAll]
  | cons q nodes ih =>
      obtain ⟨here, there⟩ := List.forall_mem_cons.mp sound
      cases q with
      | group capturing body name atomic =>
          cases capturing with
          | true =>
              have rest := ih (k.after (.opens name)) there
              have count :
                  (Pattern.group true body name atomic :: nodes).countP Pattern.isCapturing =
                    nodes.countP Pattern.isCapturing + 1 := List.countP_cons_of_pos rfl
              have names :
                  (Pattern.group true body name atomic :: nodes).filterMap Pattern.groupName? =
                    name.toList ++ nodes.filterMap Pattern.groupName? := by
                cases name with
                | none => rfl
                | some s => rfl
              rw [count, names, ← List.append_assoc, Nat.add_comm _ 1, UInt32.ofNat_add,
                ← UInt32.add_assoc]
              exact rest
          | false =>
              cases name with
              | none => exact ih k there
              | some s => exact absurd (here.1 s rfl).2.1 (by decide)
      | _ => exact ih k there

theorem resolves_of_spelling {free : Bool} {body : List Char} {t : Pattern} {k : Captures}
    (h : SpellingWith free body t k) :
    Captures.Resolves {} t.events ∧ Captures.afterAll {} t.events = k ∧
      t.Throughout Pattern.Sound ∧ t.Throughout Pattern.Flat := by
  obtain ⟨pss, derived, proper, rfl⟩ := h
  obtain ⟨resolved, reached⟩ := resolves_of_derives derived
  obtain ⟨some_branch, terms⟩ := inShape_of_derives derived
  rw [events_treeOf]
  exact ⟨resolved, reached, shape_treeOf some_branch proper terms⟩

private theorem admits_nodes_iff {before : List Pattern} (sound : ∀ q ∈ before, q.Sound)
    {event : Event} :
    (Captures.afterAll {} (before.filterMap Pattern.event?)).Admits event ↔
      Captures.Admits ⟨UInt32.ofNat (before.countP Pattern.isCapturing),
        before.filterMap Pattern.groupName?⟩ event := by
  rw [Captures.afterAll_nodes {} sound]
  simp

private theorem refers_nodes_iff {before : List Pattern} {index : Option UInt32}
    {name : Option String} :
    Captures.Admits ⟨UInt32.ofNat (before.countP Pattern.isCapturing),
        before.filterMap Pattern.groupName?⟩ (.refers index name) ↔
      (∃ n, index = some n ∧ name = none ∧ 1 ≤ n.toNat ∧
          n.toNat ≤ before.countP Pattern.isCapturing % UInt32.size) ∨
        ∃ s, index = none ∧ name = some s ∧ s ∈ before.filterMap Pattern.groupName? := by
  simp only [Captures.Admits, UInt32.le_iff_toNat_le, UInt32.toNat_ofNat']

private theorem resolves_onwards {t : Pattern} (sound : t.Throughout Pattern.Sound)
    (distinct : t.groupNames.Nodup) (refers : t.RefersBack) {before rest : List Pattern}
    (walk : t.preorder = before ++ rest) :
    (Captures.afterAll {} (before.filterMap Pattern.event?)).Resolves
      (rest.filterMap Pattern.event?) := by
  induction rest generalizing before with
  | nil => trivial
  | cons q rest ih =>
      have earlier : ∀ p ∈ before, p.Sound := fun p mem => sound p (by simp [walk, mem])
      have later := @ih (before ++ [q]) (by simp [walk])
      rw [List.filterMap_append, Captures.afterAll_append] at later
      rw [← List.singleton_append, List.filterMap_append, Captures.resolves_append]
      refine ⟨?_, later⟩
      cases q with
      | group capturing body name atomic =>
          cases capturing with
          | false => trivial
          | true =>
              refine ⟨(admits_nodes_iff earlier).mpr ?_, trivial⟩
              have here := sound (.group true body name atomic) (by simp [walk])
              rintro s rfl
              refine ⟨(here.1 s rfl).1, fun again => ?_⟩
              rw [Pattern.groupNames, walk, List.filterMap_append] at distinct
              exact (List.nodup_append.mp distinct).2.2 s again s List.mem_cons_self rfl
      | backreference index name =>
          refine ⟨(admits_nodes_iff earlier).mpr ?_, trivial⟩
          exact refers_nodes_iff.mpr (refers before index name rest walk)
      | _ => trivial

/-- In a tree of sound nodes all is resolved just if the names of the groups are distinct and every
reference refers back. -/
theorem resolves_iff {t : Pattern} (sound : t.Throughout Pattern.Sound) :
    Captures.Resolves {} t.events ↔ t.groupNames.Nodup ∧ t.RefersBack := by
  constructor
  · intro resolved
    refine ⟨?_, ?_⟩
    · have distinct := Captures.nodup_afterAll resolved (by simp)
      rw [Pattern.events, Captures.afterAll_nodes {} sound] at distinct
      simpa [Pattern.groupNames] using distinct
    · intro before index name after walk
      have split : t.events = before.filterMap Pattern.event? ++
          .refers index name :: after.filterMap Pattern.event? := by
        rw [Pattern.events, walk, List.filterMap_append]
        rfl
      rw [split, Captures.resolves_append] at resolved
      have admitted := (admits_nodes_iff fun q mem => sound q (by simp [walk, mem])).mp resolved.2.1
      exact refers_nodes_iff.mp admitted
  · rintro ⟨distinct, refers⟩
    exact @resolves_onwards t sound distinct refers [] t.preorder rfl

def Pattern.table (t : Pattern) : Captures :=
  ⟨UInt32.ofNat t.captureCount, t.groupNames⟩

theorem table_of_spelling {free : Bool} {body : List Char} {t : Pattern} {k : Captures}
    (h : SpellingWith free body t k) : k = t.table := by
  obtain ⟨-, reached, sound, -⟩ := resolves_of_spelling h
  have table := Captures.afterAll_nodes {} sound
  rw [← Pattern.events, reached] at table
  simpa [Pattern.table, Pattern.captureCount, Pattern.groupNames] using table

section Counting

def Event.isOpening : Event → Bool
  | .opens _ => true
  | .refers _ _ => false

private theorem Pattern.captureCount_eq (p : Pattern) :
    p.captureCount = p.events.countP Event.isOpening := by
  rw [captureCount, events, List.countP_filterMap]
  refine List.countP_congr fun q _ => ?_
  cases q with
  | group capturing body name atomic =>
      cases capturing with
      | _ => simp [isCapturing, event?, Event.isOpening]
  | _ => simp [isCapturing, event?, Event.isOpening]

private theorem opened_le_length {free : Bool} {k k' : Captures} {s after : List Char}
    {phrase : Phrase} (h : Derives free k s after phrase k') :
    phrase.events.countP Event.isOpening ≤ s.length := by
  induction h with
  | leaf leaf =>
      cases leaf with
      | _ => exact Nat.zero_le _
  | bracketed encloses _ _ ih =>
      obtain ⟨opening, opens, rfl, rfl⟩ := encloses_iff.mp encloses
      have here : opening.events.countP Event.isOpening ≤ 1 := by
        cases opening with
        | _ => simp [Opening.events, Event.isOpening]
      have parenthesis := opens.length_pos
      simp only [Phrase.events, Opening.events_close, events_treeOf, List.countP_append,
        List.length_append] at ih ⊢
      omega
  | term _ quantified ih =>
      simp only [Phrase.events, events_of_quantified quantified, List.length_append] at ih ⊢
      omega
  | nil => exact Nat.zero_le _
  | cons _ _ _ ihTerm ihTerms =>
      simp only [Phrase.events, List.flatMap_cons, List.countP_append,
        List.length_append] at ihTerm ihTerms ⊢
      omega
  | single _ _ ih =>
      simp only [Phrase.events, List.flatten_singleton, List.length_append] at ih ⊢
      omega
  | bar _ _ _ ihTerms ihBranches =>
      simp only [Phrase.events, List.flatten_cons, List.flatMap_append, List.countP_append,
        List.length_append, List.length_cons] at ihTerms ihBranches ⊢
      omega

private theorem captureCount_le_length {free : Bool} {body : List Char} {t : Pattern} {k : Captures}
    (h : SpellingWith free body t k) : t.captureCount ≤ body.length := by
  obtain ⟨pss, derived, -, rfl⟩ := h
  rw [Pattern.captureCount_eq, events_treeOf]
  exact opened_le_length derived

/-- The groups are counted exactly as long as they cannot outgrow the 32 bits of the counter. -/
theorem count_of_spelling {free : Bool} {body : List Char} {t : Pattern} {k : Captures}
    (h : SpellingWith free body t k) (short : body.length < UInt32.size) :
    k.count = t.captureCount := by
  rw [table_of_spelling h, Captures.count, Pattern.table, UInt32.toNat_ofNat',
    Nat.mod_eq_of_lt (Nat.lt_of_le_of_lt (captureCount_le_length h) short)]

end Counting

/-- In every accepted pattern the names of groups are distinct identifiers, the parser has counted
the capturing groups and listed the names, and each backreference refers back. The count is exact as
long as it cannot outgrow its 32 bits. -/
theorem Parser.parse_resolves (source : Source) (t : Pattern) (parser : Parser)
    (parsed : (Parser.ofSource source).parse = (.ok t, parser)) :
    t.groupNames.Nodup ∧ (∀ name ∈ t.groupNames, Identifier name.toList) ∧
      parser.captures.counter = UInt32.ofNat t.captureCount ∧
      (source.body.length < UInt32.size → parser.captures.count = t.captureCount) ∧
      parser.captures.names = t.groupNames ∧ t.RefersBack := by
  have spelled := Parser.parse_ok_iff.mp ⟨congrArg Prod.fst parsed, congrArg (·.2.captures) parsed⟩
  obtain ⟨resolved, reached, sound, -⟩ := resolves_of_spelling spelled
  have table : parser.captures = t.table := table_of_spelling spelled
  have names : parser.captures.names = t.groupNames := congrArg Captures.names table
  have counter : parser.captures.counter = UInt32.ofNat t.captureCount :=
    congrArg Captures.counter table
  obtain ⟨distinct, refers⟩ := (resolves_iff sound).mp resolved
  refine ⟨distinct, ?_, counter, fun short => ?_, names, refers⟩
  · rw [← names, ← reached]
    exact Captures.identifier_afterAll resolved (by simp)
  · exact count_of_spelling spelled (by rwa [String.length_toList])

/-- A group that is referred to from inside and one that is referred to by name. -/
theorem Parser.parse_resolves_nested :
    let source : Source := ⟨{ extended := true }, "(?<a> x | (y\\2?) ) \\1 \\k<a>"⟩
    let inner := Pattern.sequence
      [.literal "y", .repetition (.backreference (some 2) none) 0 (.finite 1) .greedy]
    let t := Pattern.sequence
      [.group true (.alternation [.literal "x", .group true inner none false]) (some "a") false,
        .backreference (some 1) none, .backreference none (some "a")]
    (ofSource source).parse.1 = .ok t ∧
      (ofSource source).parse.2.captures.count = t.captureCount ∧ t.groupNames.Nodup ∧
      t.RefersBack := by
  intro source inner t
  have parsed : (ofSource source).parse.1 = .ok t := by decide +kernel
  have short : source.body.length < UInt32.size := by decide +kernel
  obtain ⟨distinct, _, _, count, _, refers⟩ :=
    Parser.parse_resolves source t _ (Prod.ext parsed rfl)
  exact ⟨parsed, count short, distinct, refers⟩

end PatternCompiler
