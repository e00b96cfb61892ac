import Mathlib.Data.List.Forall2
import PatternCompiler.Artifact
import PatternCompiler.Proofs.Tree

/-!
The format of serialised trees, flags and artifacts. A table lists the fields that an object may
have, with a value for those that it has. `HasForm` states the format by such tables, one for each
construct, and apart from the writer and the reader. The writer keeps to the format, and the reader
takes whatever keeps to it for the tree or artifact that it is the form of, so that every value
survives being written and read back.
-/

set_option autoImplicit false
set_option relaxedAutoImplicit false

namespace PatternCompiler

namespace Json

/-- The fields of an object are those that have a value in a table, in the order of the table. -/
structure Holds (table : List (String × Option Json)) (fields : List (String × Json)) : Prop where
  names : fields.map Prod.fst = (table.filter fun entry => entry.2.isSome).map Prod.fst
  values : table.Forall fun entry => lookup entry.1 fields = entry.2

def present (table : List (String × Option Json)) : List (String × Json) :=
  table.filterMap fun entry => entry.2.map fun value => (entry.1, value)

variable {α : Type} {name : String} {table : List (String × Option Json)}

private theorem lookup_cons (field : String × α) (fields : List (String × α)) :
    lookup name (field :: fields) = if field.1 = name then some field.2 else lookup name fields := by
  by_cases same : field.1 = name
  · simp [lookup, same]
  · simp [lookup, same]

private theorem lookup_eq_none {fields : List (String × α)} (absent : name ∉ fields.map Prod.fst) :
    lookup name fields = none := by
  induction fields with
  | nil => rfl
  | cons field fields ih =>
      simp only [List.map_cons, List.mem_cons, not_or] at absent
      rw [lookup_cons, if_neg (Ne.symm absent.1), ih absent.2]

private theorem names_present (table : List (String × Option Json)) :
    (present table).map Prod.fst = (table.filter fun entry => entry.2.isSome).map Prod.fst := by
  induction table with
  | nil => rfl
  | cons entry table ih =>
      obtain ⟨name, value⟩ := entry
      cases value with
      | none => simpa [present] using ih
      | some value => simpa [present] using ih

private theorem lookup_present (distinct : (table.map Prod.fst).Nodup) :
    ∀ entry ∈ table, lookup entry.1 (present table) = entry.2 := by
  induction table with
  | nil => simp
  | cons first table ih =>
      obtain ⟨name, value⟩ := first
      obtain ⟨fresh, later⟩ := List.nodup_cons.mp distinct
      have absent : lookup name (present table) = none := by
        refine lookup_eq_none fun mem => fresh ?_
        rw [names_present] at mem
        exact List.map_subset _ (List.filter_sublist.subset) mem
      intro entry mem
      rcases List.mem_cons.mp mem with rfl | there
      · cases value with
        | none => exact absent
        | some value => simp [present, lookup_cons]
      · have other : name ≠ entry.1 := by
          intro same
          exact fresh (List.mem_map.mpr ⟨entry, there, same.symm⟩)
        cases value with
        | none => exact ih later entry there
        | some value =>
            change lookup entry.1 ((name, value) :: present table) = entry.2
            rw [lookup_cons, if_neg other, ih later entry there]

private theorem holds_present (distinct : (table.map Prod.fst).Nodup) :
    Holds table (present table) :=
  ⟨names_present table, List.forall_iff_forall_mem.mpr (lookup_present distinct)⟩

private theorem holds_tagged (role : TreeRole) {kind : Json} (distinct : (table.map Prod.fst).Nodup)
    (untagged : "kind" ∉ table.map Prod.fst ∧ "ir" ∉ table.map Prod.fst) :
    Holds ((role.tag, some kind) :: table) ((role.tag, kind) :: present table) := by
  refine holds_present (List.nodup_cons.mpr ⟨?_, distinct⟩)
  cases role with
  | parsed => exact untagged.1
  | compiled => exact untagged.2

end Json

open Json

/-- The largest count of a repetition is a whole number or the text `Inf`. -/
inductive Bound.HasForm : Bound → Json → Prop
  | finite (count : UInt32) : HasForm (.finite count) (.int count.toNat)
  | unbounded : HasForm .unbounded (.str "Inf")

/-- The form of a class item: characters are texts of length one, and a property that is absent is
left out. -/
inductive ClassItem.HasForm (tag : String) : ClassItem → Json → Prop
  | char {c : Char} {fields : List (String × Json)} :
      Holds [(tag, some (.str "Char")), ("char", some (.str (String.singleton c)))] fields →
      HasForm tag (.char c) (.obj fields)
  | range {first last : Char} {fields : List (String × Json)} :
      Holds [(tag, some (.str "Range")), ("from", some (.str (String.singleton first))),
        ("to", some (.str (String.singleton last)))] fields →
      HasForm tag (.range first last) (.obj fields)
  | shorthand {kind : Shorthand} {property : Option String} {fields : List (String × Json)} :
      Holds [(tag, some (.str "Esc")), ("type", some (.str (String.singleton kind.letter))),
        ("property", property.map .str)] fields →
      HasForm tag (.shorthand kind property) (.obj fields)

/-- The form of a tree: an object for every node, with the name of its construct under the tag. -/
inductive Pattern.HasForm (tag : String) : Pattern → Json → Prop
  | alternation {branches : List Pattern} {elements : List Json} {fields : List (String × Json)} :
      List.Forall₂ (HasForm tag) branches elements →
      Holds [(tag, some (.str "Alt")), ("branches", some (.arr elements))] fields →
      HasForm tag (.alternation branches) (.obj fields)
  | sequence {parts : List Pattern} {elements : List Json} {fields : List (String × Json)} :
      List.Forall₂ (HasForm tag) parts elements →
      Holds [(tag, some (.str "Seq")), ("parts", some (.arr elements))] fields →
      HasForm tag (.sequence parts) (.obj fields)
  | literal {text : String} {fields : List (String × Json)} :
      Holds [(tag, some (.str "Lit")), ("value", some (.str text))] fields →
      HasForm tag (.literal text) (.obj fields)
  | anyChar {fields : List (String × Json)} :
      Holds [(tag, some (.str "Dot"))] fields → HasForm tag .anyChar (.obj fields)
  | anchor {place : Anchor} {fields : List (String × Json)} :
      Holds [(tag, some (.str "Anchor")), ("at", some (.str place.name))] fields →
      HasForm tag (.anchor place) (.obj fields)
  | charClass {negated : Bool} {items : List ClassItem} {elements : List Json}
      {fields : List (String × Json)} :
      List.Forall₂ (ClassItem.HasForm tag) items elements →
      Holds [(tag, some (.str "CharClass")), ("negated", some (.bool negated)),
        ("items", some (.arr elements))] fields →
      HasForm tag (.charClass negated items) (.obj fields)
  | repetition {body : Pattern} {least : UInt32} {most : Bound} {greed : Greed}
      {child max : Json} {fields : List (String × Json)} :
      HasForm tag body child → most.HasForm max →
      Holds [(tag, some (.str "Quant")), ("child", some child), ("min", some (.int least.toNat)),
        ("max", some max), ("mode", some (.str greed.name))] fields →
      HasForm tag (.repetition body least most greed) (.obj fields)
  | group {capturing : Bool} {body : Pattern} {name : Option String} {atomic : Bool}
      {child : Json} {fields : List (String × Json)} :
      HasForm tag body child →
      Holds [(tag, some (.str "Group")), ("capturing", some (.bool capturing)),
        ("body", some child), ("name", name.map .str),
        ("atomic", if atomic = true then some (.bool true) else none)] fields →
      HasForm tag (.group capturing body name atomic) (.obj fields)
  | backreference {index : Option UInt32} {name : Option String} {fields : List (String × Json)} :
      Holds [(tag, some (.str "Backref")), ("byIndex", index.map fun n => .int n.toNat),
        ("byName", name.map .str)] fields →
      HasForm tag (.backreference index name) (.obj fields)
  | look {direction : Direction} {negative : Bool} {body : Pattern} {child : Json}
      {fields : List (String × Json)} :
      HasForm tag body child →
      Holds [(tag, some (.str "Look")), ("dir", some (.str direction.name)),
        ("neg", some (.bool negative)), ("body", some child)] fields →
      HasForm tag (.look direction negative body) (.obj fields)

/-- The form of flags: all five are given. -/
inductive Flags.HasForm (flags : Flags) : Json → Prop
  | given {fields : List (String × Json)} :
      Holds [("ignoreCase", some (.bool flags.ignoreCase)),
        ("multiline", some (.bool flags.multiline)), ("dotAll", some (.bool flags.dotAll)),
        ("unicode", some (.bool flags.unicode)), ("extended", some (.bool flags.extended))] fields →
      HasForm flags (.obj fields)

/-- The form of the outcome of parsing, whose tree has the tag `kind`. -/
inductive ParseArtifact.HasForm (a : ParseArtifact) : Json → Prop
  | given {flags root : Json} {fields : List (String × Json)} :
      a.flags.HasForm flags → a.root.HasForm "kind" root →
      Holds [("version", some (.str a.version)), ("flags", some flags), ("root", some root),
        ("warnings", some (.arr (a.warnings.map .str))),
        ("errors", some (.arr (a.errors.map .str)))] fields →
      HasForm a (.obj fields)

/-- The form of the outcome of compiling, whose tree has the tag `ir`. -/
inductive CompileArtifact.HasForm (a : CompileArtifact) : Json → Prop
  | given {root : Json} {fields metadata : List (String × Json)} :
      a.root.HasForm "ir" root →
      Holds [("features_used", some (.arr (a.features.map fun f => .str f.name)))] metadata →
      Holds [("ir", some root), ("metadata", some (.obj metadata))] fields →
      HasForm a (.obj fields)

private theorem Json.forall₂_encoded {α β : Type} {form : α → β → Prop} {encode : α → β}
    {xs : List α} (each : ∀ x ∈ xs, form x (encode x)) : List.Forall₂ form xs (xs.map encode) :=
  List.forall₂_map_right_iff.mpr (List.forall₂_same.mpr each)

private theorem Bound.hasForm_encode (most : Bound) : most.HasForm most.encode := by
  cases most with
  | finite count => exact .finite count
  | unbounded => exact .unbounded

private theorem ClassItem.hasForm_encode (role : TreeRole) (item : ClassItem) :
    item.HasForm role.tag (item.encode role) := by
  cases item with
  | char c => exact .char (holds_tagged role (by simp) (by simp))
  | range first last => exact .range (holds_tagged role (by simp) (by simp))
  | shorthand kind property =>
      refine .shorthand ?_
      cases property with
      | none => exact holds_tagged role (by simp) (by simp)
      | some name => exact holds_tagged role (by simp) (by simp)

namespace Pattern

@[simp]
private theorem encodeAll_eq (role : TreeRole) (ps : List Pattern) :
    encodeAll role ps = ps.map (encode role) := by
  induction ps with
  | nil => rfl
  | cons p ps ih => rw [encodeAll, ih, List.map_cons]

/-- Trees are written in their form. -/
theorem hasForm_encode (role : TreeRole) (p : Pattern) : p.HasForm role.tag (p.encode role) := by
  induction p with
  | alternation branches ih =>
      rw [encode, encodeAll_eq]
      exact .alternation (forall₂_encoded ih) (holds_tagged role (by simp) (by simp))
  | sequence parts ih =>
      rw [encode, encodeAll_eq]
      exact .sequence (forall₂_encoded ih) (holds_tagged role (by simp) (by simp))
  | literal text => exact .literal (holds_tagged role (by simp) (by simp))
  | anyChar => exact .anyChar (holds_tagged role (by simp) (by simp))
  | anchor place => exact .anchor (holds_tagged role (by simp) (by simp))
  | charClass negated items =>
      exact .charClass (forall₂_encoded fun item _ => item.hasForm_encode role)
        (holds_tagged role (by simp) (by simp))
  | repetition body least most greed ih =>
      exact .repetition ih most.hasForm_encode (holds_tagged role (by simp) (by simp))
  | group capturing body name atomic ih =>
      refine .group ih ?_
      -- which fields are left out is decided by both
      cases name <;> cases atomic <;> exact holds_tagged role (by simp) (by simp)
  | backreference index name =>
      refine .backreference ?_
      cases index <;> cases name <;> exact holds_tagged role (by simp) (by simp)
  | look direction negative body ih =>
      exact .look ih (holds_tagged role (by simp) (by simp))

end Pattern

private theorem Flags.hasForm_encode (flags : Flags) : flags.HasForm flags.encode :=
  .given (holds_present (by simp))

private theorem ParseArtifact.hasForm_encode (a : ParseArtifact) : a.HasForm a.encode :=
  .given a.flags.hasForm_encode (a.root.hasForm_encode .parsed) (holds_present (by simp))

private theorem CompileArtifact.hasForm_encode (a : CompileArtifact) : a.HasForm a.encode :=
  .given (a.root.hasForm_encode .compiled) (holds_present (by simp)) (holds_present (by simp))

section Reading

variable {α : Type} {role : TreeRole} {name : String} {fields : List (String × Json)}

private theorem Json.required_of_lookup {decode : Json → Option α} {j : Json}
    (found : lookup name fields = some j) : required name decode fields = decode j := by
  simp [required, found]

private theorem Json.optional_of_lookup {decode : Json → Option α} {encode : α → Json}
    {value : Option α}
    (found : lookup name fields = value.map encode) (reads : ∀ a, decode (encode a) = some a)
    (other : ∀ a, encode a ≠ .null) : optional name decode fields = some value := by
  cases value with
  | none => simp [optional, found]
  | some a =>
      unfold optional
      split
      · next none_found => simp [found] at none_found
      · next null =>
        rw [found] at null
        exact absurd (Option.some.inj null) (other a)
      · next j _ given =>
        rw [found] at given
        obtain rfl : encode a = j := Option.some.inj given
        simp [reads]

private theorem Json.optional_text_of_lookup {text : Option String}
    (found : lookup name fields = text.map .str) : optional name asString? fields = some text :=
  optional_of_lookup found (fun _ => rfl) (by simp)

private theorem Json.defaulted_of_lookup {default : α} {decode : Json → Option α} {j : Json}
    (found : lookup name fields = some j) : defaulted name default decode fields = decode j := by
  simp [defaulted, found]

private theorem Json.mark_of_lookup {b : Bool}
    (found : lookup name fields = if b = true then some (.bool true) else none) :
    defaulted name false asBool? fields = some b := by
  cases b with
  | false => simp [defaulted, found]
  | true => simp [defaulted, found, asBool?]

private theorem Json.asCount?_int (count : UInt32) : asCount? (.int count.toNat) = some count := by
  have small := count.toNat_lt_size
  simp [asCount?, small]

private theorem Json.asChar?_singleton (c : Char) :
    asChar? (.str (String.singleton c)) = some c := by
  simp [asChar?]

private theorem Json.mapM_of_forall₂ {β : Type} {form : α → β → Prop} {decode : β → Option α}
    {xs : List α} {ys : List β} (formed : List.Forall₂ form xs ys)
    (reads : ∀ x ∈ xs, ∀ y, form x y → decode y = some x) : ys.mapM decode = some xs := by
  induction formed with
  | nil => rfl
  | cons here _ ih =>
      obtain ⟨first, later⟩ := List.forall_mem_cons.mp reads
      simp [List.mapM_cons, first _ here, ih later]

private theorem Bound.decode_of_hasForm {most : Bound} {j : Json} (formed : most.HasForm j) :
    Bound.decode j = some most := by
  cases formed with
  | finite count => simp [Bound.decode, Bound.read, asCount?_int, Except.toOption]
  | unbounded => simp [Bound.decode, Bound.read, Except.toOption]

private theorem ClassItem.decode_obj {tag : String}
    (found : lookup role.tag fields = some (.str tag)) :
    ClassItem.decode role (.obj fields) = ofFields tag fields := by
  simp [ClassItem.decode, required_of_lookup found, asString?]

private theorem ClassItem.decode_of_hasForm {item : ClassItem} {j : Json}
    (formed : item.HasForm role.tag j) : ClassItem.decode role j = some item := by
  cases formed with
  | char holds =>
      obtain ⟨tag, char⟩ := holds.values
      simp [decode_obj tag, ofFields, required_of_lookup char, asChar?_singleton]
  | range holds =>
      obtain ⟨tag, first, last⟩ := holds.values
      simp [decode_obj tag, ofFields, required_of_lookup first, required_of_lookup last,
        asChar?_singleton]
  | shorthand holds =>
      obtain ⟨tag, letter, property⟩ := holds.values
      have named := optional_text_of_lookup property
      simp [decode_obj tag, ofFields, required_of_lookup letter, named, asChar?_singleton,
        Shorthand.ofLetter?_letter]

namespace Pattern

private theorem json_denote (role : TreeRole) (j : Json) : (denote role j).json = j := by
  cases j with
  | _ => rfl

private theorem denoteAll_eq (role : TreeRole) (elements : List Json) :
    denoteAll role elements = elements.map (denote role) := by
  induction elements with
  | nil => rfl
  | cons j elements ih => rw [denoteAll, ih, List.map_cons]

private theorem map_json_denoteFields (role : TreeRole) (fields : List (String × Json)) :
    ((denoteFields role fields).map fun field => (field.1, field.2.json)) = fields := by
  induction fields with
  | nil => rfl
  | cons field fields ih => simp [denoteFields, json_denote, ih]

private theorem lookup_denoteFields (role : TreeRole) (name : String)
    (fields : List (String × Json)) :
    lookup name (denoteFields role fields) = (lookup name fields).map (denote role) := by
  induction fields with
  | nil => rfl
  | cons field fields ih =>
      rw [denoteFields, lookup_cons, lookup_cons, ih]
      split
      · rfl
      · rfl

private theorem decode_obj {tag : String} (found : lookup role.tag fields = some (.str tag)) :
    decode role (.obj fields) = ofFields role tag (denoteFields role fields) := by
  simp [decode, denote, ofObject, lookup_denoteFields, found, asString?]

private theorem subtree_of_lookup {j : Json} (found : lookup name fields = some j) :
    subtree name (denoteFields role fields) = decode role j := by
  simp [subtree, lookup_denoteFields, found, decode]

private theorem subtrees_of_lookup {elements : List Json}
    (found : lookup name fields = some (.arr elements)) :
    subtrees name (denoteFields role fields) = elements.mapM (decode role) := by
  have trees : (denote role (.arr elements)).trees = elements.mapM (decode role) := by
    simp only [denote, denoteAll_eq, List.mapM_map]
    rfl
  simp [subtrees, lookup_denoteFields, found, trees]

/-- Whatever has the form of a tree is read as this tree. -/
theorem decode_of_hasForm {p : Pattern} {j : Json} (formed : p.HasForm role.tag j) :
    decode role j = some p := by
  induction p generalizing j with
  | alternation branches ih =>
      cases formed with
      | alternation each holds =>
          obtain ⟨tag, elements⟩ := holds.values
          have read := mapM_of_forall₂ each fun p mem j => ih p mem
          simp [decode_obj tag, ofFields, subtrees_of_lookup elements, read]
  | sequence parts ih =>
      cases formed with
      | sequence each holds =>
          obtain ⟨tag, elements⟩ := holds.values
          have read := mapM_of_forall₂ each fun p mem j => ih p mem
          simp [decode_obj tag, ofFields, subtrees_of_lookup elements, read]
  | literal text =>
      cases formed with
      | literal holds =>
          obtain ⟨tag, value⟩ := holds.values
          simp [decode_obj tag, ofFields, map_json_denoteFields, required_of_lookup value, asString?]
  | anyChar =>
      cases formed with
      | anyChar holds => simp [decode_obj holds.values, ofFields]
  | anchor place =>
      cases formed with
      | anchor holds =>
          obtain ⟨tag, place⟩ := holds.values
          simp [decode_obj tag, ofFields, map_json_denoteFields, required_of_lookup place,
            asString?, Anchor.ofName?_name]
  | charClass negated items =>
      cases formed with
      | charClass each holds =>
          obtain ⟨tag, negated, elements⟩ := holds.values
          have read := mapM_of_forall₂ each fun item _ j => item.decode_of_hasForm
          simp [decode_obj tag, ofFields, map_json_denoteFields, required_of_lookup negated,
            required_of_lookup elements, asBool?, asList?, read]
  | repetition body least most greed ih =>
      cases formed with
      | repetition child max holds =>
          obtain ⟨tag, body, least, most, greed⟩ := holds.values
          simp [decode_obj tag, ofFields, map_json_denoteFields, subtree_of_lookup body, ih child,
            required_of_lookup least, required_of_lookup most, required_of_lookup greed,
            asCount?_int, Bound.decode_of_hasForm max, asString?, Greed.ofName?_name]
  | group capturing body name atomic ih =>
      cases formed with
      | group child holds =>
          obtain ⟨tag, capturing, body, name, atomic⟩ := holds.values
          have named := optional_text_of_lookup name
          have marked := mark_of_lookup atomic
          simp [decode_obj tag, ofFields, map_json_denoteFields, subtree_of_lookup body, ih child,
            required_of_lookup capturing, named, marked, asBool?]
  | backreference index name =>
      cases formed with
      | backreference holds =>
          obtain ⟨tag, index, name⟩ := holds.values
          have numbered := optional_of_lookup index asCount?_int (by simp)
          have named := optional_text_of_lookup name
          simp [decode_obj tag, ofFields, map_json_denoteFields, numbered, named]
  | look direction negative body ih =>
      cases formed with
      | look child holds =>
          obtain ⟨tag, direction, negative, body⟩ := holds.values
          simp [decode_obj tag, ofFields, map_json_denoteFields, subtree_of_lookup body, ih child,
            required_of_lookup direction, required_of_lookup negative, asBool?, asString?,
            Direction.ofName?_name]

end Pattern

private theorem Flags.decode_of_hasForm {flags : Flags} {j : Json} (formed : flags.HasForm j) :
    Flags.decode j = some flags := by
  cases formed with
  | given holds =>
      obtain ⟨ignoreCase, multiline, dotAll, unicode, extended⟩ := holds.values
      simp [Flags.decode, asRecord?, required_of_lookup ignoreCase, required_of_lookup multiline,
        required_of_lookup dotAll, required_of_lookup unicode, required_of_lookup extended, asBool?]

private theorem Json.asList?_map {encode : α → Json} {decode : Json → Option α}
    (reads : ∀ a, decode (encode a) = some a) (values : List α) :
    asList? decode (.arr (values.map encode)) = some values := by
  have formed : List.Forall₂ (fun a j => j = encode a) values (values.map encode) :=
    forall₂_encoded fun _ _ => rfl
  exact mapM_of_forall₂ formed fun a _ j same => same ▸ reads a

private theorem ParseArtifact.decode_of_hasForm {a : ParseArtifact} {j : Json}
    (formed : a.HasForm j) :
    ParseArtifact.decode j = some a := by
  cases formed with
  | given flagged rooted holds =>
      obtain ⟨version, flags, root, warnings, errors⟩ := holds.values
      have texts : ∀ texts : List String, asList? asString? (.arr (texts.map .str)) = some texts :=
        asList?_map fun _ => rfl
      have tree : Pattern.decode .parsed _ = some a.root := Pattern.decode_of_hasForm rooted
      simp [ParseArtifact.decode, asRecord?, required_of_lookup version, required_of_lookup flags,
        required_of_lookup root, defaulted_of_lookup warnings, defaulted_of_lookup errors, asString?,
        Flags.decode_of_hasForm flagged, tree, texts]

private theorem CompileArtifact.decode_of_hasForm {a : CompileArtifact} {j : Json}
    (formed : a.HasForm j) :
    CompileArtifact.decode j = some a := by
  cases formed with
  | given rooted reported holds =>
      obtain ⟨root, metadata⟩ := holds.values
      have tree : Pattern.decode .compiled _ = some a.root := Pattern.decode_of_hasForm rooted
      have features : asList? Feature.decode (.arr (a.features.map fun f => .str f.name)) =
          some a.features := asList?_map Feature.ofName?_name a.features
      simp [CompileArtifact.decode, asRecord?, required_of_lookup root,
        required_of_lookup metadata, CompileArtifact.decodeFeatures,
        required_of_lookup reported.values, features, tree]

end Reading

/-- Trees in both roles, flags and both artifacts are written in the form of the artifact format,
and what is written is read back as what it was. -/
theorem serialised_reads_back (tree : Pattern) (flags : Flags) (parsed : ParseArtifact)
    (compiled : CompileArtifact) :
    (tree.HasForm "kind" (tree.encode .parsed) ∧
      Pattern.decode .parsed (tree.encode .parsed) = some tree) ∧
    (tree.HasForm "ir" (tree.encode .compiled) ∧
      Pattern.decode .compiled (tree.encode .compiled) = some tree) ∧
    (flags.HasForm flags.encode ∧ Flags.decode flags.encode = some flags) ∧
    (parsed.HasForm parsed.encode ∧ ParseArtifact.decode parsed.encode = some parsed) ∧
    (compiled.HasForm compiled.encode ∧
      CompileArtifact.decode compiled.encode = some compiled) := by
  have treeForm := tree.hasForm_encode
  refine ⟨⟨treeForm .parsed, ?_⟩, ⟨treeForm .compiled, ?_⟩, ⟨flags.hasForm_encode, ?_⟩,
    ⟨parsed.hasForm_encode, ?_⟩, ⟨compiled.hasForm_encode, ?_⟩⟩
  · exact Pattern.decode_of_hasForm (treeForm .parsed)
  · exact Pattern.decode_of_hasForm (treeForm .compiled)
  · exact Flags.decode_of_hasForm flags.hasForm_encode
  · exact ParseArtifact.decode_of_hasForm parsed.hasForm_encode
  · exact CompileArtifact.decode_of_hasForm compiled.hasForm_encode

end PatternCompiler
