import PatternCompiler.Decimal.Scaled
import PatternCompiler.Json.Basic
import PatternCompiler.Pattern.Names
import PatternCompiler.Text.Quoted

/-!
The serialised form of trees. Every node is an object tagged with the name of its construct;
absent names, indices and properties are left out, and so is `atomic` when it is false. Reading
ignores fields it does not know, and takes an array of a node's tag and fields for the object.
-/

set_option autoImplicit false
set_option relaxedAutoImplicit false

namespace PatternCompiler

inductive TreeRole
  | parsed | compiled
  deriving DecidableEq

def TreeRole.tag : TreeRole → String
  | .parsed => "kind"
  | .compiled => "ir"

def Bound.encode : Bound → Json
  | .finite count => .nat count.toNat
  | .unbounded => .str "Inf"

inductive BoundFault
  | outOfRange (n : Int)
  | wrongText (s : String)
  | wrongType (value : Json)

def Json.unexpected : Json → String
  | .null => "null"
  | .bool b => "boolean `" ++ (if b then "true" else "false") ++ "`"
  | .int n => "integer `" ++ toString n ++ "`"
  | .real d => "floating point `" ++ realText d ++ "`"
  | .str s => "string " ++ Text.quote s
  | .arr _ => "sequence"
  | .obj _ => "map"
where
  /-- The shortest decimal of a number, always with a decimal point. -/
  realText (d : Decimal) : String :=
    let text := (Decimal.ofFloat d.scaled).positional
    String.ofList (if '.' ∈ text then text else text ++ ['.', '0'])

def BoundFault.message : BoundFault → String
  | .outOfRange n => "quantifier bound " ++ toString n ++ " out of range"
  | .wrongText s =>
      "invalid value: " ++ (Json.str s).unexpected ++ ", expected a non-negative integer or \"Inf\""
  | .wrongType value =>
      "invalid type: " ++ value.unexpected ++ ", expected a non-negative integer or \"Inf\""

/-- The largest count that a value denotes, or what is wrong with the value. -/
def Bound.read : Json → Except BoundFault Bound
  | .int n =>
      match (Json.int n).asCount? with
      | some count => .ok (.finite count)
      | none => .error (.outOfRange n)
  | .str s => if s = "Inf" then .ok .unbounded else .error (.wrongText s)
  | value => .error (.wrongType value)

def Bound.decode (value : Json) : Option Bound :=
  (Bound.read value).toOption

namespace ClassItem

def encode (role : TreeRole) : ClassItem → Json
  | .char c => .obj [(role.tag, .str "Char"), ("char", .str c.toString)]
  | .range first last =>
      .obj [(role.tag, .str "Range"), ("from", .str first.toString), ("to", .str last.toString)]
  | .shorthand kind property =>
      .obj ([(role.tag, .str "Esc"), ("type", .str kind.letter.toString)] ++
        Json.optionalField "property" .str property)

def fieldNames : String → List String
  | "Char" => ["char"]
  | "Range" => ["from", "to"]
  | "Esc" => ["type", "property"]
  | _ => []

def ofFields (tag : String) (fields : List (String × Json)) : Option ClassItem :=
  match tag with
  | "Char" => do
      return .char (← Json.required "char" Json.asChar? fields)
  | "Range" => do
      let first ← Json.required "from" Json.asChar? fields
      return .range first (← Json.required "to" Json.asChar? fields)
  | "Esc" => do
      let letter ← Json.required "type" Json.asChar? fields
      let kind ← Shorthand.ofLetter? letter
      return .shorthand kind (← Json.optional "property" Json.asString? fields)
  | _ => none

def decode (role : TreeRole) : Json → Option ClassItem
  | .obj fields => do
      ofFields (← Json.required role.tag Json.asString? fields) fields
  | .arr (.str tag :: elements) => do
      ofFields tag (← (Json.arr elements).asRecord? (fieldNames tag))
  | _ => none

end ClassItem

namespace Pattern

def node (role : TreeRole) (kind : String) (fields : List (String × Json)) : Json :=
  .obj ((role.tag, .str kind) :: fields)

mutual

def encode (role : TreeRole) : Pattern → Json
  | .alternation branches => node role "Alt" [("branches", .arr (encodeAll role branches))]
  | .sequence parts => node role "Seq" [("parts", .arr (encodeAll role parts))]
  | .literal text => node role "Lit" [("value", .str text)]
  | .anyChar => node role "Dot" []
  | .anchor place => node role "Anchor" [("at", .str place.name)]
  | .charClass negated items =>
      node role "CharClass"
        [("negated", .bool negated), ("items", .arr (items.map (ClassItem.encode role)))]
  | .repetition body least most greed =>
      node role "Quant"
        [("child", encode role body), ("min", .nat least.toNat), ("max", most.encode),
          ("mode", .str greed.name)]
  | .group capturing body name atomic =>
      node role "Group"
        ([("capturing", .bool capturing), ("body", encode role body)] ++
          Json.optionalField "name" .str name ++
          (if atomic then [("atomic", .bool true)] else []))
  | .backreference index name =>
      node role "Backref"
        (Json.optionalField "byIndex" (fun n => .nat n.toNat) index ++
          Json.optionalField "byName" .str name)
  | .look direction negative body =>
      node role "Look"
        [("dir", .str direction.name), ("neg", .bool negative), ("body", encode role body)]

def encodeAll (role : TreeRole) : List Pattern → List Json
  | [] => []
  | p :: ps => encode role p :: encodeAll role ps

end

/-- A value together with what it denotes as a tree and as a list of trees. -/
structure Denoted where
  json : Json
  tree : Option Pattern
  trees : Option (List Pattern)

def fieldNames : String → List String
  | "Alt" => ["branches"]
  | "Seq" => ["parts"]
  | "Lit" => ["value"]
  | "Anchor" => ["at"]
  | "CharClass" => ["negated", "items"]
  | "Quant" => ["child", "min", "max", "mode"]
  | "Group" => ["capturing", "body", "name", "atomic"]
  | "Backref" => ["byIndex", "byName"]
  | "Look" => ["dir", "neg", "body"]
  | _ => []

def subtree (name : String) (fields : List (String × Denoted)) : Option Pattern :=
  (Json.lookup name fields).bind Denoted.tree

def subtrees (name : String) (fields : List (String × Denoted)) : Option (List Pattern) :=
  (Json.lookup name fields).bind Denoted.trees

/-- The tree with a tag and fields, whose values have been read already. -/
def ofFields (role : TreeRole) (tag : String) (denoted : List (String × Denoted)) :
    Option Pattern :=
  let fields := denoted.map fun field => (field.1, field.2.json)
  match tag with
  | "Alt" => .alternation <$> subtrees "branches" denoted
  | "Seq" => .sequence <$> subtrees "parts" denoted
  | "Lit" => .literal <$> Json.required "value" Json.asString? fields
  | "Dot" => some .anyChar
  | "Anchor" => do
      let name ← Json.required "at" Json.asString? fields
      return .anchor (← Anchor.ofName? name)
  | "CharClass" => do
      let negated ← Json.required "negated" Json.asBool? fields
      return .charClass negated
        (← Json.required "items" (Json.asList? (ClassItem.decode role)) fields)
  | "Quant" => do
      let body ← subtree "child" denoted
      let least ← Json.required "min" Json.asCount? fields
      let most ← Json.required "max" Bound.decode fields
      let mode ← Json.required "mode" Json.asString? fields
      return .repetition body least most (← Greed.ofName? mode)
  | "Group" => do
      let capturing ← Json.required "capturing" Json.asBool? fields
      let body ← subtree "body" denoted
      let name ← Json.optional "name" Json.asString? fields
      return .group capturing body name (← Json.defaulted "atomic" false Json.asBool? fields)
  | "Backref" => do
      let index ← Json.optional "byIndex" Json.asCount? fields
      return .backreference index (← Json.optional "byName" Json.asString? fields)
  | "Look" => do
      let name ← Json.required "dir" Json.asString? fields
      let direction ← Direction.ofName? name
      let negative ← Json.required "neg" Json.asBool? fields
      return .look direction negative (← subtree "body" denoted)
  | _ => none

def ofObject (role : TreeRole) (denoted : List (String × Denoted)) : Option Pattern := do
  let tag ← Json.lookup role.tag denoted
  ofFields role (← tag.json.asString?) denoted

def ofArray (role : TreeRole) : List Denoted → Option Pattern
  | [] => none
  | tag :: elements => do
      let tag ← tag.json.asString?
      let names := fieldNames tag
      if elements.length ≤ names.length then ofFields role tag (names.zip elements) else none

mutual

def denote (role : TreeRole) : Json → Denoted
  | .arr elements =>
      let denoted := denoteAll role elements
      ⟨.arr elements, ofArray role denoted, denoted.mapM Denoted.tree⟩
  | .obj fields => ⟨.obj fields, ofObject role (denoteFields role fields), none⟩
  | .null => ⟨.null, none, none⟩
  | .bool b => ⟨.bool b, none, none⟩
  | .int n => ⟨.int n, none, none⟩
  | .real d => ⟨.real d, none, none⟩
  | .str s => ⟨.str s, none, none⟩

def denoteAll (role : TreeRole) : List Json → List Denoted
  | [] => []
  | j :: js => denote role j :: denoteAll role js

def denoteFields (role : TreeRole) : List (String × Json) → List (String × Denoted)
  | [] => []
  | (name, j) :: fields => (name, denote role j) :: denoteFields role fields

end

def decode (role : TreeRole) (value : Json) : Option Pattern :=
  (denote role value).tree

end Pattern

end PatternCompiler
