import PatternCompiler.Pattern.Names
import PatternCompiler.Text.Quoted

/-!
One-line descriptions of trees, as failed expectations and logs show them.
-/

set_option autoImplicit false
set_option relaxedAutoImplicit false

namespace PatternCompiler

namespace Describe

def fields (name : String) (fields : List (String × String)) : String :=
  name ++ " \x7b " ++ String.intercalate ", " (fields.map fun f => f.1 ++ ": " ++ f.2) ++ " \x7d"

def list (items : List String) : String :=
  "[" ++ String.intercalate ", " items ++ "]"

def bool (b : Bool) : String :=
  if b then "true" else "false"

def option {α : Type} (describe : α → String) : Option α → String
  | some a => "Some(" ++ describe a ++ ")"
  | none => "None"

end Describe

def Bound.describe : Bound → String
  | .finite count => "Finite(" ++ Nat.repr count.toNat ++ ")"
  | .unbounded => "Inf"

def ClassItem.describe : ClassItem → String
  | .char c => Describe.fields "Literal" [("ch", Text.quoteChar c)]
  | .range first last =>
      Describe.fields "Range" [("from", Text.quoteChar first), ("to", Text.quoteChar last)]
  | .shorthand kind property =>
      Describe.fields "Escape"
        [("kind", kind.name), ("property", Describe.option Text.quote property)]

namespace Pattern

mutual

def describe : Pattern → String
  | .alternation branches => Describe.fields "Alt" [("branches", Describe.list (describeAll branches))]
  | .sequence parts => Describe.fields "Seq" [("parts", Describe.list (describeAll parts))]
  | .literal text => Describe.fields "Lit" [("value", Text.quote text)]
  | .anyChar => "Dot"
  | .anchor place => Describe.fields "Anchor" [("at", place.name)]
  | .charClass negated items =>
      Describe.fields "CharClass"
        [("negated", Describe.bool negated),
          ("items", Describe.list (items.map ClassItem.describe))]
  | .repetition body least most greed =>
      Describe.fields "Quant"
        [("child", describe body), ("min", Nat.repr least.toNat), ("max", most.describe),
          ("mode", greed.name)]
  | .group capturing body name atomic =>
      Describe.fields "Group"
        [("capturing", Describe.bool capturing), ("body", describe body),
          ("name", Describe.option Text.quote name), ("atomic", Describe.bool atomic)]
  | .backreference index name =>
      Describe.fields "Backref"
        [("by_index", Describe.option (fun n => Nat.repr n.toNat) index),
          ("by_name", Describe.option Text.quote name)]
  | .look direction negative body =>
      Describe.fields "Look"
        [("dir", direction.name), ("neg", Describe.bool negative), ("body", describe body)]

def describeAll : List Pattern → List String
  | [] => []
  | p :: ps => describe p :: describeAll ps

end

end Pattern

end PatternCompiler
