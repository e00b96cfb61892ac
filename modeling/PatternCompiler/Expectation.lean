import PatternCompiler.Compile
import PatternCompiler.Pattern.Describe

/-!
Expectations: descriptions of the shape that a tree or a diagnostic should have. Checking one walks
the tree along the description and either lists what it met or says, with the path to it, which
node did not match.
-/

set_option autoImplicit false
set_option relaxedAutoImplicit false

namespace PatternCompiler

inductive Expectation
  | kind (name : String)
  | literal (text : String)
  | anchor (place : Anchor)
  | sequence (count : Nat)
  | alternation (count : Nat)
  | part (index : Nat) (steps : List Expectation)
  | branch (index : Nat) (steps : List Expectation)
  | repetition (least : UInt32) (most : Bound) (greed : Greed)
  | capturing (expected : Bool)
  | named (name : String)
  | atomic
  | look (direction : Direction) (negative : Bool)
  | body (steps : List Expectation)
  | charClass (negated : Bool) (items : List ClassItem)
  | reference (index : UInt32)
  | namedReference (name : String)

namespace Expectation

def mismatch (path : String) (p : Pattern) (expected : String) : String :=
  path ++ ": expected " ++ expected ++ ", found " ++ p.describe

def note (ok : Bool) (path : String) (p : Pattern) (expected : String) :
    Except String (List String) :=
  if ok then .ok [p.kind] else .error (mismatch path p expected)

def isLiteral (text : String) : Pattern → Bool
  | .literal t => t == text
  | _ => false

/-- The subtree at an index of a sequence or alternation, or what was expected instead. -/
def member (label : String) (index : Nat) (ps : List Pattern) : Except String Pattern :=
  match ps[index]? with
  | some p => .ok p
  | none => .error ("a " ++ label ++ " at index " ++ Nat.repr index)

def selectPart (index : Nat) : Pattern → Except String Pattern
  | .sequence parts => member "part" index parts
  | _ => .error "Seq"

def selectBranch (index : Nat) : Pattern → Except String Pattern
  | .alternation branches => member "branch" index branches
  | _ => .error "Alt"

/-- The body of a repetition, group or lookaround, and how paths call it. -/
def selectBody : Pattern → Except String (String × Pattern)
  | .repetition inner .. => .ok ("child", inner)
  | .group _ inner _ _ => .ok ("body", inner)
  | .look _ _ inner => .ok ("body", inner)
  | _ => .error "Quant, Group or Look"

mutual

/-- Checks one expectation of the node at a path, and lists the kinds of the nodes met. -/
def check (path : String) (p : Pattern) : Expectation → Except String (List String)
  | .kind name => note (p.kind == name) path p name
  | .literal text => note (isLiteral text p) path p ("Lit(" ++ Text.quote text ++ ")")
  | .anchor place =>
      note (match p with | .anchor a => a == place | _ => false) path p
        ("Anchor(" ++ place.name ++ ")")
  | .sequence count =>
      note (match p with | .sequence parts => parts.length == count | _ => false) path p
        ("Seq with " ++ Nat.repr count ++ " parts")
  | .alternation count =>
      note (match p with | .alternation branches => branches.length == count | _ => false) path p
        ("Alt with " ++ Nat.repr count ++ " branches")
  | .part index steps =>
      match selectPart index p with
      | .error expected => .error (mismatch path p expected)
      | .ok q =>
          (checkAll (path ++ ".parts[" ++ Nat.repr index ++ "]") q steps).map (p.kind :: ·)
  | .branch index steps =>
      match selectBranch index p with
      | .error expected => .error (mismatch path p expected)
      | .ok q =>
          (checkAll (path ++ ".branches[" ++ Nat.repr index ++ "]") q steps).map (p.kind :: ·)
  | .repetition least most greed =>
      note (match p with
        | .repetition _ l m g => l == least && m == most && g == greed
        | _ => false) path p
        ("Quant(" ++ Nat.repr least.toNat ++ ", " ++ most.text ++ ", " ++ greed.name ++ ")")
  | .capturing expected =>
      note (match p with | .group c _ _ _ => c == expected | _ => false) path p
        ("Group with capturing=" ++ Describe.bool expected)
  | .named name => note (p.groupName? == some name) path p ("group named " ++ Text.quote name)
  | .atomic =>
      note (match p with | .group _ _ _ a => a | _ => false) path p "atomic Group"
  | .look direction negative =>
      note (match p with | .look d n _ => d == direction && n == negative | _ => false) path p
        ("Look(" ++ direction.name ++ ", neg=" ++ Describe.bool negative ++ ")")
  | .body steps =>
      match selectBody p with
      | .error expected => .error (mismatch path p expected)
      | .ok (segment, q) => (checkAll (path ++ "." ++ segment) q steps).map (p.kind :: ·)
  | .charClass negated items =>
      note (match p with | .charClass n is => n == negated && is == items | _ => false) path p
        ("CharClass(negated=" ++ Describe.bool negated ++ ", " ++
          Describe.list (items.map ClassItem.describe) ++ ")")
  | .reference index =>
      note (match p with | .backreference i _ => i == some index | _ => false) path p
        ("Backref(\\" ++ Nat.repr index.toNat ++ ")")
  | .namedReference name =>
      note (match p with | .backreference _ n => n == some name | _ => false) path p
        ("Backref(<" ++ name ++ ">)")

def checkAll (path : String) (p : Pattern) : List Expectation → Except String (List String)
  | [] => .ok []
  | step :: steps =>
      match check path p step with
      | .error complaint => .error complaint
      | .ok met => (checkAll path p steps).map (met ++ ·)

end

def treeOf (text : String) : Except String Pattern :=
  match parse text with
  | .ok p => .ok p.root
  | .error d => .error ("expected " ++ Text.quote text ++ " to parse, got:\n" ++ d.format)

def verify (root : Pattern) (steps : List Expectation) : Except String (List String) :=
  checkAll "root" root steps

end Expectation

inductive CompiledExpectation
  | kind (name : String)
  | literal (text : String)
  | childCount (count : Nat)
  | child (index : Nat) (steps : List CompiledExpectation)

namespace CompiledExpectation

open Expectation (note mismatch isLiteral member)

mutual

/-- Checks one expectation of the node at a path, and lists the kinds of the nodes met. -/
def check (path : String) (p : Pattern) : CompiledExpectation → Except String (List String)
  | .kind name => note (p.kind == name) path p name
  | .literal text => note (isLiteral text p) path p ("Lit(" ++ Text.quote text ++ ")")
  | .childCount count =>
      note (p.children.length == count) path p (Nat.repr count ++ " children")
  | .child index steps =>
      match member "child" index p.children with
      | .error expected => .error (mismatch path p expected)
      | .ok q => (checkAll (path ++ "[" ++ Nat.repr index ++ "]") q steps).map (p.kind :: ·)

def checkAll (path : String) (p : Pattern) :
    List CompiledExpectation → Except String (List String)
  | [] => .ok []
  | step :: steps =>
      match check path p step with
      | .error complaint => .error complaint
      | .ok met => (checkAll path p steps).map (met ++ ·)

end

def treeOf (text : String) : Except String Pattern :=
  match compile text with
  | .ok p => .ok p.root
  | .error d => .error ("expected " ++ Text.quote text ++ " to compile, got:\n" ++ d.format)

def verify (root : Pattern) (steps : List CompiledExpectation) : Except String (List String) :=
  checkAll "ir" root steps

end CompiledExpectation

inductive DiagnosticExpectation
  | message (text : String)
  | messageContains (piece : String)
  | pos (pos : Nat)
  | hintContains (piece : String)
  | hasHint

namespace DiagnosticExpectation

def unequal (what actual expected : String) : String :=
  "assertion `left == right` failed: " ++ what ++ "\n  left: " ++ actual ++ "\n right: " ++ expected

def contains (text piece : String) : Bool :=
  Text.occurs piece.toList text.toList

def complaint? (d : Diagnostic) : DiagnosticExpectation → Option String
  | .message text =>
      if d.message = text then none
      else some (unequal "unexpected error message" (Text.quote d.message) (Text.quote text))
  | .messageContains piece =>
      if contains d.message piece then none
      else some ("message " ++ Text.quote d.message ++ " does not contain " ++ Text.quote piece)
  | .pos expected =>
      if d.pos = expected then none
      else some (unequal ("error " ++ Text.quote d.message ++ " at unexpected position")
        (Nat.repr d.pos) (Nat.repr expected))
  | .hintContains piece =>
      if (d.hint.map fun hint => contains hint piece).getD false then none
      else some ("hint " ++ Describe.option Text.quote d.hint ++ " does not contain " ++
        Text.quote piece)
  | .hasHint => if d.hint.isSome then none else some ("no hint for " ++ Text.quote d.message)

def diagnosticOf (text : String) : Except String Diagnostic :=
  match parse text with
  | .error d => .ok d
  | .ok p =>
      .error ("expected " ++ Text.quote text ++ " to fail, parsed as " ++ p.root.describe)

/-- Checks a diagnostic, and lists its position once for each expectation. -/
def verify (d : Diagnostic) : List DiagnosticExpectation → Except String (List Nat)
  | [] => .ok []
  | step :: steps =>
      match complaint? d step with
      | some complaint => .error complaint
      | none => (verify d steps).map (d.pos :: ·)

end DiagnosticExpectation

end PatternCompiler
