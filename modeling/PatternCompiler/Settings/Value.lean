import PatternCompiler.Decimal.Shortest

/-!
Untyped settings and how one layer of them is laid over another. Tables are merged key by key; any
other value replaces what it is laid over. A path names one place in a table of settings.
-/

set_option autoImplicit false
set_option relaxedAutoImplicit false

namespace PatternCompiler

/-- A number with a fraction, an exponent or no finite value. -/
inductive RealSetting
  | finite (d : Decimal)
  | infinite (negative : Bool)
  | notANumber
  deriving DecidableEq

inductive Setting
  | absent
  | bool (b : Bool)
  | int (n : Int)
  | real (r : RealSetting)
  | text (s : String)
  | list (elements : List Setting)
  | table (entries : List (String × Setting))

/-- The text of a number: the shortest decimal of the nearest double, without an exponent. -/
def RealSetting.text : RealSetting → String
  | .finite d => String.ofList (Decimal.ofFloat d.toFloat).positional
  | .infinite negative => if negative then "-inf" else "inf"
  | .notANumber => "NaN"

def RealSetting.isZero : RealSetting → Bool
  | .finite d => (Decimal.ofFloat d.toFloat).mantissa == 0
  | .infinite _ | .notANumber => false

namespace Setting

def entries : Setting → List (String × Setting)
  | .table entries => entries
  | _ => []

def elements : Setting → List Setting
  | .list elements => elements
  | _ => []

def get (s : Setting) (key : String) : Setting :=
  match s.entries.find? fun entry => entry.1 == key with
  | some entry => entry.2
  | none => .absent

/-- Sets the value of a key in a list of entries, in place if the key is there. -/
def putEntry (key : String) (value : Setting) : List (String × Setting) → List (String × Setting)
  | [] => [(key, value)]
  | entry :: rest =>
      if entry.1 = key then (key, value) :: rest else entry :: putEntry key value rest

def put (s : Setting) (key : String) (value : Setting) : Setting :=
  .table (putEntry key value s.entries)

/-- Sets the element at an index, filling up with absent values; what is not a list becomes one. -/
def putElement (s : Setting) (index : Nat) (value : Setting) : Setting :=
  let filled := s.elements ++ List.replicate (index + 1 - s.elements.length) .absent
  .list (filled.set index value)

def orTable : Setting → Setting
  | .absent => .table []
  | s => s

mutual

def overlay (base : Setting) : Setting → Setting
  | .table entries => overlayAll base.orTable entries
  | .absent => .absent
  | .bool b => .bool b
  | .int n => .int n
  | .real r => .real r
  | .text s => .text s
  | .list elements => .list elements

def overlayAll (base : Setting) : List (String × Setting) → Setting
  | [] => base
  | (key, value) :: rest => overlayAll (base.put key (overlay (base.get key) value)) rest

end

/-- A step of a path: to a key of a table or to an index of a list, counted from the end if
negative. -/
inductive PathStep
  | key (name : String)
  | index (n : Int)
  deriving DecidableEq

def overlayAt (base : Setting) (value : Setting) : List PathStep → Setting
  | [] => base.overlay value
  | .key name :: rest => base.put name (overlayAt (base.get name) value rest)
  | .index n :: rest =>
      let place := if 0 ≤ n then n.toNat else base.elements.length - n.natAbs
      base.putElement place (overlayAt (base.elements.getD place .absent) value rest)

def isKeyChar (c : Char) : Bool :=
  c.isAlphanum || c == ' ' || c == '_' || c == '-'

def readKey (text : List Char) : Option (String × List Char) :=
  match text.takeWhile isKeyChar with
  | [] => none
  | name => some (String.ofList name, text.dropWhile isKeyChar)

/-- A whole number of less than 64 bits in brackets, the opening bracket being read. -/
def readIndex (text : List Char) : Option (Int × List Char) :=
  let text := text.dropWhile fun c => c == ' ' || c == '\t'
  let negative := text.head? == some '-'
  let text := if negative then text.drop 1 else text
  match text.takeWhile Char.isDigit with
  | [] => none
  | digits =>
      let size : Int := Nat.ofDigitChars 10 digits 0
      match (text.dropWhile Char.isDigit).dropWhile fun c => c == ' ' || c == '\t' with
      | ']' :: rest =>
          if size < Int.pow 2 63 then some (if negative then -size else size, rest) else none
      | _ => none

def readSteps : (fuel : Nat) → List Char → Option (List PathStep)
  | _, [] => some []
  | 0, _ => none
  | fuel + 1, '.' :: rest => do
      let (name, rest) ← readKey rest
      return .key name :: (← readSteps fuel rest)
  | fuel + 1, '[' :: rest => do
      let (n, rest) ← readIndex rest
      return .index n :: (← readSteps fuel rest)
  | _, _ => none

/-- The path that a text spells: a key, then further keys after dots and indices in brackets. -/
def path? (text : String) : Option (List PathStep) := do
  let (name, rest) ← readKey text.toList
  return .key name :: (← readSteps rest.length rest)

/-- Lays the entries of a layer over the settings. A key that spells a path names the place at its
end. -/
def overlayLayer (base : Setting) (layer : Setting) : Setting :=
  layer.entries.foldl
    (fun base entry => base.overlayAt entry.2 ((path? entry.1).getD [.key entry.1])) base

end Setting

end PatternCompiler
