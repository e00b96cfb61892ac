import PatternCompiler.Settings.Moment
import PatternCompiler.Settings.Value

/-!
Reading TOML documents. A table that a header has opened, or that was written in braces, cannot be
opened or extended a second time, and no key is set twice. Dates and times become their text.
Recursion is bounded by the length of the text.
-/

set_option autoImplicit false
set_option relaxedAutoImplicit false

namespace PatternCompiler.Toml

/-- What a key of a document holds while the document is being read: a finished value, a table with
the way it came about, or the tables of an array of tables. -/
inductive Item
  | value (s : Setting)
  | table (implicit dotted : Bool) (items : List (String × Item))
  | tables (elements : List (List (String × Item)))

mutual

def Item.setting : Item → Setting
  | .value s => s
  | .table _ _ items => .table (entriesOf items)
  | .tables elements => .list (tablesOf elements)

def entriesOf : List (String × Item) → List (String × Setting)
  | [] => []
  | (key, item) :: rest => (key, item.setting) :: entriesOf rest

def tablesOf : List (List (String × Item)) → List Setting
  | [] => []
  | items :: rest => .table (entriesOf items) :: tablesOf rest

end

structure Table where
  implicit : Bool := false
  dotted : Bool := false
  items : List (String × Item) := []

namespace Table

def find? (t : Table) (key : String) : Option Item :=
  (t.items.find? fun entry => entry.1 == key).map Prod.snd

def put (t : Table) (key : String) (item : Item) : Table :=
  match t.find? key with
  | none => { t with items := t.items ++ [(key, item)] }
  | some _ =>
      { t with items := t.items.map fun entry => if entry.1 == key then (key, item) else entry }

/-- Changes the table at the end of a path, making the tables on the way that are missing. Dotted
keys may only pass tables that no header has opened. -/
def modify (dotted : Bool) (change : Table → Option Table) : List String → Table → Option Table
  | [], t => change t
  | key :: path, t =>
      match (t.find? key).getD (.table true dotted []) with
      | .value _ => none
      | .tables elements =>
          match elements.getLast? with
          | none => none
          | some last => do
              let changed ← modify dotted change path { items := last }
              return t.put key (.tables (elements.dropLast ++ [changed.items]))
      | .table implicit isDotted items =>
          if dotted && !implicit then none
          else do
            let changed ← modify dotted change path ⟨implicit, isDotted, items⟩
            return t.put key (.table changed.implicit changed.dotted changed.items)

/-- Sets a dotted key. The last table on the way must be one that dotted keys have made, and the key
must be free. -/
def set (path : List String) (key : String) (value : Setting) (t : Table) : Option Table :=
  modify true (fun t =>
    if t.dotted == path.isEmpty || (t.find? key).isSome then none else some (t.put key (.value value)))
    path t

/-- Opens the table of a header, which no other header or dotted key may have made. -/
def openTable (path : List String) (key : String) (t : Table) : Option Table :=
  modify false (fun t =>
    match t.find? key with
    | none => some (t.put key (.table false false []))
    | some (.table true false items) => some (t.put key (.table false false items))
    | some _ => none) path t

def openElement (path : List String) (key : String) (t : Table) : Option Table :=
  modify false (fun t =>
    match t.find? key with
    | none => some (t.put key (.tables [[]]))
    | some (.tables elements) => some (t.put key (.tables (elements ++ [[]])))
    | some _ => none) path t

end Table

def isSpace (c : Char) : Bool :=
  c == ' ' || c == '\t'

def skipSpace (text : List Char) : List Char :=
  text.dropWhile isSpace

/-- A control character other than the tab, which no string or comment holds as such. -/
def isControl (c : Char) : Bool :=
  (decide (c.toNat < 0x20) && c != '\t') || c.toNat == 0x7F

def lineEnd? : List Char → Option (List Char)
  | '\n' :: rest => some rest
  | '\r' :: '\n' :: rest => some rest
  | _ => none

def skipComment : List Char → List Char
  | '#' :: rest => rest.dropWhile fun c => !isControl c
  | text => text

/-- The text after what may end an expression: white space, a comment, and a line ending or the end
of the document. -/
def endOfLine? (text : List Char) : Option (List Char) :=
  match skipComment (skipSpace text) with
  | [] => some []
  | text => lineEnd? text

/-- The text after white space, comments and line endings. The fuel bounds their number. -/
def skipLines : (fuel : Nat) → List Char → List Char
  | 0, text => text
  | fuel + 1, text =>
      let text := skipComment (skipSpace text)
      match lineEnd? text with
      | some rest => skipLines fuel rest
      | none => text

def hexDigit? (c : Char) : Option Nat :=
  if c.isDigit then some (c.toNat - '0'.toNat)
  else if 'a' ≤ c && c ≤ 'f' then some (c.toNat - 'a'.toNat + 10)
  else if 'A' ≤ c && c ≤ 'F' then some (c.toNat - 'A'.toNat + 10)
  else none

/-- The character that `count` hexadecimal digits name, and the text after them. -/
def unicodeEscape? (count : Nat) (text : List Char) : Option (Char × List Char) := do
  let digits ← (text.take count).mapM hexDigit?
  let code := digits.foldl (fun code digit => 16 * code + digit) 0
  if digits.length = count ∧ (code < 0xD800 ∨ 0xE000 ≤ code) ∧ code < 0x110000 then
    some (Char.ofNat code, text.drop count)
  else none

def escape? : List Char → Option (Char × List Char)
  | 'b' :: rest => some ('\x08', rest)
  | 't' :: rest => some ('\t', rest)
  | 'n' :: rest => some ('\n', rest)
  | 'f' :: rest => some ('\x0c', rest)
  | 'r' :: rest => some ('\r', rest)
  | '"' :: rest => some ('"', rest)
  | '\\' :: rest => some ('\\', rest)
  | 'u' :: rest => unicodeEscape? 4 rest
  | 'U' :: rest => unicodeEscape? 8 rest
  | _ => none

/-- The rest of a string on one line, `done` being its characters so far in reverse. -/
def readString : (fuel : Nat) → List Char → List Char → Option (String × List Char)
  | _, done, '"' :: rest => some (String.ofList done.reverse, rest)
  | fuel + 1, done, '\\' :: rest => do
      let (c, rest) ← escape? rest
      readString fuel (c :: done) rest
  | fuel + 1, done, c :: rest => if isControl c then none else readString fuel (c :: done) rest
  | _, _, _ => none

def readLiteral (text : List Char) : Option (String × List Char) :=
  let content := text.takeWhile fun c => c != '\'' && !isControl c
  match text.drop content.length with
  | '\'' :: rest => some (String.ofList content, rest)
  | _ => none

/-- The text of a multi-line string without a line ending directly after the opening quotes. -/
def dropFirstLineEnd (text : List Char) : List Char :=
  (lineEnd? text).getD text

/-- The rest of a string over several lines, ended by three of `quote`; up to two quotes before the
ending belong to it. With `escapes`, escapes are read, and a backslash at the end of a line joins
lines. -/
def readLongString (quote : Char) (escapes : Bool) :
    (fuel : Nat) → List Char → List Char → Option (String × List Char)
  | 0, _, _ => none
  | fuel + 1, done, text =>
      match text with
      | [] => none
      | c :: rest =>
          if c = quote && rest.take 2 == [quote, quote] then
            let extra := ((rest.drop 2).take 2).takeWhile (· == quote)
            some (String.ofList (extra ++ done).reverse, rest.drop (2 + extra.length))
          else if escapes && c = '\\' then
            match escape? rest with
            | some (c, rest) => readLongString quote escapes fuel (c :: done) rest
            | none =>
                match lineEnd? (skipSpace rest) with
                | some rest =>
                    readLongString quote escapes fuel done
                      (rest.dropWhile fun c => isSpace c || c == '\n' || c == '\r')
                | none => none
          else
            match lineEnd? (c :: rest) with
            | some rest => readLongString quote escapes fuel ('\n' :: done) rest
            | none => if isControl c then none else readLongString quote escapes fuel (c :: done) rest

/-- The digits of a number with single underscores between them removed. -/
def digits? (isDigit : Char → Bool) : List Char → Option (List Char)
  | [] => none
  | [c] => if isDigit c then some [c] else none
  | c :: '_' :: rest => if isDigit c then (digits? isDigit rest).map (c :: ·) else none
  | c :: rest => if isDigit c then (digits? isDigit rest).map (c :: ·) else none

def based? (base : Nat) (text : List Char) : Option Setting := do
  let digits ← digits? (fun c => ((hexDigit? c).map fun n => decide (n < base)).getD false) text
  let n := digits.foldl (fun n c => base * n + (hexDigit? c).getD 0) 0
  if n < Nat.pow 2 63 then some (.int n) else none

/-- The decimal digits of a number's whole part, which has no leading zero. -/
def whole? (text : List Char) : Option (List Char) := do
  let digits ← digits? Char.isDigit text
  if digits.head? = some '0' ∧ 1 < digits.length then none else some digits

def exponent? : List Char → Option Int
  | '+' :: text => (digits? Char.isDigit text).map fun d => (Nat.ofDigitChars 10 d 0 : Int)
  | '-' :: text => (digits? Char.isDigit text).map fun d => -(Nat.ofDigitChars 10 d 0 : Int)
  | text => (digits? Char.isDigit text).map fun d => (Nat.ofDigitChars 10 d 0 : Int)

/-- A number with a fraction or an exponent. A positive one must not exceed the doubles; a negative
one that does is infinite. -/
def real? (negative : Bool) (text : List Char) : Option Setting := do
  let isMark := fun c => c == 'e' || c == 'E'
  let body := text.takeWhile fun c => !isMark c
  let exponent ←
    match text.dropWhile fun c => !isMark c with
    | [] => some 0
    | _ :: digits => exponent? digits
  let whole ← whole? (body.takeWhile (· != '.'))
  let fraction ←
    match body.dropWhile (· != '.') with
    | [] => some []
    | _ :: digits => digits? Char.isDigit digits
  let d : Decimal :=
    ⟨negative, Nat.ofDigitChars 10 (whole ++ fraction) 0, exponent - fraction.length⟩
  if d.toFloat.isInf then
    if negative then some (.real (.infinite true)) else none
  else some (.real (.finite d))

def number? (negative : Bool) (text : List Char) : Option Setting :=
  if text = ['i', 'n', 'f'] then some (.real (.infinite negative))
  else if text = ['n', 'a', 'n'] then some (.real .notANumber)
  else
    match whole? text with
    | some digits =>
        let n : Int := Nat.ofDigitChars 10 digits 0
        let value := if negative then -n else n
        if -Int.pow 2 63 ≤ value ∧ value < Int.pow 2 63 then some (.int value) else none
    | none => if text.any fun c => c == '.' || c == 'e' || c == 'E' then real? negative text else none

def word? : List Char → Option Setting
  | ['t', 'r', 'u', 'e'] => some (.bool true)
  | ['f', 'a', 'l', 's', 'e'] => some (.bool false)
  | '0' :: 'x' :: text => based? 16 text
  | '0' :: 'o' :: text => based? 8 text
  | '0' :: 'b' :: text => based? 2 text
  | '+' :: text => number? false text
  | '-' :: text => number? true text
  | text => number? false text

def isKeyChar (c : Char) : Bool :=
  c.isAlphanum || c == '_' || c == '-'

def isWordChar (c : Char) : Bool :=
  c.isAlphanum || c == '_' || c == '-' || c == '+' || c == '.'

def readKey : List Char → Option (String × List Char)
  | '"' :: rest => readString rest.length [] rest
  | '\'' :: rest => readLiteral rest
  | text =>
      match text.takeWhile isKeyChar with
      | [] => none
      | key => some (String.ofList key, text.dropWhile isKeyChar)

def readPath : (fuel : Nat) → List Char → Option (List String × List Char)
  | 0, _ => none
  | fuel + 1, text => do
      let (key, rest) ← readKey (skipSpace text)
      match skipSpace rest with
      | '.' :: rest => do
          let (path, rest) ← readPath fuel rest
          return (key :: path, rest)
      | rest => return ([key], rest)

def splitPath (path : List String) : Option (List String × String) :=
  path.getLast?.map fun key => (path.dropLast, key)

mutual

def readValue : (fuel : Nat) → List Char → Option (Setting × List Char)
  | 0, _ => none
  | fuel + 1, text =>
      match text with
      | '"' :: '"' :: '"' :: rest =>
          (readLongString '"' true rest.length [] (dropFirstLineEnd rest)).map
            fun (s, rest) => (.text s, rest)
      | '\'' :: '\'' :: '\'' :: rest =>
          (readLongString '\'' false rest.length [] (dropFirstLineEnd rest)).map
            fun (s, rest) => (.text s, rest)
      | '"' :: rest => (readString rest.length [] rest).map fun (s, rest) => (.text s, rest)
      | '\'' :: rest => (readLiteral rest).map fun (s, rest) => (.text s, rest)
      | '[' :: rest => readElements fuel [] rest
      | '{' :: rest =>
          match skipSpace rest with
          | '}' :: rest => some (.table [], rest)
          | rest => readPairs fuel {} rest
      | text =>
          if Moment.startsDate text || Moment.startsTime text then
            (Moment.read? text).map fun (s, rest) => (.text (String.ofList s), rest)
          else (word? (text.takeWhile isWordChar)).map fun v => (v, text.dropWhile isWordChar)

/-- The elements of an array from the next one on; a comma may follow the last. -/
def readElements : (fuel : Nat) → List Setting → List Char → Option (Setting × List Char)
  | 0, _, _ => none
  | fuel + 1, done, text =>
      match skipLines text.length text with
      | ']' :: rest => some (.list done.reverse, rest)
      | text => do
          let (value, rest) ← readValue fuel text
          match skipLines rest.length rest with
          | ',' :: rest => readElements fuel (value :: done) rest
          | ']' :: rest => some (.list (value :: done).reverse, rest)
          | _ => none

def readPairs : (fuel : Nat) → Table → List Char → Option (Setting × List Char)
  | 0, _, _ => none
  | fuel + 1, table, text => do
      let (path, rest) ← readPath text.length text
      let (path, key) ← splitPath path
      match skipSpace rest with
      | '=' :: rest => do
          let (value, rest) ← readValue fuel (skipSpace rest)
          let table ← table.set path key value
          match skipSpace rest with
          | ',' :: rest => readPairs fuel table rest
          | '}' :: rest => some (.table (entriesOf table.items), rest)
          | _ => none
      | _ => none

end

/-- A document being read: its table, and the header whose table receives the pairs. -/
structure Document where
  root : Table := {}
  header : List String := []

def Document.set (d : Document) (path : List String) (key : String) (value : Setting) :
    Option Document := do
  let root ← Table.modify false (Table.set path key value) d.header d.root
  return { d with root := root }

/-- The path of a header, the opening bracket being read and `closing` ending it. -/
def readHeader (closing : List Char) (text : List Char) : Option (List String × List Char) := do
  let (path, rest) ← readPath text.length text
  if closing.isPrefixOf rest then return (path, ← endOfLine? (rest.drop closing.length)) else none

def readExpressions : (fuel : Nat) → Document → List Char → Option Document
  | 0, _, _ => none
  | fuel + 1, d, text =>
      match skipLines text.length text with
      | [] => some d
      | '[' :: '[' :: rest => do
          let (header, rest) ← readHeader [']', ']'] rest
          let (path, key) ← splitPath header
          readExpressions fuel ⟨← d.root.openElement path key, header⟩ rest
      | '[' :: rest => do
          let (header, rest) ← readHeader [']'] rest
          let (path, key) ← splitPath header
          readExpressions fuel ⟨← d.root.openTable path key, header⟩ rest
      | text => do
          let (path, rest) ← readPath text.length text
          let (path, key) ← splitPath path
          match skipSpace rest with
          | '=' :: rest => do
              let (value, rest) ← readValue (2 * rest.length + 2) (skipSpace rest)
              readExpressions fuel (← d.set path key value) (← endOfLine? rest)
          | _ => none

def dropMark : List Char → List Char
  | '\ufeff' :: rest => rest
  | text => text

/-- The table of settings that a document denotes. A byte order mark in front is ignored. -/
def parse (text : List Char) : Option Setting := do
  let text := dropMark text
  let d ← readExpressions (text.length + 1) {} text
  return .table (entriesOf d.root.items)

end PatternCompiler.Toml
