/-!
Dates and times of day as configuration files write them. What is read is a date, a time of day, or
both with an optional offset; its text has a capital `T` between date and time, and a fraction of a
second has at most nine digits and no trailing zero.
-/

set_option autoImplicit false
set_option relaxedAutoImplicit false

namespace PatternCompiler.Moment

/-- A number of exactly `count` digits within a range, with the digits themselves. -/
def digits? (count low high : Nat) (text : List Char) : Option (List Char × List Char) :=
  let digits := text.take count
  let value := Nat.ofDigitChars 10 digits 0
  if digits.length = count ∧ digits.all Char.isDigit ∧ low ≤ value ∧ value ≤ high then
    some (digits, text.drop count)
  else none

def expect? (c : Char) : List Char → Option (List Char)
  | [] => none
  | first :: rest => if first = c then some rest else none

def monthLength (year month : Nat) : Nat :=
  if month = 2 then
    if year % 4 = 0 ∧ (year % 100 ≠ 0 ∨ year % 400 = 0) then 29 else 28
  else if month ∈ [4, 6, 9, 11] then 30
  else 31

def date? (text : List Char) : Option (List Char × List Char) := do
  let (year, rest) ← digits? 4 0 9999 text
  let (month, rest) ← digits? 2 1 12 (← expect? '-' rest)
  let last := monthLength (Nat.ofDigitChars 10 year 0) (Nat.ofDigitChars 10 month 0)
  let (day, rest) ← digits? 2 1 last (← expect? '-' rest)
  return (year ++ '-' :: month ++ '-' :: day, rest)

def fraction? : List Char → Option (List Char × List Char)
  | '.' :: rest =>
      let digits := rest.takeWhile Char.isDigit
      let kept := ((digits.take 9).reverse.dropWhile (· == '0')).reverse
      if digits.isEmpty then none
      else some (if kept.isEmpty then [] else '.' :: kept, rest.dropWhile Char.isDigit)
  | text => some ([], text)

def time? (text : List Char) : Option (List Char × List Char) := do
  let (hour, rest) ← digits? 2 0 23 text
  let (minute, rest) ← digits? 2 0 59 (← expect? ':' rest)
  let (second, rest) ← digits? 2 0 60 (← expect? ':' rest)
  let (fraction, rest) ← fraction? rest
  return (hour ++ ':' :: minute ++ ':' :: second ++ fraction, rest)

/-- The hours and minutes of an offset; a negative offset of nothing is a positive one. -/
def signedOffset? (sign : Char) (text : List Char) : Option (List Char × List Char) := do
  let (hour, rest) ← digits? 2 0 23 text
  let (minute, rest) ← digits? 2 0 59 (← expect? ':' rest)
  let zero := (hour ++ minute).all (· == '0')
  return ((if zero then '+' else sign) :: hour ++ ':' :: minute, rest)

def offset? : List Char → Option (List Char × List Char)
  | 'Z' :: rest | 'z' :: rest => some (['Z'], rest)
  | '+' :: rest => signedOffset? '+' rest
  | '-' :: rest => signedOffset? '-' rest
  | text => some ([], text)

/-- Whether a text begins with hours and a colon, hence with a time of day or nothing that is
valid. -/
def startsTime : List Char → Bool
  | a :: b :: ':' :: _ => a.isDigit && b.isDigit
  | _ => false

/-- Whether a text begins with a year and a dash, hence with a date or nothing that is valid. -/
def startsDate : List Char → Bool
  | a :: b :: c :: d :: '-' :: _ => a.isDigit && b.isDigit && c.isDigit && d.isDigit
  | _ => false

def timeAfterDate? : List Char → Option (List Char × List Char)
  | [] => some ([], [])
  | mark :: rest =>
      if (mark = 'T' || mark = 't' || mark = ' ') && startsTime rest then do
        let (time, rest) ← time? rest
        let (offset, rest) ← offset? rest
        return ('T' :: time ++ offset, rest)
      else some ([], mark :: rest)

def read? (text : List Char) : Option (List Char × List Char) :=
  if startsTime text then time? text
  else do
    let (date, rest) ← date? text
    let (time, rest) ← timeAfterDate? rest
    return (date ++ time, rest)

end PatternCompiler.Moment
