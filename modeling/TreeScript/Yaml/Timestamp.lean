import TreeScript.Decimal.Numeral

/-!
# Timestamps

The plain scalars that are read as points in time: a date, a date and a time with a zone, and a date
and a time without one behind spaces. The fields have to be in range, and the day has to exist.
-/

namespace TreeScript.Yaml.Timestamp

def field? : List Char → Option (Nat × List Char)
  | a :: b :: rest =>
    if a.isDigit then
      if b.isDigit then some ((a.toNat - 48) * 10 + (b.toNat - 48), rest)
      else some (a.toNat - 48, b :: rest)
    else none
  | [a] => if a.isDigit then some (a.toNat - 48, []) else none
  | [] => none

def twoDigits? : List Char → Option (Nat × List Char)
  | a :: b :: rest =>
    if a.isDigit && b.isDigit then some ((a.toNat - 48) * 10 + (b.toNat - 48), rest) else none
  | _ => none

def after? (c : Char) : List Char → Option (List Char)
  | d :: rest => if c == d then some rest else none
  | [] => none

def isLeap (year : Nat) : Bool := year % 4 == 0 && (year % 100 != 0 || year % 400 == 0)

def daysIn (year month : Nat) : Nat :=
  if month == 2 then (if isLeap year then 29 else 28)
  else if [4, 6, 9, 11].contains month then 30
  else 31

def date? (cs : List Char) : Option (List Char) := do
  let digits := cs.takeWhile Char.isDigit
  if digits.length != 4 then none
  let year ← Decimal.valueOf? 10 digits
  let (month, cs) ← field? (← after? '-' (cs.drop 4))
  let (day, cs) ← field? (← after? '-' cs)
  if 1 ≤ month && month ≤ 12 && 1 ≤ day && day ≤ daysIn year month then some cs else none

/-- What follows a fraction of a second, if there is one. -/
def skipFraction : List Char → List Char
  | c :: d :: rest =>
    if (c == '.' || c == ',') && d.isDigit then rest.dropWhile Char.isDigit else c :: d :: rest
  | cs => cs

def time? (cs : List Char) : Option (List Char) := do
  let (hour, cs) ← field? cs
  let (minute, cs) ← field? (← after? ':' cs)
  let (second, cs) ← field? (← after? ':' cs)
  if hour < 24 && minute < 60 && second < 60 then some (skipFraction cs) else none

def isZone : List Char → Bool
  | ['Z'] => true
  | sign :: rest =>
    (sign == '+' || sign == '-') &&
      ((do
        let (hours, cs) ← twoDigits? rest
        let (minutes, cs) ← twoDigits? (← after? ':' cs)
        if cs.isEmpty && hours ≤ 24 && minutes ≤ 60 then some () else none).isSome)
  | [] => false

def isTimestamp (s : String) : Bool :=
  match date? s.toList with
  | none => false
  | some [] => true
  | some (c :: rest) =>
    if c == 'T' || c == 't' then
      match time? rest with
      | some zone => isZone zone
      | none => false
    else if c == ' ' then time? (rest.dropWhile (· == ' ')) == some []
    else false

end TreeScript.Yaml.Timestamp
