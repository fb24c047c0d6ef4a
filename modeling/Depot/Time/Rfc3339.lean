import Depot.Time.Calendar

/-!
# RFC 3339 text of times

- `render?`: the text of a time. Years take four digits, so those before 0 have no text; a fraction
  loses its trailing zeros and vanishes when it is zero; UTC is `Z`.
- `parse?`: the time that a text spells. Any ASCII character may stand between date and time; digits of a
  fraction beyond the ninth are dropped; the second 60 is read as the last nanosecond before it, where a
  leap second can stand.
-/

namespace Depot.Time.Rfc3339

/-! ## Writing -/

/-- The last `width` decimal digits of a number. -/
def padded : Nat → Nat → List Char
  | 0, _ => []
  | width + 1, n => padded width (n / 10) ++ [Nat.digitChar (n % 10)]

/-- The point and the digits of a fraction in nanoseconds. -/
def fraction (nano : Nat) : List Char :=
  if nano = 0 then [] else '.' :: ((padded 9 nano).reverse.dropWhile (· == '0')).reverse

def zone (offset : Int) : List Char :=
  if offset = 0 then ['Z']
  else
    let minutes := offset.natAbs
    (if offset < 0 then '-' else '+') :: padded 2 (minutes / 60) ++ ':' :: padded 2 (minutes % 60)

/-- The text of a time, unless its year is before 0. -/
def render? (t : DateTime) : Option String :=
  if t.date.year < 0 then none
  else
    some (String.ofList (padded 4 t.date.year.toNat ++ '-' :: padded 2 t.date.month ++
      '-' :: padded 2 t.date.day ++ 'T' :: padded 2 t.time.hour ++ ':' :: padded 2 t.time.minute ++
      ':' :: padded 2 t.time.second ++ fraction t.time.nano ++ zone t.offset))

/-! ## Reading -/

/-- The value of exactly `width` digits and the characters behind them. -/
def digits? : Nat → Nat → List Char → Option (Nat × List Char)
  | 0, value, rest => some (value, rest)
  | width + 1, value, c :: rest =>
    if c.isDigit then digits? width (10 * value + (c.toNat - 48)) rest else none
  | _ + 1, _, [] => none

def number? (width : Nat) (text : List Char) : Option (Nat × List Char) := digits? width 0 text

def expect? (c : Char) : List Char → Option (List Char)
  | [] => none
  | d :: rest => if c = d then some rest else none

/-- Nanoseconds of a fraction and what follows it. -/
def fraction? : List Char → Option (Nat × List Char)
  | '.' :: rest =>
    match rest.takeWhile Char.isDigit with
    | [] => none
    | digits =>
      let kept := (digits ++ List.replicate 9 '0').take 9
      some (kept.foldl (fun n c => 10 * n + (c.toNat - 48)) 0, rest.dropWhile Char.isDigit)
  | rest => some (0, rest)

/-- Minutes ahead of UTC, at the end of the text. -/
def zone? : List Char → Option Int
  | ['Z'] => some 0
  | ['z'] => some 0
  | sign :: rest => do
    let (hours, rest) ← number? 2 rest
    let rest ← expect? ':' rest
    let (minutes, rest) ← number? 2 rest
    if rest.isEmpty ∧ hours ≤ 23 ∧ minutes ≤ 59 then
      let total : Int := 60 * hours + minutes
      if sign = '+' then some total else if sign = '-' then some (-total) else none
    else none
  | [] => none

/-- The time is the last second of a month of UTC. -/
def endsMonth (t : DateTime) : Bool :=
  match DateTime.ofUnix? t.unixSeconds 0 0 with
  | some utc => utc.time.hour == 23 && utc.time.minute == 59 && utc.time.second == 59 &&
      utc.date.day == daysInMonth utc.date.year utc.date.month
  | none => false

/-- The time that a list of characters spells. -/
def ofChars? (text : List Char) : Option DateTime := do
  let (year, rest) ← number? 4 text
  let rest ← expect? '-' rest
  let (month, rest) ← number? 2 rest
  let rest ← expect? '-' rest
  let (day, rest) ← number? 2 rest
  let between ← rest.head?
  guard (between.toNat < 128)
  let (hour, rest) ← number? 2 (rest.drop 1)
  let rest ← expect? ':' rest
  let (minute, rest) ← number? 2 rest
  let rest ← expect? ':' rest
  let (second, rest) ← number? 2 rest
  let (nano, rest) ← fraction? rest
  let offset ← zone? rest
  let date ← Date.of? year month day
  if second = 60 then
    let t : DateTime := ⟨date, ← TimeOfDay.of? hour minute 59 999999999, offset⟩
    if endsMonth t then some t else none
  else some ⟨date, ← TimeOfDay.of? hour minute second nano, offset⟩

/-- The time that a text spells. -/
def parse? (text : String) : Option DateTime := ofChars? text.toList

end Depot.Time.Rfc3339
