/-!
# Dates and times of day

- `Date`: a day of the proleptic Gregorian calendar in the years -9999 to 9999.
- `Date.dayNumber`, `Date.ofDayNumber?`: the day counted from 1 January 1970.
- `DateTime`: a date and a time of day as a clock at some distance from UTC shows it; `instant` is the
  moment it means, in nanoseconds since 1970.
- `DateTime.add?`: a later moment on the same clock, if the calendar reaches that far.
-/

namespace Depot.Time

def isLeapYear (year : Int) : Bool :=
  year % 4 == 0 && (year % 100 != 0 || year % 400 == 0)

def daysInMonth (year : Int) (month : Nat) : Nat :=
  match month with
  | 2 => if isLeapYear year then 29 else 28
  | 4 | 6 | 9 | 11 => 30
  | _ => 31

structure Date where
  year : Int
  month : Nat
  day : Nat
  year_mem : -9999 ≤ year ∧ year ≤ 9999
  month_mem : 1 ≤ month ∧ month ≤ 12
  day_mem : 1 ≤ day ∧ day ≤ daysInMonth year month
  deriving DecidableEq

namespace Date

/-- The day with these numbers, if the calendar has it. -/
def of? (year : Int) (month day : Nat) : Option Date :=
  if hyear : -9999 ≤ year ∧ year ≤ 9999 then
    if hmonth : 1 ≤ month ∧ month ≤ 12 then
      if hday : 1 ≤ day ∧ day ≤ daysInMonth year month then some ⟨year, month, day, hyear, hmonth, hday⟩
      else none
    else none
  else none

/-- Days from 1 March of year 0 to the day, in years that begin with March. -/
def marchDays (year : Int) (month day : Nat) : Int :=
  let y := if month ≤ 2 then year - 1 else year
  let m := if month ≤ 2 then month + 9 else month - 3
  365 * y + y / 4 - y / 100 + y / 400 + ((153 * m + 2) / 5 : Nat) + day - 1

/-- Days from 1 January 1970. -/
def dayNumber (date : Date) : Int :=
  marchDays date.year date.month date.day - 719468

/-- The day with a number, if the calendar reaches it. -/
def ofDayNumber? (number : Int) : Option Date :=
  let days := number + 719468
  let era := days / 146097
  let ofEra := (days % 146097).toNat
  let yearOfEra := (ofEra - ofEra / 1460 + ofEra / 36524 - ofEra / 146096) / 365
  let ofYear := ofEra - (365 * yearOfEra + yearOfEra / 4 - yearOfEra / 100)
  let m := (5 * ofYear + 2) / 153
  let day := ofYear - (153 * m + 2) / 5 + 1
  let month := if m < 10 then m + 3 else m - 9
  let year := era * 400 + yearOfEra + (if month ≤ 2 then 1 else 0)
  of? year month day

end Date

structure TimeOfDay where
  hour : Nat
  minute : Nat
  second : Nat
  nano : Nat
  hour_lt : hour < 24
  minute_lt : minute < 60
  second_lt : second < 60
  nano_lt : nano < 1000000000
  deriving DecidableEq

namespace TimeOfDay

def of? (hour minute second nano : Nat) : Option TimeOfDay :=
  if h : hour < 24 ∧ minute < 60 ∧ second < 60 ∧ nano < 1000000000 then
    some ⟨hour, minute, second, nano, h.1, h.2.1, h.2.2.1, h.2.2.2⟩
  else none

def seconds (t : TimeOfDay) : Nat := 3600 * t.hour + 60 * t.minute + t.second

/-- The time a number of seconds and nanoseconds after midnight, days left out. -/
def ofSeconds (seconds nano : Nat) : TimeOfDay where
  hour := seconds / 3600 % 24
  minute := seconds / 60 % 60
  second := seconds % 60
  nano := nano % 1000000000
  hour_lt := Nat.mod_lt _ (by decide)
  minute_lt := Nat.mod_lt _ (by decide)
  second_lt := Nat.mod_lt _ (by decide)
  nano_lt := Nat.mod_lt _ (by decide)

end TimeOfDay

/-- A date and a time of day on a clock that is `offset` minutes ahead of UTC. -/
structure DateTime where
  date : Date
  time : TimeOfDay
  offset : Int
  deriving DecidableEq

namespace DateTime

/-- Seconds on the clock itself since its own 1 January 1970. -/
def localSeconds (t : DateTime) : Int :=
  86400 * t.date.dayNumber + t.time.seconds

/-- Whole seconds since the beginning of 1970 UTC, rounded down. -/
def unixSeconds (t : DateTime) : Int := t.localSeconds - 60 * t.offset

/-- Nanoseconds since the beginning of 1970 UTC. -/
def instant (t : DateTime) : Int := 1000000000 * t.unixSeconds + t.time.nano

/-- The moment on a clock, if the calendar reaches it. -/
def ofUnix? (seconds : Int) (nano : Nat) (offset : Int) : Option DateTime :=
  let shown := seconds + 60 * offset
  (Date.ofDayNumber? (shown / 86400)).map fun date =>
    ⟨date, .ofSeconds (shown % 86400).toNat nano, offset⟩

/-- The moment a number of seconds and nanoseconds later, if the calendar reaches it. -/
def add? (t : DateTime) (seconds : Int) (nano : Nat) : Option DateTime :=
  let nanos := t.time.nano + nano
  ofUnix? (t.unixSeconds + seconds + (nanos / 1000000000 : Nat)) (nanos % 1000000000) t.offset

/-- The moment that a number of nanoseconds since 1970 means, on a clock at UTC. -/
def ofInstant? (nanos : Int) : Option DateTime :=
  ofUnix? (nanos / 1000000000) (nanos % 1000000000).toNat 0

/-- The beginning of 1970 UTC. -/
def epoch : DateTime where
  date := ⟨1970, 1, 1, by decide, by decide, by decide⟩
  time := .ofSeconds 0 0
  offset := 0

instance : Inhabited DateTime := ⟨epoch⟩

end DateTime

/-- The readings of a clock, one after another. -/
abbrev Clock := Nat → DateTime

end Depot.Time
