import Depot.Proofs.Time.TextOrder

/-!
# Days found by their numbers

400 years have 146097 days, whichever they are. A number is taken apart into whole stretches of 400 years and a day in
one of them, and that day into centuries, spans of four years, years and months, all of which begin with March.

- `InEra`: where a day stands in 400 years. Every one stands somewhere (`exists_inEra`), and the year that is computed
  for it is its year (`InEra.yearOfEra_eq`).
- `Date.ofDayNumber?_eq_some_iff`: a day is found by its number and by no other.
- `Date.ofDayNumber?_eq_none_iff`: only numbers before the first day and behind the last one are those of no day.
- `DateTime.instant_of_add?`, `DateTime.add?_eq_none_iff`: a later moment is exactly that much later, and there is none
  only behind the last moment of the calendar.
-/

namespace Depot.Time

namespace Date

variable {number : Int} {ofEra century spans year day m : Nat} {date : Date}

/-! ### Days of 400 years -/

/-- A day of 400 years by its century, the spans of four years before it in the century, the years before it in its
span, and the days before it in its year. A leap day ends the last year of a span, but that of a century only if the
century is the last. -/
structure InEra (ofEra century spans year day : Nat) : Prop where
  century_le : century ≤ 3
  spans_le : spans ≤ 24
  year_le : year ≤ 3
  day_le : day ≤ 365
  leapDay : day = 365 → year = 3 ∧ (spans = 24 → century = 3)
  sum : ofEra = 36524 * century + 1461 * spans + 365 * year + day

theorem exists_inEra (h : ofEra < 146097) : ∃ century spans year day, InEra ofEra century spans year day := by
  -- the last century and the last year of a span are a day longer than the others
  have hcentury : ∃ century rest, century ≤ 3 ∧ rest ≤ 36524 ∧ (rest = 36524 → century = 3) ∧
      ofEra = 36524 * century + rest := by
    by_cases hlast : ofEra = 146096
    · exact ⟨3, 36524, by omega⟩
    · exact ⟨ofEra / 36524, ofEra % 36524, by omega⟩
  obtain ⟨century, rest, hcentury, hrest, hlong, hsum⟩ := hcentury
  obtain ⟨spans, ofSpan, hspans, hofSpan, hrestSum⟩ :
      ∃ spans ofSpan, spans ≤ 24 ∧ ofSpan ≤ 1460 ∧ rest = 1461 * spans + ofSpan :=
    ⟨rest / 1461, rest % 1461, by omega⟩
  have hyear : ∃ year day, year ≤ 3 ∧ day ≤ 365 ∧ (day = 365 → year = 3) ∧ ofSpan = 365 * year + day := by
    by_cases hlast : ofSpan = 1460
    · exact ⟨3, 365, by omega⟩
    · exact ⟨ofSpan / 365, ofSpan % 365, by omega⟩
  obtain ⟨year, day, hyear, hday, hleap, hspanSum⟩ := hyear
  refine ⟨century, spans, year, day, hcentury, hspans, hyear, hday, fun heq => ⟨hleap heq, fun hfull => ?_⟩, by omega⟩
  have hlast := hleap heq
  exact hlong (by omega)

theorem InEra.yearOfEra_eq (h : InEra ofEra century spans year day) :
    (ofEra - ofEra / 1460 + ofEra / 36524 - ofEra / 146096) / 365 = 100 * century + 4 * spans + year := by
  obtain ⟨hcentury, hspans, hyear, hday, hleap, hsum⟩ := h
  have hcenturies : ofEra / 36524 = century + ofEra / 146096 := by
    by_cases hlast : ofEra = 146096 <;> omega
  rw [hcenturies, ← Nat.add_assoc, Nat.add_sub_cancel_right]
  by_cases hlate : 1460 ≤ 24 * century + spans + 365 * year + day
  · have hfours : ofEra / 1460 = 25 * century + spans + 1 := by omega
    omega
  · have hfours : ofEra / 1460 = 25 * century + spans := by omega
    omega

theorem InEra.ofYear_eq (h : InEra ofEra century spans year day) :
    ofEra - (365 * (100 * century + 4 * spans + year) + (100 * century + 4 * spans + year) / 4 -
      (100 * century + 4 * spans + year) / 100) = day := by
  obtain ⟨hcentury, hspans, hyear, _, _, hsum⟩ := h
  omega

/-- The days of whole years that begin with March, from year 0 on. -/
def yearDays (start : Int) : Int := 365 * start + start / 4 - start / 100 + start / 400

theorem InEra.yearDays_add (h : InEra ofEra century spans year day) (era : Int) :
    yearDays (era * 400 + (100 * century + 4 * spans + year : Nat)) + day = 146097 * era + ofEra := by
  obtain ⟨hcentury, hspans, hyear, _, _, hsum⟩ := h
  unfold yearDays
  omega

/-! ### Days of a year -/

/-- The month that begins so many months behind March. -/
def monthBehindMarch (m : Nat) : Nat := if m < 10 then m + 3 else m - 9

theorem monthBehindMarch_mem (h : m ≤ 11) : 1 ≤ monthBehindMarch m ∧ monthBehindMarch m ≤ 12 := by
  unfold monthBehindMarch
  split <;> omega

theorem marchDays_monthBehindMarch (start : Int) (hm : m ≤ 11) (day : Nat) :
    marchDays (start + if monthBehindMarch m ≤ 2 then 1 else 0) (monthBehindMarch m) day =
      yearDays start + ((153 * m + 2) / 5 : Nat) + day - 1 := by
  have hnumber : (if monthBehindMarch m ≤ 2 then monthBehindMarch m + 9 else monthBehindMarch m - 3) = m := by
    unfold monthBehindMarch
    split <;> split <;> omega
  have hyear : (if monthBehindMarch m ≤ 2 then start + (if monthBehindMarch m ≤ 2 then 1 else 0) - 1
      else start + if monthBehindMarch m ≤ 2 then 1 else 0) = start := by
    split <;> omega
  rw [marchDays, hnumber, hyear, yearDays]

theorem InEra.day_le_daysInMonth (h : InEra ofEra century spans year day) (hm : m ≤ 11)
    (hend : day < (153 * (m + 1) + 2) / 5) (era : Int) :
    day - (153 * m + 2) / 5 + 1 ≤ daysInMonth (era * 400 + (100 * century + 4 * spans + year : Nat) +
      if monthBehindMarch m ≤ 2 then 1 else 0) (monthBehindMarch m) := by
  obtain ⟨hcentury, hspans, hyear, hday, hleap, _⟩ := h
  by_cases hfebruary : m = 11
  · subst hfebruary
    have hmonth : monthBehindMarch 11 = 2 := rfl
    rw [hmonth, if_pos (Nat.le_refl 2), daysInMonth]
    by_cases hlast : day = 365
    · have hlong : isLeapYear (era * 400 + (100 * century + 4 * spans + year : Nat) + 1) := by
        rw [isLeapYear_iff]
        omega
      rw [if_pos hlong]
      omega
    · split <;> omega
  · have hmonths : m = 0 ∨ m = 1 ∨ m = 2 ∨ m = 3 ∨ m = 4 ∨ m = 5 ∨ m = 6 ∨ m = 7 ∨ m = 8 ∨ m = 9 ∨ m = 10 := by
      omega
    rcases hmonths with rfl | rfl | rfl | rfl | rfl | rfl | rfl | rfl | rfl | rfl | rfl
    all_goals
      simp [monthBehindMarch, daysInMonth]
      omega

/-! ### Numbers of days -/

theorem ofDayNumber?_eq (number : Int) :
    ∃ year month day, ofDayNumber? number = of? year month day ∧ marchDays year month day = number + 719468 ∧
      (1 ≤ month ∧ month ≤ 12) ∧ 1 ≤ day ∧ day ≤ daysInMonth year month := by
  obtain ⟨century, spans, year, day, h⟩ :
      ∃ century spans year day, InEra ((number + 719468) % 146097).toNat century spans year day :=
    exists_inEra (by omega)
  have hm : (5 * day + 2) / 153 ≤ 11 := by
    have := h.day_le
    omega
  refine ⟨_, _, _, ?_, ?_, monthBehindMarch_mem hm, by omega,
    h.day_le_daysInMonth hm (by omega) ((number + 719468) / 146097)⟩
  · rw [ofDayNumber?, h.yearOfEra_eq, h.ofYear_eq]
    rfl
  · have hsum := h.yearDays_add ((number + 719468) / 146097)
    rw [marchDays_monthBehindMarch _ hm]
    omega

theorem january_mem : 1 ≤ 1 ∧ 1 ≤ 12 := by decide

/-- The first day of the calendar. -/
def first : Date := ⟨-9999, 1, 1, by decide, january_mem, by decide⟩

/-- The last day of the calendar. -/
def last : Date := ⟨9999, 12, 31, by decide, by decide, by decide⟩

theorem not_precedes_first (date : Date) : ¬Precedes date first := by
  have hyear := date.year_mem.1
  have hmonth := date.month_mem.1
  have hday := date.day_mem.1
  simp only [Precedes, first]
  omega

theorem not_last_precedes (date : Date) : ¬Precedes last date := by
  have hyear := date.year_mem.2
  have hmonth := date.month_mem.2
  have hday := date.day_le
  simp only [Precedes, last]
  omega

theorem dayNumber_mem (date : Date) : first.dayNumber ≤ date.dayNumber ∧ date.dayNumber ≤ last.dayNumber :=
  ⟨Int.not_lt.mp (mt dayNumber_lt_iff.mp (not_precedes_first date)),
    Int.not_lt.mp (mt dayNumber_lt_iff.mp (not_last_precedes date))⟩

theorem marchDays_outside {year : Int} {month : Nat} (hmonth : 1 ≤ month ∧ month ≤ 12)
    (hday : 1 ≤ day ∧ day ≤ daysInMonth year month) (hyear : year < -9999 ∨ 9999 < year) :
    marchDays year month day - 719468 < first.dayNumber ∨ last.dayNumber < marchDays year month day - 719468 := by
  rw [marchDays_day]
  rcases hyear with hbefore | hbehind
  · have hle : marchDays year month 1 + daysInMonth year month ≤ marchDays (-9999) 1 1 :=
      marchDays_year_le hmonth.1 hmonth.2 hbefore
    have hfirst : first.dayNumber = marchDays (-9999) 1 1 - 719468 := rfl
    omega
  · have hle : marchDays 9999 12 1 + daysInMonth 9999 12 ≤ marchDays year 1 1 :=
      marchDays_year_le (by decide) (by decide) hbehind
    have hjanuary : marchDays year 1 1 ≤ marchDays year month 1 := marchDays_january_le hmonth.1 hmonth.2
    have hlast : last.dayNumber = marchDays 9999 12 1 + (daysInMonth 9999 12 : Nat) - 1 - 719468 := by decide
    omega

theorem ofDayNumber?_cases (number : Int) :
    (∃ date, ofDayNumber? number = some date ∧ date.dayNumber = number) ∨
      ofDayNumber? number = none ∧ (number < first.dayNumber ∨ last.dayNumber < number) := by
  obtain ⟨year, month, day, heq, hcount, hmonth, hday⟩ := ofDayNumber?_eq number
  have hnumber : marchDays year month day - 719468 = number := by omega
  rw [heq]
  by_cases hyear : -9999 ≤ year ∧ year ≤ 9999
  · refine .inl ⟨⟨year, month, day, hyear, hmonth, hday⟩, ?_, hnumber⟩
    rw [of?, dif_pos hyear, dif_pos hmonth, dif_pos hday]
  · refine .inr ⟨dif_neg hyear, ?_⟩
    rw [← hnumber]
    exact marchDays_outside hmonth hday (by omega)

theorem dayNumber_inj {a b : Date} (h : a.dayNumber = b.dayNumber) : a = b := by
  rcases precedes_or a b with hbefore | hsame | hafter
  · exact absurd (dayNumber_lt_of_precedes hbefore) (by omega)
  · exact hsame
  · exact absurd (dayNumber_lt_of_precedes hafter) (by omega)

/-- **A day is found by its number, and by no other.** -/
theorem ofDayNumber?_eq_some_iff : ofDayNumber? number = some date ↔ date.dayNumber = number := by
  have hmem := date.dayNumber_mem
  rcases ofDayNumber?_cases number with ⟨found, hfound, rfl⟩ | ⟨hnone, houtside⟩
  · rw [hfound, Option.some.injEq]
    exact ⟨fun heq => by rw [heq], fun heq => (dayNumber_inj heq).symm⟩
  · rw [hnone]
    exact iff_of_false nofun (by omega)

/-- **The numbers of no day.** -/
theorem ofDayNumber?_eq_none_iff :
    ofDayNumber? number = none ↔ number < first.dayNumber ∨ last.dayNumber < number := by
  rcases ofDayNumber?_cases number with ⟨found, hfound, rfl⟩ | ⟨hnone, houtside⟩
  · have hmem := found.dayNumber_mem
    rw [hfound]
    exact iff_of_false nofun (by omega)
  · exact iff_of_true hnone houtside

end Date

/-! ### Later moments -/

namespace DateTime

variable {t later : DateTime} {seconds offset : Int} {nano : Nat}

theorem seconds_ofSeconds {ofDay : Nat} (h : ofDay < 86400) (nano : Nat) :
    (TimeOfDay.ofSeconds ofDay nano).seconds = ofDay := by
  simp only [TimeOfDay.seconds, TimeOfDay.ofSeconds]
  omega

theorem instant_of_ofUnix? (h : ofUnix? seconds nano offset = some t) (hnano : nano < 1000000000) :
    t.instant = 1000000000 * seconds + nano := by
  rw [ofUnix?] at h
  obtain ⟨date, hdate, rfl⟩ := Option.map_eq_some_iff.mp h
  have hday := Date.ofDayNumber?_eq_some_iff.mp hdate
  have hseconds : (TimeOfDay.ofSeconds ((seconds + 60 * offset) % 86400).toNat nano).seconds =
      ((seconds + 60 * offset) % 86400).toNat := seconds_ofSeconds (by omega) nano
  have hfraction : (TimeOfDay.ofSeconds ((seconds + 60 * offset) % 86400).toNat nano).nano = nano :=
    Nat.mod_eq_of_lt hnano
  rw [instant, unixSeconds, localSeconds]
  dsimp only
  rw [hday, hseconds, hfraction]
  omega

theorem ofUnix?_eq_none_iff : ofUnix? seconds nano offset = none ↔
    (seconds + 60 * offset) / 86400 < Date.first.dayNumber ∨
      Date.last.dayNumber < (seconds + 60 * offset) / 86400 := by
  rw [ofUnix?, Option.map_eq_none_iff, Date.ofDayNumber?_eq_none_iff]

/-- **A later moment is exactly that much later.** -/
theorem instant_of_add? (h : t.add? seconds nano = some later) :
    later.instant = t.instant + 1000000000 * seconds + nano := by
  rw [instant_of_ofUnix? h (Nat.mod_lt _ (by decide)), instant]
  omega

/-- The last moment of the calendar on a clock at UTC. -/
def last : DateTime := ⟨.last, ⟨23, 59, 59, 999999999, by decide, by decide, by decide, by decide⟩, 0⟩

theorem instant_last : last.instant = 1000000000 * (86400 * Date.last.dayNumber + 86399) + 999999999 := by decide

theorem instant_le_last (hutc : t.offset = 0) : t.instant ≤ last.instant := by
  have hday := t.date.dayNumber_mem.2
  have hseconds := t.time.seconds_lt
  have hnano := t.time.nano_lt
  rw [instant_last, instant, unixSeconds, localSeconds, hutc]
  omega

/-- **A later moment is missing exactly if it lies behind the last one of the calendar.** -/
theorem add?_eq_none_iff (hutc : t.offset = 0) (hseconds : 0 ≤ seconds) :
    t.add? seconds nano = none ↔ last.instant < t.instant + 1000000000 * seconds + nano := by
  have hday := t.date.dayNumber_mem.1
  have htime := t.time.seconds_lt
  have hnano := t.time.nano_lt
  rw [add?, ofUnix?_eq_none_iff, instant_last, instant, unixSeconds, localSeconds, hutc]
  omega

theorem HasUtcText.of_instant_le (h : t.HasUtcText) (hutc : later.offset = 0) (hle : t.instant ≤ later.instant) :
    later.HasUtcText := by
  refine ⟨hutc, Int.not_lt.mp fun hyear => ?_⟩
  have hbefore : later.date.dayNumber < t.date.dayNumber :=
    Date.dayNumber_lt_of_precedes (.inl (Int.lt_of_lt_of_le hyear h.year))
  have hseconds := later.time.seconds_lt
  have hnano := later.time.nano_lt
  rw [instant, instant, h.unixSeconds_eq, unixSeconds, localSeconds, localSeconds, hutc] at hle
  omega

end DateTime

end Depot.Time
