import Depot.Time.Calendar

/-!
# How far the calendar reaches

Every day of the calendar is within five million days of 1970, so each of its seconds fits into 64 bits.
-/

namespace Depot.Time

theorem Date.day_le (date : Date) : date.day ≤ 31 := by
  apply Nat.le_trans date.day_mem.2
  unfold daysInMonth
  split <;> (try split) <;> decide

theorem Date.dayNumber_bounds (date : Date) : -5000000 ≤ date.dayNumber ∧ date.dayNumber ≤ 5000000 := by
  obtain ⟨hlow, hhigh⟩ := date.year_mem
  have hmonth := date.month_mem
  have hday := date.day_le
  unfold dayNumber marchDays
  dsimp only
  split <;> omega

theorem TimeOfDay.seconds_lt (t : TimeOfDay) : t.seconds < 86400 := by
  have hhour := t.hour_lt
  have hminute := t.minute_lt
  have hsecond := t.second_lt
  unfold seconds
  omega

namespace DateTime

variable {now later : DateTime} {seconds : Int} {nano : Nat}

theorem unixSeconds_range (hutc : now.offset = 0) :
    Int64.minValue.toInt ≤ now.unixSeconds ∧ now.unixSeconds ≤ Int64.maxValue.toInt := by
  obtain ⟨hlow, hhigh⟩ := now.date.dayNumber_bounds
  have htime := now.time.seconds_lt
  have hmin : Int64.minValue.toInt = -9223372036854775808 := by decide
  have hmax : Int64.maxValue.toInt = 9223372036854775807 := by decide
  rw [unixSeconds, localSeconds, hutc, hmin, hmax]
  omega

theorem offset_of_add? (h : now.add? seconds nano = some later) : later.offset = now.offset := by
  rw [add?, ofUnix?] at h
  obtain ⟨date, _, rfl⟩ := Option.map_eq_some_iff.mp h
  rfl

theorem unixSeconds_le_of_instant_le (h : now.instant ≤ later.instant) : now.unixSeconds ≤ later.unixSeconds := by
  have hlater := later.time.nano_lt
  unfold instant at h
  omega

end DateTime

end Depot.Time
