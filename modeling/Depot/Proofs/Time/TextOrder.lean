import Depot.Proofs.Time.Rfc3339

/-!
# The order of the texts of times

On a clock at UTC the texts of two times stand in the order of their seconds. Inside a second they stand in the order
of their fractions, but the `Z` behind a fraction comes after every digit and after the point: of two fractions of
which one goes on behind the digits of the other, the longer and later one comes first (`Overtakes`).

- `Date.dayNumber_lt_iff`: days are counted in the order of year, month and day.
- `wholeText_lt_iff`: the texts of seconds stand in the order of the seconds.
- `text_le_iff`: when the text of a time does not come after that of another.
-/

namespace Depot.Time

/-! ### Days in order -/

namespace Date

variable {year later : Int} {month next : Nat}

theorem marchDays_day (year : Int) (month day : Nat) :
    marchDays year month day = marchDays year month 1 + day - 1 := by
  unfold marchDays
  dsimp only
  omega

theorem isLeapYear_iff : isLeapYear year ↔ year % 4 = 0 ∧ (year % 100 ≠ 0 ∨ year % 400 = 0) := by
  simp [isLeapYear]

theorem marchDays_succ (hlow : 1 ≤ month) (hhigh : month ≤ 11) :
    marchDays year (month + 1) 1 = marchDays year month 1 + daysInMonth year month := by
  by_cases hfebruary : month = 2
  · -- behind February the year counts as one that has begun
    subst hfebruary
    by_cases h : isLeapYear year
    · have hyear := isLeapYear_iff.mp h
      simp [marchDays, daysInMonth, h]
      omega
    · have hyear := mt isLeapYear_iff.mpr h
      simp [marchDays, daysInMonth, h]
      omega
  · have hcases : month = 1 ∨ month = 3 ∨ month = 4 ∨ month = 5 ∨ month = 6 ∨ month = 7 ∨ month = 8 ∨ month = 9 ∨
        month = 10 ∨ month = 11 := by omega
    rcases hcases with rfl | rfl | rfl | rfl | rfl | rfl | rfl | rfl | rfl | rfl
    all_goals simp [marchDays, daysInMonth] <;> omega

theorem marchDays_month_le (hlow : 1 ≤ month) (hlt : month < next) (hhigh : next ≤ 12) :
    marchDays year month 1 + daysInMonth year month ≤ marchDays year next 1 := by
  induction next with
  | zero => omega
  | succ next ih =>
    by_cases heq : month = next
    · subst heq
      exact Int.le_of_eq (marchDays_succ hlow (by omega)).symm
    · have hrest := ih (by omega) (by omega)
      rw [marchDays_succ (by omega) (by omega)]
      omega

theorem marchDays_january_le (hlow : 1 ≤ month) (hhigh : month ≤ 12) : marchDays year 1 1 ≤ marchDays year month 1 := by
  by_cases heq : month = 1
  · exact Int.le_of_eq (by rw [heq])
  · have hmonths : marchDays year 1 1 + daysInMonth year 1 ≤ marchDays year month 1 :=
      marchDays_month_le (Nat.le_refl 1) (by omega) hhigh
    omega

theorem marchDays_year_le (hlow : 1 ≤ month) (hhigh : month ≤ 12) (hlt : year < later) :
    marchDays year month 1 + daysInMonth year month ≤ marchDays later 1 1 := by
  have hdecember : marchDays year month 1 + daysInMonth year month ≤ marchDays year 12 1 + 31 := by
    by_cases heq : month = 12
    · subst heq
      exact Int.le_refl _
    · have hle : marchDays year month 1 + daysInMonth year month ≤ marchDays year 12 1 :=
        marchDays_month_le hlow (by omega) (Nat.le_refl _)
      omega
  have hyear : marchDays year 12 1 + 31 ≤ marchDays later 1 1 := by
    simp only [marchDays]
    simp
    by_cases heq : later = year + 1
    · subst heq
      omega
    · omega
  omega

/-- Days in the order of the calendar. -/
def Precedes (a b : Date) : Prop :=
  a.year < b.year ∨ a.year = b.year ∧ (a.month < b.month ∨ a.month = b.month ∧ a.day < b.day)

theorem dayNumber_lt_of_precedes {a b : Date} (h : Precedes a b) : a.dayNumber < b.dayNumber := by
  obtain ⟨hlow, hhigh⟩ := a.month_mem
  obtain ⟨hnextLow, hnextHigh⟩ := b.month_mem
  obtain ⟨_, hday⟩ := a.day_mem
  obtain ⟨hnextDay, _⟩ := b.day_mem
  rw [dayNumber, dayNumber, marchDays_day a.year, marchDays_day b.year]
  rcases h with hyear | ⟨hyear, hmonth | ⟨hmonth, hless⟩⟩
  · have hle := marchDays_year_le hlow hhigh hyear
    have hjanuary : marchDays b.year 1 1 ≤ marchDays b.year b.month 1 := marchDays_january_le hnextLow hnextHigh
    omega
  · rw [hyear] at hday ⊢
    have hle : marchDays b.year a.month 1 + daysInMonth b.year a.month ≤ marchDays b.year b.month 1 :=
      marchDays_month_le hlow hmonth hnextHigh
    omega
  · rw [hyear, hmonth]
    omega

theorem precedes_or (a b : Date) : Precedes a b ∨ a = b ∨ Precedes b a := by
  obtain ⟨year, month, day, _, _, _⟩ := a
  obtain ⟨year', month', day', _, _, _⟩ := b
  simp only [Precedes, mk.injEq]
  omega

theorem dayNumber_lt_iff {a b : Date} : a.dayNumber < b.dayNumber ↔ Precedes a b := by
  refine ⟨fun h => ?_, dayNumber_lt_of_precedes⟩
  rcases precedes_or a b with hbefore | rfl | hafter
  · exact hbefore
  · omega
  · have := dayNumber_lt_of_precedes hafter
    omega

end Date

/-! ### Texts in order -/

theorem append_lt_append_iff {p q r s : List Char} (h : p.length = q.length) :
    p ++ r < q ++ s ↔ p < q ∨ p = q ∧ r < s := by
  induction p generalizing q with
  | nil =>
    rw [List.length_nil, eq_comm, List.length_eq_zero_iff] at h
    simp [h]
  | cons c p ih =>
    cases q with
    | nil => cases h
    | cons d q =>
      have hrest := ih (Nat.succ.inj h)
      simp only [List.cons_append, List.cons_lt_cons_iff, hrest, List.cons.injEq]
      constructor
      · rintro (hlt | ⟨rfl, hlt | ⟨rfl, hlt⟩⟩)
        · exact .inl (.inl hlt)
        · exact .inl (.inr ⟨rfl, hlt⟩)
        · exact .inr ⟨⟨rfl, rfl⟩, hlt⟩
      · rintro ((hlt | ⟨rfl, hlt⟩) | ⟨⟨rfl, rfl⟩, hlt⟩)
        · exact .inl hlt
        · exact .inr ⟨rfl, .inl hlt⟩
        · exact .inr ⟨rfl, .inr ⟨rfl, hlt⟩⟩

namespace Rfc3339

variable {m n width : Nat} {a b : DateTime}

theorem digitChar_lt_iff (hm : m < 10) (hn : n < 10) : Nat.digitChar m < Nat.digitChar n ↔ m < n := by
  have hall : ∀ i j : Fin 10, Nat.digitChar i < Nat.digitChar j ↔ i.val < j.val := by decide
  exact hall ⟨m, hm⟩ ⟨n, hn⟩

theorem padded_inj (hm : m < 10 ^ width) (hn : n < 10 ^ width) : padded width m = padded width n ↔ m = n := by
  refine ⟨fun heq => ?_, fun heq => by rw [heq]⟩
  have hback := number?_padded hm []
  rw [heq, number?_padded hn] at hback
  exact (Prod.mk.inj (Option.some.inj hback)).1.symm

theorem padded_lt_iff (hm : m < 10 ^ width) (hn : n < 10 ^ width) : padded width m < padded width n ↔ m < n := by
  induction width generalizing m n with
  | zero =>
    have hm : m = 0 := Nat.lt_one_iff.mp hm
    have hn : n = 0 := Nat.lt_one_iff.mp hn
    subst hm hn
    exact ⟨fun h => absurd h (List.lt_irrefl _), fun h => absurd h (Nat.lt_irrefl 0)⟩
  | succ width ih =>
    have hfirst : m / 10 < 10 ^ width := by omega
    have hfirstOther : n / 10 < 10 ^ width := by omega
    rw [padded, padded, append_lt_append_iff (by simp), ih hfirst hfirstOther, padded_inj hfirst hfirstOther,
      List.cons_lt_cons_iff, digitChar_lt_iff (by omega) (by omega)]
    have hnil : ¬([] : List Char) < [] := List.lt_irrefl _
    simp only [hnil, and_false, or_false]
    omega

theorem padded_append_lt_iff {r s : List Char} (hm : m < 10 ^ width) (hn : n < 10 ^ width) :
    padded width m ++ r < padded width n ++ s ↔ m < n ∨ m = n ∧ r < s := by
  rw [append_lt_append_iff (by simp), padded_lt_iff hm hn, padded_inj hm hn]

/-- The text of a time up to its second. -/
def wholeText (t : DateTime) : List Char :=
  padded 4 t.date.year.toNat ++ '-' :: (padded 2 t.date.month ++ '-' :: (padded 2 t.date.day ++
    'T' :: (padded 2 t.time.hour ++ ':' :: (padded 2 t.time.minute ++ ':' :: padded 2 t.time.second))))

theorem length_wholeText (t : DateTime) : (wholeText t).length = 19 := by
  simp [wholeText]

theorem fields_lt (t : DateTime) :
    t.date.year.toNat < 10 ^ 4 ∧ t.date.month < 10 ^ 2 ∧ t.date.day < 10 ^ 2 ∧ t.time.hour < 10 ^ 2 ∧
      t.time.minute < 10 ^ 2 ∧ t.time.second < 10 ^ 2 := by
  have hyear := t.date.year_mem
  have hmonth := t.date.month_mem
  have hday := t.date.day_le
  have hhour := t.time.hour_lt
  have hminute := t.time.minute_lt
  have hsecond := t.time.second_lt
  omega

theorem wholeText_lt_iff (ha : 0 ≤ a.date.year) (hb : 0 ≤ b.date.year) :
    wholeText a < wholeText b ↔ a.localSeconds < b.localSeconds := by
  obtain ⟨hyear, hmonth, hday, hhour, hminute, hsecond⟩ := fields_lt a
  obtain ⟨hyear', hmonth', hday', hhour', hminute', hsecond'⟩ := fields_lt b
  have hcons : ∀ (c : Char) (r s : List Char), c :: r < c :: s ↔ r < s := by
    intro c r s
    rw [List.cons_lt_cons_iff]
    simp
  rw [wholeText, wholeText, padded_append_lt_iff hyear hyear', hcons, padded_append_lt_iff hmonth hmonth', hcons,
    padded_append_lt_iff hday hday', hcons, padded_append_lt_iff hhour hhour', hcons,
    padded_append_lt_iff hminute hminute', hcons, padded_lt_iff hsecond hsecond']
  have htime := a.time.seconds_lt
  have htime' := b.time.seconds_lt
  have hbounds := a.time.minute_lt
  have hbounds' := b.time.minute_lt
  have hlast := a.time.second_lt
  have hlast' := b.time.second_lt
  simp only [DateTime.localSeconds]
  rcases Date.precedes_or a.date b.date with hbefore | hsame | hafter
  · have hless := Date.dayNumber_lt_of_precedes hbefore
    simp only [Date.Precedes] at hbefore
    constructor <;> intro <;> omega
  · rw [hsame]
    simp only [TimeOfDay.seconds, Nat.lt_irrefl, false_or, true_and]
    omega
  · have hless := Date.dayNumber_lt_of_precedes hafter
    simp only [Date.Precedes] at hafter
    constructor <;> intro <;> omega

/-! ### Fractions in order -/

theorem parted_or_continued (ds es : List Char) :
    ds <+: es ∨ es <+: ds ∨ ∃ p x y r s, x ≠ y ∧ ds = p ++ x :: r ∧ es = p ++ y :: s := by
  induction ds generalizing es with
  | nil => exact .inl List.nil_prefix
  | cons c ds ih =>
    cases es with
    | nil => exact .inr (.inl List.nil_prefix)
    | cons d es =>
      by_cases hcd : c = d
      · subst hcd
        rcases ih es with hprefix | hprefix | ⟨p, x, y, r, s, hne, rfl, rfl⟩
        · exact .inl (List.cons_prefix_cons.mpr ⟨rfl, hprefix⟩)
        · exact .inr (.inl (List.cons_prefix_cons.mpr ⟨rfl, hprefix⟩))
        · exact .inr (.inr ⟨c :: p, x, y, r, s, hne, rfl, rfl⟩)
      · exact .inr (.inr ⟨[], c, d, ds, es, hcd, rfl, rfl⟩)

/-- The fraction of `n` goes on behind the digits of the fraction of `m`. -/
def Continues (m n : Nat) : Prop := fractionDigits m <+: fractionDigits n ∧ m ≠ n

instance (m n : Nat) : Decidable (Continues m n) := inferInstanceAs (Decidable (_ ∧ _))

theorem fractionDigits_inj (hm : m < 10 ^ 9) (hn : n < 10 ^ 9) (h : fractionDigits m = fractionDigits n) : m = n := by
  apply (padded_inj hm hn).mp
  rw [fractionDigits_append m, fractionDigits_append n, h]

theorem toNat_of_isDigit {c : Char} (h : c.isDigit) : 48 ≤ c.toNat ∧ c.toNat ≤ 57 := by
  obtain ⟨hlow, hhigh⟩ : 48 ≤ c.val ∧ c.val ≤ 57 := by simpa [Char.isDigit] using h
  exact ⟨UInt32.le_iff_toNat_le.mp hlow, UInt32.le_iff_toNat_le.mp hhigh⟩

theorem lt_iff_toNat_lt {c d : Char} : c < d ↔ c.toNat < d.toNat := UInt32.lt_iff_toNat_lt

theorem not_lt_replicate {zeros : Nat} {ds : List Char} (hdigits : ∀ c ∈ ds, c.isDigit) (hlength : zeros ≤ ds.length) :
    ¬ds < List.replicate zeros '0' := by
  induction zeros generalizing ds with
  | zero => exact List.not_lt_nil ds
  | succ zeros ih =>
    obtain ⟨c, ds, rfl⟩ := List.exists_cons_of_length_pos (Nat.lt_of_lt_of_le (Nat.succ_pos _) hlength)
    rw [List.replicate_succ, List.cons_lt_cons_iff]
    rintro (hless | ⟨_, hrest⟩)
    · have hvalue := (toNat_of_isDigit (hdigits c List.mem_cons_self)).1
      have hzero : c.toNat < 48 := lt_iff_toNat_lt.mp hless
      omega
    · exact ih (fun d hd => hdigits d (List.mem_cons_of_mem c hd)) (Nat.le_of_succ_le_succ hlength) hrest

theorem lt_of_continues (hm : m < 10 ^ 9) (hn : n < 10 ^ 9) (h : Continues m n) : m < n := by
  obtain ⟨⟨more, hmore⟩, hne⟩ := h
  apply Nat.lt_of_le_of_ne _ hne
  apply Nat.le_of_not_lt
  intro hlt
  have hpadded := (padded_lt_iff hn hm).mpr hlt
  have hdigits : ∀ c ∈ padded 9 n, c.isDigit := fun c hc => isDigit_of_mem_padded hc
  have hlength := congrArg List.length (fractionDigits_append m)
  have hlengthOther := length_padded 9 n
  rw [fractionDigits_append n, ← hmore, List.append_assoc] at hpadded hdigits hlengthOther
  rw [length_padded, List.length_append, List.length_replicate] at hlength
  rw [List.length_append] at hlengthOther
  rw [fractionDigits_append m, append_lt_append_iff rfl] at hpadded
  rcases hpadded with hself | ⟨_, hrest⟩
  · exact List.lt_irrefl _ hself
  · exact not_lt_replicate (fun c hc => hdigits c (List.mem_append_right _ hc)) (by omega) hrest

theorem fraction_of_ne (hn : n ≠ 0) : fraction n = '.' :: fractionDigits n := if_neg hn

theorem fraction_lt_of_continues (hm : m < 10 ^ 9) (hn : n < 10 ^ 9) (h : Continues m n) :
    fraction n ++ ['Z'] < fraction m ++ ['Z'] := by
  have hlt := lt_of_continues hm hn h
  obtain ⟨⟨more, hmore⟩, hne⟩ := h
  rw [fraction_of_ne (by omega)]
  by_cases hzero : m = 0
  · rw [hzero]
    exact List.cons_lt_cons_iff.mpr (.inl (by decide))
  · rw [fraction_of_ne hzero, ← hmore]
    cases more with
    | nil =>
      rw [List.append_nil] at hmore
      exact absurd (fractionDigits_inj hm hn hmore) hne
    | cons c more =>
      have hmem : c ∈ fractionDigits n := by
        rw [← hmore]
        simp
      have hdigit : c.isDigit := isDigit_of_mem_fractionDigits hmem
      have hless : c < 'Z' := lt_iff_toNat_lt.mpr (Nat.lt_of_le_of_lt (toNat_of_isDigit hdigit).2 (by decide))
      rw [List.cons_append, List.cons_append, List.append_assoc, List.cons_lt_cons_iff, append_lt_append_iff rfl]
      exact .inr ⟨rfl, .inr ⟨rfl, List.cons_lt_cons_iff.mpr (.inl hless)⟩⟩

theorem fraction_lt_of_lt (hm : m < 10 ^ 9) (hn : n < 10 ^ 9) (hlt : m < n) (h : ¬Continues m n) :
    fraction m ++ ['Z'] < fraction n ++ ['Z'] := by
  rcases parted_or_continued (fractionDigits m) (fractionDigits n) with hfirst | hsecond | hparted
  · exact absurd ⟨hfirst, Nat.ne_of_lt hlt⟩ h
  · have hgreater := lt_of_continues hn hm ⟨hsecond, Nat.ne_of_gt hlt⟩
    omega
  · obtain ⟨p, x, y, r, s, hne, hfirst, hsecond⟩ := hparted
    have hpadded := (padded_lt_iff hm hn).mpr hlt
    rw [fractionDigits_append m, fractionDigits_append n, hfirst, hsecond, List.append_assoc, List.append_assoc,
      append_lt_append_iff rfl] at hpadded
    have hless : x < y := by
      rcases hpadded with hself | ⟨_, hrest⟩
      · exact absurd hself (List.lt_irrefl _)
      · rcases List.cons_lt_cons_iff.mp hrest with hless | ⟨heq, _⟩
        · exact hless
        · exact absurd heq hne
    have hmZero : m ≠ 0 := by
      rintro rfl
      have hnil : fractionDigits 0 = [] := by decide
      rw [hnil] at hfirst
      simp at hfirst
    rw [fraction_of_ne hmZero, fraction_of_ne (by omega), hfirst, hsecond, List.cons_append, List.cons_append,
      List.append_assoc, List.append_assoc, List.cons_lt_cons_iff, append_lt_append_iff rfl]
    exact .inr ⟨rfl, .inr ⟨rfl, List.cons_lt_cons_iff.mpr (.inl hless)⟩⟩

theorem fraction_lt_iff (hm : m < 10 ^ 9) (hn : n < 10 ^ 9) :
    fraction m ++ ['Z'] < fraction n ++ ['Z'] ↔ Continues n m ∨ m < n ∧ ¬Continues m n := by
  constructor
  · intro hless
    have hreverse : ¬fraction n ++ ['Z'] < fraction m ++ ['Z'] := fun hback =>
      List.lt_irrefl _ (List.lt_trans hless hback)
    have hnot : ¬Continues m n := fun h => hreverse (fraction_lt_of_continues hm hn h)
    rcases Nat.lt_trichotomy m n with hlt | rfl | hgt
    · exact .inr ⟨hlt, hnot⟩
    · exact absurd hless (List.lt_irrefl _)
    · by_cases h : Continues n m
      · exact .inl h
      · exact absurd (fraction_lt_of_lt hn hm hgt h) hreverse
  · rintro (h | ⟨hlt, h⟩)
    · exact fraction_lt_of_continues hn hm h
    · exact fraction_lt_of_lt hm hn hlt h

end Rfc3339

/-! ### Times in order -/

namespace DateTime

variable {a b : DateTime}

/-- The later of two times in one second has a fraction that goes on behind the digits of that of the earlier. -/
def Overtakes (later earlier : DateTime) : Prop :=
  later.unixSeconds = earlier.unixSeconds ∧ Rfc3339.Continues earlier.time.nano later.time.nano

/-- A time on a clock at UTC whose year has a text. -/
structure HasUtcText (t : DateTime) : Prop where
  utc : t.offset = 0
  year : 0 ≤ t.date.year

instance (later earlier : DateTime) : Decidable (Overtakes later earlier) := inferInstanceAs (Decidable (_ ∧ _))

theorem Overtakes.instant_lt (h : Overtakes a b) : b.instant < a.instant := by
  obtain ⟨hsame, hcontinues⟩ := h
  have hlt := Rfc3339.lt_of_continues b.time.nano_lt a.time.nano_lt hcontinues
  rw [instant, instant, hsame]
  omega

theorem HasUtcText.render?_eq (h : HasUtcText a) : Rfc3339.render? a =
    some (String.ofList (Rfc3339.wholeText a ++ (Rfc3339.fraction a.time.nano ++ ['Z']))) := by
  rw [Rfc3339.render?, if_neg (Int.not_lt.mpr h.year), h.utc]
  simp [Rfc3339.wholeText, Rfc3339.zone]

theorem HasUtcText.unixSeconds_eq (h : HasUtcText a) : a.unixSeconds = a.localSeconds := by
  rw [unixSeconds, h.utc]
  omega

theorem HasUtcText.wholeText_lt_iff (ha : HasUtcText a) (hb : HasUtcText b) :
    Rfc3339.wholeText a < Rfc3339.wholeText b ↔ a.unixSeconds < b.unixSeconds := by
  rw [Rfc3339.wholeText_lt_iff ha.year hb.year, ha.unixSeconds_eq, hb.unixSeconds_eq]

theorem HasUtcText.wholeText_eq_iff (ha : HasUtcText a) (hb : HasUtcText b) :
    Rfc3339.wholeText a = Rfc3339.wholeText b ↔ a.unixSeconds = b.unixSeconds := by
  have hbefore := ha.wholeText_lt_iff hb
  have hafter := hb.wholeText_lt_iff ha
  constructor
  · intro heq
    rw [heq] at hbefore hafter
    have hself := List.lt_irrefl (Rfc3339.wholeText b)
    have hnotBefore := mt hbefore.mpr hself
    have hnotAfter := mt hafter.mpr hself
    omega
  · intro heq
    rcases Std.lt_trichotomy (Rfc3339.wholeText a) (Rfc3339.wholeText b) with hlt | hsame | hgt
    · exact absurd (hbefore.mp hlt) (by omega)
    · exact hsame
    · exact absurd (hafter.mp hgt) (by omega)

/-- The text of a time comes before that of another if it overtakes the other, or if it is earlier and is not
overtaken. -/
theorem HasUtcText.text_lt_iff (ha : HasUtcText a) (hb : HasUtcText b) {s t : String} (hs : Rfc3339.render? a = some s)
    (ht : Rfc3339.render? b = some t) : s < t ↔ Overtakes a b ∨ a.instant < b.instant ∧ ¬Overtakes b a := by
  have hnano := a.time.nano_lt
  have hnano' := b.time.nano_lt
  rw [ha.render?_eq] at hs
  rw [hb.render?_eq] at ht
  rw [← Option.some.inj hs, ← Option.some.inj ht, String.lt_iff, String.toList_ofList, String.toList_ofList,
    append_lt_append_iff (by rw [Rfc3339.length_wholeText, Rfc3339.length_wholeText]), ha.wholeText_lt_iff hb,
    ha.wholeText_eq_iff hb, Rfc3339.fraction_lt_iff hnano hnano']
  simp only [Overtakes, instant]
  by_cases heq : a.unixSeconds = b.unixSeconds
  · simp [heq]
  · simp only [heq, Ne.symm heq, false_and, false_or, or_false, not_false_eq_true, and_true]
    omega

theorem HasUtcText.text_le_iff (ha : HasUtcText a) (hb : HasUtcText b) {s t : String} (hs : Rfc3339.render? a = some s)
    (ht : Rfc3339.render? b = some t) : s ≤ t ↔ (Overtakes a b ∨ a.instant ≤ b.instant) ∧ ¬Overtakes b a := by
  rw [← String.not_lt, hb.text_lt_iff ha ht hs]
  have hback := @Overtakes.instant_lt b a
  have hforth := @Overtakes.instant_lt a b
  by_cases hover : Overtakes a b
  · have hlt := hforth hover
    have hnot : ¬Overtakes b a := fun h => by
      have := hback h
      omega
    simp [hover, hnot]
  · simp [hover, and_comm]

end DateTime

end Depot.Time
