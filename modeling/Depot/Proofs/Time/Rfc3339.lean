import Depot.Proofs.Text.Digits
import Depot.Proofs.Time.Calendar
import Depot.Time.Rfc3339
import Mathlib.Algebra.Ring.Nat

/-!
# Times read back

- `Printable`: a time whose year has a text, on a clock that is less than a day from UTC. That is what is read
  (`printable_of_ofChars?`).
- Such a time reads back from its text (`parse?_of_printable`): fractions lose no digit but zeros, and a leap second
  is the last nanosecond before it.
-/

namespace Depot.Time

theorem Date.of?_self (d : Date) : Date.of? d.year d.month d.day = some d := by
  rw [Date.of?, dif_pos d.year_mem, dif_pos d.month_mem, dif_pos d.day_mem]

theorem Date.year_of? {year : Int} {month day : Nat} {d : Date} (h : Date.of? year month day = some d) :
    d.year = year := by
  unfold Date.of? at h
  split at h
  · split at h
    · split at h
      · cases h
        rfl
      · cases h
    · cases h
  · cases h

theorem TimeOfDay.of?_self (t : TimeOfDay) : TimeOfDay.of? t.hour t.minute t.second t.nano = some t := by
  rw [TimeOfDay.of?, dif_pos ⟨t.hour_lt, t.minute_lt, t.second_lt, t.nano_lt⟩]

namespace Rfc3339

variable {n width value : Nat} {rest text : List Char} {t : DateTime} {c : Char} {offset : Int}

/-! ### Digits -/

theorem isDigit_digitChar (n : Nat) :
    (Nat.digitChar (n % 10)).isDigit ∧ (Nat.digitChar (n % 10)).toNat - 48 = n % 10 := by
  have hall : ∀ i : Fin 10, (Nat.digitChar i.val).isDigit ∧ (Nat.digitChar i.val).toNat - 48 = i.val := by decide
  exact hall ⟨n % 10, Nat.mod_lt _ (by decide)⟩

@[simp] theorem length_padded (width n : Nat) : (padded width n).length = width := by
  induction width generalizing n with
  | zero => rfl
  | succ width ih => rw [padded, List.length_append, ih, List.length_singleton]

theorem isDigit_of_mem_padded (h : c ∈ padded width n) : c.isDigit := by
  induction width generalizing n with
  | zero => cases h
  | succ width ih =>
    rcases List.mem_append.mp h with hfirst | hlast
    · exact ih hfirst
    · rw [List.mem_singleton.mp hlast]
      exact (isDigit_digitChar n).1

/-- The value of digits behind others. -/
def valueOf (value : Nat) (digits : List Char) : Nat := digits.foldl (fun n c => 10 * n + (c.toNat - 48)) value

theorem valueOf_padded (value width n : Nat) :
    valueOf value (padded width n) = value * 10 ^ width + n % 10 ^ width := by
  induction width generalizing n with
  | zero => simp [padded, valueOf, Nat.mod_one]
  | succ width ih =>
    have hlast := (isDigit_digitChar n).2
    have hfirst : (padded width (n / 10)).foldl (fun n c => 10 * n + (c.toNat - 48)) value =
        value * 10 ^ width + n / 10 % 10 ^ width := ih (n / 10)
    rw [padded, valueOf, List.foldl_append, hfirst, List.foldl_cons, List.foldl_nil, hlast, Nat.pow_succ', Nat.mod_mul,
      Nat.mul_left_comm value]
    omega

theorem digits?_of_digits (value : Nat) {digits : List Char} (h : ∀ c ∈ digits, c.isDigit) (rest : List Char) :
    digits? digits.length value (digits ++ rest) = some (valueOf value digits, rest) := by
  induction digits generalizing value with
  | nil => rfl
  | cons c digits ih =>
    rw [List.length_cons, List.cons_append, digits?, if_pos (h c List.mem_cons_self),
      ih _ fun d hd => h d (List.mem_cons_of_mem c hd)]
    rfl

theorem number?_padded (h : n < 10 ^ width) (rest : List Char) :
    number? width (padded width n ++ rest) = some (n, rest) := by
  have hdigits := digits?_of_digits 0 (fun c (hc : c ∈ padded width n) => isDigit_of_mem_padded hc) rest
  rwa [length_padded, valueOf_padded, Nat.zero_mul, Nat.zero_add, Nat.mod_eq_of_lt h] at hdigits

theorem expect?_cons (c : Char) (rest : List Char) : expect? c (c :: rest) = some rest := if_pos rfl

/-! ### Fractions and zones -/

/-- What a fraction or a zone may stand in front of. -/
def NoFraction (rest : List Char) : Prop := ∀ c ∈ rest.head?, c.isDigit = false ∧ c ≠ '.'

/-- The digits of a fraction. -/
def fractionDigits (nano : Nat) : List Char := ((padded 9 nano).reverse.dropWhile (· == '0')).reverse

theorem fractionDigits_append (nano : Nat) :
    padded 9 nano = fractionDigits nano ++ List.replicate (9 - (fractionDigits nano).length) '0' := by
  obtain ⟨zeros, hsplit, hzeros⟩ := Text.trailing_append (· == '0') (padded 9 nano)
  rw [← fractionDigits] at hsplit
  have hlength := congrArg List.length hsplit
  rw [length_padded, List.length_append] at hlength
  have hreplicate := List.eq_replicate_of_mem fun c hc => beq_iff_eq.mp (hzeros c hc)
  rwa [hreplicate, show zeros.length = 9 - (fractionDigits nano).length by omega] at hsplit

theorem isDigit_of_mem_fractionDigits {nano : Nat} (h : c ∈ fractionDigits nano) : c.isDigit := by
  have hmem : c ∈ padded 9 nano := by
    rw [fractionDigits_append]
    exact List.mem_append_left _ h
  exact isDigit_of_mem_padded hmem

theorem fractionDigits_ne_nil {nano : Nat} (hnano : nano < 10 ^ 9) (hne : nano ≠ 0) : fractionDigits nano ≠ [] := by
  intro hnil
  have hzeros := fractionDigits_append nano
  have hvalue := valueOf_padded 0 9 nano
  have hzero : valueOf 0 (List.replicate (9 - 0) '0') = 0 := by decide
  rw [hzeros, hnil, List.nil_append, List.length_nil, hzero, Nat.mod_eq_of_lt hnano] at hvalue
  omega

theorem fraction?_fraction {nano : Nat} (hnano : nano < 10 ^ 9) (hrest : NoFraction rest) :
    fraction? (fraction nano ++ rest) = some (nano, rest) := by
  rw [fraction]
  split
  · subst nano
    rw [List.nil_append]
    unfold fraction?
    split
    · exact absurd rfl (hrest '.' rfl).2
    · rfl
  · rename_i hne
    have hfraction : fraction? ('.' :: fractionDigits nano ++ rest) =
        some (valueOf 0 ((fractionDigits nano ++ List.replicate 9 '0').take 9), rest) := by
      obtain ⟨htake, hdrop⟩ := Text.leading_append (fun c => isDigit_of_mem_fractionDigits) fun c hc => (hrest c hc).1
      rw [List.cons_append, fraction?, htake, hdrop]
      have hnil := fractionDigits_ne_nil hnano hne
      split
      · exact absurd ‹_› hnil
      · rfl
    have hpadded : (fractionDigits nano ++ List.replicate 9 '0').take 9 = padded 9 nano := by
      have hlength := congrArg List.length (fractionDigits_append nano)
      rw [length_padded, List.length_append] at hlength
      rw [List.take_append, List.take_of_length_le (by omega), List.take_replicate, fractionDigits_append nano,
        Nat.min_eq_left (by omega)]
    rw [hpadded, valueOf_padded, Nat.zero_mul, Nat.zero_add, Nat.mod_eq_of_lt hnano] at hfraction
    exact hfraction

theorem zone?_zone (hoffset : offset.natAbs < 24 * 60) : zone? (zone offset) = some offset := by
  rw [zone]
  split
  · subst offset
    rfl
  · rename_i hne
    have hhours : offset.natAbs / 60 < 10 ^ 2 := by omega
    have hminutes : offset.natAbs % 60 < 10 ^ 2 := by omega
    have hback : ∀ sign : Char, sign = '+' ∨ sign = '-' →
        zone? (sign :: padded 2 (offset.natAbs / 60) ++ ':' :: padded 2 (offset.natAbs % 60)) =
          if sign = '+' then some (offset.natAbs : Int) else some (-(offset.natAbs : Int)) := by
      intro sign hsign
      have hlast := number?_padded hminutes []
      rw [List.append_nil] at hlast
      rw [List.cons_append, zone?.eq_def]
      split
      · simp [padded] at *
      · simp [padded] at *
      · rename_i first behind hsplit
        obtain ⟨rfl, rfl⟩ := List.cons.inj hsplit
        simp only [number?_padded hhours, Option.bind_eq_bind, Option.bind_some, expect?, if_true, hlast,
          List.isEmpty_nil, true_and]
        rw [if_pos (by omega)]
        rcases hsign with rfl | rfl
        · rw [if_pos rfl, if_pos rfl]
          congr 1
          omega
        · rw [if_neg (by decide), if_pos rfl, if_neg (by decide)]
          congr 1
          omega
      · simp at *
    split
    · rw [hback '-' (.inr rfl), if_neg (by decide)]
      congr 1
      omega
    · rw [hback '+' (.inl rfl), if_pos rfl]
      congr 1
      omega

theorem noFraction_zone (offset : Int) : NoFraction (zone offset) := by
  intro c hc
  rw [zone] at hc
  split at hc
  · cases hc
    decide
  · split at hc <;>
    · cases hc
      decide

theorem natAbs_lt_of_zone? (h : zone? text = some offset) : offset.natAbs < 24 * 60 := by
  rw [zone?.eq_def] at h
  split at h
  · cases h
    decide
  · cases h
    decide
  · simp only [Option.bind_eq_bind, Option.bind_eq_some_iff] at h
    obtain ⟨⟨hours, _⟩, _, _, _, ⟨minutes, _⟩, _, h⟩ := h
    dsimp only at h
    split at h
    · split at h
      · cases h
        omega
      · split at h
        · cases h
          omega
        · cases h
    · cases h
  · cases h

/-! ### Times -/

/-- A time whose year has a text, on a clock that is less than a day from UTC. -/
structure Printable (t : DateTime) : Prop where
  year : 0 ≤ t.date.year
  offset : t.offset.natAbs < 24 * 60

theorem printable_of_ofChars? (h : ofChars? text = some t) : Printable t := by
  -- each part read is one step of a chain
  obtain ⟨⟨year, _⟩, _, h⟩ := Option.bind_eq_some_iff.mp h
  obtain ⟨_, _, h⟩ := Option.bind_eq_some_iff.mp h
  obtain ⟨⟨month, _⟩, _, h⟩ := Option.bind_eq_some_iff.mp h
  obtain ⟨_, _, h⟩ := Option.bind_eq_some_iff.mp h
  obtain ⟨⟨day, _⟩, _, h⟩ := Option.bind_eq_some_iff.mp h
  obtain ⟨_, _, h⟩ := Option.bind_eq_some_iff.mp h
  obtain ⟨_, _, h⟩ := Option.bind_eq_some_iff.mp h
  obtain ⟨⟨hour, _⟩, _, h⟩ := Option.bind_eq_some_iff.mp h
  obtain ⟨_, _, h⟩ := Option.bind_eq_some_iff.mp h
  obtain ⟨⟨minute, _⟩, _, h⟩ := Option.bind_eq_some_iff.mp h
  obtain ⟨_, _, h⟩ := Option.bind_eq_some_iff.mp h
  obtain ⟨⟨second, _⟩, _, h⟩ := Option.bind_eq_some_iff.mp h
  obtain ⟨⟨nano, _⟩, _, h⟩ := Option.bind_eq_some_iff.mp h
  obtain ⟨offset, hoffset, h⟩ := Option.bind_eq_some_iff.mp h
  obtain ⟨date, hdate, h⟩ := Option.bind_eq_some_iff.mp h
  have hyear : 0 ≤ date.year := by
    rw [Date.year_of? hdate]
    exact Int.natCast_nonneg _
  dsimp only at h
  split at h
  · obtain ⟨time, _, h⟩ := Option.bind_eq_some_iff.mp h
    split at h
    · cases h
      exact ⟨hyear, natAbs_lt_of_zone? hoffset⟩
    · cases h
  · obtain ⟨time, _, h⟩ := Option.bind_eq_some_iff.mp h
    cases h
    exact ⟨hyear, natAbs_lt_of_zone? hoffset⟩

theorem ofChars?_text (ht : Printable t) :
    ofChars? (padded 4 t.date.year.toNat ++ '-' :: padded 2 t.date.month ++
      '-' :: padded 2 t.date.day ++ 'T' :: padded 2 t.time.hour ++ ':' :: padded 2 t.time.minute ++
      ':' :: padded 2 t.time.second ++ fraction t.time.nano ++ zone t.offset) = some t := by
  have hyear : t.date.year.toNat < 10 ^ 4 := by
    have := t.date.year_mem
    omega
  have hmonth : t.date.month < 10 ^ 2 := by
    have := t.date.month_mem
    omega
  have hday : t.date.day < 10 ^ 2 := by
    have := t.date.day_le
    omega
  have hhour : t.time.hour < 10 ^ 2 := Nat.lt_trans t.time.hour_lt (by decide)
  have hminute : t.time.minute < 10 ^ 2 := Nat.lt_trans t.time.minute_lt (by decide)
  have hsecond : t.time.second < 10 ^ 2 := Nat.lt_trans t.time.second_lt (by decide)
  have hdate : Date.of? (t.date.year.toNat : Int) t.date.month t.date.day = some t.date := by
    rw [Int.toNat_of_nonneg ht.year, Date.of?_self]
  simp only [List.append_assoc, List.cons_append]
  refine Option.bind_eq_some_iff.mpr ⟨_, number?_padded hyear _, ?_⟩
  refine Option.bind_eq_some_iff.mpr ⟨_, expect?_cons _ _, ?_⟩
  refine Option.bind_eq_some_iff.mpr ⟨_, number?_padded hmonth _, ?_⟩
  refine Option.bind_eq_some_iff.mpr ⟨_, expect?_cons _ _, ?_⟩
  refine Option.bind_eq_some_iff.mpr ⟨_, number?_padded hday _, ?_⟩
  refine Option.bind_eq_some_iff.mpr ⟨_, rfl, ?_⟩
  refine Option.bind_eq_some_iff.mpr ⟨_, rfl, ?_⟩
  refine Option.bind_eq_some_iff.mpr ⟨_, number?_padded hhour _, ?_⟩
  refine Option.bind_eq_some_iff.mpr ⟨_, expect?_cons _ _, ?_⟩
  refine Option.bind_eq_some_iff.mpr ⟨_, number?_padded hminute _, ?_⟩
  refine Option.bind_eq_some_iff.mpr ⟨_, expect?_cons _ _, ?_⟩
  refine Option.bind_eq_some_iff.mpr ⟨_, number?_padded hsecond _, ?_⟩
  refine Option.bind_eq_some_iff.mpr ⟨_, fraction?_fraction t.time.nano_lt (noFraction_zone _), ?_⟩
  refine Option.bind_eq_some_iff.mpr ⟨_, zone?_zone ht.offset, ?_⟩
  refine Option.bind_eq_some_iff.mpr ⟨_, hdate, ?_⟩
  dsimp only
  rw [if_neg (Nat.ne_of_lt t.time.second_lt), TimeOfDay.of?_self]
  rfl

theorem parse?_of_printable (ht : Printable t) : ∃ text, render? t = some text ∧ parse? text = some t := by
  refine ⟨_, if_neg (Int.not_lt.mpr ht.year), ?_⟩
  rw [parse?, String.toList_ofList]
  exact ofChars?_text ht

/-- **What is read as a time and written reads back as the same time.** -/
theorem parse?_again {text : String} (h : parse? text = some t) :
    ∃ again, render? t = some again ∧ parse? again = some t := parse?_of_printable (printable_of_ofChars? h)

end Rfc3339

end Depot.Time
