import Depot.Proofs.Text.Digits
import Depot.Text.Decimal
import Depot.Text.Percent

/-!
# Plain texts

A text of ASCII characters without escapes is what it stands for: encoding, decoding and repairing leave it as it
is. The digits of a number read back as the number.
-/

namespace Depot.Text

variable {chars : List Char}

theorem mem_asciiBytes (h : ∀ c ∈ chars, c.toNat < 128) {d : Char} (hd : d.toNat < 128) :
    d.toNat.toUInt8 ∈ asciiBytes chars ↔ d ∈ chars := by
  refine ⟨fun hmem => ?_, fun hmem => List.mem_map.mpr ⟨d, hmem, rfl⟩⟩
  obtain ⟨c, hc, heq⟩ := List.mem_map.mp hmem
  have hsame := congrArg (fun b : UInt8 => Char.ofNat b.toNat) heq
  simp only [ofNat_toNat_toUInt8 (h c hc), ofNat_toNat_toUInt8 hd] at hsame
  exact hsame ▸ hc

theorem asciiBytes_lt (h : ∀ c ∈ chars, c.toNat < 128) {b : UInt8} (hb : b ∈ asciiBytes chars) : b < 128 := by
  obtain ⟨c, hc, rfl⟩ := List.mem_map.mp hb
  have := h c hc
  rw [UInt8.lt_iff_toNat_lt]
  simp only [Nat.toUInt8, UInt8.toNat_ofNat', UInt8.reduceToNat]
  omega

/-! ### Escapes -/

theorem encode_of_plain {plain : UInt8 → Bool} (h : ∀ c ∈ chars, c.toNat < 128 ∧ plain c.toNat.toUInt8) :
    Percent.encode plain (String.ofList chars) = String.ofList chars := by
  rw [Percent.encode, utf8_ofList fun c hc => (h c hc).1]
  congr 1
  induction chars with
  | nil => rfl
  | cons c rest ih =>
    obtain ⟨hascii, hplain⟩ := h c List.mem_cons_self
    rw [asciiBytes, List.map_cons, List.flatMap_cons, Percent.byte, if_pos hplain, ofNat_toNat_toUInt8 hascii]
    exact congrArg (c :: ·) (ih fun d hd => h d (List.mem_cons_of_mem c hd))

theorem decode_of_not_mem {bytes : List UInt8} (h : 37 ∉ bytes) : Percent.decode bytes = bytes := by
  induction bytes with
  | nil => rfl
  | cons b rest ih =>
    rw [List.mem_cons, not_or] at h
    rw [Percent.decode.eq_def]
    simp only [if_neg (Ne.symm h.1), ih h.2]

/-! ### Repair -/

theorem repair_of_ascii {fuel : Nat} {bytes : List UInt8} (hfuel : bytes.length ≤ fuel) (h : ∀ b ∈ bytes, b < 128) :
    Utf8.repair fuel bytes = bytes := by
  induction fuel generalizing bytes with
  | zero => rw [List.eq_nil_of_length_eq_zero (Nat.le_zero.mp hfuel), Utf8.repair]
  | succ fuel ih =>
    cases bytes with
    | nil => rfl
    | cons b rest =>
      have hfollowers : Utf8.followers? b = some [] := by
        rw [Utf8.followers?, if_pos (h b List.mem_cons_self)]
      rw [List.length_cons] at hfuel
      rw [Utf8.repair, hfollowers]
      simp only [Utf8.tailFault?, List.length_nil, List.take_zero, List.drop_zero, List.nil_append, List.cons_append,
        ih (Nat.le_of_succ_le_succ hfuel) fun c hc => h c (List.mem_cons_of_mem b hc)]

theorem lossy_ofList (h : ∀ c ∈ chars, c.toNat < 128) :
    Utf8.lossy (asciiBytes chars) = String.ofList chars := by
  rw [Utf8.lossy, repair_of_ascii (Nat.le_refl _) fun b => asciiBytes_lt h, ← utf8_ofList h, ofUtf8?_utf8]
  rfl

/-! ### Separators -/

theorem not_mem_of_mem_splitOn {α : Type} [BEq α] [LawfulBEq α] {a : α} {xs piece : List α}
    (h : piece ∈ xs.splitOn a) : a ∉ piece := by
  induction xs generalizing piece with
  | nil =>
    rw [List.mem_singleton.mp h]
    exact List.not_mem_nil
  | cons x rest ih =>
    rw [List.splitOn_cons_eq_if_modifyHead] at h
    split at h
    · rcases List.mem_cons.mp h with rfl | h
      · exact List.not_mem_nil
      · exact ih h
    · rename_i hne
      obtain ⟨first, more, hpieces⟩ := List.exists_cons_of_ne_nil (List.splitOn_ne_nil a rest)
      rw [hpieces, List.modifyHead_cons] at h
      rw [hpieces] at ih
      rcases List.mem_cons.mp h with rfl | h
      · have hx : a ≠ x := fun heq => hne (beq_iff_eq.mpr heq.symm)
        exact List.not_mem_cons_of_ne_of_not_mem hx (ih List.mem_cons_self)
      · exact ih (List.mem_cons_of_mem _ h)

theorem exists_mem_splitOn_iff {α : Type} [BEq α] [LawfulBEq α] {a b : α} (hne : b ≠ a) {xs : List α} :
    (∃ piece ∈ xs.splitOn a, b ∈ piece) ↔ b ∈ xs := by
  induction xs with
  | nil => simp
  | cons x rest ih =>
    rw [List.splitOn_cons_eq_if_modifyHead, List.mem_cons, ← ih]
    split
    · rename_i heq
      simp [beq_iff_eq.mp heq, hne]
    · obtain ⟨first, more, hpieces⟩ := List.exists_cons_of_ne_nil (List.splitOn_ne_nil a rest)
      simp [hpieces, or_assoc]

/-! ### Numbers -/

namespace Decimal

theorem value?_of_digits (high : Nat) (h : ∀ c ∈ chars, c.isDigit) :
    value? high chars = some (Nat.ofDigitChars 10 chars high) := by
  induction chars generalizing high with
  | nil => rfl
  | cons c rest ih =>
    rw [value?, if_pos (h c List.mem_cons_self), ih _ fun d hd => h d (List.mem_cons_of_mem c hd),
      Nat.ofDigitChars_cons]

theorem isDigit_of_mem_repr {n : Nat} {c : Char} (hc : c ∈ n.repr.toList) : c.isDigit := by
  rw [Nat.toList_repr] at hc
  exact Nat.isDigit_of_mem_toDigits (by decide) (by decide) hc

theorem natural?_repr (n : Nat) : natural? n.repr.toList = some n := by
  rw [natural?, if_neg (by simp), value?_of_digits 0 fun c => isDigit_of_mem_repr, Nat.toList_repr,
    Nat.ofDigitChars_ten_toDigits]

theorem mem_repr_int {n : Int} {c : Char} (hc : c ∈ (toString n).toList) : c.isDigit ∨ c = '-' := by
  cases n with
  | ofNat n => exact .inl (isDigit_of_mem_repr hc)
  | negSucc n =>
    rw [show toString (Int.negSucc n) = "-" ++ (n + 1).repr from rfl, String.toList_append] at hc
    rcases List.mem_append.mp hc with hsign | hdigit
    · exact .inr (by simpa using hsign)
    · exact .inl (isDigit_of_mem_repr hdigit)

theorem integer?_toString {low high n : Int} (hlow : low ≤ n) (hhigh : n ≤ high) :
    integer? low high (toString n) = some n := by
  cases n with
  | ofNat n =>
    have hdigits : ∀ c ∈ (toString (Int.ofNat n)).toList, c.isDigit := fun c hc => isDigit_of_mem_repr hc
    have hvalue : natural? (toString (Int.ofNat n)).toList = some n := natural?_repr n
    rw [integer?]
    split
    · rename_i digits heq
      exact absurd (hdigits '-' (heq ▸ List.mem_cons_self)) (by decide)
    · rename_i digits heq
      exact absurd (hdigits '+' (heq ▸ List.mem_cons_self)) (by decide)
    · simp only [hvalue, Option.map_some, Option.bind_eq_bind, Option.bind_some]
      exact if_pos ⟨hlow, hhigh⟩
  | negSucc n =>
    have hchars : (toString (Int.negSucc n)).toList = '-' :: (n + 1).repr.toList := by
      rw [show toString (Int.negSucc n) = "-" ++ (n + 1).repr from rfl, String.toList_append]
      rfl
    rw [integer?, hchars]
    simp only [natural?_repr, Option.bind_eq_bind, Option.bind_some]
    exact if_pos ⟨hlow, hhigh⟩

theorem int64?_toString {n : Int} (h : Int64.minValue.toInt ≤ n ∧ n ≤ Int64.maxValue.toInt) :
    int64? (toString n) = some n := integer?_toString h.1 h.2

end Decimal

end Depot.Text
