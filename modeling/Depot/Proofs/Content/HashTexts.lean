import Depot.Proofs.Content.Spelling

/-!
# Texts that are read as hashes

A text is read two characters at a time, and the first character of a pair may be a plus sign, which counts as a
zero. All else that is read are digits in either letter case.

- `IsSpelling`: the texts that are read, said without reading them; `lowered` is what their hash is written as.
- `ReadsHashes`: what it means that a reader goes by these rules for a text and a hash. Without a plus sign they say
  that a text is read if it has 64 digits, and that it is what is written but for the letter case.
- **`spellings`**: all readers of hashes go by them.
-/

namespace Depot.Text

/-! ### Bytes of ASCII characters -/

theorem exists_byte_of_le {c : Char} (h : 128 ≤ c.toNat) : ∃ b ∈ String.utf8EncodeChar c, 128 ≤ b.toNat := by
  have hvalue : 128 ≤ c.val.toNat := h
  have hvalid : c.val.toNat < 0x110000 := by
    have := c.valid
    simp only [UInt32.isValidChar, Nat.isValidChar] at this
    omega
  simp only [String.utf8EncodeChar]
  split
  · omega
  · split
    · refine ⟨_, List.mem_cons_self, ?_⟩
      simp only [UInt8.toNat_ofNat']
      omega
    · split
      · refine ⟨_, List.mem_cons_self, ?_⟩
        simp only [UInt8.toNat_ofNat']
        omega
      · refine ⟨_, List.mem_cons_self, ?_⟩
        simp only [UInt8.toNat_ofNat']
        omega

theorem ascii_of_utf8 {s : String} (h : ∀ b ∈ utf8 s, b.toNat < 128) : ∀ c ∈ s.toList, c.toNat < 128 := by
  intro c hc
  apply Decidable.byContradiction
  intro hlarge
  obtain ⟨b, hb, hbyte⟩ := exists_byte_of_le (Nat.le_of_not_lt hlarge)
  have hsmall := h b (List.mem_flatMap.mpr ⟨c, hc, hb⟩)
  omega

/-! ### Digits in either letter case -/

namespace Hex

/-- A digit in either letter case. -/
def IsDigit (c : Char) : Prop := c ∈ "0123456789abcdefABCDEF".toList

instance (c : Char) : Decidable (IsDigit c) := inferInstanceAs (Decidable (_ ∈ _))

theorem IsDigit.toNat_lt {c : Char} (h : IsDigit c) : c.toNat < 128 := by
  have hall : ("0123456789abcdefABCDEF".toList.all fun c => decide (c.toNat < 128)) = true := by decide
  exact of_decide_eq_true (List.all_eq_true.mp hall c h)

theorem exists_ofNat_eq {c : Char} (hc : c.toNat < 128) : ∃ i : Fin 128, Char.ofNat i = c :=
  ⟨⟨c.toNat, hc⟩, Char.ofNat_toNat c⟩

theorem isSome_digit? {c : Char} (hc : c.toNat < 128) : (digit? c).isSome ↔ IsDigit c := by
  have hall : ∀ i : Fin 128, (digit? (Char.ofNat i)).isSome ↔ IsDigit (Char.ofNat i) := by decide +kernel
  obtain ⟨i, rfl⟩ := exists_ofNat_eq hc
  exact hall i

theorem isDigit_of_toLower {c : Char} (h : c.toLower ∈ alphabet) : IsDigit c := by
  have hc : c.toNat < 128 := by
    unfold Char.toLower at h
    split at h
    · rename_i hupper
      exact Nat.lt_of_le_of_lt (UInt32.le_iff_toNat_le.mp hupper.2) (by decide)
    · exact toNat_lt_of_mem_alphabet h
  have hall : ∀ i : Fin 128, (Char.ofNat i).toLower ∈ alphabet → IsDigit (Char.ofNat i) := by decide +kernel
  obtain ⟨i, rfl⟩ := exists_ofNat_eq hc
  exact hall i h

theorem byte_eq_iff {value : UInt8} {high low : Nat} (hhigh : high < 16) (hlow : low < 16) :
    byte value = [digit high, digit low] ↔ (16 * high + low).toUInt8 = value := by
  have hvalue := value.toNat_lt
  rw [← UInt8.toNat_inj, Nat.toUInt8, UInt8.toNat_ofNat', Nat.mod_eq_of_lt (by omega)]
  constructor
  · intro h
    obtain ⟨hfirst, hsecond⟩ : digit (value.toNat / 16) = digit high ∧ digit (value.toNat % 16) = digit low := by
      simpa [byte] using h
    have hfirst := digit_injective (by omega) hhigh hfirst
    have hsecond := digit_injective (by omega) hlow hsecond
    omega
  · intro h
    rw [byte, show value.toNat / 16 = high by omega, show value.toNat % 16 = low by omega]

end Hex

end Depot.Text

namespace Depot.Content

open Text

/-- Digits in either letter case, but in place of the first digit of a pair there may be a plus sign. -/
def InPairs (chars : List Char) : Prop := ∀ i c, chars[i]? = some c → Hex.IsDigit c ∨ c = '+' ∧ i % 2 = 0

/-- The texts that are read as hashes. -/
structure IsSpelling (text : String) : Prop where
  length : text.toList.length = 64
  digits : InPairs text.toList

/-- The character that is written for one that is read. -/
def loweredChar (c : Char) : Char := if c = '+' then '0' else c.toLower

/-- A text in lower case, with a zero for each plus sign. -/
def lowered (text : String) : String := String.ofList (text.toList.map loweredChar)

variable {text : String} {a b : Char} {value : UInt8} {values : List UInt8} {chars : List Char} {h : Hash}

/-! ### Pairs -/

theorem exists_digit (ha : Hex.IsDigit a) :
    ∃ digit < 16, Hex.digit? a = some digit ∧ loweredChar a = Hex.digit digit := by
  have hall : ∀ i : Fin 128, Hex.IsDigit (Char.ofNat i) →
      ∃ digit : Fin 16, Hex.digit? (Char.ofNat i) = some digit.val ∧
        loweredChar (Char.ofNat i) = Hex.digit digit := by decide +kernel
  obtain ⟨i, rfl⟩ := Hex.exists_ofNat_eq ha.toNat_lt
  obtain ⟨digit, hvalue, hlowered⟩ := hall i ha
  exact ⟨digit, digit.isLt, hvalue, hlowered⟩

theorem pair?_eq_some_iff (ha : a.toNat < 128) (hb : b.toNat < 128) :
    Hash.pair? a.toNat.toUInt8 b.toNat.toUInt8 = some value ↔
      (Hex.IsDigit a ∨ a = '+') ∧ Hex.IsDigit b ∧ Hex.byte value = [loweredChar a, loweredChar b] := by
  have hsmall : ∀ {c : Char}, c.toNat < 128 → c.toNat.toUInt8 < 128 := by
    intro c hc
    rw [UInt8.lt_iff_toNat_lt, Nat.toUInt8, UInt8.toNat_ofNat', Nat.mod_eq_of_lt (by omega)]
    exact hc
  have hplus : a.toNat.toUInt8 = 43 ↔ a = '+' := by
    constructor
    · intro heq
      rw [← ofNat_toNat_toUInt8 ha, heq]
      rfl
    · rintro rfl
      rfl
  simp only [Hash.pair?, beq_iff_eq, if_pos (hsmall ha), if_pos (hsmall hb), ofNat_toNat_toUInt8 ha,
    ofNat_toNat_toUInt8 hb, hplus]
  by_cases hdigit : Hex.IsDigit b
  · obtain ⟨low, hlow, hvalue, hwritten⟩ := exists_digit hdigit
    rw [hvalue, hwritten]
    by_cases hsign : a = '+'
    · rw [if_pos hsign, hsign, show loweredChar '+' = Hex.digit 0 from rfl, Hex.byte_eq_iff (by decide) hlow]
      simp [hdigit]
    · rw [if_neg hsign]
      by_cases hother : Hex.IsDigit a
      · obtain ⟨high, hhigh, hfirst, hfirstWritten⟩ := exists_digit hother
        rw [hfirst, hfirstWritten, Hex.byte_eq_iff hhigh hlow]
        simp [hother, hdigit]
      · have hnone : Hex.digit? a = none := by
          rw [← Option.not_isSome_iff_eq_none, Hex.isSome_digit? ha]
          exact hother
        simp [hnone, hother, hsign]
  · have hnone : Hex.digit? b = none := by
      rw [← Option.not_isSome_iff_eq_none, Hex.isSome_digit? hb]
      exact hdigit
    rw [hnone]
    cases Hex.digit? a <;> simp [hdigit]

theorem inPairs_cons_cons : InPairs (a :: b :: chars) ↔ (Hex.IsDigit a ∨ a = '+') ∧ Hex.IsDigit b ∧ InPairs chars := by
  constructor
  · intro hpairs
    refine ⟨?_, ?_, fun i c hc => ?_⟩
    · have hfirst := hpairs 0 a rfl
      simpa using hfirst
    · have hsecond := hpairs 1 b rfl
      simpa using hsecond
    · have hrest := hpairs (i + 2) c (by simpa using hc)
      rwa [Nat.add_mod_right] at hrest
  · rintro ⟨ha, hb, hrest⟩ i c hc
    match i, hc with
    | 0, hc =>
      cases hc
      simpa using ha
    | 1, hc =>
      cases hc
      exact .inl hb
    | i + 2, hc => rw [Nat.add_mod_right]; exact hrest i c (by simpa using hc)

theorem InPairs.toNat_lt (hpairs : InPairs chars) : ∀ c ∈ chars, c.toNat < 128 := by
  intro c hc
  obtain ⟨i, hi⟩ := List.mem_iff_getElem?.mp hc
  rcases hpairs i c hi with hdigit | ⟨rfl, _⟩
  · exact hdigit.toNat_lt
  · decide

theorem firstFault?_ascii {x y : UInt8} (hx : x < 128) (hy : y < 128) : Utf8.firstFault? [x, y] = none := by
  simp [Utf8.firstFault?, Utf8.faultFrom?, Utf8.followers?, hx, hy, Utf8.tailFault?]

theorem lt_of_pair? {x y : UInt8} (hread : Hash.pair? x y = some value) : x < 128 ∧ y < 128 := by
  have hdigit : ∀ {z : UInt8} {digit : Nat},
      (if z < 128 then Hex.digit? (Char.ofNat z.toNat) else none) = some digit → z < 128 := by
    intro z digit hz
    split at hz
    · assumption
    · cases hz
  unfold Hash.pair? at hread
  dsimp only at hread
  split at hread
  · rename_i hplus
    obtain ⟨low, hlow, _⟩ := Option.map_eq_some_iff.mp hread
    exact ⟨by rw [beq_iff_eq.mp hplus]; decide, hdigit hlow⟩
  · obtain ⟨high, hhigh, hread⟩ := Option.bind_eq_some_iff.mp hread
    obtain ⟨low, hlow, _⟩ := Option.bind_eq_some_iff.mp hread
    exact ⟨hdigit hhigh, hdigit hlow⟩

/-! ### All pairs -/

theorem pairs_cons_cons {x y : UInt8} {rest : List UInt8} :
    Hash.pairs text (x :: y :: rest) = .ok values ↔
      ∃ value more, Hash.pair? x y = some value ∧ Hash.pairs text rest = .ok more ∧ values = value :: more := by
  constructor
  · intro hread
    rw [Hash.pairs] at hread
    split at hread
    · cases hread
    · split at hread
      · cases hread
      · rename_i value hvalue
        cases hmore : Hash.pairs text rest with
        | error e =>
          rw [hmore] at hread
          cases hread
        | ok more =>
          rw [hmore] at hread
          cases hread
          exact ⟨value, more, hvalue, rfl, rfl⟩
  · rintro ⟨value, more, hvalue, hmore, rfl⟩
    obtain ⟨hx, hy⟩ := lt_of_pair? hvalue
    rw [Hash.pairs, firstFault?_ascii hx hy]
    dsimp only
    rw [hvalue, hmore]
    rfl

theorem ascii_of_pairs : ∀ {raw values : List UInt8}, Hash.pairs text raw = .ok values → raw.length % 2 = 0 →
    ∀ b ∈ raw, b.toNat < 128
  | [], _, _, _ => by simp
  | [_], _, _, heven => by simp at heven
  | x :: y :: rest, values, hread, heven => by
    obtain ⟨value, more, hvalue, hmore, rfl⟩ := pairs_cons_cons.mp hread
    obtain ⟨hx, hy⟩ := lt_of_pair? hvalue
    have heven : rest.length % 2 = 0 := by
      rw [List.length_cons, List.length_cons] at heven
      omega
    exact List.forall_mem_cons.mpr ⟨hx, List.forall_mem_cons.mpr ⟨hy, ascii_of_pairs hmore heven⟩⟩

theorem length_of_pairs : ∀ {raw values : List UInt8}, Hash.pairs text raw = .ok values → raw.length % 2 = 0 →
    raw.length = 2 * values.length
  | [], _, hread, _ => by
    cases hread
    rfl
  | [_], _, _, heven => by simp at heven
  | x :: y :: rest, values, hread, heven => by
    obtain ⟨value, more, _, hmore, rfl⟩ := pairs_cons_cons.mp hread
    rw [List.length_cons, List.length_cons] at heven
    have hrest := length_of_pairs hmore (by omega)
    rw [List.length_cons, List.length_cons, List.length_cons]
    omega

/-- ASCII characters are read if they are pairs, and what is read is written as they are in lower case. -/
theorem pairs_eq_ok_iff : ∀ {chars : List Char} {values : List UInt8}, (∀ c ∈ chars, c.toNat < 128) →
    chars.length % 2 = 0 → (Hash.pairs text (asciiBytes chars) = .ok values ↔
      InPairs chars ∧ values.flatMap Hex.byte = chars.map loweredChar)
  | [], values, _, _ => by
    cases values with
    | nil => simp [asciiBytes, Hash.pairs, InPairs]
    | cons value more => simp [asciiBytes, Hash.pairs, Hex.byte]
  | [_], _, _, heven => by simp at heven
  | a :: b :: rest, values, hascii, heven => by
    obtain ⟨ha, hb, hrest⟩ : a.toNat < 128 ∧ b.toNat < 128 ∧ ∀ c ∈ rest, c.toNat < 128 := by simpa using hascii
    have heven : rest.length % 2 = 0 := by
      rw [List.length_cons, List.length_cons] at heven
      omega
    rw [show asciiBytes (a :: b :: rest) = a.toNat.toUInt8 :: b.toNat.toUInt8 :: asciiBytes rest from rfl,
      pairs_cons_cons, inPairs_cons_cons]
    constructor
    · rintro ⟨value, more, hvalue, hmore, rfl⟩
      obtain ⟨hfirst, hsecond, hbyte⟩ := (pair?_eq_some_iff ha hb).mp hvalue
      obtain ⟨hpairs, hmap⟩ := (pairs_eq_ok_iff hrest heven).mp hmore
      refine ⟨⟨hfirst, hsecond, hpairs⟩, ?_⟩
      rw [List.flatMap_cons, hbyte, hmap]
      rfl
    · rintro ⟨⟨hfirst, hsecond, hpairs⟩, hmap⟩
      cases values with
      | nil => cases hmap
      | cons value more =>
        obtain ⟨hhigh, hlow, hmore⟩ : Hex.digit (value.toNat / 16) = loweredChar a ∧
            Hex.digit (value.toNat % 16) = loweredChar b ∧ more.flatMap Hex.byte = rest.map loweredChar := by
          simpa [Hex.byte] using hmap
        refine ⟨value, more, (pair?_eq_some_iff ha hb).mpr ⟨hfirst, hsecond, ?_⟩,
          (pairs_eq_ok_iff hrest heven).mpr ⟨hpairs, hmore⟩, rfl⟩
        rw [Hex.byte, hhigh, hlow]

/-! ### Whole texts -/

theorem length_flatMap_byte (values : List UInt8) : (values.flatMap Hex.byte).length = 2 * values.length := by
  have hlength := Hex.length_encode values
  rwa [Hex.encode, String.toList_ofList] at hlength

theorem utf8_of_ascii (hascii : ∀ c ∈ text.toList, c.toNat < 128) : utf8 text = asciiBytes text.toList := by
  have hbytes := utf8_ofList hascii
  rwa [String.ofList_toList] at hbytes

theorem toList_ofFn_getD (hlength : values.length = 32) :
    (Vector.ofFn fun i : Fin 32 => values.getD i.val 0).toList = values := by
  rw [Vector.toList_ofFn]
  apply List.ext_getElem
  · rw [List.length_ofFn, hlength]
  · intro i _ hi
    rw [List.getElem_ofFn, List.getD_eq_getElem?_getD, List.getElem?_eq_getElem hi, Option.getD_some]

theorem parse_eq_ok_iff_pairs :
    Hash.parse text = .ok h ↔ (utf8 text).length = 64 ∧ Hash.pairs text (utf8 text) = .ok h.bytes.toList := by
  simp only [Hash.parse]
  by_cases hlength : (utf8 text).length = 64
  · rw [if_neg (by simp [hlength])]
    constructor
    · intro hparse
      cases hpairs : Hash.pairs text (utf8 text) with
      | error e =>
        rw [hpairs] at hparse
        cases hparse
      | ok values =>
        have hsize := length_of_pairs hpairs (by rw [hlength])
        rw [hpairs, map_ok] at hparse
        rw [← Except.ok.inj hparse, toList_ofFn_getD (by omega)]
        exact ⟨hlength, rfl⟩
    · rintro ⟨_, hpairs⟩
      have hbytes := Vector.toList_inj.mp (toList_ofFn_getD (@Vector.length_toList _ _ h.bytes))
      rw [hpairs, map_ok, hbytes]
  · rw [if_pos hlength]
    exact ⟨fun hread => (error_ne_ok hread).elim, fun hread => absurd hread.1 hlength⟩

theorem hex_eq_lowered_iff :
    h.hex = lowered text ↔ h.bytes.toList.flatMap Hex.byte = text.toList.map loweredChar := String.ofList_inj

/-- A text is read as a hash if it is a spelling, and the hash is written as the text in lower case. -/
theorem parse_eq_ok_iff : Hash.parse text = .ok h ↔ IsSpelling text ∧ h.hex = lowered text := by
  rw [parse_eq_ok_iff_pairs, hex_eq_lowered_iff]
  constructor
  · rintro ⟨hlength, hpairs⟩
    have hascii := ascii_of_utf8 (ascii_of_pairs hpairs (by rw [hlength]))
    rw [utf8_of_ascii hascii] at hlength hpairs
    have hsize : text.toList.length = 64 := by simpa [asciiBytes] using hlength
    obtain ⟨hdigits, hmap⟩ := (pairs_eq_ok_iff hascii (by rw [hsize])).mp hpairs
    exact ⟨⟨hsize, hdigits⟩, hmap⟩
  · rintro ⟨hspelling, hmap⟩
    have hascii := hspelling.digits.toNat_lt
    rw [utf8_of_ascii hascii, asciiBytes, List.length_map, hspelling.length]
    exact ⟨rfl, (pairs_eq_ok_iff hascii (by rw [hspelling.length])).mpr ⟨hspelling.digits, hmap⟩⟩

theorem exists_bytes : ∀ {chars : List Char}, InPairs chars → chars.length % 2 = 0 →
    ∃ values : List UInt8, values.flatMap Hex.byte = chars.map loweredChar
  | [], _, _ => ⟨[], rfl⟩
  | [_], _, heven => by simp at heven
  | a :: b :: rest, hpairs, heven => by
    obtain ⟨ha, hb, hrest⟩ := inPairs_cons_cons.mp hpairs
    have heven : rest.length % 2 = 0 := by
      rw [List.length_cons, List.length_cons] at heven
      omega
    obtain ⟨more, hmore⟩ := exists_bytes hrest heven
    obtain ⟨high, hhigh, hfirst⟩ : ∃ high < 16, loweredChar a = Hex.digit high := by
      rcases ha with hdigit | rfl
      · obtain ⟨high, hhigh, _, hwritten⟩ := exists_digit hdigit
        exact ⟨high, hhigh, hwritten⟩
      · exact ⟨0, by decide, rfl⟩
    obtain ⟨low, hlow, _, hsecond⟩ := exists_digit hb
    refine ⟨(16 * high + low).toUInt8 :: more, ?_⟩
    rw [List.flatMap_cons, (Hex.byte_eq_iff hhigh hlow).mpr rfl, hmore, ← hfirst, ← hsecond]
    rfl

theorem IsSpelling.exists_parse (hspelling : IsSpelling text) : ∃ h, Hash.parse text = .ok h := by
  obtain ⟨values, hvalues⟩ := exists_bytes hspelling.digits (by rw [hspelling.length])
  have hlength : values.length = 32 := by
    have hboth := congrArg List.length hvalues
    rw [length_flatMap_byte, List.length_map, hspelling.length] at hboth
    omega
  refine ⟨⟨Vector.ofFn fun i : Fin 32 => values.getD i.val 0⟩, parse_eq_ok_iff.mpr ⟨hspelling, ?_⟩⟩
  rw [Hash.hex, toList_ofFn_getD hlength, Hex.encode, hvalues, lowered]

/-! ### Texts without a plus sign -/

theorem loweredChar_of_ne (ha : a ≠ '+') : loweredChar a = a.toLower := if_neg ha

theorem lowered_of_no_plus (hplain : '+' ∉ text.toList) : lowered text = text.toLower := by
  apply String.toList_inj.mp
  rw [lowered, String.toList_ofList, show text.toLower = text.map Char.toLower from rfl, String.toList_map]
  exact List.map_congr_left fun c hc => loweredChar_of_ne fun heq => hplain (heq ▸ hc)

theorem isSpelling_iff_of_no_plus (hplain : '+' ∉ text.toList) :
    IsSpelling text ↔ text.toList.length = 64 ∧ ∀ c ∈ text.toList, Hex.IsDigit c := by
  constructor
  · rintro ⟨hlength, hdigits⟩
    refine ⟨hlength, fun c hc => ?_⟩
    obtain ⟨i, hi⟩ := List.mem_iff_getElem?.mp hc
    rcases hdigits i c hi with hdigit | ⟨rfl, _⟩
    · exact hdigit
    · exact absurd hc hplain
  · rintro ⟨hlength, hdigits⟩
    exact ⟨hlength, fun i c hc => .inl (hdigits c (List.mem_of_getElem? hc))⟩

theorem isSpelling_of_toLower (hlower : text.toLower = h.hex) : IsSpelling text := by
  have hchars : text.toList.map Char.toLower = h.hex.toList := by
    rw [← hlower, show text.toLower = text.map Char.toLower from rfl, String.toList_map]
  constructor
  · rw [← length_hex h, ← hchars, List.length_map]
  · intro i c hc
    left
    apply Hex.isDigit_of_toLower
    have hmem : c.toLower ∈ h.hex.toList := hchars ▸ List.mem_map_of_mem (List.mem_of_getElem? hc)
    exact Hex.mem_alphabet_of_mem_encode hmem

/-! ### All readers -/

/-- A reader takes the spellings of hashes, each for the hash that is written as the spelling in lower case. -/
structure ReadsHashes (read : String → Option Hash) (text : String) (h : Hash) : Prop where
  accepts : (read text).isSome ↔ IsSpelling text
  written : read text = some h → h.hex = lowered text
  /-- Without a plus sign, the texts of 64 digits are read. -/
  digits : '+' ∉ text.toList →
    ((read text).isSome ↔ text.toList.length = 64 ∧ ∀ c ∈ text.toList, Hex.IsDigit c)
  /-- Without a plus sign, a hash has one spelling but for the letter case. -/
  single : '+' ∉ text.toList → (read text = some h ↔ text.toLower = h.hex)
  back : read h.hex = some h

theorem readsHashes_of_parse {read : String → Option Hash} (hread : ∀ text, read text = (Hash.parse text).toOption)
    (text : String) (h : Hash) : ReadsHashes read text h := by
  have hok : ∀ h, read text = some h ↔ IsSpelling text ∧ h.hex = lowered text := by
    intro h
    rw [hread, ← parse_eq_ok_iff]
    cases Hash.parse text <;> simp [Except.toOption]
  have haccepts : (read text).isSome ↔ IsSpelling text := by
    rw [Option.isSome_iff_exists]
    constructor
    · rintro ⟨h, hh⟩
      exact ((hok h).mp hh).1
    · intro hspelling
      obtain ⟨h, hh⟩ := hspelling.exists_parse
      exact ⟨h, (hok h).mpr (parse_eq_ok_iff.mp hh)⟩
  refine ⟨haccepts, fun hh => ((hok h).mp hh).2, fun hplain => ?_, fun hplain => ?_, ?_⟩
  · rw [haccepts, isSpelling_iff_of_no_plus hplain]
  · rw [hok, lowered_of_no_plus hplain]
    exact ⟨fun hh => hh.2.symm, fun hlower => ⟨isSpelling_of_toLower hlower, hlower.symm⟩⟩
  · rw [hread, Hash.parse_hex]
    rfl

theorem toOption_map {α β ε : Type} (f : α → β) (x : Except ε α) : (x.map f).toOption = x.toOption.map f := by
  cases x <;> rfl

/-- **Hashes are read from 64 digits in either letter case, where a plus sign may stand for the first digit of a pair
as if it were a zero, and from nothing else.** Without a plus sign a hash has one spelling but for the letter case. -/
theorem spellings (text : String) (h : Hash) :
    ReadsHashes (fun text => (Hash.parse text).toOption) text h ∧
      ReadsHashes (fun text => (BlockHash.parse text).toOption.map BlockHash.hash) text h ∧
      ReadsHashes (fun text => (FileHash.parse text).toOption.map FileHash.hash) text h ∧
      ReadsHashes (fun text => Hash.ofJson? (.str text)) text h ∧
      ReadsHashes (fun text => (BlockHash.ofJson? (.str text)).map BlockHash.hash) text h ∧
      ReadsHashes (fun text => (FileHash.ofJson? (.str text)).map FileHash.hash) text h := by
  refine ⟨readsHashes_of_parse (fun _ => rfl) text h, readsHashes_of_parse (fun text => ?_) text h,
    readsHashes_of_parse (fun text => ?_) text h, readsHashes_of_parse (fun _ => rfl) text h,
    readsHashes_of_parse (fun text => ?_) text h, readsHashes_of_parse (fun text => ?_) text h⟩
  · rw [BlockHash.parse, toOption_map, Option.map_map]
    exact congrFun Option.map_id _
  · rw [FileHash.parse, toOption_map, Option.map_map]
    exact congrFun Option.map_id _
  · exact (Option.map_map ..).trans (congrFun Option.map_id _)
  · exact (Option.map_map ..).trans (congrFun Option.map_id _)

/-- Plus signs are no digits, but a text with them is read as a hash. -/
theorem plus_is_read :
    let text := String.ofList (List.replicate 32 ['+', 'f']).flatten
    Hash.parse text = .ok ⟨Vector.replicate 32 15⟩ ∧ ¬∀ c ∈ text.toList, Hex.IsDigit c := by
  intro text
  constructor
  · refine parse_eq_ok_iff.mpr ⟨⟨by decide, fun i c hc => ?_⟩, by decide⟩
    have hall : ∀ j : Fin text.toList.length, Hex.IsDigit text.toList[j] ∨ text.toList[j] = '+' ∧ j.val % 2 = 0 := by
      decide
    obtain ⟨hi, rfl⟩ := List.getElem?_eq_some_iff.mp hc
    exact hall ⟨i, hi⟩
  · exact fun hall => absurd (hall '+' (by decide)) (by decide)

end Depot.Content
