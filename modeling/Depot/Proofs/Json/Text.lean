import Depot.Json.Parser
import Depot.Proofs.Json.Stable
import Depot.Proofs.Text.Plain

/-!
# The text of a JSON value reads back

- A string between its quotes reads back, whatever its characters are (`stringRest?_quote`).
- A whole number of 64 bits reads back, if no character that a number may have follows (`number?_int`).
- **`parse?_render`**: a value that has a text of its own reads back from it.
-/

namespace Depot.Json

open Text

variable {rest : Bytes} {c : Char}

/-! ### Strings -/

/-- The state of reading a string whose bytes so far are these. -/
def Scan.ofBytes (read : Bytes) : Scan := ⟨read.reverse, none, true⟩

@[simp] theorem Scan.bytes_ofBytes (read more : Bytes) : (ofBytes read).bytes more = ofBytes (read ++ more) := by
  simp [bytes, ofBytes]

theorem Scan.text?_ofBytes (s : String) : (ofBytes (Text.utf8 s)).text? = some s := by
  rw [text?, ofBytes, List.reverse_reverse]
  exact ofUtf8?_utf8 s

theorem toList_singleton (b : UInt8) : ByteArray.toList ⟨#[b]⟩ = [b] := by
  rw [ByteArray.toList, ByteArray.toList.loop, ByteArray.toList.loop]
  rfl

theorem utf8EncodeChar_ascii (h : c.toNat < 128) : String.utf8EncodeChar c = [c.toNat.toUInt8] := by
  have hutf8 : Text.utf8 (String.ofList [c]) = asciiBytes [c] := utf8_ofList (by simpa using h)
  simpa [asciiBytes, Text.utf8] using hutf8

theorem Scan.utf8_ascii (h : c.toNat < 128) : Scan.utf8 c.toNat = String.utf8EncodeChar c := by
  have hutf8 : Text.utf8 (String.ofList [c]) = asciiBytes [c] := utf8_ofList (by simpa using h)
  have harray : c.toString.toUTF8 = ⟨#[c.toNat.toUInt8]⟩ := by
    rw [String.toUTF8, toByteArray_eq_utf8]
    exact congrArg (fun bytes : List UInt8 => ByteArray.mk bytes.toArray) hutf8
  rw [Scan.utf8, Char.ofNat_toNat, harray, toList_singleton, utf8EncodeChar_ascii h]

/-- A byte that stands for itself in a string. -/
def IsPlainByte (b : UInt8) : Prop := 32 ≤ b ∧ b ≠ 34 ∧ b ≠ 92

theorem isPlainByte_of_mem (hcontrol : 32 ≤ c.toNat) (hquote : c ≠ '"') (hslash : c ≠ '\\') {b : UInt8}
    (hb : b ∈ String.utf8EncodeChar c) : IsPlainByte b := by
  by_cases hascii : c.toNat < 128
  · rw [utf8EncodeChar_ascii hascii, List.mem_singleton] at hb
    have hvalue : c.toNat.toUInt8.toNat = c.toNat := by
      simp only [Nat.toUInt8, UInt8.toNat_ofNat']
      omega
    have hne : ∀ d : Char, d.toNat < 128 → c ≠ d → c.toNat.toUInt8 ≠ d.toNat.toUInt8 := by
      intro d hd hcd heq
      apply hcd
      rw [← ofNat_toNat_toUInt8 hascii, heq, ofNat_toNat_toUInt8 hd]
    subst hb
    refine ⟨?_, hne '"' (by decide) hquote, hne '\\' (by decide) hslash⟩
    rw [UInt8.le_iff_toNat_le, hvalue]
    exact hcontrol
  · have hhigh : 128 ≤ b.toNat := by
      have hvalue : ¬c.val.toNat ≤ 127 := fun hle => hascii (Nat.lt_succ_of_le hle)
      simp only [String.utf8EncodeChar, if_neg hvalue] at hb
      split at hb <;> (try split at hb) <;>
      · simp only [List.mem_cons, List.not_mem_nil, or_false] at hb
        rcases hb with rfl | rfl | rfl | rfl <;>
        · simp only [UInt8.toNat_ofNat']
          omega
    refine ⟨?_, ?_, ?_⟩
    · rw [UInt8.le_iff_toNat_le]
      exact Nat.le_trans (by decide) hhigh
    · rintro rfl
      exact absurd hhigh (by decide)
    · rintro rfl
      exact absurd hhigh (by decide)

theorem stringRest?_plain {bytes : Bytes} (hplain : ∀ b ∈ bytes, IsPlainByte b) (read rest : Bytes) :
    stringRest? (.ofBytes read) (bytes ++ rest) = stringRest? (.ofBytes (read ++ bytes)) rest := by
  induction bytes generalizing read with
  | nil => simp
  | cons b bytes ih =>
    obtain ⟨⟨hcontrol, hquote, hslash⟩, hbytes⟩ := List.forall_mem_cons.mp hplain
    have hbyte : stringRest? (.ofBytes read) (b :: (bytes ++ rest)) =
        stringRest? (.ofBytes (read ++ [b])) (bytes ++ rest) := by
      rw [stringRest?.eq_def]
      split
      · exact absurd ‹b :: _ = []› (List.cons_ne_nil _ _)
      · exact absurd (List.cons.inj ‹b :: _ = 34 :: _›).1 hquote
      · exact absurd (List.cons.inj ‹b :: _ = 92 :: _›).1 hslash
      · exact absurd (List.cons.inj ‹b :: _ = 92 :: _›).1 hslash
      · obtain ⟨rfl, rfl⟩ := List.cons.inj ‹b :: (bytes ++ rest) = _›
        rw [if_neg, Scan.bytes_ofBytes]
        simp only [Bool.or_eq_true, decide_eq_true_eq, beq_iff_eq, not_or]
        exact ⟨UInt8.not_lt.mpr hcontrol, hslash⟩
    rw [List.cons_append, hbyte, ih hbytes, List.append_assoc, List.singleton_append]

theorem stringRest?_control (hcontrol : c.toNat < 32) (read rest : Bytes) :
    stringRest? (.ofBytes read)
        ((['\\', 'u', '0', '0'] ++ Hex.byte c.toNat.toUInt8).flatMap String.utf8EncodeChar ++ rest) =
      stringRest? (.ofBytes (read ++ String.utf8EncodeChar c)) rest := by
  have hdigits : ∀ i : Fin 32, (Hex.byte i.val.toUInt8).flatMap String.utf8EncodeChar =
      [(Hex.digit (i.val / 16)).toNat.toUInt8, (Hex.digit (i.val % 16)).toNat.toUInt8] ∧
      fourDigits? 48 48 (Hex.digit (i.val / 16)).toNat.toUInt8 (Hex.digit (i.val % 16)).toNat.toUInt8 = some i.val := by
    decide
  obtain ⟨hbytes, hvalue⟩ := hdigits ⟨c.toNat, hcontrol⟩
  have hunit : (Scan.ofBytes read).unit c.toNat = .ofBytes (read ++ String.utf8EncodeChar c) := by
    rw [Scan.unit, if_neg (by omega), if_neg (by omega), Scan.utf8_ascii (by omega), Scan.bytes_ofBytes]
  have hstart : (['\\', 'u', '0', '0'] : List Char).flatMap String.utf8EncodeChar = [92, 117, 48, 48] := by decide
  dsimp only at hbytes hvalue
  rw [List.flatMap_append, hstart, hbytes, stringRest?.eq_def]
  simp only [List.cons_append, List.nil_append, hvalue, hunit]

theorem stringRest?_short {b e : UInt8} (hescape : shortEscape? b = some e) (hb : b ≠ 117) (read rest : Bytes) :
    stringRest? (.ofBytes read) (92 :: b :: rest) = stringRest? (.ofBytes (read ++ [e])) rest := by
  rw [stringRest?.eq_def]
  split
  · rename_i heq
    cases heq
  · rename_i heq
    exact absurd (List.cons.inj heq).1 (by decide)
  · rename_i heq
    exact absurd (List.cons.inj (List.cons.inj heq).2).1 hb
  · rename_i heq
    obtain ⟨rfl, rfl⟩ := List.cons.inj (List.cons.inj heq).2
    rw [hescape, ← Scan.bytes_ofBytes]
  · rename_i hpair heq
    exact (hpair b rest (List.cons.inj heq).1.symm (List.cons.inj heq).2.symm).elim

theorem stringRest?_escape (c : Char) (read rest : Bytes) :
    stringRest? (.ofBytes read) ((escape c).flatMap String.utf8EncodeChar ++ rest) =
      stringRest? (.ofBytes (read ++ String.utf8EncodeChar c)) rest := by
  have hchar : ∀ {n : Nat}, c.toNat = n → c = Char.ofNat n := fun h => by rw [← h, Char.ofNat_toNat]
  unfold escape
  split
  · subst c
    exact stringRest?_short (b := 34) (by decide) (by decide) read rest
  split
  · subst c
    exact stringRest?_short (b := 92) (by decide) (by decide) read rest
  split
  · rw [hchar ‹c.toNat = 8›]
    exact stringRest?_short (b := 98) (by decide) (by decide) read rest
  split
  · subst c
    exact stringRest?_short (b := 116) (by decide) (by decide) read rest
  split
  · subst c
    exact stringRest?_short (b := 110) (by decide) (by decide) read rest
  split
  · rw [hchar ‹c.toNat = 12›]
    exact stringRest?_short (b := 102) (by decide) (by decide) read rest
  split
  · subst c
    exact stringRest?_short (b := 114) (by decide) (by decide) read rest
  split
  · exact stringRest?_control ‹c.toNat < 32› read rest
  · rw [List.flatMap_singleton]
    exact stringRest?_plain
      (fun b => isPlainByte_of_mem (Nat.not_lt.mp ‹¬c.toNat < 32›) ‹c ≠ '"'› ‹c ≠ '\\'›) read rest

theorem utf8_append (s t : String) : Text.utf8 (s ++ t) = Text.utf8 s ++ Text.utf8 t := by
  rw [Text.utf8, String.toList_append, List.flatMap_append]
  rfl

theorem utf8_quote (s : String) :
    Text.utf8 (quote s) = 34 :: ((s.toList.flatMap escape).flatMap String.utf8EncodeChar ++ [34]) := by
  have hmark : Text.utf8 "\"" = [34] := by decide
  rw [quote, utf8_append, utf8_append, hmark, Text.utf8, String.toList_ofList]
  rfl

/-- **A string reads back from its text.** -/
theorem stringRest?_quote (s : String) (rest : Bytes) :
    stringRest? .empty ((s.toList.flatMap escape).flatMap String.utf8EncodeChar ++ 34 :: rest) =
      some (some s, rest) := by
  have hchars : ∀ (chars : List Char) (read : Bytes),
      stringRest? (.ofBytes read) ((chars.flatMap escape).flatMap String.utf8EncodeChar ++ 34 :: rest) =
        some ((Scan.ofBytes (read ++ chars.flatMap String.utf8EncodeChar)).text?, rest) := by
    intro chars
    induction chars with
    | nil =>
      intro read
      simp only [List.flatMap_nil, List.nil_append, List.append_nil]
      rw [stringRest?.eq_def]
      rfl
    | cons c chars ih =>
      intro read
      rw [List.flatMap_cons, List.flatMap_append, List.append_assoc, stringRest?_escape, ih, List.append_assoc,
        List.flatMap_cons]
  have hstring := hchars s.toList []
  rw [List.nil_append, ← Text.utf8, Scan.text?_ofBytes] at hstring
  exact hstring

/-! ### Numbers -/

/-- What may follow a value inside another one, and nothing. -/
def Ends (rest : Bytes) : Prop := ∀ b ∈ rest.head?, b = 44 ∨ b = 93 ∨ b = 125

theorem isDigit_code (hc : c.isDigit) : isDigit c.toNat.toUInt8 ∧ c.toNat.toUInt8.toNat = c.toNat ∧ c.toNat < 128 := by
  rw [Char.isDigit_iff_toNat] at hc
  simp only [Char.reduceToNat] at hc
  have hvalue : c.toNat.toUInt8.toNat = c.toNat := by
    simp only [Nat.toUInt8, UInt8.toNat_ofNat']
    omega
  refine ⟨?_, hvalue, by omega⟩
  simp only [isDigit, Bool.and_eq_true, decide_eq_true_eq, UInt8.le_iff_toNat_le, hvalue]
  exact ⟨hc.1, hc.2⟩

/-- The digits of a natural number. -/
def digitBytes (n : Nat) : Bytes := asciiBytes (Nat.toDigits 10 n)

theorem isDigit_of_mem_toDigits {n : Nat} (hc : c ∈ Nat.toDigits 10 n) : c.isDigit :=
  Nat.isDigit_of_mem_toDigits (by decide) (by decide) hc

theorem isDigit_of_mem_digitBytes {n : Nat} {b : UInt8} (hb : b ∈ digitBytes n) : isDigit b := by
  obtain ⟨c, hc, rfl⟩ := List.mem_map.mp hb
  exact (isDigit_code (isDigit_of_mem_toDigits hc)).1

theorem digitBytes_ne_nil (n : Nat) : digitBytes n ≠ [] := by
  simp [digitBytes, asciiBytes]

theorem utf8_repr (n : Nat) : Text.utf8 n.repr = digitBytes n := by
  have hascii : Text.utf8 (String.ofList n.repr.toList) = asciiBytes n.repr.toList := utf8_ofList fun c hc =>
    (isDigit_code (Decimal.isDigit_of_mem_repr hc)).2.2
  rwa [String.ofList_toList, Nat.toList_repr] at hascii

theorem natOfDigits_digitBytes (n : Nat) : natOfDigits (digitBytes n) = n := by
  have hfold : ∀ (chars : List Char) (value : Nat), (∀ c ∈ chars, c.isDigit) →
      (asciiBytes chars).foldl (fun n b => 10 * n + (b.toNat - 48)) value = Nat.ofDigitChars 10 chars value := by
    intro chars
    induction chars with
    | nil => exact fun _ _ => rfl
    | cons c chars ih =>
      intro value hdigits
      obtain ⟨hc, hchars⟩ := List.forall_mem_cons.mp hdigits
      rw [Nat.ofDigitChars_cons, ← ih _ hchars, asciiBytes, List.map_cons, List.foldl_cons, (isDigit_code hc).2.1]
      rfl
  rw [natOfDigits, digitBytes, hfold _ 0 fun c => isDigit_of_mem_toDigits, Nat.ofDigitChars_ten_toDigits]

theorem head?_toDigits {n : Nat} (hn : n ≠ 0) : (Nat.toDigits 10 n).head? ≠ some '0' := by
  induction n using Nat.strongRecOn with
  | ind n ih =>
    by_cases hsmall : n < 10
    · rw [Nat.toDigits_of_lt_base hsmall, List.head?_cons]
      have hall : ∀ i : Fin 10, i.val ≠ 0 → some (Nat.digitChar i.val) ≠ some '0' := by decide
      exact hall ⟨n, hsmall⟩ hn
    · rw [Nat.toDigits_of_base_le (by decide) (Nat.not_lt.mp hsmall)]
      have hfirst := ih (n / 10) (by omega) (by omega)
      cases hdigits : Nat.toDigits 10 (n / 10) with
      | nil => simp at hdigits
      | cons c digits =>
        rw [hdigits] at hfirst
        exact hfirst

theorem not_isDigit_of_ends (hends : Ends rest) : ∀ b ∈ rest.head?, isDigit b = false := by
  intro b hb
  rcases hends b hb with rfl | rfl | rfl <;> decide

theorem digits?_digitBytes (n : Nat) (hends : Ends rest) :
    digits? (digitBytes n ++ rest) = some (digitBytes n, rest) := by
  obtain ⟨htake, hdrop⟩ := leading_append (fun b => isDigit_of_mem_digitBytes (n := n)) (not_isDigit_of_ends hends)
  rw [digits?, htake, hdrop]
  split
  · exact absurd ‹digitBytes n = []› (digitBytes_ne_nil n)
  · rfl

theorem wholePart?_digitBytes (n : Nat) (hends : Ends rest) :
    wholePart? (digitBytes n ++ rest) = some (digitBytes n, rest) := by
  have hzero : ((digitBytes n).head? == some (code '0') && decide ((digitBytes n).length > 1)) = false := by
    by_cases hn : n = 0
    · subst n
      decide
    · have hfirst := head?_toDigits hn
      rw [Bool.and_eq_false_iff]
      left
      rw [beq_eq_false_iff_ne, digitBytes, asciiBytes, List.head?_map]
      intro hhead
      obtain ⟨c, hc, hcode⟩ := Option.map_eq_some_iff.mp hhead
      have hascii := (isDigit_code (isDigit_of_mem_toDigits (List.mem_of_mem_head? hc))).2.2
      have hsame : c = '0' := by
        rw [← ofNat_toNat_toUInt8 hascii, hcode]
        decide
      exact hfirst (hsame ▸ hc)
  simp only [wholePart?, digits?_digitBytes n hends, Option.bind_eq_bind, Option.bind_some, hzero, Bool.false_eq_true,
    if_false]

/-- **Digits read back**, where no other character of a number follows. -/
theorem number?_digitBytes (negative : Bool) (n : Nat) (hends : Ends rest) :
    number? negative (digitBytes n ++ rest) = some (ofNumber negative (digitBytes n) [], rest) := by
  have hparts : fraction? rest = some ([], rest) ∧ exponent? rest = some ([], rest) := by
    cases rest with
    | nil => exact ⟨rfl, rfl⟩
    | cons b rest => rcases hends b rfl with rfl | rfl | rfl <;> exact ⟨rfl, rfl⟩
  simp only [number?, wholePart?_digitBytes n hends, Option.bind_eq_bind, Option.bind_some, hparts.1, hparts.2,
    List.append_nil]

/-! ### Values -/

/-- The text of a value reads back, whatever may follow it, with fuel for all its bytes. -/
def ReadsBack (json : Json) : Prop :=
  ∀ fuel rest, (Text.utf8 json.render).length < fuel → Ends rest →
    value? fuel (Text.utf8 json.render ++ rest) = some (json, rest)

theorem readsBack_null : ReadsBack .null := by
  intro fuel rest hfuel _
  obtain ⟨fuel, rfl⟩ := Nat.exists_eq_succ_of_ne_zero (Nat.ne_zero_of_lt hfuel)
  rfl

theorem readsBack_bool (value : Bool) : ReadsBack (.bool value) := by
  intro fuel rest hfuel _
  obtain ⟨fuel, rfl⟩ := Nat.exists_eq_succ_of_ne_zero (Nat.ne_zero_of_lt hfuel)
  cases value <;> rfl

theorem skipBlanks_cons {b : UInt8} (hb : isBlank b = false) (rest : Bytes) : skipBlanks (b :: rest) = b :: rest := by
  rw [skipBlanks, List.dropWhile_cons_of_neg (by simp [hb])]

theorem beq_of_isDigit {b d : UInt8} (hb : isDigit b) (hd : isDigit d = false) : (b == d) = false := by
  rw [beq_eq_false_iff_ne]
  rintro rfl
  rw [hb] at hd
  cases hd

theorem isBlank_of_isDigit {b : UInt8} (hb : isDigit b) : isBlank b = false := by
  have hne := fun {d} => beq_of_isDigit (d := d) hb
  simp [isBlank, hne (d := 32) (by decide), hne (d := 9) (by decide), hne (d := 10) (by decide),
    hne (d := 13) (by decide)]

theorem value?_digit (fuel : Nat) {b : UInt8} (hb : isDigit b) (rest : Bytes) :
    value? (fuel + 1) (b :: rest) = number? false (b :: rest) := by
  have hne := fun {d} => beq_of_isDigit (d := d) hb
  rw [value?, skipBlanks_cons (isBlank_of_isDigit hb)]
  simp only [hne (d := code '"') (by decide), hne (d := code '[') (by decide), hne (d := code '\x7b') (by decide),
    hne (d := code '-') (by decide), hb, Bool.false_eq_true, if_false, if_true]

theorem utf8_int (value : Int) :
    Text.utf8 (Json.int value).render = match value with
      | .ofNat n => digitBytes n
      | .negSucc n => 45 :: digitBytes (n + 1) := by
  cases value with
  | ofNat n => exact utf8_repr n
  | negSucc n =>
    have hsign : (Json.int (Int.negSucc n)).render = "-" ++ (n + 1).repr := rfl
    rw [hsign, utf8_append, utf8_repr]
    rfl

theorem readsBack_int {value : Int} (hlow : Int64.minValue.toInt ≤ value) (hhigh : value < UInt64.size) :
    ReadsBack (.int value) := by
  intro fuel rest hfuel hends
  obtain ⟨fuel, rfl⟩ := Nat.exists_eq_succ_of_ne_zero (Nat.ne_zero_of_lt hfuel)
  cases value with
  | ofNat n =>
    have hvalue : ofNumber false (digitBytes n) [] = .int (Int.ofNat n) := by
      have hsize : n < UInt64.size := by
        simp only [Int.ofNat_eq_natCast] at hhigh
        omega
      simp [ofNumber, natOfDigits_digitBytes, hsize]
    rw [utf8_int]
    dsimp only
    cases hdigits : digitBytes n with
    | nil => exact absurd hdigits (digitBytes_ne_nil n)
    | cons b digits =>
      have hb : isDigit b := isDigit_of_mem_digitBytes (n := n) (hdigits ▸ List.mem_cons_self)
      rw [List.cons_append, value?_digit fuel hb, ← List.cons_append, ← hdigits, number?_digitBytes false n hends,
        hvalue]
  | negSucc n =>
    have hvalue : ofNumber true (digitBytes (n + 1)) [] = .int (Int.negSucc n) := by
      have hrange : 1 ≤ n + 1 ∧ Int64.minValue.toInt ≤ -((n + 1 : Nat) : Int) := ⟨by omega, by omega⟩
      simp only [ofNumber, natOfDigits_digitBytes, List.isEmpty_nil, Bool.not_true, Bool.false_eq_true, if_false,
        if_true, if_pos hrange]
      rfl
    rw [utf8_int]
    dsimp only
    rw [List.cons_append]
    have hminus : value? (fuel + 1) (45 :: (digitBytes (n + 1) ++ rest)) =
        number? true (digitBytes (n + 1) ++ rest) := rfl
    rw [hminus, number?_digitBytes true (n + 1) hends, hvalue]

theorem readsBack_str (s : String) : ReadsBack (.str s) := by
  intro fuel rest hfuel _
  obtain ⟨fuel, rfl⟩ := Nat.exists_eq_succ_of_ne_zero (Nat.ne_zero_of_lt hfuel)
  have hquote : value? (fuel + 1) (Text.utf8 (quote s) ++ rest) =
      (stringRest? .empty ((s.toList.flatMap escape).flatMap String.utf8EncodeChar ++ 34 :: rest)).map
        fun read => ((read.1.map str).getD garbled, read.2) := by
    rw [utf8_quote, List.cons_append, List.append_assoc]
    rfl
  rw [render, hquote, stringRest?_quote]
  rfl

/-! ### Arrays and objects -/

theorem renderItems_eq_map (items : List Json) : renderItems items = items.map render := by
  induction items with
  | nil => rfl
  | cons item items ih => rw [renderItems, ih, List.map_cons]

/-- The text of a member. -/
def renderMember (m : String × Json) : String := quote m.1 ++ ":" ++ m.2.render

theorem renderMembers_eq_map (members : List (String × Json)) : renderMembers members = members.map renderMember := by
  induction members with
  | nil => rfl
  | cons m members ih => rw [renderMembers, ih, List.map_cons, renderMember]

/-- Texts with commas between them. -/
def joined (texts : List String) : Bytes := Text.utf8 (",".intercalate texts)

theorem joined_cons_cons (s t : String) (texts : List String) :
    joined (s :: t :: texts) = Text.utf8 s ++ 44 :: joined (t :: texts) := by
  rw [joined, String.intercalate_cons_cons, utf8_append, utf8_append, List.append_assoc]
  rfl

theorem joined_singleton (s : String) : joined [s] = Text.utf8 s := by
  rw [joined, String.intercalate_singleton]

theorem utf8_arr (items : List Json) :
    Text.utf8 (Json.arr items).render = 91 :: (joined (items.map render) ++ [93]) := by
  rw [render, utf8_append, utf8_append, renderItems_eq_map]
  rfl

theorem utf8_obj (members : List (String × Json)) :
    Text.utf8 (Json.obj members).render = 123 :: (joined (members.map renderMember) ++ [125]) := by
  rw [render, utf8_append, utf8_append, renderMembers_eq_map]
  rfl

theorem utf8_renderMember (m : String × Json) :
    Text.utf8 (renderMember m) = 34 :: ((m.1.toList.flatMap escape).flatMap String.utf8EncodeChar ++
      34 :: 58 :: Text.utf8 m.2.render) := by
  rw [renderMember, utf8_append, utf8_append, utf8_quote]
  simp only [List.cons_append, List.append_assoc]
  rfl

theorem exists_utf8_render {json : Json} (h : json.Plain) :
    ∃ b bytes, Text.utf8 json.render = b :: bytes ∧ isBlank b = false ∧ b ≠ 93 := by
  cases h with
  | null => exact ⟨_, _, rfl, by decide, by decide⟩
  | bool value => cases value <;> exact ⟨_, _, rfl, by decide, by decide⟩
  | @int value _ _ =>
    have htext := utf8_int value
    cases value with
    | ofNat n =>
      cases hdigits : digitBytes n with
      | nil => exact absurd hdigits (digitBytes_ne_nil n)
      | cons b digits =>
        have hb : isDigit b := isDigit_of_mem_digitBytes (n := n) (hdigits ▸ List.mem_cons_self)
        refine ⟨b, digits, htext.trans hdigits, isBlank_of_isDigit hb, ?_⟩
        rintro rfl
        cases hb
    | negSucc n => exact ⟨_, _, htext, by decide, by decide⟩
  | str s => exact ⟨_, _, utf8_quote s, by decide, by decide⟩
  | arr _ => exact ⟨_, _, utf8_arr _, by decide, by decide⟩
  | obj _ => exact ⟨_, _, utf8_obj _, by decide, by decide⟩

theorem items?_joined {items : List Json} (hne : items ≠ []) (hitems : ∀ item ∈ items, ReadsBack item)
    (fuel : Nat) (before : List Json) (rest : Bytes) (hfuel : (joined (items.map render)).length + 1 < fuel) :
    items? fuel before (joined (items.map render) ++ 93 :: rest) = some (.arr (before.reverse ++ items), rest) := by
  induction items generalizing fuel before with
  | nil => exact absurd rfl hne
  | cons item items ih =>
    obtain ⟨hitem, hrest⟩ := List.forall_mem_cons.mp hitems
    obtain ⟨fuel, rfl⟩ := Nat.exists_eq_succ_of_ne_zero (Nat.ne_zero_of_lt hfuel)
    cases items with
    | nil =>
      rw [List.map_singleton, joined_singleton] at hfuel ⊢
      rw [items?, hitem fuel (93 :: rest) (by omega) (by simp [Ends])]
      simp only [skipBlanks_cons (b := 93) (by decide), List.reverse_cons]
    | cons other items =>
      rw [List.map_cons, List.map_cons, joined_cons_cons] at hfuel ⊢
      rw [List.length_append, List.length_cons] at hfuel
      rw [List.append_assoc, List.cons_append, items?, hitem fuel _ (by omega) (by simp [Ends])]
      simp only [skipBlanks_cons (b := 44) (by decide)]
      rw [← List.map_cons, ih (List.cons_ne_nil _ _) hrest fuel _ (by rw [List.map_cons]; omega), List.reverse_cons,
        List.append_assoc, List.singleton_append]

theorem ofEntries_map (members : List (String × Json)) :
    ofEntries (members.map fun m => (some m.1, m.2)) = .obj members := by
  have hnames : (members.map fun m => (some m.1, m.2)).mapM
      (fun entry => entry.1.map fun name => (name, entry.2)) = some members := by
    induction members with
    | nil => rfl
    | cons m members ih => exact mapM_eq_some_cons.mpr ⟨m, members, rfl, ih, rfl⟩
  rw [ofEntries, hnames]

theorem entries?_joined {members : List (String × Json)} (hne : members ≠ [])
    (hmembers : ∀ m ∈ members, ReadsBack m.2) (fuel : Nat) (before : List (String × Json)) (rest : Bytes)
    (hfuel : (joined (members.map renderMember)).length + 1 < fuel) :
    entries? fuel (before.map fun m => (some m.1, m.2)) (joined (members.map renderMember) ++ 125 :: rest) =
      some (.obj (before.reverse ++ members), rest) := by
  induction members generalizing fuel before with
  | nil => exact absurd rfl hne
  | cons m members ih =>
    obtain ⟨hm, hrest⟩ := List.forall_mem_cons.mp hmembers
    obtain ⟨fuel, rfl⟩ := Nat.exists_eq_succ_of_ne_zero (Nat.ne_zero_of_lt hfuel)
    cases members with
    | nil =>
      rw [List.map_singleton, joined_singleton, utf8_renderMember] at hfuel ⊢
      simp only [List.length_cons, List.length_append] at hfuel
      simp only [List.cons_append, List.append_assoc]
      rw [entries?, skipBlanks_cons (b := 34) (by decide)]
      simp only [stringRest?_quote, skipBlanks_cons (b := 58) (by decide),
        hm fuel (125 :: rest) (by omega) (by simp [Ends]), skipBlanks_cons (b := 125) (by decide)]
      have hread : ((some m.1, m.2) :: before.map fun m => (some m.1, m.2)).reverse =
          (before.reverse ++ [m]).map fun m => (some m.1, m.2) := by simp
      rw [hread, ofEntries_map]
    | cons other members =>
      rw [List.map_cons, List.map_cons, joined_cons_cons, utf8_renderMember] at hfuel ⊢
      simp only [List.length_cons, List.length_append] at hfuel
      simp only [List.cons_append, List.append_assoc]
      rw [entries?, skipBlanks_cons (b := 34) (by decide)]
      simp only [stringRest?_quote, skipBlanks_cons (b := 58) (by decide),
        hm fuel (44 :: _) (by omega) (by simp [Ends]), skipBlanks_cons (b := 44) (by decide)]
      have hagain := ih (List.cons_ne_nil _ _) hrest fuel (m :: before) (by rw [List.map_cons]; omega)
      rw [List.map_cons, List.map_cons] at hagain
      rw [hagain, List.reverse_cons, List.append_assoc, List.singleton_append]

theorem readsBack_arr {items : List Json} (hplain : ∀ item ∈ items, item.Plain)
    (hitems : ∀ item ∈ items, ReadsBack item) : ReadsBack (.arr items) := by
  intro fuel rest hfuel _
  obtain ⟨fuel, rfl⟩ := Nat.exists_eq_succ_of_ne_zero (Nat.ne_zero_of_lt hfuel)
  rw [utf8_arr, List.length_cons, List.length_append, List.length_singleton] at hfuel
  rw [utf8_arr, List.cons_append, List.append_assoc, List.singleton_append]
  cases items with
  | nil => rfl
  | cons item items =>
    -- The text of the first item is not the end of the array.
    obtain ⟨b, bytes, htext, hblank, hclose⟩ := exists_utf8_render (hplain item List.mem_cons_self)
    obtain ⟨more, hmore⟩ : ∃ more, joined ((item :: items).map render) ++ 93 :: rest = b :: more := by
      cases items with
      | nil => exact ⟨_, by rw [List.map_singleton, joined_singleton, htext, List.cons_append]⟩
      | cons other items => exact ⟨_, by rw [List.map_cons, List.map_cons, joined_cons_cons, htext]; rfl⟩
    have hvalue : value? (fuel + 1) (91 :: (joined ((item :: items).map render) ++ 93 :: rest)) =
        items? fuel [] (joined ((item :: items).map render) ++ 93 :: rest) := by
      rw [hmore, value?, skipBlanks_cons (b := 91) (by decide)]
      dsimp only
      rw [if_neg (by decide), if_pos (by decide), skipBlanks_cons hblank]
      split
      · rename_i heq
        exact absurd (List.cons.inj heq).1 hclose
      · rfl
    rw [hvalue, items?_joined (List.cons_ne_nil _ _) hitems fuel [] rest (by omega)]
    rfl

theorem readsBack_obj {members : List (String × Json)} (hmembers : ∀ m ∈ members, ReadsBack m.2) :
    ReadsBack (.obj members) := by
  intro fuel rest hfuel _
  obtain ⟨fuel, rfl⟩ := Nat.exists_eq_succ_of_ne_zero (Nat.ne_zero_of_lt hfuel)
  rw [utf8_obj, List.length_cons, List.length_append, List.length_singleton] at hfuel
  rw [utf8_obj, List.cons_append, List.append_assoc, List.singleton_append]
  cases members with
  | nil => rfl
  | cons m members =>
    obtain ⟨more, hmore⟩ : ∃ more, joined ((m :: members).map renderMember) ++ 125 :: rest = 34 :: more := by
      cases members with
      | nil => exact ⟨_, by rw [List.map_singleton, joined_singleton, utf8_renderMember, List.cons_append]⟩
      | cons other members =>
        exact ⟨_, by rw [List.map_cons, List.map_cons, joined_cons_cons, utf8_renderMember]; rfl⟩
    have hvalue : value? (fuel + 1) (123 :: (joined ((m :: members).map renderMember) ++ 125 :: rest)) =
        entries? fuel [] (joined ((m :: members).map renderMember) ++ 125 :: rest) := by
      rw [hmore]
      rfl
    have hentries := entries?_joined (List.cons_ne_nil _ _) hmembers fuel [] rest (by omega)
    rw [hvalue]
    exact hentries

/-- **A value that has a text of its own reads back from it.** -/
theorem parse?_render {json : Json} (h : json.Plain) : parse? (Text.utf8 json.render) = some json := by
  have hback : ReadsBack json := by
    induction h with
    | null => exact readsBack_null
    | bool value => exact readsBack_bool value
    | int hlow hhigh => exact readsBack_int hlow hhigh
    | str s => exact readsBack_str s
    | arr hitems ih => exact readsBack_arr hitems ih
    | obj _ ih => exact readsBack_obj ih
  have hvalue := hback ((Text.utf8 json.render).length + 1) [] (Nat.lt_succ_self _) (by simp [Ends])
  rw [List.append_nil] at hvalue
  rw [parse?, hvalue]
  rfl

end Depot.Json
