import Depot.Text.Hex
import Depot.Text.Utf8

/-!
# Texts of digits

A text of ASCII characters has one byte for each of them, and the hexadecimal digits of bytes are such a text
that reads back as the bytes. Digits are read as a run at the start of a text (`leading_append`).
-/

namespace Depot.Text

/-! ### Runs -/

theorem leading_append {α : Type} {p : α → Bool} {run rest : List α} (hrun : ∀ x ∈ run, p x)
    (hrest : ∀ x ∈ rest.head?, p x = false) :
    (run ++ rest).takeWhile p = run ∧ (run ++ rest).dropWhile p = rest := by
  rw [List.takeWhile_append_of_pos hrun, List.dropWhile_append_of_pos hrun]
  cases rest with
  | nil => simp
  | cons x rest =>
    have hx := hrest x rfl
    rw [List.takeWhile_cons_of_neg (by simp [hx]), List.dropWhile_cons_of_neg (by simp [hx]), List.append_nil]
    exact ⟨rfl, rfl⟩

theorem trailing_append {α : Type} (p : α → Bool) (xs : List α) :
    ∃ run, xs = (xs.reverse.dropWhile p).reverse ++ run ∧ ∀ x ∈ run, p x := by
  refine ⟨(xs.reverse.takeWhile p).reverse, ?_, fun x hx => ?_⟩
  · rw [← List.reverse_append, List.takeWhile_append_dropWhile, List.reverse_reverse]
  · exact List.all_eq_true.mp List.all_takeWhile x (List.mem_reverse.mp hx)

/-! ### ASCII -/

/-- A byte for each character. -/
def asciiBytes (chars : List Char) : List UInt8 := chars.map fun c => c.toNat.toUInt8

theorem utf8_ofList {chars : List Char} (h : ∀ c ∈ chars, c.toNat < 128) :
    utf8 (String.ofList chars) = asciiBytes chars := by
  rw [utf8, String.toList_ofList]
  induction chars with
  | nil => rfl
  | cons c rest ih =>
    have hc : c.utf8Size = 1 := by
      rw [Char.utf8Size_eq_one_iff, UInt32.le_iff_toNat_le]
      exact Nat.le_of_lt_succ (h c List.mem_cons_self)
    rw [List.flatMap_cons, ih fun d hd => h d (List.mem_cons_of_mem c hd), String.utf8EncodeChar_eq_singleton hc]
    rfl

theorem ofNat_toNat_toUInt8 {c : Char} (h : c.toNat < 128) : Char.ofNat c.toNat.toUInt8.toNat = c := by
  have hbyte : c.toNat.toUInt8.toNat = c.toNat := by
    simp only [Nat.toUInt8, UInt8.toNat_ofNat']
    omega
  rw [hbyte, Char.ofNat_toNat]

theorem toByteArray_eq_utf8 (s : String) : s.toByteArray = ⟨(utf8 s).toArray⟩ := by
  rw [← String.utf8Encode_toList, List.utf8Encode]
  exact ByteArray.ext List.data_toByteArray

theorem ofUtf8?_utf8 (s : String) : ofUtf8? (utf8 s) = some s := by
  rw [ofUtf8?, ← toByteArray_eq_utf8, String.fromUTF8?, dif_pos s.isValidUTF8]
  rfl

theorem utf8ByteSize_ofList {chars : List Char} (h : ∀ c ∈ chars, c.toNat < 128) :
    (String.ofList chars).utf8ByteSize = chars.length := by
  rw [String.utf8ByteSize, toByteArray_eq_utf8, utf8_ofList h]
  simp [asciiBytes, ByteArray.size]

/-! ### Hexadecimal digits -/

namespace Hex

/-- The digits that are written. -/
def alphabet : List Char := "0123456789abcdef".toList

theorem digit_mem_alphabet {value : Nat} (h : value < 16) : digit value ∈ alphabet := by
  have hall : ∀ i : Fin 16, digit i ∈ alphabet := by decide
  exact hall ⟨value, h⟩

theorem digit?_digit {value : Nat} (h : value < 16) : digit? (digit value) = some value := by
  have hall : ∀ i : Fin 16, digit? (digit i) = some i.val := by decide
  exact hall ⟨value, h⟩

theorem toNat_lt_of_mem_alphabet {c : Char} (h : c ∈ alphabet) : c.toNat < 128 := by
  have hall : alphabet.all fun c => c.toNat < 128 := by decide
  exact of_decide_eq_true (List.all_eq_true.mp hall c h)

theorem mem_alphabet_of_mem_encode {bytes : List UInt8} {c : Char} (h : c ∈ (encode bytes).toList) :
    c ∈ alphabet := by
  rw [encode, String.toList_ofList] at h
  obtain ⟨b, _, hc⟩ := List.mem_flatMap.mp h
  have hb := b.toNat_lt
  rcases List.mem_cons.mp hc with rfl | hc
  · exact digit_mem_alphabet (by omega)
  · rw [List.mem_singleton.mp hc]
    exact digit_mem_alphabet (by omega)

theorem length_encode (bytes : List UInt8) : (encode bytes).toList.length = 2 * bytes.length := by
  rw [encode, String.toList_ofList]
  induction bytes with
  | nil => rfl
  | cons b rest ih =>
    rw [List.flatMap_cons, List.length_append, ih, List.length_cons]
    simp only [byte, List.length_cons, List.length_nil]
    omega

theorem digit_injective {m n : Nat} (hm : m < 16) (hn : n < 16) (h : digit m = digit n) : m = n := by
  have hvalue := digit?_digit hm
  rw [h, digit?_digit hn] at hvalue
  exact (Option.some.inj hvalue).symm

end Hex

end Depot.Text
