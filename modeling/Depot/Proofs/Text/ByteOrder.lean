import Depot.Text.Utf8

/-!
# Order of texts and of their bytes

Texts are compared by their characters. UTF-8 keeps this order, so it is the order of their bytes (`utf8_lt`).
-/

namespace Depot.Text

theorem utf8EncodeChar_lt {c d : Char} (h : c < d) (rest more : List UInt8) :
    String.utf8EncodeChar c ++ rest < String.utf8EncodeChar d ++ more := by
  have hlt : c.val.toNat < d.val.toNat := UInt32.lt_iff_toNat_lt.mp h
  have hvalid : d.val.toNat < 0x110000 := by
    have := d.valid
    simp only [UInt32.isValidChar, Nat.isValidChar] at this
    omega
  simp only [String.utf8EncodeChar]
  generalize c.val.toNat = m at hlt ⊢
  generalize d.val.toNat = n at hlt hvalid ⊢
  -- A longer encoding begins with a greater byte, and the bytes of one length are the digits of the character.
  repeat' split
  all_goals
    simp only [List.cons_append, List.nil_append, List.cons_lt_cons_iff, UInt8.lt_iff_toNat_lt, ← UInt8.toNat_inj,
      UInt8.toNat_ofNat']
    simp (disch := omega) only [Nat.mod_eq_of_lt]
    omega

theorem flatMap_utf8EncodeChar_lt {chars other : List Char} (h : chars < other) :
    chars.flatMap String.utf8EncodeChar < other.flatMap String.utf8EncodeChar := by
  induction chars generalizing other with
  | nil =>
    cases other with
    | nil => exact absurd h (List.lt_irrefl _)
    | cons d rest =>
      have hne : (d :: rest).flatMap String.utf8EncodeChar ≠ [] := by
        have := d.utf8Size_pos
        rw [List.flatMap_cons, ← List.length_pos_iff, List.length_append, String.length_utf8EncodeChar]
        omega
      obtain ⟨b, bytes, hbytes⟩ := List.exists_cons_of_ne_nil hne
      rw [hbytes]
      exact List.nil_lt_cons b bytes
  | cons c rest ih =>
    cases other with
    | nil => cases h
    | cons d more =>
      rw [List.flatMap_cons, List.flatMap_cons]
      rcases List.cons_lt_cons_iff.mp h with hlt | ⟨rfl, hrest⟩
      · exact utf8EncodeChar_lt hlt _ _
      · exact List.append_left_lt (ih hrest)

/-- **Texts stand in the order of their bytes.** -/
theorem utf8_lt {s t : String} (h : s < t) : utf8 s < utf8 t := flatMap_utf8EncodeChar_lt h

end Depot.Text
