import Depot.Proofs.Text.Digits
import Depot.Uuid

/-!
# Spelling identifiers

An identifier is read back from its text: `parse?_text`.
-/

namespace Depot.Uuid

open Text

theorem pairs?_flatMap_byte (bytes : List UInt8) : pairs? (bytes.flatMap Hex.byte) = some bytes := by
  induction bytes with
  | nil => rfl
  | cons b rest ih =>
    have hb := b.toNat_lt
    have hvalue : (16 * (b.toNat / 16) + b.toNat % 16).toUInt8 = b := by
      rw [show 16 * (b.toNat / 16) + b.toNat % 16 = b.toNat by omega]
      exact UInt8.ofNat_toNat
    simp only [List.flatMap_cons, Hex.byte, List.cons_append, List.nil_append, pairs?,
      Hex.digit?_digit (show b.toNat / 16 < 16 by omega), Hex.digit?_digit (show b.toNat % 16 < 16 by omega),
      Option.bind_eq_bind, Option.bind_some, hvalue]
    rw [ih, Option.bind_some]

/-- The bytes of each group of a text. -/
def groups (id : Uuid) : List (List UInt8) :=
  [(0, 4), (4, 2), (6, 2), (8, 2), (10, 6)].map fun (start, count) => (id.bytes.toList.drop start).take count

theorem flatten_groups (id : Uuid) : id.groups.flatten = id.bytes.toList := by
  have hrest : (id.bytes.toList.drop 10).take 6 = id.bytes.toList.drop 10 :=
    List.take_of_length_le (by simp)
  have hjoin (start count : Nat) :
      (id.bytes.toList.drop start).take count ++ id.bytes.toList.drop (start + count) = id.bytes.toList.drop start := by
    rw [← List.drop_drop, List.take_append_drop]
  simp only [groups, List.map_cons, List.map_nil, List.flatten_cons, List.flatten_nil, List.append_nil, hrest]
  rw [hjoin 8 2, hjoin 6 2, hjoin 4 2, hjoin 0 4, List.drop_zero]

theorem text_eq (id : Uuid) : id.text = "-".intercalate (id.groups.map Hex.encode) := rfl

theorem toList_text (id : Uuid) : id.text.toList = ['-'].intercalate (id.groups.map fun g => g.flatMap Hex.byte) := by
  rw [text_eq, String.toList_intercalate, List.map_map]
  congr 1
  exact List.map_congr_left fun g _ => String.toList_ofList

theorem splitOn_text (id : Uuid) : id.text.toList.splitOn '-' = id.groups.map fun g => g.flatMap Hex.byte := by
  rw [toList_text]
  refine List.splitOn_intercalate '-' (fun digits hdigits hdash => ?_) (by simp [groups])
  obtain ⟨g, _, rfl⟩ := List.mem_map.mp hdigits
  have hencoded : '-' ∈ (Hex.encode g).toList := by rwa [Hex.encode, String.toList_ofList]
  exact absurd (Hex.mem_alphabet_of_mem_encode hencoded) (by decide)

theorem length_flatMap_byte (bytes : List UInt8) : (bytes.flatMap Hex.byte).length = 2 * bytes.length := by
  rw [← Hex.length_encode, Hex.encode, String.toList_ofList]

theorem flatten_digits (id : Uuid) :
    (id.groups.map fun g => g.flatMap Hex.byte).flatten = id.bytes.toList.flatMap Hex.byte := by
  rw [← flatten_groups, ← List.flatMap_def, List.flatten_eq_flatMap, List.flatMap_assoc]
  rfl

theorem ofDigits?_flatMap_byte (id : Uuid) : ofDigits? (id.bytes.toList.flatMap Hex.byte) = some id := by
  have hlength : (id.bytes.toList.flatMap Hex.byte).length = 32 := by
    rw [length_flatMap_byte, Vector.length_toList]
  have hbytes : (Vector.ofFn fun i : Fin 16 => id.bytes.toList.getD i.val 0) = id.bytes := by
    ext i hi
    simp [List.getD_eq_getElem?_getD]
  rw [ofDigits?, hlength, pairs?_flatMap_byte]
  exact congrArg (fun bytes => some (Uuid.mk bytes)) hbytes

theorem ofGroups?_text (id : Uuid) : ofGroups? id.text.toList = some id := by
  have hlengths : (id.groups.map fun g => g.flatMap Hex.byte).map List.length = [8, 4, 4, 4, 12] := by
    simp only [groups, List.map_cons, List.map_nil, length_flatMap_byte]
    simp
  rw [ofGroups?, splitOn_text, if_pos hlengths, flatten_digits, ofDigits?_flatMap_byte]

theorem length_text (id : Uuid) : id.text.toList.length = 36 := by
  have hjoined (a b c d e : List Char) : ['-'].intercalate [a, b, c, d, e] =
      a ++ '-' :: (b ++ '-' :: (c ++ '-' :: (d ++ '-' :: e))) := by
    simp [List.intercalate]
  rw [toList_text, groups]
  simp only [List.map_cons, List.map_nil, hjoined, List.length_append, List.length_cons, length_flatMap_byte]
  simp

/-- **An identifier is read back from its text.** -/
theorem parse?_text (id : Uuid) : parse? id.text = some id := by
  rw [parse?, ofChars?, length_text]
  exact ofGroups?_text id

theorem isEmpty_text (id : Uuid) : id.text.isEmpty = false := by
  have hlength := id.length_text
  rw [String.isEmpty_eq_false_iff]
  rintro hempty
  rw [hempty] at hlength
  cases hlength

end Depot.Uuid
