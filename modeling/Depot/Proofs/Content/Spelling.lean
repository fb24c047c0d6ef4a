import Depot.Content.Block
import Depot.Proofs.Outcome
import Depot.Proofs.Text.Digits

/-!
# Spelling hashes

A hash reads back from its 64 digits, so two hashes with the same digits are equal, and blocks that hash to a
file's hash compose the file by their texts.
-/

namespace Depot.Content

open Text

theorem pairs_byte (text : String) (b : UInt8) (rest : List UInt8) :
    Hash.pairs text (asciiBytes (Hex.byte b) ++ rest) = (Hash.pairs text rest).map (b :: ·) := by
  have hb := b.toNat_lt
  have hhigh : b.toNat / 16 < 16 := by omega
  have hlow : b.toNat % 16 < 16 := by omega
  have hdigits : ∀ i : Fin 16, (Hex.digit i).toNat.toUInt8 < 128 ∧ (Hex.digit i).toNat.toUInt8 ≠ 43 ∧
      (Hex.digit i).toNat < 128 := by decide
  obtain ⟨hhigh128, hplus, hhighAscii⟩ := hdigits ⟨b.toNat / 16, hhigh⟩
  obtain ⟨hlow128, _, hlowAscii⟩ := hdigits ⟨b.toNat % 16, hlow⟩
  have hfault : Utf8.firstFault? [(Hex.digit (b.toNat / 16)).toNat.toUInt8, (Hex.digit (b.toNat % 16)).toNat.toUInt8] =
      none := by
    simp only at hhigh128 hlow128
    simp [Utf8.firstFault?, Utf8.faultFrom?, Utf8.followers?, hhigh128, hlow128, Utf8.tailFault?]
  have hpair :
      Hash.pair? (Hex.digit (b.toNat / 16)).toNat.toUInt8 (Hex.digit (b.toNat % 16)).toNat.toUInt8 = some b := by
    simp only at hhigh128 hlow128 hplus hhighAscii hlowAscii
    have hvalue : (16 * (b.toNat / 16) + b.toNat % 16).toUInt8 = b := by
      rw [show 16 * (b.toNat / 16) + b.toNat % 16 = b.toNat by omega]
      exact UInt8.ofNat_toNat
    simp only [Hash.pair?, beq_iff_eq, if_neg hplus, if_pos hhigh128, if_pos hlow128,
      ofNat_toNat_toUInt8 hhighAscii, ofNat_toNat_toUInt8 hlowAscii, Hex.digit?_digit hhigh, Hex.digit?_digit hlow,
      Option.bind_eq_bind, Option.bind_some, hvalue]
  simp only [asciiBytes, Hex.byte, List.map_cons, List.map_nil, List.cons_append, List.nil_append, Hash.pairs, hfault,
    hpair]

theorem pairs_encode (text : String) (bytes : List UInt8) :
    Hash.pairs text (asciiBytes (bytes.flatMap Hex.byte)) = .ok bytes := by
  induction bytes with
  | nil => rfl
  | cons b rest ih =>
    rw [List.flatMap_cons, asciiBytes, List.map_append]
    exact (pairs_byte text b _).trans (by rw [← asciiBytes, ih, map_ok])

theorem utf8_hex (h : Hash) : utf8 h.hex = asciiBytes (h.bytes.toList.flatMap Hex.byte) := by
  refine utf8_ofList fun c hc => Hex.toNat_lt_of_mem_alphabet (@Hex.mem_alphabet_of_mem_encode h.bytes.toList c ?_)
  rwa [Hex.encode, String.toList_ofList]

theorem length_hex (h : Hash) : h.hex.toList.length = 64 := by
  rw [Hash.hex, Hex.length_encode, Vector.length_toList]

namespace Hash

@[simp] theorem parse_hex (h : Hash) : parse h.hex = .ok h := by
  have hlength : (utf8 h.hex).length = 64 := by
    rw [utf8_hex, asciiBytes, List.length_map]
    simpa [hex, Hex.encode] using length_hex h
  simp only [parse, hlength, ne_eq, not_true_eq_false, if_false]
  rw [utf8_hex, pairs_encode, map_ok]
  have hbytes : (Vector.ofFn fun i : Fin 32 => h.bytes.toList.getD i.val 0) = h.bytes := by
    apply Vector.ext
    intro i hi
    simp
  rw [hbytes]

theorem hex_injective {a b : Hash} (h : a.hex = b.hex) : a = b := by
  have hparse := parse_hex a
  rw [h, parse_hex] at hparse
  exact (Except.ok.inj hparse).symm

end Hash

@[simp] theorem BlockHash.parse_hex (h : BlockHash) : BlockHash.parse h.hex = .ok h := by
  rw [BlockHash.parse, BlockHash.hex, Hash.parse_hex, map_ok]

@[simp] theorem FileHash.parse_hex (h : FileHash) : FileHash.parse h.hex = .ok h := by
  rw [FileHash.parse, FileHash.hex, Hash.parse_hex, map_ok]

theorem BlockHash.hex_injective {a b : BlockHash} (h : a.hex = b.hex) : a = b :=
  congrArg BlockHash.mk (Hash.hex_injective h)

theorem FileHash.hex_injective {a b : FileHash} (h : a.hex = b.hex) : a = b :=
  congrArg FileHash.mk (Hash.hex_injective h)

theorem blocksCompose_hex (file : FileHash) (blocks : List BlockHash) :
    blocksCompose file.hex (blocks.map BlockHash.hex) = (FileHash.ofBlocks blocks == file) := by
  rw [blocksCompose, FileHash.parse_hex, mapM_map_eq_ok fun b _ => BlockHash.parse_hex b]

theorem exists_hashes {texts : List String} (h : ∀ text ∈ texts, ∃ hash : BlockHash, text = hash.hex) :
    ∃ blocks : List BlockHash, texts = blocks.map BlockHash.hex := by
  induction texts with
  | nil => exact ⟨[], rfl⟩
  | cons text rest ih =>
    obtain ⟨hash, rfl⟩ := h _ List.mem_cons_self
    obtain ⟨blocks, rfl⟩ := ih fun other hother => h other (List.mem_cons_of_mem _ hother)
    exact ⟨hash :: blocks, rfl⟩

theorem parse_of_blocksCompose {file : String} {blocks : List BlockHash}
    (h : blocksCompose file (blocks.map BlockHash.hex)) : FileHash.parse file = .ok (.ofBlocks blocks) := by
  rw [blocksCompose, mapM_map_eq_ok fun b _ => BlockHash.parse_hex b] at h
  cases hparse : FileHash.parse file with
  | error e =>
    rw [hparse] at h
    cases h
  | ok expected =>
    rw [hparse] at h
    rw [beq_iff_eq.mp h]

theorem exists_parse_of_blocksCompose {file : String} {texts : List String} (h : blocksCompose file texts) :
    ∃ hash, FileHash.parse file = .ok hash := by
  unfold blocksCompose at h
  split at h
  · rename_i hash _ hparse _
    exact ⟨hash, hparse⟩
  · cases h

end Depot.Content
