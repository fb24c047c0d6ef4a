import Depot.Objects.Files
import Depot.Proofs.Content.Spelling

/-!
# Keys of blocks

The key of a block leads through three directories, which its first digits name, to a file that all of its
digits name.
-/

namespace Depot.Objects

open Content Text

variable (h : BlockHash)

/-- The directories that the key of a block leads through. -/
def blockDirectory : Path :=
  [.plain "blocks", .plain (String.ofList (h.hex.toList.take 2)),
    .plain (String.ofList ((h.hex.toList.drop 2).take 2))]

/-- The name of a block in its directory. -/
def blockName : Name := .plain h.hex

/-- The name under which a block is written. -/
def scratchName (serial : Nat) : Name := .scratch h.hex serial

variable {h}

theorem mem_alphabet_of_mem_hex {c : Char} (hc : c ∈ h.hex.toList) : c ∈ Hex.alphabet :=
  Hex.mem_alphabet_of_mem_encode hc

theorem ne_of_mem_hex {c d : Char} (hd : d ∉ Hex.alphabet) (hc : c ∈ h.hex.toList) : c ≠ d := fun heq =>
  hd (heq ▸ mem_alphabet_of_mem_hex hc)

variable (h)

theorem toList_objectKey :
    h.objectKey.toList = "blocks".toList ++ '/' :: (h.hex.toList.take 2 ++
      '/' :: ((h.hex.toList.drop 2).take 2 ++ '/' :: h.hex.toList)) := by
  simp [BlockHash.objectKey]

theorem parts_objectKey :
    Key.parts h.objectKey = ["blocks", String.ofList (h.hex.toList.take 2),
      String.ofList ((h.hex.toList.drop 2).take 2), h.hex] := by
  have hslash : '/' ∉ h.hex.toList := fun hmem => ne_of_mem_hex (d := '/') (by decide) hmem rfl
  have hfirst : '/' ∉ h.hex.toList.take 2 := fun hmem => hslash (List.mem_of_mem_take hmem)
  have hsecond : '/' ∉ (h.hex.toList.drop 2).take 2 := fun hmem =>
    hslash (List.mem_of_mem_drop (List.mem_of_mem_take hmem))
  rw [Key.parts, toList_objectKey, List.splitOn_append_cons_of_beq _ _ (by simp),
    List.splitOn_append_cons_of_beq _ _ (by simp), List.splitOn_append_cons_of_beq _ _ (by simp),
    List.splitOn_eq_singleton hslash, List.splitOn_eq_singleton hfirst, List.splitOn_eq_singleton hsecond,
    List.splitOn_eq_singleton (by decide)]
  simp

theorem ofList_digits_ne {digits : List Char} (hne : digits ≠ []) (hdigits : ∀ c ∈ digits, c ∈ Hex.alphabet) :
    Key.isSkipped (String.ofList digits) = false ∧ String.ofList digits ≠ ".." := by
  have hdot : ∀ s : String, '.' ∈ s.toList → String.ofList digits ≠ s := by
    intro s hmem heq
    have hchar := hdigits '.' (by rwa [← heq, String.toList_ofList] at hmem)
    exact absurd hchar (by decide)
  refine ⟨?_, hdot ".." (by decide)⟩
  simp only [Key.isSkipped, Bool.or_eq_false_iff, beq_eq_false_iff_ne]
  refine ⟨fun heq => hne ?_, hdot "." (by decide)⟩
  simpa using congrArg String.toList heq

theorem parse_objectKey :
    Key.parse h.objectKey = .ok ⟨["blocks", String.ofList (h.hex.toList.take 2),
      String.ofList ((h.hex.toList.drop 2).take 2), h.hex], false⟩ := by
  have hlength : h.hex.toList.length = 64 := length_hex h.hash
  obtain ⟨hfirst, hfirstUp⟩ := @ofList_digits_ne (h.hex.toList.take 2) (List.ne_nil_of_length_pos (by simp [hlength]))
    fun c hc => mem_alphabet_of_mem_hex (List.mem_of_mem_take hc)
  obtain ⟨hsecond, hsecondUp⟩ := @ofList_digits_ne ((h.hex.toList.drop 2).take 2)
    (List.ne_nil_of_length_pos (by simp [hlength]))
    fun c hc => mem_alphabet_of_mem_hex (List.mem_of_mem_drop (List.mem_of_mem_take hc))
  obtain ⟨hlast, hlastUp⟩ := @ofList_digits_ne h.hex.toList (List.ne_nil_of_length_pos (by rw [hlength]; decide))
    fun c hc => mem_alphabet_of_mem_hex hc
  rw [String.ofList_toList] at hlast hlastUp
  have hhead : h.objectKey.toList.head? = some 'b' := by
    rw [toList_objectKey]
    rfl
  have hempty : ¬h.objectKey.isEmpty := by
    intro heq
    rw [String.isEmpty_iff] at heq
    simp [heq] at hhead
  have hsafe : Key.isUnsafe h.objectKey = false := by
    simp [Key.isUnsafe, parts_objectKey, Ne.symm hfirstUp, Ne.symm hsecondUp, Ne.symm hlastUp]
  rw [Key.parse, if_neg (by simp [hempty, hhead]), if_neg (by simp [hsafe]), parts_objectKey]
  simp [hfirst, hsecond, hlast, show Key.isSkipped "blocks" = false by decide]

theorem noNul_objectKey : h.objectKey.toList.contains (Char.ofNat 0) = false := by
  have hhex : Char.ofNat 0 ∉ h.hex.toList := fun hmem => ne_of_mem_hex (d := Char.ofNat 0) (by decide) hmem rfl
  rw [toList_objectKey]
  simp only [List.contains_eq_mem, decide_eq_false_iff_not, List.mem_append, List.mem_cons, not_or]
  exact ⟨by decide, by decide, fun hmem => hhex (List.mem_of_mem_take hmem), by decide,
    fun hmem => hhex (List.mem_of_mem_drop (List.mem_of_mem_take hmem)), by decide, hhex⟩

/-! ### Sizes -/

theorem size_digits {digits : List Char} (hdigits : ∀ c ∈ digits, c ∈ h.hex.toList) :
    (String.ofList digits).utf8ByteSize = digits.length :=
  utf8ByteSize_ofList fun c hc => Hex.toNat_lt_of_mem_alphabet (mem_alphabet_of_mem_hex (hdigits c hc))

theorem size_hex : h.hex.utf8ByteSize = 64 := by
  have hsize := @size_digits h h.hex.toList fun c hc => hc
  rwa [String.ofList_toList, show h.hex.toList.length = 64 from length_hex h.hash] at hsize

theorem sizes_blockDirectory : (blockDirectory h).map Name.size = [6, 2, 2] := by
  have hlength : h.hex.toList.length = 64 := length_hex h.hash
  have hfirst := @size_digits h (h.hex.toList.take 2) fun c hc => List.mem_of_mem_take hc
  have hsecond := @size_digits h ((h.hex.toList.drop 2).take 2) fun c hc =>
    List.mem_of_mem_drop (List.mem_of_mem_take hc)
  rw [List.length_take, hlength] at hfirst
  rw [List.length_take, List.length_drop, hlength] at hsecond
  simp [blockDirectory, Name.size, hfirst, hsecond]
  decide

@[simp] theorem size_blockName : (blockName h).size = 64 := size_hex h

@[simp] theorem size_scratchName (serial : Nat) : (scratchName h serial).size = 105 := by
  rw [scratchName, Name.size, size_hex]

/-! ### Places of different blocks -/

variable {h} {g : BlockHash}

theorem blockName_injective (heq : blockName g = blockName h) : g = h :=
  BlockHash.hex_injective (Name.plain.inj heq)

theorem scratchName_injective {n m : Nat} (heq : scratchName g n = scratchName h m) : g = h ∧ n = m := by
  obtain ⟨hhex, hserial⟩ := Name.scratch.inj heq
  exact ⟨BlockHash.hex_injective hhex, hserial⟩

theorem blockName_ne_scratchName {n : Nat} : blockName g ≠ scratchName h n := nofun

end Depot.Objects
