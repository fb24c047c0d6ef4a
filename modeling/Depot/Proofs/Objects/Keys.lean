import Depot.Proofs.Objects.BlockFiles
import Depot.Proofs.Text.Plain

/-!
# Where keys lead

- `Key.LeadsOut`: a key that is refused, since it would lead out of a directory or name none of its entries. All
  others are read as their names (`Key.parse_eq`), of which there is one at least (`Key.components_ne_nil`).
- `objectPath`: where the object of a key stands. Keys of blocks lead to their blocks.
-/

namespace Depot.Objects

open Content Text Volume

namespace Key

variable {key other : String}

/-- The parts of a key without empty ones and single dots. -/
def components (key : String) : List String := (parts key).filter fun part => !isSkipped part

/-- A key that is empty, that begins with a slash, with a backslash or with a single dot as its first part, or that has
two dots as one of its parts. -/
def LeadsOut (key : String) : Prop :=
  key = "" ∨ key.toList.head? = some '/' ∨ key.toList.head? = some '\\' ∨ (parts key).head? = some "." ∨
    ".." ∈ parts key

instance (key : String) : Decidable (LeadsOut key) := inferInstanceAs (Decidable (_ ∨ _ ∨ _ ∨ _ ∨ _))

/-- The last part of a key is a name. -/
def EndsInName (key : String) : Prop := (parts key).getLast?.any isSkipped = false

instance (key : String) : Decidable (EndsInName key) := inferInstanceAs (Decidable (_ = _))

theorem exists_parse_of_leadsOut (h : LeadsOut key) : ∃ why, parse key = .error (.invalidKey why) := by
  rw [parse]
  split
  · exact ⟨_, rfl⟩
  · rename_i hbegin
    rcases h with rfl | hslash | hbackslash | hdot | hup
    · exact absurd (.inl rfl) hbegin
    · exact absurd (.inr (.inl hslash)) hbegin
    · exact absurd (.inr (.inr hbackslash)) hbegin
    · rw [if_pos (by simp [isUnsafe, hdot])]
      exact ⟨_, rfl⟩
    · rw [if_pos (by simp [isUnsafe, hup])]
      exact ⟨_, rfl⟩

/-- What a key that is accepted is read as. -/
def reading (key : String) : Key := ⟨components key, (parts key).getLast?.any isSkipped⟩

theorem parse_eq (h : ¬LeadsOut key) : parse key = .ok (reading key) := by
  obtain ⟨hempty, hslash, hbackslash, hdot, hup⟩ : key ≠ "" ∧ key.toList.head? ≠ some '/' ∧
      key.toList.head? ≠ some '\\' ∧ (parts key).head? ≠ some "." ∧ ".." ∉ parts key := by
    simpa only [LeadsOut, not_or] using h
  rw [parse, if_neg (by simp [hempty, hslash, hbackslash]), if_neg (by simp [isUnsafe, hdot, hup])]
  rfl

theorem head?_parts_ne (hempty : key ≠ "") (hslash : key.toList.head? ≠ some '/') : (parts key).head? ≠ some "" := by
  rw [parts, List.head?_map]
  cases hkey : key.toList with
  | nil => exact absurd (String.toList_eq_nil_iff.mp hkey) hempty
  | cons c rest =>
    have hc : ¬(c == '/') = true := fun heq => hslash (by rw [hkey, beq_iff_eq.mp heq]; rfl)
    obtain ⟨first, more, hparts⟩ := List.exists_cons_of_ne_nil (List.splitOn_ne_nil '/' rest)
    rw [List.splitOn_cons_eq_if_modifyHead, if_neg hc, hparts, List.modifyHead_cons, List.head?_cons,
      Option.map_some]
    intro heq
    have hnil := congrArg String.toList (Option.some.inj heq)
    rw [String.toList_ofList] at hnil
    cases hnil

theorem components_ne_nil (h : ¬LeadsOut key) : components key ≠ [] := by
  obtain ⟨hempty, hslash, _, hdot, _⟩ : key ≠ "" ∧ key.toList.head? ≠ some '/' ∧
      key.toList.head? ≠ some '\\' ∧ (parts key).head? ≠ some "." ∧ ".." ∉ parts key := by
    simpa only [LeadsOut, not_or] using h
  have hfirst := head?_parts_ne hempty hslash
  cases hparts : parts key with
  | nil => exact absurd (List.map_eq_nil_iff.mp hparts) (List.splitOn_ne_nil _ _)
  | cons first more =>
    rw [hparts, List.head?_cons] at hfirst hdot
    have hname : isSkipped first = false := by
      simpa [isSkipped] using And.intro (fun heq => hfirst (congrArg some heq)) fun heq => hdot (congrArg some heq)
    rw [components, hparts, List.filter_cons_of_pos (by simp [hname])]
    exact List.cons_ne_nil _ _

theorem reading_congr (hkey : EndsInName key) (hother : EndsInName other) (hsame : components key = components other) :
    reading key = reading other := by
  rw [EndsInName] at hkey hother
  rw [reading, hsame, hkey, reading, hother]

/-- A character other than the slash and the dot is in a key if it is in one of the key's names, and only then. -/
theorem mem_toList_iff {c : Char} (hslash : c ≠ '/') (hdot : c ≠ '.') :
    c ∈ key.toList ↔ ∃ name ∈ components key, c ∈ name.toList := by
  rw [← exists_mem_splitOn_iff hslash]
  constructor
  · rintro ⟨piece, hpiece, hc⟩
    refine ⟨String.ofList piece, List.mem_filter.mpr ⟨List.mem_map_of_mem hpiece, ?_⟩, by rwa [String.toList_ofList]⟩
    have hempty : String.ofList piece ≠ "" := fun heq => by
      have hnil := congrArg String.toList heq
      rw [String.toList_ofList] at hnil
      rw [hnil] at hc
      cases hc
    have hsingle : String.ofList piece ≠ "." := fun heq => by
      have hlist := congrArg String.toList heq
      rw [String.toList_ofList] at hlist
      rw [hlist] at hc
      exact hdot (List.mem_singleton.mp hc)
    simp [isSkipped, hempty, hsingle]
  · rintro ⟨name, hname, hc⟩
    obtain ⟨piece, hpiece, rfl⟩ := List.mem_map.mp (List.mem_filter.mp hname).1
    exact ⟨piece, hpiece, by rwa [String.toList_ofList] at hc⟩

end Key

/-! ### Places -/

variable {real : Path} {key other : String} {g h : BlockHash}

/-- Where the object of a key stands. -/
def objectPath (real : Path) (key : String) : Path := real ++ (Key.components key).map .plain

theorem map_plain_ne_nil (hin : ¬Key.LeadsOut key) : (Key.components key).map Name.plain ≠ [] := fun hnil =>
  Key.components_ne_nil hin (List.map_eq_nil_iff.mp hnil)

theorem below_objectPath (hin : ¬Key.LeadsOut key) : Below real (objectPath real key) :=
  below_append (map_plain_ne_nil hin)

theorem objectPath_eq_iff :
    objectPath real key = objectPath real other ↔ Key.components key = Key.components other := by
  refine ⟨fun heq => ?_, fun heq => by rw [objectPath, heq, objectPath]⟩
  exact (List.map_inj_right fun _ _ hname => Name.plain.inj hname).mp (List.append_cancel_left heq)

/-! ### Keys of blocks -/

theorem not_leadsOut_objectKey (h : BlockHash) : ¬Key.LeadsOut h.objectKey := fun hout => by
  obtain ⟨why, herror⟩ := Key.exists_parse_of_leadsOut hout
  rw [parse_objectKey] at herror
  cases herror

theorem reading_objectKey (h : BlockHash) :
    Key.reading h.objectKey =
      ⟨["blocks", String.ofList (h.hex.toList.take 2), String.ofList ((h.hex.toList.drop 2).take 2), h.hex], false⟩ :=
  Except.ok.inj ((Key.parse_eq (not_leadsOut_objectKey h)).symm.trans (parse_objectKey h))

theorem objectPath_objectKey (real : Path) (h : BlockHash) : objectPath real h.objectKey = real ++ blockPath h := by
  have hcomponents := congrArg Key.names (reading_objectKey h)
  dsimp only [Key.reading] at hcomponents
  rw [objectPath, hcomponents]
  rfl

theorem endsInName_objectKey (h : BlockHash) : Key.EndsInName h.objectKey := by
  have hdirectory := congrArg Key.asDirectory (reading_objectKey h)
  dsimp only [Key.reading] at hdirectory
  rw [Key.EndsInName, hdirectory]

theorem not_prefix_of_ne (hne : g ≠ h) : ¬objectPath real g.objectKey <+: objectPath real h.objectKey := by
  rw [objectPath_objectKey, objectPath_objectKey, List.prefix_append_right_inj]
  intro hleads
  have hlength : (blockPath g).length = (blockPath h).length := by simp [blockPath, blockDirectory]
  exact hne (blockPath_injective (hleads.eq_of_length hlength))

end Depot.Objects
