import Depot.Proofs.Objects.BlockKeys
import Depot.Proofs.Objects.Places
import Depot.Proofs.Objects.Rooted

/-!
# Blocks in a directory

A store that is asked for nothing but blocks is a map from block hashes to contents, whatever else is being
written at the same time.

- `BlockFiles`: behind the root there are only blocks, their directories and what is being written.
- `FileStore.object?`: the content of a block.
- `Fresh`: a store whose root is empty. That is where the invariant begins.
- What reading finds at the key of a block.
-/

namespace Depot.Objects

open Content Volume

/-- Where a block stands behind the root. -/
def blockPath (h : BlockHash) : Path := blockDirectory h ++ [blockName h]

/-- Where a block is written behind the root. -/
def scratchPath (h : BlockHash) (serial : Nat) : Path := blockDirectory h ++ [scratchName h serial]

/-- What may stand behind the root after so many scratch files. -/
inductive Kept (serial : Nat) : Path → Entry → Prop where
  | directory {h : BlockHash} {a : Path} (leads : a <+: blockDirectory h) : Kept serial a .directory
  | block {h : BlockHash} {data : List UInt8} : Kept serial (blockPath h) (.file data)
  | scratch {h : BlockHash} {n : Nat} {data : List UInt8} (before : n < serial) :
    Kept serial (scratchPath h n) (.file data)

variable {s : FileStore} {real p a : Path} {h g : BlockHash} {e : Entry} {serial n : Nat} {data : List UInt8}

/-! ### Paths of blocks -/

theorem append_blockPath (q : Path) (h : BlockHash) : q ++ blockPath h = q ++ blockDirectory h ++ [blockName h] := by
  rw [blockPath, List.append_assoc]

theorem append_scratchPath (q : Path) (h : BlockHash) (n : Nat) :
    q ++ scratchPath h n = q ++ blockDirectory h ++ [scratchName h n] := by
  rw [scratchPath, List.append_assoc]

theorem blockPath_injective (heq : blockPath g = blockPath h) : g = h :=
  blockName_injective (List.singleton_inj.mp (List.append_inj' heq rfl).2)

theorem scratchPath_injective {m : Nat} (heq : scratchPath g n = scratchPath h m) : g = h ∧ n = m :=
  scratchName_injective (List.singleton_inj.mp (List.append_inj' heq rfl).2)

theorem scratchPath_ne_of_ne {m : Nat} (hne : m ≠ n) : scratchPath g m ≠ scratchPath h n := fun heq =>
  hne (scratchPath_injective heq).2

theorem blockPath_ne_scratchPath : blockPath g ≠ scratchPath h n := fun heq =>
  blockName_ne_scratchName (List.singleton_inj.mp (List.append_inj' heq rfl).2)

theorem length_of_leading (hp : a <+: blockDirectory h) : a.length ≤ 3 := hp.length_le

theorem blockPath_ne_of_leading (hp : a <+: blockDirectory h) : a ≠ blockPath g := by
  intro heq
  have := length_of_leading hp
  rw [heq] at this
  simp [blockPath, blockDirectory] at this

theorem scratchPath_ne_of_leading (hp : a <+: blockDirectory h) : a ≠ scratchPath g n := by
  intro heq
  have := length_of_leading hp
  rw [heq] at this
  simp [scratchPath, blockDirectory] at this

theorem pathSize_blockDirectory (h : BlockHash) : pathSize (blockDirectory h) = 13 := by
  obtain ⟨hfirst, hsecond, hthird⟩ : _ ∧ _ ∧ _ := by simpa [blockDirectory] using sizes_blockDirectory h
  simp [pathSize, blockDirectory, hfirst, hsecond, hthird]

theorem pathSize_blockPath (h : BlockHash) : pathSize (blockPath h) = 78 := by
  rw [blockPath, pathSize_append, pathSize_blockDirectory]
  simp [pathSize]

theorem pathSize_scratchPath (h : BlockHash) (n : Nat) : pathSize (scratchPath h n) = 119 := by
  rw [scratchPath, pathSize_append, pathSize_blockDirectory]
  simp [pathSize]

theorem short_blockDirectory {name : Name} (hname : name ∈ blockDirectory h) : name.size ≤ maxName := by
  have hmem : name.size ∈ (blockDirectory h).map Name.size := List.mem_map_of_mem hname
  rw [sizes_blockDirectory] at hmem
  simp only [maxName]
  grind

theorem short_blockPath {name : Name} (hname : name ∈ blockPath h) : name.size ≤ maxName := by
  rcases List.mem_append.mp hname with hdir | hlast
  · exact short_blockDirectory hdir
  · rw [List.mem_singleton.mp hlast, size_blockName]
    decide

theorem short_scratchPath {name : Name} (hname : name ∈ scratchPath h n) : name.size ≤ maxName := by
  rcases List.mem_append.mp hname with hdir | hlast
  · exact short_blockDirectory hdir
  · rw [List.mem_singleton.mp hlast, size_scratchName]
    decide

/-! ### What may stand where -/

theorem Kept.of_leading (hkept : Kept serial a e) (hp : a <+: blockDirectory h) : e = .directory := by
  cases hkept with
  | directory _ => rfl
  | block => exact absurd rfl (blockPath_ne_of_leading hp)
  | scratch _ => exact absurd rfl (scratchPath_ne_of_leading hp)

theorem Kept.of_blockPath (hkept : Kept serial p e) (hp : p = blockPath h) : ∃ data, e = .file data := by
  cases hkept with
  | directory hlead => exact absurd hp (blockPath_ne_of_leading hlead)
  | block => exact ⟨_, rfl⟩
  | scratch _ => exact ⟨_, rfl⟩

theorem Kept.of_scratchPath (hkept : Kept serial p e) (hp : p = scratchPath h n) :
    (∃ data, e = .file data) ∧ n < serial := by
  cases hkept with
  | directory hlead => exact absurd hp (scratchPath_ne_of_leading hlead)
  | block => exact absurd hp blockPath_ne_scratchPath
  | scratch hbefore => exact ⟨⟨_, rfl⟩, (scratchPath_injective hp).2 ▸ hbefore⟩

theorem Kept.mono {later : Nat} (hkept : Kept serial p e) (hle : serial ≤ later) : Kept later p e := by
  cases hkept with
  | directory hlead => exact .directory hlead
  | block => exact .block
  | scratch hbefore => exact .scratch (Nat.lt_of_lt_of_le hbefore hle)

/-! ### The invariant -/

/-- One of the uploads of a store is of a block. -/
structure IsUpload (s : FileStore) (real : Path) (n : Nat) (u : FileUpload) (h : BlockHash) : Prop where
  place : u.place = ⟨s.root ++ blockPath h, false⟩
  scratch : u.scratch = s.root ++ scratchPath h n
  before : n < s.serial
  there : ∃ data, s.volume.entry? (real ++ scratchPath h n) = some (.file data)

/-- The root of a store leads to `real`, below which there are only blocks, their directories and what is being
written, and there is room for the longest paths. -/
structure BlockFiles (s : FileStore) (real : Path) : Prop where
  rooted : Rooted s.volume s.root real
  fits : pathSize s.root + 119 ≤ maxPath
  shape : ∀ p e, p ≠ [] → s.volume.entry? (real ++ p) = some e → Kept s.serial p e
  uploads : ∀ entry ∈ s.uploads, ∃ h, IsUpload s real entry.1 entry.2 h
  distinct : (s.uploads.map Prod.fst).Nodup

/-- The content of a block. -/
def FileStore.object? (s : FileStore) (real : Path) (h : BlockHash) : Option (List UInt8) :=
  match s.volume.entry? (real ++ blockPath h) with
  | some (.file data) => some data
  | _ => none

namespace BlockFiles

theorem fits_of_le (hs : BlockFiles s real) (hp : pathSize p ≤ 119) : pathSize (s.root ++ p) ≤ maxPath := by
  have hfits := hs.fits
  rw [pathSize_append]
  omega

theorem fits_root (hs : BlockFiles s real) : pathSize s.root ≤ maxPath :=
  Nat.le_trans (Nat.le_add_right _ _) hs.fits

theorem linkFree (hs : BlockFiles s real) : LinkFree s.volume s.root real := hs.rooted.linkFree hs.fits_root

theorem fits_blockDirectory (hs : BlockFiles s real) (h : BlockHash) :
    pathSize (s.root ++ blockDirectory h) ≤ maxPath := hs.fits_of_le (by rw [pathSize_blockDirectory]; decide)

theorem fits_blockPath (hs : BlockFiles s real) (h : BlockHash) : pathSize (s.root ++ blockPath h) ≤ maxPath :=
  hs.fits_of_le (by rw [pathSize_blockPath]; decide)

theorem fits_scratchPath (hs : BlockFiles s real) (h : BlockHash) (n : Nat) :
    pathSize (s.root ++ scratchPath h n) ≤ maxPath := hs.fits_of_le (Nat.le_of_eq (pathSize_scratchPath h n))

theorem entry?_blockPath (hs : BlockFiles s real) (h : BlockHash) :
    s.volume.entry? (real ++ blockPath h) = (s.object? real h).map .file := by
  rw [FileStore.object?]
  cases hentry : s.volume.entry? (real ++ blockPath h) with
  | none => rfl
  | some e =>
    obtain ⟨data, rfl⟩ := (hs.shape _ _ (by simp [blockPath]) hentry).of_blockPath rfl
    rfl

theorem entry?_leading (hs : BlockFiles s real) (ha : a <+: blockDirectory h) :
    s.volume.entry? (real ++ a) = none ∨ s.volume.entry? (real ++ a) = some .directory := by
  by_cases hnil : a = []
  · rw [hnil, List.append_nil]
    exact .inr hs.rooted.directory
  · cases hentry : s.volume.entry? (real ++ a) with
    | none => exact .inl rfl
    | some e => exact .inr (by rw [(hs.shape a e hnil hentry).of_leading ha])

theorem prefix_of_append {b c : Path} (hp : blockPath h = b ++ c) (hc : c ≠ []) : b <+: blockDirectory h := by
  have hprefix : b <+: blockDirectory h ++ [blockName h] := ⟨c, hp.symm⟩
  rcases List.prefix_concat_iff.mp hprefix with heq | hdir
  · rw [blockPath, ← heq, List.self_eq_append_right] at hp
    exact absurd hp hc
  · exact hdir

theorem free_leading (hs : BlockFiles s real) (ha : a <+: blockPath h) : Rooted.Free s.volume real a := by
  obtain ⟨rest, hrest⟩ := ha
  rintro b c rfl hc
  have hsplit : blockPath h = b ++ (c ++ rest) := by rw [← hrest, List.append_assoc]
  exact hs.entry?_leading (prefix_of_append hsplit (by simp [hc]))

theorem stat_leading (hs : BlockFiles s real) (follow : Bool) (ha : a <+: blockPath h) (hne : a ≠ []) :
    s.volume.stat follow ⟨s.root ++ a, false⟩ =
      match s.volume.entry? (real ++ a) with
      | none => .error .missing
      | some e => .ok (real ++ a, e) := by
  obtain ⟨rest, hrest⟩ := ha
  have hsize := pathSize_append a rest
  rw [hrest, pathSize_blockPath] at hsize
  refine hs.rooted.stat_eq (hs.fits_of_le (by omega)) (fun name hname => ?_) hne (hs.free_leading ⟨rest, hrest⟩)
  exact short_blockPath (h := h) (hrest ▸ List.mem_append_left rest hname)

theorem stat_block (hs : BlockFiles s real) (follow : Bool) (h : BlockHash) :
    s.volume.stat follow ⟨s.root ++ blockPath h, false⟩ =
      match s.object? real h with
      | none => .error .missing
      | some data => .ok (real ++ blockPath h, .file data) := by
  rw [hs.stat_leading follow ⟨[], List.append_nil _⟩ (by simp [blockPath]), hs.entry?_blockPath]
  cases s.object? real h <;> rfl

/-! ### Places -/

theorem stat_ancestor (hs : BlockFiles s real) (h : BlockHash) (n : Nat) :
    s.volume.stat false ⟨s.root ++ (blockPath h).take n, false⟩ = .error .missing ∨
      ∃ q e, s.volume.stat false ⟨s.root ++ (blockPath h).take n, false⟩ = .ok (q, e) := by
  by_cases hnil : (blockPath h).take n = []
  · rw [hnil, List.append_nil]
    exact .inr (hs.linkFree.exists_stat_root)
  · rw [hs.stat_leading false (List.take_prefix _ _) hnil]
    cases s.volume.entry? (real ++ (blockPath h).take n) with
    | none => exact .inl rfl
    | some e => exact .inr ⟨_, e, rfl⟩

theorem locate_objectKey (hs : BlockFiles s real) (h : BlockHash) :
    s.locate h.objectKey = .ok ⟨s.root ++ blockPath h, false⟩ := by
  have hnames : ["blocks", String.ofList (h.hex.toList.take 2), String.ofList ((h.hex.toList.drop 2).take 2),
      h.hex] ≠ [] := List.cons_ne_nil _ _
  have hplace : s.locationOf ⟨["blocks", String.ofList (h.hex.toList.take 2),
      String.ofList ((h.hex.toList.drop 2).take 2), h.hex], false⟩ = ⟨s.root ++ blockPath h, false⟩ := rfl
  rw [FileStore.locate_eq hs.linkFree.stat_root hnames hs.linkFree.noLinks (parse_objectKey h), FileStore.placeOf,
    noNul_objectKey, hplace]
  obtain ⟨rest, hancestry⟩ := FileStore.ancestry_append s.root (blockPath h) false
  obtain ⟨q, e, hroot⟩ := hs.linkFree.exists_stat_root
  have hbase := FileStore.root_mem_wayBack (p := blockPath h) (by simp [blockPath]) s.root false
  rw [hancestry]
  rcases FileStore.nearest?_append rest ⟨_, hbase, _, hroot⟩ with
    ⟨l, hl, fault, hfault, hstat, _⟩ | ⟨l, _, q, e, _, hnearest⟩
  · -- Nothing fails on the way to a block, for what is there is a directory.
    exfalso
    obtain ⟨n, rfl⟩ : ∃ n, l = ⟨s.root ++ (blockPath h).take n, false⟩ := by
      rcases FileStore.of_mem_wayBack hl with rfl | hl
      · exact ⟨(blockPath h).length, by rw [List.take_length]⟩
      · exact hl
    rcases hs.stat_ancestor h n with hmissing | ⟨q, e, hthere⟩
    · rw [hmissing] at hstat
      exact hfault (Except.error.inj hstat).symm
    · rw [hthere] at hstat
      cases hstat
  · rw [hnearest]
    rfl

/-! ### Reading -/

theorem contains_eq (hs : BlockFiles s real) (h : BlockHash) :
    s.contains h.objectKey = .ok (s.object? real h).isSome := by
  rw [FileStore.contains, hs.locate_objectKey, ok_bind, hs.stat_block]
  cases s.object? real h <;> rfl

theorem find_eq (hs : BlockFiles s real) (h : BlockHash) :
    s.find h.objectKey =
      match s.object? real h with
      | none => .error (.notFound h.objectKey)
      | some data => .ok (.file data) := by
  rw [FileStore.find, hs.locate_objectKey, ok_bind, hs.stat_block]
  cases s.object? real h <;> rfl

theorem head_eq (hs : BlockFiles s real) (h : BlockHash) :
    s.head h.objectKey =
      match s.object? real h with
      | none => .error (.notFound h.objectKey)
      | some data => .ok ⟨data.length, true, none⟩ := by
  rw [FileStore.head, hs.find_eq]
  cases s.object? real h <;> rfl

theorem stream_eq (hs : BlockFiles s real) (h : BlockHash) :
    s.stream h.objectKey =
      match s.object? real h with
      | none => .error (.notFound h.objectKey)
      | some data => .ok ⟨data, none⟩ := by
  rw [FileStore.stream, hs.find_eq]
  cases s.object? real h <;> rfl

theorem presign_eq (hs : BlockFiles s real) (h : BlockHash) (ttl : Lifetime) (now : Time.DateTime) :
    s.presign h.objectKey ttl now = s.signer.sign h.objectKey ttl now := by
  rw [FileStore.presign, hs.locate_objectKey]
  rfl

end BlockFiles

/-! ### Where it begins -/

/-- The root of a store leads to an empty directory, nothing is being written, and there is room for the longest
paths. -/
structure Fresh (s : FileStore) (real : Path) : Prop where
  led : s.volume.stat true ⟨s.root, false⟩ = .ok (real, .directory)
  empty : ∀ p, p ≠ [] → s.volume.entry? (real ++ p) = none
  fits : pathSize s.root + 119 ≤ maxPath
  idle : s.uploads = []

theorem Fresh.walk_eq (hs : Fresh s real) :
    s.volume.walk true maxLinks [] s.root = .ok real ∧ s.volume.entry? real = some .directory := by
  obtain ⟨hresolve, hthere⟩ := stat_eq_ok hs.led
  exact ⟨(resolve_eq_ok hresolve).2, hthere⟩

theorem Fresh.blockFiles (hs : Fresh s real) : BlockFiles s real := by
  obtain ⟨hwalk, hdirectory⟩ := hs.walk_eq
  have hlinks : NoLinksBelow s.volume real := by
    rintro p target ⟨name, rest, rfl⟩
    rw [hs.empty _ (List.cons_ne_nil _ _)]
    exact nofun
  have hled := exists_leads hlinks hdirectory hwalk
  refine ⟨⟨hled, hdirectory, fun p target => ?_, fun p name hthere => ?_⟩, hs.fits, fun p e hp hthere => ?_, ?_, ?_⟩
  · by_cases hp : p = []
    · rw [hp, List.append_nil, hdirectory]
      simp
    · rw [hs.empty p hp]
      simp
  · rw [List.append_assoc, hs.empty _ (by simp)] at hthere
    exact absurd rfl hthere
  · rw [hs.empty p hp] at hthere
    cases hthere
  · simp [hs.idle]
  · simp [hs.idle]

theorem Fresh.object?_eq (hs : Fresh s real) (h : BlockHash) : s.object? real h = none := by
  rw [FileStore.object?, hs.empty _ (by simp [blockPath])]

theorem fresh_root (signer : UrlSigner) : Fresh ⟨⟨[]⟩, [], signer, [], 0⟩ [] := by
  refine ⟨?_, fun p hp => ?_, ?_, rfl⟩
  · simp only [stat, resolve, walk_nil]
    rfl
  · cases p with
    | nil => exact absurd rfl hp
    | cons name rest => rfl
  · change pathSize [] + 119 ≤ maxPath
    decide

end Depot.Objects
