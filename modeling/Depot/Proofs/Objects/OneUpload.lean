import Depot.Proofs.Objects.BlockStore

/-!
# One upload after another

A store in which at most one upload is under way has nothing but blocks once that upload is over, for its scratch file
has become the block or is gone.

- `ObjectStore.OnlyBlocks`: what is stored besides blocks.
- `Idle`: a store that serves and has only blocks. `Busy`: the same while one block is written.
- `Idle.openUpload`, `Busy.write`, `Busy.finish`, `Busy.abort`: the calls of an upload lead from one to the other.
- `ObjectStore.Consists`, `Idle.consists`: the blocks are all that is stored.
-/

namespace Depot.Objects

open Content Volume

variable {real : Path} {s : FileStore} {o : ObjectStore} {n : Nat} {h : BlockHash} {written : List UInt8}
  {scratch : BlockHash → Nat → Prop}

/-! ### Where things stand in a directory -/

namespace BlockFiles

theorem entry?_openUpload (hs : BlockFiles s real) (h : BlockHash) (q : Path) :
    (s.openUpload h.objectKey).2.volume.entry? (real ++ q) =
      if q = scratchPath h s.serial then some (.file [])
      else if q <+: blockDirectory h then some .directory else s.volume.entry? (real ++ q) := by
  obtain ⟨w, hprepare, _, hentry⟩ := hs.prepare_below h
  rw [FileStore.openUpload, hs.locate_objectKey]
  dsimp only
  rw [hprepare]
  exact hentry q

theorem entry?_finish (hs : BlockFiles s real) (hu : Writing s real n h written) (q : Path) :
    (s.finish n).2.volume.entry? (real ++ q) =
      if q = blockPath h then some (.file written)
      else if q = scratchPath h n then none else s.volume.entry? (real ++ q) := by
  obtain ⟨u, hknown, hupload, rfl⟩ := hu
  obtain ⟨data, hthere⟩ := hupload.there
  obtain ⟨w, hpublish, _, hentry⟩ := (hs.forget n).publish_below hthere u.written
  have hpublish : (s.forget n).publish u.scratch u.place u.written = (.ok (), { s.forget n with volume := w }) := by
    rw [hupload.scratch, hupload.place]
    exact hpublish
  rw [FileStore.finish, hknown]
  dsimp only
  rw [hpublish]
  exact hentry q

theorem entry?_abort (hs : BlockFiles s real) (hu : Writing s real n h written) (q : Path) :
    (s.abort n).2.volume.entry? (real ++ q) =
      if q = scratchPath h n then none else s.volume.entry? (real ++ q) := by
  obtain ⟨u, hknown, hupload, rfl⟩ := hu
  obtain ⟨data, hthere⟩ := hupload.there
  obtain ⟨w, hunlink, _, hentry⟩ := hs.discard_below hthere
  rw [FileStore.abort, hknown]
  dsimp only
  rw [hupload.scratch, hunlink]
  exact hentry q

end BlockFiles

/-! ### A store of either kind -/

theorem answer_files (f : FileStore) (r : Request) :
    (ObjectStore.files f).answer r = ((f.answer r).1, .files (f.answer r).2) := rfl

theorem answer_bucket (b : BucketStore) (r : Request) :
    (ObjectStore.bucket b).answer r = ((b.answer r).1, .bucket (b.answer r).2) := rfl

theorem volume_writeUpload (s : FileStore) (n : Nat) (data : List UInt8) :
    (s.writeUpload n data).2.volume = s.volume := by
  unfold FileStore.writeUpload
  split <;> rfl

/-! ### What is stored besides blocks -/

namespace ObjectStore

/-- The numbers of the uploads that are under way. -/
def underWay : ObjectStore → List Nat
  | files f => f.uploads.map Prod.fst
  | bucket b => b.uploads.map Prod.fst

/-- Scratch files are of blocks and uploads for which `scratch` holds. All objects of a bucket are blocks, each of them
once. -/
def OnlyBlocks (real : Path) (scratch : BlockHash → Nat → Prop) : ObjectStore → Prop
  | files f => ∀ g m, (f.volume.entry? (real ++ scratchPath g m)).isSome → scratch g m
  | bucket b => (b.service.objects.map Prod.fst).Nodup ∧
      ∀ name ∈ b.service.objects.map Prod.fst, ∃ h : BlockHash, name = b.objectName h.objectKey

theorem OnlyBlocks.mono {other : BlockHash → Nat → Prop} (h : o.OnlyBlocks real scratch)
    (hmore : ∀ g m, scratch g m → other g m) : o.OnlyBlocks real other := by
  cases o with
  | files f => exact fun g m hthere => hmore g m (h g m hthere)
  | bucket b => exact h

end ObjectStore

open ObjectStore

theorem ids_forgotten (b : BucketStore) (n : Nat) :
    (b.forget n).uploads.map Prod.fst = (b.uploads.map Prod.fst).filter (· ≠ n) := by
  rw [BucketStore.forget, List.filter_map]
  rfl

theorem onlyBlocks_withObject {b : BucketStore} (hb : OnlyBlocks real scratch (.bucket b)) (h : BlockHash)
    (data : List UInt8) : OnlyBlocks real scratch (.bucket (withObject b (b.objectName h.objectKey) data)) := by
  obtain ⟨hdistinct, hnames⟩ := hb
  have hothers : ((b.service.objects.filter fun entry => entry.1 ≠ b.objectName h.objectKey).map Prod.fst).Sublist
      (b.service.objects.map Prod.fst) := List.filter_sublist.map _
  constructor
  · refine List.nodup_cons.mpr ⟨fun hmem => ?_, hdistinct.sublist hothers⟩
    obtain ⟨entry, hentry, hname⟩ := List.mem_map.mp hmem
    exact of_decide_eq_true (List.mem_filter.mp hentry).2 hname
  · intro name hname
    rcases List.mem_cons.mp hname with rfl | hold
    · exact ⟨h, rfl⟩
    · exact hnames name (hothers.mem hold)

/-! ### Calls -/

theorem onlyBlocks_openUpload (ho : o.Orderly real) (hblocks : o.OnlyBlocks real scratch) (h : BlockHash) :
    (o.answer (.openUpload h.objectKey)).2.underWay = o.opened :: o.underWay ∧
      (o.answer (.openUpload h.objectKey)).2.OnlyBlocks real fun g m => scratch g m ∨ g = h ∧ m = o.opened := by
  cases o with
  | files f =>
    obtain ⟨next, hopen, hleaves, _⟩ := BlockFiles.openUpload_eq ho h
    have hentry := BlockFiles.entry?_openUpload ho h
    rw [hopen] at hentry
    rw [answer_files, FileStore.answer, hopen]
    refine ⟨hleaves.uploads, fun g m hthere => ?_⟩
    rw [hentry, if_neg (c := _ <+: _) fun hlead => scratchPath_ne_of_leading hlead rfl] at hthere
    split at hthere
    · exact .inr (scratchPath_injective ‹_›)
    · exact .inl (hblocks g m hthere)
  | bucket b => exact ⟨rfl, hblocks⟩

theorem onlyBlocks_write (ho : o.Orderly real) (hblocks : o.OnlyBlocks real scratch)
    (hw : o.Writes real n h written) (data : List UInt8) :
    (o.answer (.write n data)).2.underWay = n :: o.underWay.filter (· ≠ n) ∧
      (o.answer (.write n data)).2.OnlyBlocks real scratch := by
  cases o with
  | files f =>
    obtain ⟨next, hwrite, hleaves, _⟩ := BlockFiles.writeUpload_eq ho hw data
    have hvolume := volume_writeUpload f n data
    rw [hwrite] at hvolume
    rw [answer_files, FileStore.answer, hwrite]
    refine ⟨hleaves.uploads.trans (by rw [ids_forget]; rfl), fun g m hthere => hblocks g m ?_⟩
    rwa [hvolume] at hthere
  | bucket b =>
    have hknown : b.uploads.lookup n = some ⟨b.objectName h.objectKey, written⟩ := hw
    have hwrite : b.writeUpload n data = (.ok (), { b with
        uploads := (n, ⟨b.objectName h.objectKey, written ++ data⟩) :: (b.forget n).uploads }) := by
      rw [BucketStore.writeUpload, hknown]
    rw [answer_bucket, BucketStore.answer, hwrite]
    exact ⟨congrArg (n :: ·) (ids_forgotten b n), hblocks⟩

theorem onlyBlocks_finish (ho : o.Orderly real) (hserves : o.Serves) (hblocks : o.OnlyBlocks real scratch)
    (hw : o.Writes real n h written) :
    (o.answer (.finish n)).2.underWay = o.underWay.filter (· ≠ n) ∧
      (o.answer (.finish n)).2.OnlyBlocks real fun g m => scratch g m ∧ ¬(g = h ∧ m = n) := by
  cases o with
  | files f =>
    obtain ⟨next, hfinish, hleaves, _⟩ := BlockFiles.finish_eq ho hw
    have hentry := BlockFiles.entry?_finish ho hw
    rw [hfinish] at hentry
    rw [answer_files, FileStore.answer, hfinish]
    refine ⟨hleaves.uploads.trans (ids_forget f n), fun g m hthere => ?_⟩
    rw [hentry, if_neg blockPath_ne_scratchPath.symm] at hthere
    split at hthere
    · cases hthere
    · exact ⟨hblocks g m hthere, fun hsame => ‹¬_› (by rw [hsame.1, hsame.2])⟩
  | bucket b =>
    have hknown : b.uploads.lookup n = some ⟨b.objectName h.objectKey, written⟩ := hw
    rcases send_put (b.forget n) (b.objectName h.objectKey) (b.objectName h.objectKey) written with
      ⟨e, _, hrefused⟩ | hsend
    · exact absurd hserves hrefused
    · have hfinish : (b.finish n).2 = withObject (b.forget n) (b.objectName h.objectKey) written := by
        rw [BucketStore.finish, hknown]
        dsimp only
        rw [hsend]
      rw [answer_bucket, BucketStore.answer, hfinish]
      exact ⟨ids_forgotten b n, onlyBlocks_withObject (b := b.forget n) hblocks h written⟩

theorem onlyBlocks_abort (ho : o.Orderly real) (hblocks : o.OnlyBlocks real scratch)
    (hw : o.Writes real n h written) :
    (o.answer (.abort n)).2.underWay = o.underWay.filter (· ≠ n) ∧
      (o.answer (.abort n)).2.OnlyBlocks real fun g m => scratch g m ∧ ¬(g = h ∧ m = n) := by
  cases o with
  | files f =>
    obtain ⟨next, habort, hleaves, _⟩ := BlockFiles.abort_eq ho hw
    have hentry := BlockFiles.entry?_abort ho hw
    rw [habort] at hentry
    rw [answer_files, FileStore.answer, habort]
    refine ⟨hleaves.uploads.trans (ids_forget f n), fun g m hthere => ?_⟩
    rw [hentry] at hthere
    split at hthere
    · cases hthere
    · exact ⟨hblocks g m hthere, fun hsame => ‹¬_› (by rw [hsame.1, hsame.2])⟩
  | bucket b =>
    have hknown : b.uploads.lookup n = some ⟨b.objectName h.objectKey, written⟩ := hw
    have habort : b.abort n = (.ok (), b.forget n) := by rw [BucketStore.abort, hknown]
    rw [answer_bucket, BucketStore.answer, habort]
    exact ⟨ids_forgotten b n, hblocks⟩

/-! ### One upload -/

/-- A store of blocks that serves, with no upload under way. -/
structure Idle (real : Path) (o : ObjectStore) : Prop where
  orderly : o.Orderly real
  serves : o.Serves
  underWay : o.underWay = []
  blocks : o.OnlyBlocks real fun _ _ => False

/-- A store of blocks that serves, with one upload under way, which has written so much of a block. -/
structure Busy (real : Path) (o : ObjectStore) (n : Nat) (h : BlockHash) (written : List UInt8) : Prop where
  orderly : o.Orderly real
  serves : o.Serves
  underWay : o.underWay = [n]
  blocks : o.OnlyBlocks real fun g m => g = h ∧ m = n
  writes : o.Writes real n h written

theorem Idle.openUpload (ho : Idle real o) (h : BlockHash) :
    ∃ next, o.answer (.openUpload h.objectKey) = (.ok o.opened, next) ∧ Busy real next o.opened h [] ∧
      next.block? real = o.block? real := by
  obtain ⟨next, hanswer, hbesides, hwrites, hsame⟩ := answer_openUpload_block ho.orderly h
  have hserves := serves_answer ho.serves (.openUpload h.objectKey)
  obtain ⟨hids, hblocks⟩ := onlyBlocks_openUpload ho.orderly ho.blocks h
  rw [hanswer] at hserves hids hblocks
  refine ⟨next, hanswer, ⟨hbesides.orderly, hserves, hids.trans (by rw [ho.underWay]), ?_, hwrites⟩, hsame⟩
  exact hblocks.mono fun g m hscratch => hscratch.resolve_left id

theorem Busy.write (ho : Busy real o n h written) (data : List UInt8) :
    ∃ next, o.answer (.write n data) = (.ok (), next) ∧ Busy real next n h (written ++ data) ∧
      next.block? real = o.block? real := by
  obtain ⟨next, hanswer, hbesides, hwrites, hsame⟩ := answer_write_block ho.orderly ho.writes data
  have hserves := serves_answer ho.serves (.write n data)
  obtain ⟨hids, hblocks⟩ := onlyBlocks_write ho.orderly ho.blocks ho.writes data
  rw [hanswer] at hserves hids hblocks
  exact ⟨next, hanswer, ⟨hbesides.orderly, hserves, hids.trans (by simp [ho.underWay]), hblocks, hwrites⟩, hsame⟩

theorem Busy.finish (ho : Busy real o n h written) :
    ∃ next, o.answer (.finish n) = (.ok written.length, next) ∧ Idle real next ∧
      ∀ g, next.block? real g = if g = h then some written else o.block? real g := by
  obtain ⟨reply, next, hanswer, hbesides, hcame⟩ := answer_finish_block ho.orderly ho.writes
  have hserves := serves_answer ho.serves (.finish n)
  obtain ⟨hids, hblocks⟩ := onlyBlocks_finish ho.orderly ho.serves ho.blocks ho.writes
  rw [hanswer] at hserves hids hblocks
  rcases hcame with ⟨rfl, hobjects⟩ | ⟨_, hrefused, _⟩
  · refine ⟨next, hanswer, ⟨hbesides.orderly, hserves, hids.trans (by simp [ho.underWay]), ?_⟩, hobjects⟩
    exact hblocks.mono fun g m hscratch => hscratch.2 hscratch.1
  · exact absurd ho.serves hrefused

theorem Busy.abort (ho : Busy real o n h written) :
    ∃ next, o.answer (.abort n) = (.ok (), next) ∧ Idle real next ∧ next.block? real = o.block? real := by
  obtain ⟨next, hanswer, hbesides, hsame⟩ := answer_abort_block ho.orderly ho.writes
  have hserves := serves_answer ho.serves (.abort n)
  obtain ⟨hids, hblocks⟩ := onlyBlocks_abort ho.orderly ho.blocks ho.writes
  rw [hanswer] at hserves hids hblocks
  refine ⟨next, hanswer, ⟨hbesides.orderly, hserves, hids.trans (by simp [ho.underWay]), ?_⟩, hsame⟩
  exact hblocks.mono fun g m hscratch => hscratch.2 hscratch.1

theorem ObjectStore.Blank.idle (ho : o.Blank real) (hserves : o.Serves) : Idle real o where
  orderly := ho.orderly
  serves := hserves
  underWay := by
    cases o with
    | files f => exact congrArg (List.map Prod.fst) (Fresh.idle ho)
    | bucket b => exact congrArg (List.map Prod.fst) ho.2
  blocks := by
    cases o with
    | files f =>
      intro g m hthere
      rw [Fresh.empty ho _ (by simp [scratchPath])] at hthere
      cases hthere
    | bucket b =>
      rw [OnlyBlocks, ho.1]
      exact ⟨List.nodup_nil, by simp⟩

/-! ### All that is stored -/

/-- All that is stored is blocks for which `P` holds: every file below the root of a directory, and every object of a
bucket, which has one of each name. -/
def ObjectStore.Consists (real : Path) (P : BlockHash → Prop) : ObjectStore → Prop
  | files f => ∀ p e, f.volume.entry? (real ++ p) = some e → e ≠ .directory → ∃ h, p = blockPath h ∧ P h
  | bucket b => (b.service.objects.map Prod.fst).Nodup ∧
      ∀ entry ∈ b.service.objects, ∃ h : BlockHash, entry.1 = b.objectName h.objectKey ∧ P h

theorem ObjectStore.Consists.mono {P Q : BlockHash → Prop} (ho : o.Consists real P) (hmore : ∀ h, P h → Q h) :
    o.Consists real Q := by
  cases o with
  | files f =>
    intro p e hthere hfile
    obtain ⟨h, hpath, hblock⟩ := ho p e hthere hfile
    exact ⟨h, hpath, hmore h hblock⟩
  | bucket b =>
    refine ⟨ho.1, fun entry hentry => ?_⟩
    obtain ⟨h, hname, hblock⟩ := ho.2 entry hentry
    exact ⟨h, hname, hmore h hblock⟩

/-- **Between two uploads a store has only blocks.** -/
theorem Idle.consists (ho : Idle real o) : o.Consists real fun h => (o.block? real h).isSome := by
  cases o with
  | files f =>
    have hfiles : BlockFiles f real := ho.orderly
    intro p e hthere hfile
    have hne : p ≠ [] := by
      rintro rfl
      rw [List.append_nil, hfiles.rooted.directory] at hthere
      exact hfile (Option.some.inj hthere).symm
    cases hfiles.shape p e hne hthere with
    | directory _ => exact absurd rfl hfile
    | @block h data =>
      refine ⟨h, rfl, ?_⟩
      rw [hfiles.entry?_blockPath] at hthere
      obtain ⟨data, hobject, _⟩ := Option.map_eq_some_iff.mp hthere
      exact Option.isSome_of_eq_some hobject
    | @scratch h n data _ => exact (ho.blocks h n (by rw [hthere]; rfl)).elim
  | bucket b =>
    obtain ⟨hdistinct, hnames⟩ := ho.blocks
    refine ⟨hdistinct, fun entry hentry => ?_⟩
    obtain ⟨h, hname⟩ := hnames entry.1 (List.mem_map_of_mem hentry)
    refine ⟨h, hname, ?_⟩
    change (b.service.objects.lookup (b.objectName h.objectKey)).isSome
    rw [← hname, ← Option.ne_none_iff_isSome]
    intro hnone
    exact absurd (List.lookup_eq_none_iff.mp hnone entry hentry) (by simp)

end Depot.Objects
