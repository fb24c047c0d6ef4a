import Depot.Proofs.Objects.BlockStore

/-!
# Blocks that are stored at once, fetched and deleted

What a request about a whole block is answered and what it leaves, said of a directory and of a bucket at once.

- `ObjectStore.Works`: a store that accepts requests and does not break off what it sends.
- `found`: what there is to say of a block, or that it is not there.
-/

namespace Depot.Objects

open Content Volume

/-- The bytes of a stream that is read to its end. -/
def ByteStream.collect (s : ByteStream) : Except ObjectError (List UInt8) :=
  match s.fault with
  | none => .ok s.data
  | some e => .error e

/-- What is at a key, which has to be there. -/
def found (key : String) : Option (List UInt8) → Except ObjectError (List UInt8)
  | none => .error (.notFound key)
  | some data => .ok data

/-- A store that accepts requests and sends its objects whole. -/
def ObjectStore.Works : ObjectStore → Prop
  | files _ => True
  | bucket b => (ObjectStore.bucket b).Serves ∧ b.service.truncates = false

/-! ### In a directory -/

namespace BlockFiles

variable {s : FileStore} {real : Path} {h g : BlockHash}

theorem find_eq_found (hs : BlockFiles s real) (h : BlockHash) :
    s.find h.objectKey = (found h.objectKey (s.object? real h)).map .file := by
  rw [hs.find_eq]
  cases s.object? real h <;> rfl

theorem get_eq (hs : BlockFiles s real) (h : BlockHash) :
    s.get h.objectKey = found h.objectKey (s.object? real h) := by
  rw [FileStore.get, hs.find_eq_found]
  cases s.object? real h <;> rfl

theorem stream_eq_found (hs : BlockFiles s real) (h : BlockHash) :
    s.stream h.objectKey = (found h.objectKey (s.object? real h)).map fun data => ⟨data, none⟩ := by
  rw [FileStore.stream, hs.find_eq_found]
  cases s.object? real h <;> rfl

theorem head_eq_found (hs : BlockFiles s real) (h : BlockHash) :
    s.head h.objectKey = (found h.objectKey (s.object? real h)).map fun data => ⟨data.length, true, none⟩ := by
  rw [FileStore.head, hs.find_eq_found]
  cases s.object? real h <;> rfl

theorem put_eq (hs : BlockFiles s real) (h : BlockHash) (data : List UInt8) :
    ∃ next, s.put h.objectKey data = (.ok (), next) ∧ Leaves s next real (s.uploads.map Prod.fst) ∧
      next.uploads = s.uploads ∧ s.serial ≤ next.serial ∧
      ∀ g, next.object? real g = if g = h then some data else s.object? real g := by
  obtain ⟨w, hprepare, hprepared, hthere, hsame⟩ := hs.prepare_eq h
  have hfree : s.serial ∉ s.uploads.map Prod.fst := fun hmem => Nat.lt_irrefl _ (hs.before_of_mem hmem)
  obtain ⟨v, hpublish, hpublished, hobjects⟩ := hprepared.publish_eq hthere hfree data
  refine ⟨_, ?_, ⟨hpublished, rfl, rfl, rfl⟩, rfl, Nat.le_succ _, fun g => ?_⟩
  · rw [FileStore.put, hs.locate_objectKey]
    dsimp only
    rw [hprepare]
    dsimp only
    rw [hpublish]
    rfl
  · rw [hobjects, hsame]

theorem unlink_block (hs : BlockFiles s real) {data : List UInt8} (hobject : s.object? real h = some data) :
    ∃ w, s.volume.unlink ⟨s.root ++ blockPath h, false⟩ = .ok w ∧ Rooted w s.root real ∧
      ∀ q, w.entry? (real ++ q) = if q = blockPath h then none else s.volume.entry? (real ++ q) := by
  have hfits := hs.fits_blockPath h
  have hthere : s.volume.entry? (real ++ blockPath h) = some (.file data) := by
    rw [hs.entry?_blockPath, hobject]
    rfl
  rw [append_blockPath] at hfits hthere
  obtain ⟨hunlink, hw⟩ := hs.rooted.unlink_below hfits (fun _ hname => short_blockPath (h := h) hname) hthere
  rw [← append_blockPath, ← append_blockPath] at hunlink
  rw [← append_blockPath] at hw
  exact ⟨_, hunlink, hw, fun q => entry?_erase_below _ (by simp [blockPath])⟩

theorem delete_eq (hs : BlockFiles s real) (h : BlockHash) :
    ∃ next, s.delete h.objectKey = ((found h.objectKey (s.object? real h)).map fun _ => (), next) ∧
      Leaves s next real (s.uploads.map Prod.fst) ∧ next.uploads = s.uploads ∧ s.serial ≤ next.serial ∧
      ∀ g, next.object? real g = if g = h then none else s.object? real g := by
  cases hobject : s.object? real h with
  | none =>
    have hstat := hs.stat_block false h
    rw [hobject] at hstat
    refine ⟨s, ?_, ⟨hs, rfl, rfl, rfl⟩, rfl, Nat.le_refl _, fun g => ?_⟩
    · rw [FileStore.delete, hs.locate_objectKey]
      dsimp only
      rw [unlink, hstat]
      rfl
    · split
      · rwa [‹g = h›]
      · rfl
  | some data =>
    obtain ⟨w, hunlink, hw, hentry⟩ := hs.unlink_block hobject
    have hnext : BlockFiles { s with volume := w } real := by
      refine hs.withVolume hw (Nat.le_refl _) (fun p e hthere => ?_) fun g m _ => ?_
      · rw [hentry] at hthere
        split at hthere
        · cases hthere
        · exact .inl hthere
      · rw [hentry, if_neg blockPath_ne_scratchPath.symm]
    refine ⟨{ s with volume := w }, ?_, ⟨hnext, rfl, rfl, rfl⟩, rfl, Nat.le_refl _, fun g => ?_⟩
    · rw [FileStore.delete, hs.locate_objectKey]
      dsimp only
      rw [hunlink]
      rfl
    · by_cases hgh : g = h
      · rw [if_pos hgh, FileStore.object?, hgh]
        dsimp only
        rw [hentry, if_pos rfl]
      · rw [if_neg hgh]
        refine object?_congr ?_
        dsimp only
        rw [hentry, if_neg fun heq => hgh (blockPath_injective heq)]

end BlockFiles

/-! ### In a bucket -/

section Bucket

open ObjectStore

variable {real : Path} {b : BucketStore} {h : BlockHash}

theorem send_read (real : Path) (hb : Serves (.bucket b)) {m : Method} (hm : m = .get ∨ m = .head) (h : BlockHash) :
    b.send m (b.objectName h.objectKey) h.objectKey [] =
      (found h.objectKey (ObjectStore.block? real (.bucket b) h), b) := by
  rcases hm with rfl | rfl <;>
  · simp only [BucketStore.send, BucketService.respond, hb.1, hb.2, ObjectStore.block?, Bool.not_true,
      Bool.false_eq_true, if_false]
    cases b.service.objects.lookup (b.objectName h.objectKey) <;> rfl

/-- The bucket without the object of a name. -/
def withoutObject (b : BucketStore) (name : String) : BucketStore :=
  { b with service := { b.service with objects := b.service.objects.filter fun entry => entry.1 ≠ name } }

theorem send_delete (hb : Serves (.bucket b)) (name key : String) :
    b.send .delete name key [] = (.ok [], withoutObject b name) := by
  have hrespond : b.service.respond b.bucket .delete name [] = (.accepted [], (withoutObject b name).service) := by
    simp [BucketService.respond, hb.1, hb.2, withoutObject]
  rw [BucketStore.send, hrespond]
  rfl

theorem block?_withoutObject (b : BucketStore) (h g : BlockHash) :
    ObjectStore.block? real (.bucket (withoutObject b (b.objectName h.objectKey))) g =
      if g = h then none else ObjectStore.block? real (.bucket b) g := by
  change List.lookup (b.objectName g.objectKey)
    (b.service.objects.filter fun entry => entry.1 ≠ b.objectName h.objectKey) = _
  rw [Volume.lookup_filter_ne]
  by_cases hgh : g = h
  · rw [if_pos hgh, hgh, if_pos rfl]
  · rw [if_neg hgh, if_neg fun heq => hgh (objectName_injective b heq)]
    rfl

theorem get_bucket (real : Path) (hw : Works (.bucket b)) (h : BlockHash) :
    b.get h.objectKey = found h.objectKey (ObjectStore.block? real (.bucket b) h) := by
  rw [BucketStore.get, BucketStore.stream, send_read real hw.1 (.inl rfl), hw.2]
  cases ObjectStore.block? real (.bucket b) h <;> rfl

theorem stream_bucket (real : Path) (hw : Works (.bucket b)) (h : BlockHash) :
    b.stream h.objectKey = (found h.objectKey (ObjectStore.block? real (.bucket b) h)).map fun data =>
      ⟨data, none⟩ := by
  rw [BucketStore.stream, send_read real hw.1 (.inl rfl), hw.2]
  rfl

theorem head_bucket (real : Path) (hb : Serves (.bucket b)) (h : BlockHash) :
    b.head h.objectKey = (found h.objectKey (ObjectStore.block? real (.bucket b) h)).map fun data =>
      ⟨data.length, b.service.sendsModificationTime, some "application/octet-stream"⟩ := by
  rw [BucketStore.head, send_read real hb (.inr rfl)]

theorem delete_bucket (real : Path) (hb : Serves (.bucket b)) (h : BlockHash) :
    b.delete h.objectKey = ((found h.objectKey (ObjectStore.block? real (.bucket b) h)).map fun _ => (),
      if (ObjectStore.block? real (.bucket b) h).isSome then withoutObject b (b.objectName h.objectKey) else b) := by
  rw [BucketStore.delete, (@contains_bucket real b h).2 hb]
  cases ObjectStore.block? real (.bucket b) h with
  | none => rfl
  | some data =>
    dsimp only [Option.isSome_some]
    rw [send_delete hb]
    rfl

end Bucket

/-! ### In a store of either kind -/

variable {real : Path} {o : ObjectStore}

theorem ObjectStore.Works.serves (ho : o.Works) : o.Serves := by
  cases o with
  | files f => trivial
  | bucket b => exact ho.1

theorem works_answer (ho : o.Works) (r : Request) : (o.answer r).2.Works := by
  cases o with
  | files f => trivial
  | bucket b =>
    have hsame := sameService_answer b r
    refine ⟨hsame.serves ho.1, ?_⟩
    obtain ⟨_, objects, hservice⟩ := hsame
    exact (congrArg BucketService.truncates hservice).trans ho.2

theorem answer_get_block (ho : o.Orderly real) (hw : o.Works) (h : BlockHash) :
    o.answer (.get h.objectKey) = (found h.objectKey (o.block? real h), o) := by
  cases o with
  | files f => exact Prod.ext (BlockFiles.get_eq ho h) rfl
  | bucket b => exact Prod.ext (get_bucket real hw h) rfl

theorem answer_stream_block (ho : o.Orderly real) (hw : o.Works) (h : BlockHash) :
    o.answer (.stream h.objectKey) =
      ((found h.objectKey (o.block? real h)).map fun data => ⟨data, none⟩, o) := by
  cases o with
  | files f => rw [ObjectStore.answer, FileStore.answer, BlockFiles.stream_eq_found ho, ObjectStore.block?]
  | bucket b => rw [ObjectStore.answer, BucketStore.answer, stream_bucket real hw]

theorem answer_head_block (ho : o.Orderly real) (hw : o.Works) (h : BlockHash) :
    ∃ about : List UInt8 → ObjectMeta, (∀ data, (about data).size = data.length) ∧
      o.answer (.head h.objectKey) = ((found h.objectKey (o.block? real h)).map about, o) := by
  cases o with
  | files f =>
    refine ⟨fun data => ⟨data.length, true, none⟩, fun _ => rfl, ?_⟩
    rw [ObjectStore.answer, FileStore.answer, BlockFiles.head_eq_found ho, ObjectStore.block?]
  | bucket b =>
    refine ⟨fun data => ⟨data.length, b.service.sendsModificationTime, some "application/octet-stream"⟩,
      fun _ => rfl, ?_⟩
    rw [ObjectStore.answer, BucketStore.answer, head_bucket real hw.1]

theorem answer_put_block (ho : o.Orderly real) (hw : o.Works) (h : BlockHash) (data : List UInt8) :
    ∃ next, o.answer (.put h.objectKey data) = (.ok (), next) ∧ Besides real o.opened o next ∧
      ∀ g, next.block? real g = if g = h then some data else o.block? real g := by
  cases o with
  | files f =>
    obtain ⟨next, hput, hleaves, huploads, hserial, hobjects⟩ := BlockFiles.put_eq ho h data
    refine ⟨.files next, ?_, besides_files hleaves hserial fun m _ => by rw [huploads], hobjects⟩
    rw [ObjectStore.answer, FileStore.answer, hput]
  | bucket b =>
    refine ⟨.bucket (withObject b (b.objectName h.objectKey) data), ?_,
      besides_bucket ho (Nat.le_refl _) rfl fun _ _ => rfl, fun g => block?_withObject b h g data⟩
    rcases send_put b (b.objectName h.objectKey) h.objectKey data with ⟨_, _, hrefused⟩ | hsend
    · exact absurd hw.1 hrefused
    · rw [ObjectStore.answer, BucketStore.answer, BucketStore.put, hsend]
      rfl

theorem answer_delete_block (ho : o.Orderly real) (hw : o.Works) (h : BlockHash) :
    ∃ next, o.answer (.delete h.objectKey) = ((found h.objectKey (o.block? real h)).map fun _ => (), next) ∧
      Besides real o.opened o next ∧ ∀ g, next.block? real g = if g = h then none else o.block? real g := by
  cases o with
  | files f =>
    obtain ⟨next, hdelete, hleaves, huploads, hserial, hobjects⟩ := BlockFiles.delete_eq ho h
    refine ⟨.files next, ?_, besides_files hleaves hserial fun m _ => by rw [huploads], hobjects⟩
    rw [ObjectStore.answer, FileStore.answer, hdelete]
    rfl
  | bucket b =>
    have hdelete := delete_bucket real hw.1 h
    cases hblock : ObjectStore.block? real (.bucket b) h with
    | none =>
      rw [hblock] at hdelete
      refine ⟨.bucket b, ?_, besides_bucket ho (Nat.le_refl _) rfl fun _ _ => rfl, fun g => ?_⟩
      · rw [ObjectStore.answer, BucketStore.answer, hdelete]
        rfl
      · split
        · rwa [‹g = h›]
        · rfl
    | some data =>
      rw [hblock] at hdelete
      refine ⟨.bucket (withoutObject b (b.objectName h.objectKey)), ?_,
        besides_bucket ho (Nat.le_refl _) rfl fun _ _ => rfl, block?_withoutObject b h⟩
      rw [ObjectStore.answer, BucketStore.answer, hdelete]
      rfl

end Depot.Objects
