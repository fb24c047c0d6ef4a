import Depot.Proofs.Objects.OneUpload
import Depot.Proofs.Service.CrowdContent
import Depot.Proofs.Service.Faultless
import Depot.Proofs.Service.HonestUpload
import Depot.Proofs.Service.Watched

/-!
# Every block is stored once

Operations run one after another on stores that do not fail. Between them, rows of blocks and stored objects are the
same, and each object was written once, in the order of the rows.

- `Matches`: this, as a relation of the catalog to what is stored and to what was written.
- `Fits`: what holds during an upload. While its body is written, the one row without an object is its own.
- `fits_step`: one call of an upload. `settled_act`: one operation.
- `each_block_stored_once`: a run of operations.
-/

namespace Depot.Service

open Content Time Objects

variable {real : Path} {settings : Settings} {d : Delivery} {w : Watched} {c next : Catalog}
  {objects : BlockHash → Option (List UInt8)} {written : List String} {stage : Stage} {p : Phase}

/-! ### Rows and objects -/

/-- A row is that of a block whose bytes are stored under its key. -/
structure Describes (objects : BlockHash → Option (List UInt8)) (row : Catalog.StoredBlock) (h : BlockHash)
    (data : List UInt8) : Prop where
  hash : row.blockHash = h.hex
  key : row.storageKey = h.objectKey
  object : objects h = some data
  honest : BlockHash.compute data = h
  size : row.size = recordedSize data.length

/-- Every row is that of a stored block, no two of the same, every stored block has a row, and objects were written as
rows were added. -/
structure Matches (c : Catalog) (objects : BlockHash → Option (List UInt8)) (written : List String) : Prop where
  content : Catalog.ContentSound c
  distinct : (c.blocks.map Catalog.StoredBlock.blockHash).Nodup
  rows : ∀ row ∈ c.blocks, ∃ h data, Describes objects row h data
  recorded : ∀ h, (objects h).isSome → (c.block? h.hex).isSome
  written : written = c.blocks.map Catalog.StoredBlock.storageKey

theorem matches_empty (hnone : ∀ h, objects h = none) : Matches .empty objects [] where
  content := Catalog.contentSound_empty
  distinct := List.nodup_nil
  rows row hrow := by cases hrow
  recorded h hstored := by
    rw [hnone h] at hstored
    cases hstored
  written := rfl

theorem Matches.stored (hm : Matches c objects written) {h : BlockHash} (hknown : (c.block? h.hex).isSome) :
    (objects h).isSome := by
  obtain ⟨row, hrow⟩ := Option.isSome_iff_exists.mp hknown
  obtain ⟨g, data, hdescribes⟩ := hm.rows row (List.mem_of_find?_eq_some hrow)
  have hhash : row.blockHash = h.hex := by simpa using List.find?_some hrow
  rw [← BlockHash.hex_injective (hdescribes.hash.symm.trans hhash), hdescribes.object]
  rfl

theorem Matches.nodup_written (hm : Matches c objects written) : written.Nodup := by
  rw [hm.written]
  refine List.pairwise_map.mpr ((List.pairwise_map.mp hm.distinct).imp_of_mem fun ha hb hne heq => hne ?_)
  obtain ⟨g, _, hg⟩ := hm.rows _ ha
  obtain ⟨h, _, hh⟩ := hm.rows _ hb
  have hsame : g = h := objectKey_injective (hg.key.symm.trans (heq.trans hh.key))
  rw [hg.hash, hh.hash, hsame]

theorem Matches.step (hm : Matches c objects written) (hstep : Catalog.Step c next)
    (hblocks : next.blocks = c.blocks) : Matches next objects written where
  content := Catalog.contentSound_step hstep hm.content
  distinct := by rw [hblocks]; exact hm.distinct
  rows := by rw [hblocks]; exact hm.rows
  recorded := by simp only [Catalog.block?, hblocks]; exact hm.recorded
  written := by rw [hblocks]; exact hm.written

theorem Matches.record (hm : Matches c objects written) {request : UploadRequest} {data : List UInt8}
    {more : BlockHash → Option (List UInt8)} (hnew : c.block? request.blockHash.hex = none)
    (hhash : BlockHash.compute data = request.blockHash) (hsize : data.length = request.size)
    (hmore : ∀ g, more g = if g = request.blockHash then some data else objects g) (now : DateTime) :
    Matches (withBlock c request now) more (written ++ [request.blockHash.objectKey]) where
  content := Catalog.contentSound_step (.recorded hnew) hm.content
  distinct := by
    rw [withBlock, List.map_append, List.nodup_append]
    refine ⟨hm.distinct, List.nodup_singleton _, fun a ha b hb heq => ?_⟩
    obtain ⟨row, hrow, rfl⟩ := List.mem_map.mp ha
    have hother := List.find?_eq_none.mp hnew row hrow
    simp only [List.map_cons, List.map_nil, List.mem_singleton] at hb
    simp [heq, hb] at hother
  rows row hrow := by
    rcases List.mem_append.mp hrow with hold | hlast
    · obtain ⟨g, old, hg⟩ := hm.rows row hold
      refine ⟨g, old, ⟨hg.hash, hg.key, ?_, hg.honest, hg.size⟩⟩
      rw [hmore, if_neg, hg.object]
      rintro rfl
      have hrecorded := hm.recorded _ (Option.isSome_of_eq_some hg.object)
      rw [hnew] at hrecorded
      cases hrecorded
    · rw [List.mem_singleton.mp hlast]
      exact ⟨request.blockHash, data, rfl, rfl, by rw [hmore, if_pos rfl], hhash, by rw [hsize]⟩
  recorded h hstored := by
    rw [block?_withBlock hnew]
    split
    · rfl
    · rename_i hne
      rw [hmore, if_neg fun heq => hne (congrArg BlockHash.hex heq)] at hstored
      exact hm.recorded h hstored
  written := by
    rw [hm.written, withBlock, List.map_append]
    rfl

/-! ### During an upload -/

/-- What holds between operations. -/
structure Settled (real : Path) (w : Watched) : Prop where
  idle : Idle real w.stores.objects
  rows : Matches w.stores.catalog (w.stores.objects.block? real) w.written

/-- The block of an upload is recorded and has yet to be written. But for its row all matches. -/
def Ahead (real : Path) (d : Delivery) (w : Watched) : Prop :=
  ∃ c, w.stores.catalog = withBlock c d.request d.now ∧ c.block? d.request.blockHash.hex = none ∧
    Matches c (w.stores.objects.block? real) w.written

theorem Ahead.congr {v : Watched} (hw : Ahead real d w) (hcatalog : v.stores.catalog = w.stores.catalog)
    (hobjects : v.stores.objects.block? real = w.stores.objects.block? real) (hwritten : v.written = w.written) :
    Ahead real d v := by
  rw [Ahead, hcatalog, hobjects, hwritten]
  exact hw

/-- The body of an upload is being written, because its block was new. -/
structure Filling (real : Path) (d : Delivery) (w : Watched) (recorded : InsertOutcome) (n : Nat)
    (before : List UInt8) : Prop where
  new : recorded = .inserted
  ahead : Ahead real d w
  busy : Busy real w.stores.objects n d.request.blockHash before
  key : w.keys.lookup n = some d.request.blockHash.objectKey

/-- What holds of the stores while an upload is at a stage. -/
def Fits (real : Path) (d : Delivery) (w : Watched) : Stage → Prop
  | .waits .looking | .waits .probing =>
    Settled real w ∧ (w.stores.catalog.block? d.request.blockHash.hex).isSome
  | .waits (.opening recorded) => recorded = .inserted ∧ Ahead real d w ∧ Idle real w.stores.objects
  | .waits (.writing recorded n before _ _) => Filling real d w recorded n before
  | .waits (.finishing recorded n data) =>
    Filling real d w recorded n data ∧ data.length = d.request.size ∧ BlockHash.compute data = d.request.blockHash
  | .waits (.dropping recorded n _) => ∃ before, Filling real d w recorded n before
  | .waits (.removing _) => Ahead real d w ∧ Idle real w.stores.objects
  | .waits .rights | .waits .recording | .waits (.linking _) | .ended _ => Settled real w

theorem fits_start (hw : Settled real w) (settings : Settings) : Fits real d w (.start d.request settings) := by
  unfold Stage.start
  cases d.request.validate settings.maxBlockSize <;> exact hw

theorem Filling.copying {recorded : InsertOutcome} {n : Nat} {before : List UInt8}
    (hw : Filling real d w recorded n before) (frames : List Frame) :
    Fits real d w (.copying d.request recorded n before frames) := by
  have h := copies_copying d.request recorded n before frames
  generalize Stage.copying d.request recorded n before frames = stage at h ⊢
  cases h with
  | refused => exact ⟨before, hw⟩
  | complete read => exact ⟨hw, readBody_eq_ok read⟩
  | more => exact hw

/-- The stores, and the account of what was written, after the call of a phase. -/
def Delivery.leaves (d : Delivery) (w : Watched) (p : Phase) : Watched := (w.answer (p.call d.request d.now)).2

theorem Settled.answer (hw : Settled real w) {r : Catalog.Request}
    (hblocks : (w.stores.catalog.answer r).2.blocks = w.stores.catalog.blocks) :
    Settled real (w.answer (.catalog r)).2 := by
  rw [Watched.answer_catalog]
  exact ⟨hw.idle, hw.rows.step (Catalog.answer_step _ r) hblocks⟩

section Phases

variable {recorded : InsertOutcome} {n : Nat} {why : ServiceError}

theorem fits_rights (hw : Settled real w) : Fits real d (d.leaves w .rights) (d.leads w.stores .rights) := by
  have hnext : Settled real (d.leaves w .rights) := hw.answer (r := .canUpload d.request.uploaderId) rfl
  cases hcan : w.stores.catalog.canUpload d.request.uploaderId with
  | true =>
    rw [leads_rights hcan]
    exact hnext
  | false =>
    obtain ⟨e, hrefused⟩ := leads_rights_refused (d := d) hcan
    rw [hrefused]
    exact hnext

theorem fits_recording (hw : Settled real w) :
    Fits real d (d.leaves w .recording) (d.leads w.stores .recording) := by
  have hleaves : d.leaves w .recording = { w with stores := d.left w.stores .recording } :=
    congrArg Prod.snd (w.answer_catalog (.putBlock (rowOf d.request d.now)))
  rw [hleaves]
  cases hrow : w.stores.catalog.block? d.request.blockHash.hex with
  | none =>
    rw [leads_recording_new hrow, left_recording_new hrow]
    exact ⟨rfl, ⟨w.stores.catalog, rfl, hrow, hw.rows⟩, hw.idle⟩
  | some row =>
    have hknown : (w.stores.catalog.block? d.request.blockHash.hex).isSome := Option.isSome_of_eq_some hrow
    rw [leads_recording_known hknown, left_recording_known hknown]
    exact ⟨hw, hknown⟩

theorem fits_looking (hw : Settled real w) (hknown : (w.stores.catalog.block? d.request.blockHash.hex).isSome) :
    Fits real d (d.leaves w .looking) (d.leads w.stores .looking) := by
  have hleaves : d.leaves w .looking = w :=
    congrArg Prod.snd (w.answer_catalog (.getBlock d.request.blockHash.hex))
  obtain ⟨row, hrow⟩ := Option.isSome_iff_exists.mp hknown
  rw [hleaves, leads_looking, hrow]
  dsimp only
  split
  · exact hw
  · exact ⟨hw, hknown⟩

theorem fits_probing (hw : Settled real w) (hknown : (w.stores.catalog.block? d.request.blockHash.hex).isSome) :
    Fits real d (d.leaves w .probing) (d.leads w.stores .probing) := by
  obtain ⟨reply, hcontains, _⟩ := answer_contains_block hw.idle.orderly d.request.blockHash
  have hleaves : d.leaves w .probing = w :=
    congrArg Prod.snd (Watched.answer_objects hcontains)
  rw [hleaves, leads_probing hw.idle.orderly hw.idle.serves, if_pos (hw.rows.stored hknown)]
  exact hw

theorem fits_opening (hnew : recorded = .inserted) (hahead : Ahead real d w) (hidle : Idle real w.stores.objects) :
    Fits real d (d.leaves w (.opening recorded)) (d.leads w.stores (.opening recorded)) := by
  obtain ⟨next, hopen, hbusy, hsame⟩ := hidle.openUpload d.request.blockHash
  have hleaves : d.leaves w (.opening recorded) =
      ⟨{ w.stores with objects := next }, (w.stores.objects.opened, d.request.blockHash.objectKey) :: w.keys,
        w.written⟩ :=
    congrArg Prod.snd (Watched.answer_objects hopen)
  rw [hleaves, leads_opening hidle.orderly]
  apply Filling.copying
  exact ⟨hnew, hahead.congr rfl hsame rfl, hbusy, List.lookup_cons_self⟩

theorem fits_writing {before bytes : List UInt8} {rest : List Frame} (hw : Filling real d w recorded n before) :
    Fits real d (d.leaves w (.writing recorded n before bytes rest))
      (d.leads w.stores (.writing recorded n before bytes rest)) := by
  obtain ⟨next, hwrite, hbusy, hsame⟩ := hw.busy.write bytes
  have hleaves : d.leaves w (.writing recorded n before bytes rest) =
      { w with stores := { w.stores with objects := next } } :=
    congrArg Prod.snd (Watched.answer_objects hwrite)
  rw [hleaves, leads_writing hw.busy.orderly hw.busy.writes]
  apply Filling.copying
  exact ⟨hw.new, hw.ahead.congr rfl hsame rfl, hbusy, hw.key⟩

theorem fits_finishing {data : List UInt8} (hw : Filling real d w recorded n data)
    (hsize : data.length = d.request.size) (hhash : BlockHash.compute data = d.request.blockHash) :
    Fits real d (d.leaves w (.finishing recorded n data)) (d.leads w.stores (.finishing recorded n data)) := by
  obtain ⟨next, hfinish, hidle, hobjects⟩ := hw.busy.finish
  obtain ⟨c, hcatalog, hnew, hmatches⟩ := hw.ahead
  have hleaves : d.leaves w (.finishing recorded n data) =
      ⟨{ w.stores with objects := next }, w.keys, w.written ++ [d.request.blockHash.objectKey]⟩ := by
    rw [Delivery.leaves, Phase.call, Watched.answer_objects hfinish, Watched.note, hw.key]
    rfl
  rw [hleaves, leads_finishing hw.busy.orderly hw.busy.serves hw.busy.writes]
  refine ⟨hidle, ?_⟩
  dsimp only
  rw [hcatalog]
  exact hmatches.record hnew hhash hsize hobjects d.now

theorem fits_dropping {before : List UInt8} (hw : Filling real d w recorded n before) :
    Fits real d (d.leaves w (.dropping recorded n why)) (d.leads w.stores (.dropping recorded n why)) := by
  obtain ⟨next, habort, hidle, hsame⟩ := hw.busy.abort
  have hleaves : d.leaves w (.dropping recorded n why) = { w with stores := { w.stores with objects := next } } :=
    congrArg Prod.snd (Watched.answer_objects habort)
  have hleads : d.leads w.stores (.dropping recorded n why) = .waits (.removing why) := by
    rw [hw.new]
    rfl
  rw [hleaves, hleads]
  exact ⟨hw.ahead.congr rfl hsame rfl, hidle⟩

theorem fits_removing (hahead : Ahead real d w) (hidle : Idle real w.stores.objects) :
    Fits real d (d.leaves w (.removing why)) (d.leads w.stores (.removing why)) := by
  obtain ⟨c, hcatalog, hnew, hmatches⟩ := hahead
  have hremoved : (w.stores.catalog.answer (.deleteBlock d.request.blockHash.hex)).2 = c := by
    rw [hcatalog, Catalog.answer, deleteBlock_withBlock hmatches.content hnew]
    rfl
  have hleaves : d.leaves w (.removing why) = { w with stores := { w.stores with catalog := c } } := by
    have hanswer := congrArg Prod.snd (w.answer_catalog (.deleteBlock d.request.blockHash.hex))
    rwa [hremoved] at hanswer
  rw [hleaves]
  exact ⟨hidle, hmatches⟩

theorem fits_linking {outcome : UploadOutcome} (hw : Settled real w) :
    Fits real d (d.leaves w (.linking outcome)) (d.leads w.stores (.linking outcome)) := by
  have hnext : Settled real (d.leaves w (.linking outcome)) :=
    hw.answer (r := .registerChunk d.request.uploaderId (chunkOf d.request d.now)) (Catalog.blocks_registerChunk _ _ _)
  cases hreply : (w.stores.catalog.registerChunk d.request.uploaderId (chunkOf d.request d.now)).1 with
  | ok reply =>
    rw [leads_linking hreply]
    exact hnext
  | error e =>
    have hleads : d.leads w.stores (.linking outcome) = (Phase.linking outcome).next d.request d.body d.now
        (w.stores.catalog.registerChunk d.request.uploaderId (chunkOf d.request d.now)).1 := rfl
    rw [hleads, hreply]
    exact hnext

/-- **One call of an upload.** -/
theorem fits_step (hw : Fits real d w (.waits p)) : Fits real d (d.leaves w p) (d.leads w.stores p) := by
  cases p with
  | rights => exact fits_rights hw
  | recording => exact fits_recording hw
  | looking => exact fits_looking hw.1 hw.2
  | probing => exact fits_probing hw.1 hw.2
  | opening recorded => exact fits_opening hw.1 hw.2.1 hw.2.2
  | writing recorded n before bytes rest => exact fits_writing hw
  | finishing recorded n data => exact fits_finishing hw.1 hw.2.1 hw.2.2
  | dropping recorded n why =>
    obtain ⟨before, hfilling⟩ := hw
    exact fits_dropping hfilling
  | removing why => exact fits_removing hw.1 hw.2
  | linking outcome => exact fits_linking hw

end Phases

/-! ### Operations -/

theorem Fits.run {α : Type} {value : Except ServiceError UploadOutcome → α} {task : CallTask α}
    (hfollows : Follows d.request d.body d.now value stage task) (hw : Fits real d w stage) :
    Settled real (Task.run Watched.answer task w).2 := by
  induction hfollows generalizing w with
  | ended result => exact hw
  | waits goesOn ih => exact ih _ (fits_step hw)

theorem Settled.quiet {user : String} {call : Call} (hw : Settled real w) (hquiet : QuietFor user call) :
    Settled real (w.answer call).2 := by
  cases call with
  | catalog r => exact hw.answer (Catalog.sameContent_answer hquiet).blocks
  | objects r =>
    cases r with
    | presign key ttl now =>
      have hpresign : w.stores.objects.answer (.presign key ttl now) =
          ((w.stores.objects.answer (.presign key ttl now)).1, w.stores.objects) :=
        Prod.ext rfl (answer_presign_block w.stores.objects key ttl now)
      have hsame : (w.answer (.objects (.presign key ttl now))).2 = w :=
        congrArg Prod.snd (Watched.answer_objects hpresign)
      rwa [hsame]
    | _ => cases hquiet

theorem settled_act (settings : Settings) (op : Operation) (hw : Settled real w) :
    Settled real (Task.run Watched.answer (op.act settings).run w).2 := by
  rcases upload_or_quiet op with ⟨request, body, now, rfl⟩ | hquiet
  · exact Fits.run (d := ⟨request, body, now⟩) (follows_act settings request body now) (fits_start hw settings)
  · exact (quiet_act settings op hquiet).only.run_induction (fun _ _ hcall ht => ht.quiet hcall) hw

theorem settled_watch (settings : Settings) (ops : List Operation) (hw : Settled real w) :
    Settled real (watch settings ops w) := by
  induction ops generalizing w with
  | nil => exact hw
  | cons op rest ih => exact ih (settled_act settings op hw)

/-! ### Rows that an upload adds -/

theorem blocks_uploadChunk_new {s : Stores} {request : UploadRequest} {body : List Frame} {data : List UInt8}
    (hs : Sound real s) (hadmitted : Admitted settings s.catalog request)
    (hnew : s.catalog.block? request.blockHash.hex = none) (hread : readBody request [] body = .ok data)
    (now : DateTime) :
    (perform (uploadChunk settings request body now) s).2.catalog.blocks = s.catalog.blocks ++ [rowOf request now] := by
  obtain ⟨c, f, rfl⟩ := hs.exists_files
  obtain ⟨next, hupload⟩ := perform_uploadChunk_stored hs hadmitted hnew hread now
  rw [hupload]
  exact Catalog.blocks_registerChunk _ _ _

theorem blocks_uploadChunk_known {s : Stores} {request : UploadRequest} (hs : Sound real s)
    (hknown : (s.catalog.block? request.blockHash.hex).isSome) (settings : Settings) (body : List Frame)
    (now : DateTime) :
    (perform (uploadChunk settings request body now) s).2.catalog.blocks = s.catalog.blocks := by
  obtain ⟨c, f, rfl⟩ := hs.exists_files
  have h := uploaded hs settings request body now
  generalize perform (uploadChunk settings request body now) ⟨c, .files f⟩ = result at h
  cases h with
  | linked _ _ _ => exact Catalog.blocks_registerChunk _ _ _
  | stored _ new _ _ _ =>
    rw [new] at hknown
    cases hknown
  | _ => rfl

/-! ### Runs from empty stores -/

/-- **Operations run one after another, from an empty catalog beside a store without blocks that does not fail. After
them no two rows of blocks have the same hash; under the storage key of each row there are bytes that have its hash and
are as many as it says; all that is stored is blocks with rows; and in the whole run objects were written under the
storage keys of these rows, in their order and each once.** -/
theorem each_block_stored_once (settings : Settings) (ops : List Operation) {o : ObjectStore} (ho : o.Blank real)
    (hserves : o.Serves) :
    let s := after settings ops ⟨.empty, o⟩
    let w := watch settings ops (.start ⟨.empty, o⟩)
    (s.catalog.blocks.map Catalog.StoredBlock.blockHash).Nodup ∧
      (∀ row ∈ s.catalog.blocks, (s.objects.answer (.contains row.storageKey)).1 = .ok true ∧
        ∃ h data, Describes (s.objects.block? real) row h data ∧
          (data.length ≤ Int64.maxValue.toInt → row.size = data.length)) ∧
      s.objects.Consists real (fun h => ∃ row ∈ s.catalog.blocks, row.blockHash = h.hex) ∧
      w.stores = s ∧ w.written = s.catalog.blocks.map Catalog.StoredBlock.storageKey ∧ w.written.Nodup := by
  intro s w
  have hstores : w.stores = s := stores_watch settings ops (.start ⟨.empty, o⟩)
  have hsettled : Settled real w := settled_watch settings ops ⟨ho.idle hserves, matches_empty ho.block?_eq⟩
  obtain ⟨hidle, hmatches⟩ := hsettled
  rw [hstores] at hidle hmatches
  refine ⟨hmatches.distinct, fun row hrow => ?_, hidle.consists.mono fun h hstored => ?_, hstores, hmatches.written,
    hmatches.nodup_written⟩
  · obtain ⟨h, data, hdescribes⟩ := hmatches.rows row hrow
    obtain ⟨reply, hcontains, _, hreply⟩ := answer_contains_block hidle.orderly h
    refine ⟨?_, h, data, hdescribes, fun hfits => hdescribes.size.trans (recordedSize_eq hfits)⟩
    rw [hdescribes.key, hcontains, hreply hidle.serves, hdescribes.object]
    rfl
  · obtain ⟨row, hrow⟩ := Option.isSome_iff_exists.mp (hmatches.recorded h hstored)
    exact ⟨row, List.mem_of_find?_eq_some hrow, by simpa using List.find?_some hrow⟩

/-- Two users upload the same block for different files. It is written once, and the second body is not even read. -/
theorem each_block_stored_once_shared :
    let o : ObjectStore := .files ⟨⟨[]⟩, [], ⟨[], ""⟩, [], 0⟩
    let settings : Settings := ⟨2, 60, 1⟩
    let block : BlockHash := .compute []
    let ops : List Operation := [.grantOnTeam "ann" "team" .write .epoch, .grantOnTeam "bob" "team" .write .epoch,
      .upload ⟨"ann", default, 0, 2, block, 0⟩ [] .epoch,
      .upload ⟨"bob", .ofBlocks [block], 0, 1, block, 0⟩ [.fault "gone"] .epoch]
    (o.Blank [] ∧ o.Serves) ∧ (watch settings ops (.start ⟨.empty, o⟩)).written = [block.objectKey] := by
  intro o settings block ops
  have hblank : o.Blank [] := fresh_root _
  have hserves : o.Serves := trivial
  obtain ⟨_, _, _, _, hwritten, _⟩ := each_block_stored_once settings ops hblank hserves
  refine ⟨⟨hblank, hserves⟩, hwritten.trans ?_⟩
  -- After the grants there is no block, after the first upload there is one, and the second adds none.
  let ann : UploadRequest := ⟨"ann", default, 0, 2, block, 0⟩
  have hadmitted : Admitted settings sharedStores.catalog ann := ⟨rfl, by decide +kernel⟩
  have hnone : sharedStores.catalog.block? block.hex = none := by
    rw [Catalog.block?, sharedStores_empty.1]
    rfl
  have hfirst : (perform (uploadChunk settings ann [] .epoch) sharedStores).2.catalog.blocks = [rowOf ann .epoch] := by
    have hread : readBody ann [] [] = .ok [] := readBody_data [] rfl rfl
    rw [blocks_uploadChunk_new sound_sharedStores hadmitted hnone hread, sharedStores_empty.1]
    rfl
  have hgranted (first second : Operation) :
      after settings [.grantOnTeam "ann" "team" .write .epoch, .grantOnTeam "bob" "team" .write .epoch, first, second]
          ⟨.empty, o⟩ =
        (perform (second.act settings) (perform (first.act settings) sharedStores).2).2 := rfl
  have hafter : after settings ops ⟨.empty, o⟩ =
      (perform (uploadChunk settings ⟨"bob", .ofBlocks [block], 0, 1, block, 0⟩ [.fault "gone"] .epoch)
        (perform (uploadChunk settings ann [] .epoch) sharedStores).2).2 := by
    rw [hgranted, perform_upload, perform_upload]
  rw [hafter, blocks_uploadChunk_known (sound_uploadChunk sound_sharedStores settings ann [] .epoch), hfirst]
  · rfl
  · rw [Catalog.block?, hfirst]
    simp [rowOf, ann]

end Depot.Service
