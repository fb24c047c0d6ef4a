import Depot.Proofs.Catalog.Repetition
import Depot.Proofs.Service.Deduplication
import Depot.Proofs.Service.FailedUpload

/-!
# Uploads that are repeated

An upload that has succeeded leaves all that it takes to succeed again without its body.

- `Acceptable`: stores that have what an upload needs but its chunk (`acceptable_of_ok`).
- `Acceptable.runs`: the calls of an upload over such stores.
- `upload_again`: the same request once more.
-/

namespace Depot.Service

open Content Time Objects

variable {real : Path} {settings : Settings} {request : UploadRequest} {body : List Frame} {now : DateTime}
  {s t u : Stores} {d : Delivery} {p : Phase} {w : Watched} {c : Catalog}

/-! ### Stores that need no body -/

/-- The calls of an upload whose block is recorded and stored. None of them writes an object. -/
def duplicateCalls (request : UploadRequest) (now : DateTime) : List Call :=
  [.catalog (.canUpload request.uploaderId), .catalog (.putBlock (rowOf request now)),
    .catalog (.getBlock request.blockHash.hex), .objects (.contains request.blockHash.objectKey),
    .catalog (.registerChunk request.uploaderId (chunkOf request now))]

/-- An upload is admitted, and its block is recorded with its size and stored. -/
structure Acceptable (real : Path) (settings : Settings) (request : UploadRequest) (s : Stores) : Prop where
  admitted : Admitted settings s.catalog request
  recorded : ∃ row, s.catalog.block? request.blockHash.hex = some row ∧ row.size = recordedSize request.size
  stored : (s.objects.block? real request.blockHash).isSome
  orderly : s.objects.Orderly real
  serves : s.objects.Serves

theorem Follows.runs_to {stage : Stage} {task : CallTask (Except ServiceError UploadOutcome)} {calls : List Call}
    {result : Except ServiceError UploadOutcome} (hfollows : Follows d.request d.body d.now id (.waits p) task)
    (hleads : d.leads s p = stage) (hleft : d.left s p = t)
    (hrest : ∀ rest, Follows d.request d.body d.now id stage rest → Runs Healthy rest t calls result u) :
    Runs Healthy task s (p.call d.request d.now :: calls) result u := by
  subst hleads hleft
  exact hfollows.runs rfl hrest

theorem Acceptable.runs (h : Acceptable real settings d.request s) {reply : InsertOutcome}
    (hlinks : (s.catalog.registerChunk d.request.uploaderId (chunkOf d.request d.now)).1 = .ok reply) :
    Runs Healthy (d.upload settings).run s (duplicateCalls d.request d.now) (.ok .duplicateAccepted)
      { s with catalog := (s.catalog.registerChunk d.request.uploaderId (chunkOf d.request d.now)).2 } := by
  obtain ⟨row, hrow, hsize⟩ := h.recorded
  have hknown : (s.catalog.block? d.request.blockHash.hex).isSome := Option.isSome_of_eq_some hrow
  have hlooks : d.leads s .looking = .waits .probing := by
    rw [leads_looking, hrow]
    exact if_neg (not_not.mpr hsize)
  have hprobes : d.leads s .probing = .waits (.linking .duplicateAccepted) := by
    rw [leads_probing h.orderly h.serves, if_pos h.stored]
  obtain ⟨found, hcontains, _⟩ := answer_contains_block h.orderly d.request.blockHash
  have hfollows := follows_uploadChunk settings d.request d.body d.now
  rw [Stage.start, h.admitted.valid] at hfollows
  refine hfollows.runs_to (p := .rights) (leads_rights h.admitted.permitted) rfl fun _ hnext => ?_
  refine hnext.runs_to (leads_recording_known hknown) (left_recording_known hknown) fun _ hnext => ?_
  refine hnext.runs_to hlooks rfl fun _ hnext => ?_
  refine hnext.runs_to hprobes (congrArg Prod.snd (answer_objects hcontains)) fun _ hnext => ?_
  refine hnext.runs_to (leads_linking hlinks) rfl fun _ hnext => ?_
  cases hnext with
  | ended result => exact .done _ _

/-! ### What an upload that succeeds leaves -/

theorem exists_settled_upload (hw : Settled real w) (settings : Settings) (d : Delivery) :
    ∃ v, v.stores = (perform (d.upload settings) w.stores).2 ∧ Settled real v := by
  refine ⟨_, ?_, settled_act settings (.upload d.request d.body d.now) hw⟩
  rw [(run_watched _ w).2]
  exact perform_upload settings d.request d.body d.now w.stores

theorem at_chunkOf (request : UploadRequest) (now later : DateTime) :
    (chunkOf request now).at later = chunkOf request later := by
  rw [Catalog.Chunk.at, chunkOf, chunkOf]

theorem block?_putBlock_rowOf (h : ∀ row, c.block? request.blockHash.hex = some row →
      row.size = recordedSize request.size) (now : DateTime) :
    ∃ row, (c.putBlock (rowOf request now)).2.block? request.blockHash.hex = some row ∧
      row.size = recordedSize request.size := by
  have hput : (c.putBlock (rowOf request now)).2.block? request.blockHash.hex =
      (c.block? request.blockHash.hex).or
        (if request.blockHash.hex = request.blockHash.hex then some (rowOf request now) else none) :=
    Catalog.block?_putBlock c (rowOf request now) request.blockHash.hex
  rw [hput, if_pos rfl]
  cases hrow : c.block? request.blockHash.hex with
  | none => exact ⟨rowOf request now, rfl, by rw [rowOf]⟩
  | some row => exact ⟨row, rfl, h row hrow⟩

theorem acceptable_of_ok (hw : Settled real w) {outcome : UploadOutcome}
    (hupload : perform (d.upload settings) w.stores = (.ok outcome, t)) : Acceptable real settings d.request t := by
  obtain ⟨v, hv, hsettled⟩ := exists_settled_upload hw settings d
  rw [hupload] at hv
  subst hv
  have hadmitted : Admitted settings w.stores.catalog d.request := admitted_of_perform_ok (by rw [hupload])
  obtain ⟨hsized, reply, hlinks⟩ := registers_of_perform_ok hupload
  have hcatalog : v.stores.catalog = ((w.stores.catalog.putBlock (rowOf d.request d.now)).2.registerChunk
      d.request.uploaderId (chunkOf d.request d.now)).2 := (congrArg Prod.snd hlinks).symm
  have hrecorded : ∃ row, v.stores.catalog.block? d.request.blockHash.hex = some row ∧
      row.size = recordedSize d.request.size := by
    rw [hcatalog, Catalog.block?, Catalog.blocks_registerChunk]
    exact block?_putBlock_rowOf hsized d.now
  refine ⟨⟨hadmitted.valid, ?_⟩, hrecorded, hsettled.rows.stored ?_, hsettled.idle.orderly, hsettled.idle.serves⟩
  · rw [hcatalog, (Catalog.sameRights_registerChunk _ _ _ _).canUpload_eq]
    exact (canUpload_left d w.stores .recording _).trans hadmitted.permitted
  · obtain ⟨row, hrow, _⟩ := hrecorded
    exact Option.isSome_of_eq_some hrow

/-! ### The same upload once more -/

/-- **Operations run one after another, from an empty catalog beside a store without blocks that does not fail, and then
an upload succeeds. Repeated next, with any body and at any time, it is accepted as a duplicate, by calls that do not
depend on the body. The objects are as they were, and so is the catalog, but for the time of that one position if the
chunk is staged.** -/
theorem upload_again (settings : Settings) (ops : List Operation) {o : ObjectStore} (ho : o.Blank real)
    (hserves : o.Serves) {outcome : UploadOutcome}
    (hupload : perform (uploadChunk settings request body now) (after settings ops ⟨.empty, o⟩) = (.ok outcome, t))
    (later : DateTime) :
    ∃ u, (∀ other,
        Runs Healthy (uploadChunk settings request other later).run t (duplicateCalls request later)
          (.ok .duplicateAccepted) u ∧
        perform (uploadChunk settings request other later) t = (.ok .duplicateAccepted, u)) ∧
      u.objects = t.objects ∧
      Catalog.Retimed t.catalog request.uploaderId (chunkOf request later) u.catalog := by
  let w := watch settings ops (.start ⟨.empty, o⟩)
  have hstores : w.stores = after settings ops ⟨.empty, o⟩ := stores_watch settings ops (.start ⟨.empty, o⟩)
  have hsettled : Settled real w := settled_watch settings ops ⟨ho.idle hserves, matches_empty ho.block?_eq⟩
  rw [← hstores] at hupload
  have hacceptable : Acceptable real settings request t := acceptable_of_ok (d := ⟨request, body, now⟩) hsettled hupload
  obtain ⟨_, reply, hlinks⟩ := registers_of_perform_ok (d := ⟨request, body, now⟩) hupload
  have hcontent : Catalog.ContentSound (w.stores.catalog.putBlock (rowOf request now)).2 :=
    Catalog.contentSound_step (Catalog.putBlock_step _ _) hsettled.rows.content
  have hcatalog : ((w.stores.catalog.putBlock (rowOf request now)).2.registerChunk request.uploaderId
      (chunkOf request now)).2 = t.catalog := congrArg Prod.snd hlinks
  obtain ⟨⟨again, hagain⟩, hretimed⟩ := Catalog.registerChunk_again hcontent (by rw [hlinks]) later
  rw [hcatalog, at_chunkOf] at hagain hretimed
  refine ⟨{ t with catalog := (t.catalog.registerChunk request.uploaderId (chunkOf request later)).2 }, fun other => ?_,
    rfl, hretimed⟩
  have hruns := hacceptable.runs (d := ⟨request, other, later⟩) hagain
  exact ⟨hruns, hruns.run_eq⟩

/-- A chunk is staged, and its upload is repeated an hour later with a body that cannot be read. -/
theorem upload_again_unread :
    let o : ObjectStore := .files ⟨⟨[]⟩, [], ⟨[], ""⟩, [], 0⟩
    let settings : Settings := ⟨2, 60, 1⟩
    let request : UploadRequest := ⟨"ann", default, 0, 2, .compute [], 0⟩
    let later : DateTime := { DateTime.epoch with time := .ofSeconds 3600 0 }
    (o.Blank [] ∧ o.Serves) ∧
      ∃ t, (perform (uploadChunk settings request [] .epoch) sharedStores = (.ok .uploaded, t) ∧
          t.catalog.staged ≠ []) ∧
        ∃ u, perform (uploadChunk settings request [.fault "gone"] later) t = (.ok .duplicateAccepted, u) ∧
          u.objects = t.objects ∧ Catalog.Retimed t.catalog "ann" (chunkOf request later) u.catalog := by
  intro o settings request later
  have hblank : o.Blank [] := fresh_root _
  have hserves : o.Serves := trivial
  have hadmitted : Admitted settings sharedStores.catalog request := ⟨rfl, by decide +kernel⟩
  have hread : readBody request [] [] = .ok [] := readBody_data [] rfl rfl
  obtain ⟨t, hupload, hstaged⟩ :=
    perform_uploadChunk_first sound_sharedStores sharedStores_empty hadmitted hread Nat.one_lt_two .epoch
  obtain ⟨u, haccepted, hsame⟩ := upload_again settings _ hblank hserves hupload later
  exact ⟨⟨hblank, hserves⟩, t, ⟨hupload, hstaged⟩, u, (haccepted _).2, hsame⟩

end Depot.Service
