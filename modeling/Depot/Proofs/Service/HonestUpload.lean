import Depot.Proofs.Service.LoneUpload
import Depot.Proofs.Service.RefusedUpload

/-!
# Honest uploads beside others

An upload whose body is what it declares, and that would succeed alone, runs beside uploads of other files. It can
rely on the row of its block if that was there before, or if all uploads that could record it are right about it.

- `Sure`: what the upload can rely on in each phase. `Undisturbed.call`: one call of any upload.
- It is accepted in every interleaving if, and only if, it can rely on the row (`Undisputed`). Otherwise there is one
  in which it is refused (`exists_refused`).
-/

namespace Depot.Service

open Content Time Objects

variable {ι : Type} {real : Path} {settings : Settings} {d : Delivery} {s t : Stores} {p : Phase} {c : Catalog}
  {stage : Stage}

/-! ### What an honest upload can rely on -/

/-- The rows of its file are as they were, and once its block has to be recorded it is. In the end it is accepted,
and its chunk is there. -/
def Sure (c : Catalog) (d : Delivery) (s : Stores) : Stage → Prop
  | .waits .rights | .waits .recording => Catalog.SameFile d.request.uploaderId d.request.fileHash.hex c s.catalog
  | .waits _ => Catalog.SameFile d.request.uploaderId d.request.fileHash.hex c s.catalog ∧
      (s.catalog.block? d.request.blockHash.hex).isSome
  | .ended result => (∃ outcome, result = .ok outcome) ∧
      s.catalog.Holds d.request.uploaderId (chunkOf d.request d.now)

/-- What an upload relies on stays while others leave its file alone and the row of its block to it. -/
theorem Sure.mono (h : Sure c d s stage)
    (hfile : Catalog.SameFile d.request.uploaderId d.request.fileHash.hex s.catalog t.catalog)
    (hblock : (s.catalog.block? d.request.blockHash.hex).isSome → (t.catalog.block? d.request.blockHash.hex).isSome) :
    Sure c d t stage := by
  cases stage with
  | ended result => exact ⟨h.1, Catalog.SameFile.holds (k := chunkOf d.request d.now) hfile h.2⟩
  | waits p =>
    cases p with
    | rights | recording => exact Catalog.SameFile.trans h hfile
    | _ => exact ⟨h.1.trans hfile, hblock h.2⟩

theorem sure_start (hvalid : d.request.validate settings.maxBlockSize = .ok ()) (s : Stores) :
    Sure s.catalog d s (.start d.request settings) := by
  rw [Stage.start, hvalid]
  exact .refl _ _ _

theorem sure_copying (hfile : Catalog.SameFile d.request.uploaderId d.request.fileHash.hex c s.catalog)
    (hblock : (s.catalog.block? d.request.blockHash.hex).isSome) (recorded : InsertOutcome) (n : Nat)
    (before : List UInt8) (frames : List Frame) :
    Sure c d s (.copying d.request recorded n before frames) := by
  have h := copies_copying d.request recorded n before frames
  generalize Stage.copying d.request recorded n before frames = stage at h ⊢
  cases h <;> exact ⟨hfile, hblock⟩

theorem block?_recording (d : Delivery) (s : Stores) :
    ((d.left s .recording).catalog.block? d.request.blockHash.hex).isSome := by
  have hput : (d.left s .recording).catalog.block? d.request.blockHash.hex =
      (s.catalog.block? d.request.blockHash.hex).or
        (if d.request.blockHash.hex = d.request.blockHash.hex then some (rowOf d.request d.now) else none) :=
    Catalog.block?_putBlock s.catalog (rowOf d.request d.now) d.request.blockHash.hex
  rw [hput, if_pos rfl]
  cases s.catalog.block? d.request.blockHash.hex <;> rfl

theorem sameFile_recording {uploader fileHash : String} (d : Delivery) (s : Stores) :
    Catalog.SameFile uploader fileHash s.catalog (d.left s .recording).catalog := by
  have hkept := chunks_putBlock s.catalog (rowOf d.request d.now)
  exact Catalog.sameFile_of_eq hkept.1 hkept.2

/-- The chunk can still be registered while the rows of its file are as they were: the registration answers what it
would have answered at once. -/
theorem Accepting.links_later (haccepting : Accepting settings c d)
    (hfile : Catalog.SameFile d.request.uploaderId d.request.fileHash.hex c s.catalog)
    (hblock : (s.catalog.block? d.request.blockHash.hex).isSome) :
    ∃ reply, (s.catalog.registerChunk d.request.uploaderId (chunkOf d.request d.now)).1 = .ok reply := by
  obtain ⟨reply, hreply⟩ := haccepting.links
  have hput := block?_recording d ⟨c, s.objects⟩
  have hrecorded : Catalog.SameFile d.request.uploaderId (chunkOf d.request d.now).fileHash
      (c.putBlock (rowOf d.request d.now)).2 s.catalog :=
    (sameFile_recording d ⟨c, s.objects⟩).symm.trans hfile
  refine ⟨reply, ?_⟩
  rw [Catalog.registerChunk_congr hrecorded hput hblock]
  exact hreply

theorem Sure.leads (h : Sure c d s (.waits p)) (haccepting : Accepting settings c d) (hs : Backed real s)
    (hserves : s.objects.Serves) (hknows : Knows real d.request s.objects (.waits p))
    (hreads : Stage.Reads d.request (.waits p))
    (hledger : Ledger c d.request.blockHash (recordedSize d.request.size) s.catalog) :
    Sure c d (d.left s p) (d.leads s p) := by
  cases p with
  | rights =>
    rw [leads_rights ((hledger.rights _).trans haccepting.admitted.permitted)]
    exact h
  | recording =>
    have hfile : Catalog.SameFile d.request.uploaderId d.request.fileHash.hex c (d.left s .recording).catalog :=
      Catalog.SameFile.trans h (sameFile_recording d s)
    cases hrow : s.catalog.block? d.request.blockHash.hex with
    | none =>
      rw [leads_recording_new hrow]
      exact ⟨hfile, block?_recording d s⟩
    | some row =>
      rw [leads_recording_known (by rw [hrow]; rfl)]
      exact ⟨hfile, block?_recording d s⟩
  | looking =>
    obtain ⟨row, hrow⟩ := Option.isSome_iff_exists.mp h.2
    rw [leads_looking, hrow]
    dsimp only
    rw [if_neg (not_not.mpr (hledger.sized row hrow))]
    exact h
  | probing =>
    rw [leads_probing hs.orderly hserves]
    split <;> exact h
  | opening recorded =>
    rw [leads_opening hs.orderly]
    exact sure_copying h.1 h.2 _ _ _ _
  | writing recorded n before bytes rest =>
    rw [leads_writing hs.orderly hknows]
    exact sure_copying h.1 h.2 _ _ _ _
  | finishing recorded n data =>
    rw [leads_finishing hs.orderly hserves hknows.1]
    exact h
  | dropping recorded n why => cases hreads
  | removing why => cases hreads
  | linking outcome =>
    obtain ⟨reply, hok⟩ := haccepting.links_later h.1 h.2
    rw [leads_linking hok]
    exact ⟨⟨outcome, rfl⟩, Catalog.holds_registerChunk hs.content hok⟩

theorem sameFile_left {uploader fileHash : String} (hfile : d.request.fileHash.hex ≠ fileHash) (s : Stores)
    (p : Phase) : Catalog.SameFile uploader fileHash s.catalog (d.left s p).catalog := by
  cases p with
  | recording => exact sameFile_recording d s
  | removing why =>
    have hkept := chunks_deleteBlock s.catalog d.request.blockHash.hex
    exact Catalog.sameFile_of_eq hkept.1 hkept.2
  | linking outcome => exact Catalog.sameFile_registerChunk_of_ne (k := chunkOf d.request d.now) hfile
  | _ => exact .refl _ _ _

/-! ### One upload among others -/

/-- An upload can rely on the row of its block: the row was there before, or all other uploads that could record it
are right about it. -/
def Undisputed (settings : Settings) (c : Catalog) (jobs : ι → Delivery) (i : ι) : Prop :=
  (c.block? (jobs i).request.blockHash.hex).isSome ∨
    ∀ j, j ≠ i → (jobs j).request.blockHash = (jobs i).request.blockHash → Admitted settings c (jobs j).request →
      Honest (jobs j) ∧ recordedSize (jobs j).request.size = recordedSize (jobs i).request.size

/-- What holds between any two calls of uploads that leave one of them undisturbed. -/
structure Undisturbed (real : Path) (c : Catalog) (jobs : ι → Delivery) (i : ι) (x : Uploads ι) : Prop where
  crew : Crew real jobs x
  ledger : Ledger c (jobs i).request.blockHash (recordedSize (jobs i).request.size) x.stores.catalog
  harmless : ∀ j, Harmless c (jobs i).request.blockHash (recordedSize (jobs i).request.size) (jobs j) (x.stages j)
  reads : (x.stages i).Reads (jobs i).request
  sure : Sure c (jobs i) x.stores (x.stages i)

variable {jobs : ι → Delivery} {i : ι} {x : Uploads ι}

theorem harmless_start (hundisputed : Undisputed settings c jobs i) (hbody : Honest (jobs i)) (j : ι) :
    Harmless c (jobs i).request.blockHash (recordedSize (jobs i).request.size) (jobs j)
      (.start (jobs j).request settings) := by
  by_cases hji : j = i
  · subst hji
    exact .right hbody rfl (reads_start _ _)
  · by_cases hblock : (jobs j).request.blockHash = (jobs i).request.blockHash
    · rcases hundisputed with hknown | hright
      · exact .late hknown (owns_start _ _)
      · cases hvalid : (jobs j).request.validate settings.maxBlockSize with
        | error e => exact .finished _ (by rw [Stage.start, hvalid])
        | ok =>
          cases hcan : c.canUpload (jobs j).request.uploaderId with
          | false => exact .refused (by rw [Stage.start, hvalid]) hcan
          | true =>
            obtain ⟨hhonest, hsize⟩ := hright j hji hblock ⟨hvalid, hcan⟩
            exact .right hhonest hsize (reads_start _ _)
    · exact .other hblock

theorem undisturbed_start (hundisputed : Undisputed settings s.catalog jobs i) (hbody : Honest (jobs i))
    (haccepting : Accepting settings s.catalog (jobs i)) (hs : Backed real s) (hserves : s.objects.Serves) :
    Undisturbed real s.catalog jobs i (.start settings jobs s) where
  crew := crew_start hs hserves settings jobs
  ledger := ⟨id, haccepting.sized, fun _ => rfl⟩
  harmless := harmless_start hundisputed hbody
  reads := reads_start _ _
  sure := sure_start haccepting.admitted.valid s

theorem Undisturbed.call [DecidableEq ι] (h : Undisturbed real c jobs i x) (hbody : Honest (jobs i))
    (haccepting : Accepting settings c (jobs i))
    (hfiles : ∀ j, j ≠ i → (jobs j).request.fileHash ≠ (jobs i).request.fileHash) {j : ι}
    (hwaits : x.stages j = .waits p) :
    Undisturbed real c jobs i
      ⟨(jobs j).left x.stores p, Function.update x.stages j ((jobs j).leads x.stores p)⟩ := by
  have hs := h.crew.backed
  have hknows : Knows real (jobs j).request x.stores.objects (.waits p) := hwaits ▸ h.crew.knows j
  have hharmless : Harmless c (jobs i).request.blockHash (recordedSize (jobs i).request.size) (jobs j) (.waits p) :=
    hwaits ▸ h.harmless j
  have hledger := hharmless.ledger h.ledger
  have hnext := hharmless.leads h.ledger hs.orderly h.crew.serves hknows
  have hall : ∀ k, Harmless c (jobs i).request.blockHash (recordedSize (jobs i).request.size) (jobs k)
      (Function.update x.stages j ((jobs j).leads x.stores p) k) := by
    intro k
    by_cases hkj : k = j
    · subst hkj
      rwa [Function.update_self]
    · rw [Function.update_of_ne hkj]
      exact h.harmless k
  by_cases hji : j = i
  · subst hji
    have hreads : Stage.Reads (jobs j).request (.waits p) := hwaits ▸ h.reads
    have hsure : Sure c (jobs j) x.stores (.waits p) := hwaits ▸ h.sure
    refine ⟨h.crew.call hwaits, hledger, hall, ?_, ?_⟩ <;> dsimp only <;> rw [Function.update_self]
    · exact reads_leads hbody hs.orderly h.crew.serves hknows hreads
    · exact hsure.leads haccepting hs h.crew.serves hknows hreads h.ledger
  · have hfile : (jobs j).request.fileHash.hex ≠ (jobs i).request.fileHash.hex := fun heq =>
      hfiles j hji (FileHash.hex_injective heq)
    refine ⟨h.crew.call hwaits, hledger, hall, ?_, ?_⟩ <;> dsimp only <;> rw [Function.update_of_ne (Ne.symm hji)]
    · exact h.reads
    · exact h.sure.mono (sameFile_left hfile _ _) (hharmless.isSome_left h.ledger.known)

theorem exists_refused [DecidableEq ι] (hs : Backed real s) (hadmitted : Admitted settings s.catalog (jobs i).request)
    (hdisputed : ¬Undisputed settings s.catalog jobs i) :
    ∃ x e, Uploads.Reaches jobs (.start settings jobs s) x ∧ x.stages i = .ended (.error e) := by
  obtain ⟨hknown, hwrong⟩ := not_or.mp hdisputed
  push Not at hwrong
  obtain ⟨j, hji, hblock, hother, hwrong⟩ := hwrong
  have hnew : s.catalog.block? (jobs j).request.blockHash.hex = none :=
    hblock ▸ Option.not_isSome_iff_eq_none.mp hknown
  by_cases hbody : Honest (jobs j)
  · obtain ⟨x, hreaches, hended⟩ := refused_over_size hji hblock hadmitted hother hnew rfl (hwrong hbody)
    exact ⟨x, _, hreaches, hended⟩
  · obtain ⟨x, hreaches, hended⟩ := refused_over_row hs hji hblock hadmitted hother hnew hbody
    exact ⟨x, _, hreaches, hended⟩

/-! ### Every interleaving -/

/-- When an upload has made the calls that it still has to make, it is accepted, and its chunk is staged or
catalogued. An upload that has ended has no calls to make. -/
def Accepts (d : Delivery) (w : Crowd ι (Except ServiceError UploadOutcome)) (i : ι) : Prop :=
  ∃ outcome t, Task.run Stores.answer (w.tasks i) w.stores = (.ok outcome, t) ∧
    t.catalog.Holds d.request.uploaderId (chunkOf d.request d.now)

/-- **An honest upload beside uploads of other files, which would succeed alone, is accepted in every interleaving of
their calls if the row of its block was there before or all other uploads of the block that are admitted are right about
it. Otherwise there is an interleaving in which it is refused.** -/
theorem upload_accepted_iff [DecidableEq ι] (settings : Settings) (jobs : ι → Delivery) (i : ι) (hs : Backed real s)
    (hserves : s.objects.Serves) (hbody : Honest (jobs i))
    (halone : ∃ outcome, (perform ((jobs i).upload settings) s).1 = .ok outcome)
    (hfiles : ∀ j, j ≠ i → (jobs j).request.fileHash ≠ (jobs i).request.fileHash) :
    (∀ w, Crowd.Steps Healthy (uploadsOf settings jobs s) w → Accepts (jobs i) w i) ↔
      Undisputed settings s.catalog jobs i := by
  obtain ⟨outcome, halone⟩ := halone
  have haccepting := perform_upload_ok halone
  constructor
  · intro haccepts
    by_contra hdisputed
    obtain ⟨x, e, ⟨turns, hplay⟩, hended⟩ := exists_refused hs haccepting.admitted hdisputed
    obtain ⟨w, hw, hmirrors⟩ := (mirrors_start settings jobs s).play turns
    rw [hplay] at hmirrors
    obtain ⟨_, _, hrun, _⟩ := haccepts w hw
    rw [hmirrors.done hended] at hrun
    cases hrun
  · intro hundisputed w hw
    obtain ⟨turns, hmirrors⟩ := exists_play (hw.trans (Crowd.steps_alone w i))
    have hundisturbed : Undisturbed real s.catalog jobs i ((Uploads.start settings jobs s).play jobs turns) :=
      Uploads.play_induction (P := Undisturbed real s.catalog jobs i)
        (fun _ _ _ hwaits h => h.call hbody haccepting hfiles hwaits)
        (undisturbed_start hundisputed hbody haccepting hs hserves) turns
    have hsure := hundisturbed.sure
    rw [hmirrors.ended (Function.update_self i _ _), ← hmirrors.stores] at hsure
    obtain ⟨⟨value, hvalue⟩, hheld⟩ := hsure
    exact ⟨value, _, Prod.ext hvalue rfl, hheld⟩

/-- Empty stores to which two users may upload. -/
def sharedStores : Stores :=
  after ⟨2, 60, 1⟩ [.grantOnTeam "ann" "team" .write .epoch, .grantOnTeam "bob" "team" .write .epoch]
    ⟨.empty, .files ⟨⟨[]⟩, [], ⟨[], ""⟩, [], 0⟩⟩

theorem sound_sharedStores : Sound [] sharedStores := sound_after _ _ (sound_fresh (fresh_root _))

theorem serves_sharedStores : sharedStores.objects.Serves := by
  obtain ⟨f, hf, _⟩ := sound_sharedStores.files
  rw [hf]
  trivial

theorem sharedStores_empty :
    sharedStores.catalog.blocks = [] ∧ sharedStores.catalog.chunks = [] ∧ sharedStores.catalog.staged = [] := by
  decide +kernel

/-- Ann's upload of the empty block, and Bob's with a size of his own. -/
def rivals (size : Nat) (j : Bool) : Delivery where
  request :=
    { uploaderId := if j then "ann" else "bob", fileHash := if j then default else ⟨⟨.replicate 32 1⟩⟩
      chunkIndex := 0, totalChunks := 2, blockHash := .compute [], size := if j then 0 else size }
  body := []
  now := .epoch

theorem honest_rivals (j : Bool) : Honest (rivals 0 j) := ⟨[], rfl, by cases j <;> rfl, rfl⟩

theorem admitted_rivals {size : Nat} (hsize : size ≤ 2) (j : Bool) :
    Admitted ⟨2, 60, 1⟩ sharedStores.catalog (rivals size j).request := by
  have hann : sharedStores.catalog.canUpload "ann" := by decide +kernel
  have hbob : sharedStores.catalog.canUpload "bob" := by decide +kernel
  cases j with
  | true => exact ⟨validate_eq_ok Nat.zero_lt_two (Nat.zero_le 2), hann⟩
  | false => exact ⟨validate_eq_ok Nat.zero_lt_two hsize, hbob⟩

theorem fileHash_rivals (size : Nat) {j : Bool} (hj : j ≠ true) :
    (rivals size j).request.fileHash ≠ (rivals size true).request.fileHash := by
  cases j with
  | false => exact (by decide : (⟨⟨.replicate 32 1⟩⟩ : FileHash) ≠ default)
  | true => exact absurd rfl hj

theorem rivals_alone (size : Nat) :
    ∃ outcome, (perform ((rivals size true).upload ⟨2, 60, 1⟩) sharedStores).1 = .ok outcome := by
  have hread : readBody (rivals size true).request [] [] = .ok [] := readBody_data [] rfl rfl
  obtain ⟨next, hupload, _⟩ := perform_uploadChunk_first sound_sharedStores sharedStores_empty
    (admitted_rivals (Nat.zero_le 2) true) hread Nat.one_lt_two .epoch
  exact ⟨_, congrArg Prod.fst hupload⟩

/-- Beside Bob's honest upload it is always accepted. -/
theorem upload_accepted_beside_same :
    (Backed [] sharedStores ∧ sharedStores.objects.Serves ∧ Honest (rivals 0 true) ∧
        (∃ outcome, (perform ((rivals 0 true).upload ⟨2, 60, 1⟩) sharedStores).1 = .ok outcome) ∧
        ∀ j, j ≠ true → (rivals 0 j).request.fileHash ≠ (rivals 0 true).request.fileHash) ∧
      ∀ w, Crowd.Steps Healthy (uploadsOf ⟨2, 60, 1⟩ (rivals 0) sharedStores) w → Accepts (rivals 0 true) w true := by
  refine ⟨⟨sound_sharedStores.backed, serves_sharedStores, honest_rivals true, rivals_alone 0,
    fun j hj => fileHash_rivals 0 hj⟩, ?_⟩
  exact (upload_accepted_iff ⟨2, 60, 1⟩ (rivals 0) true sound_sharedStores.backed serves_sharedStores
    (honest_rivals true) (rivals_alone 0) fun j hj => fileHash_rivals 0 hj).mpr
    (.inr fun j _ _ _ => ⟨honest_rivals j, by cases j <;> rfl⟩)

/-- Beside Bob's upload with another size it can be refused. -/
theorem upload_refused_beside_other :
    (Backed [] sharedStores ∧ sharedStores.objects.Serves ∧ Honest (rivals 1 true) ∧
        (∃ outcome, (perform ((rivals 1 true).upload ⟨2, 60, 1⟩) sharedStores).1 = .ok outcome) ∧
        ∀ j, j ≠ true → (rivals 1 j).request.fileHash ≠ (rivals 1 true).request.fileHash) ∧
      ∃ w, Crowd.Steps Healthy (uploadsOf ⟨2, 60, 1⟩ (rivals 1) sharedStores) w ∧ w.tasks true =
        .done (.error (.malformedRequest "declared size 0 does not match stored block size 1")) := by
  refine ⟨⟨sound_sharedStores.backed, serves_sharedStores, honest_rivals true, rivals_alone 1,
    fun j hj => fileHash_rivals 1 hj⟩, ?_⟩
  have hnew : sharedStores.catalog.block? (rivals 1 false).request.blockHash.hex = none := by
    rw [Catalog.block?, sharedStores_empty.1]
    rfl
  have hstored : recordedSize (rivals 1 false).request.size = 1 := by decide
  have hsize : 1 ≠ recordedSize (rivals 1 true).request.size := by decide
  obtain ⟨x, ⟨turns, hplay⟩, hended⟩ := refused_over_size Bool.false_ne_true rfl
    (admitted_rivals (Nat.le_succ 1) true) (admitted_rivals (Nat.le_succ 1) false) hnew hstored hsize
  obtain ⟨w, hw, hmirrors⟩ := (mirrors_start ⟨2, 60, 1⟩ (rivals 1) sharedStores).play turns
  rw [hplay] at hmirrors
  refine ⟨w, hw, (hmirrors.done hended).trans ?_⟩
  have htext : s!"declared size {(rivals 1 true).request.size} does not match stored block size {(1 : Int)}" =
      "declared size 0 does not match stored block size 1" := by
    decide +kernel
  rw [htext]

end Depot.Service
