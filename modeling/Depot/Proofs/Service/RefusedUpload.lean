import Depot.Proofs.Service.SharedBlock

/-!
# Uploads refused beside others

Uploads of one block share its row. The first one records it, and removes it again if its body is refused.

- `goes_recorded`, `goes_removed`: what the first upload does alone. `goes_looking`: another one finds the row.
- `refused_over_size`, `refused_over_row`: two interleavings in which the other upload is refused.
-/

namespace Depot.Service

open Content Time Objects

variable {ι : Type} {real : Path} {settings : Settings} {d : Delivery} {s : Stores} {jobs : ι → Delivery} {i : ι}

/-! ### Uploads that record a row and remove it -/

theorem goes_recording (hadmitted : Admitted settings s.catalog d.request) :
    d.Goes (s, .start d.request settings) (d.left s .recording, d.leads s .recording) := by
  have hstart : Stage.start d.request settings = .waits .rights := by rw [Stage.start, hadmitted.valid]
  exact .tail (.single ⟨.rights, hstart, rfl⟩) ⟨.recording, leads_rights hadmitted.permitted, rfl⟩

theorem goes_recorded (hadmitted : Admitted settings s.catalog d.request)
    (hnew : s.catalog.block? d.request.blockHash.hex = none) :
    d.Goes (s, .start d.request settings)
      ({ s with catalog := withBlock s.catalog d.request d.now }, .waits (.opening .inserted)) := by
  have hgoes := goes_recording hadmitted
  rwa [left_recording_new hnew, leads_recording_new hnew] at hgoes

theorem goes_looking (hadmitted : Admitted settings s.catalog d.request)
    (hknown : (s.catalog.block? d.request.blockHash.hex).isSome) :
    d.Goes (s, .start d.request settings) (s, .waits .looking) := by
  have hgoes := goes_recording hadmitted
  rwa [left_recording_known hknown, leads_recording_known hknown] at hgoes

theorem goes_dropped (d : Delivery) (s : Stores) (n : Nat) (why : ServiceError) :
    d.Goes (s, .waits (.dropping .inserted n why)) (d.left s (.dropping .inserted n why), .waits (.removing why)) :=
  .single ⟨_, rfl, rfl⟩

theorem goes_removing {n : Nat} {before : List UInt8} {frames : List Frame} {e : ServiceError}
    (ho : s.objects.Orderly real) (hwrites : s.objects.Writes real n d.request.blockHash before)
    (hread : readBody d.request before frames = .error e) :
    ∃ t why, d.Goes (s, .copying d.request .inserted n before frames) (t, .waits (.removing why)) ∧
      t.catalog = s.catalog := by
  -- On the frames, with what the earlier ones have written.
  induction frames generalizing s before with
  | nil =>
    have hcopies := copies_copying d.request .inserted n before []
    generalize Stage.copying d.request .inserted n before [] = stage at hcopies ⊢
    cases hcopies with
    | refused => exact ⟨_, _, goes_dropped d s n _, rfl⟩
    | complete read => cases hread.symm.trans read
  | cons frame rest ih =>
    have hcopies := copies_copying d.request .inserted n before (frame :: rest)
    generalize Stage.copying d.request .inserted n before (frame :: rest) = stage at hcopies ⊢
    cases hcopies with
    | refused => exact ⟨_, _, goes_dropped d s n _, rfl⟩
    | @more bytes _ read =>
      obtain ⟨next, hanswer, hbesides, hmore, _⟩ := answer_write_block ho hwrites bytes
      have hleft : d.left s (.writing .inserted n before bytes rest) = { s with objects := next } := by
        change ({ s with objects := (s.objects.answer (.write n bytes)).2 } : Stores) = _
        rw [hanswer]
      obtain ⟨t, why, hgoes, hcatalog⟩ := @ih { s with objects := next } (before ++ bytes) hbesides.orderly hmore
        (read.symm.trans hread)
      refine ⟨t, why, .head ⟨_, rfl, ?_⟩ hgoes, hcatalog⟩
      rw [hleft, leads_writing ho hwrites]

theorem goes_removed (hs : Backed real s) (hbody : ¬Honest d)
    (hnew : s.catalog.block? d.request.blockHash.hex = none) :
    ∃ t e, d.Goes ({ s with catalog := withBlock s.catalog d.request d.now }, .waits (.opening .inserted))
      (t, .ended (.error e)) ∧ t.catalog = s.catalog := by
  obtain ⟨e, hread⟩ : ∃ e, readBody d.request [] d.body = .error e := by
    cases hread : readBody d.request [] d.body with
    | ok data => exact absurd ((honest_iff d).mpr ⟨data, hread⟩) hbody
    | error e => exact ⟨e, rfl⟩
  obtain ⟨next, hanswer, hbesides, hwrites, _⟩ := answer_openUpload_block hs.orderly d.request.blockHash
  obtain ⟨t, why, hgoes, hcatalog⟩ := @goes_removing real d ⟨withBlock s.catalog d.request d.now, next⟩ _ _ _ _
    hbesides.orderly hwrites hread
  have hleft : d.left { s with catalog := withBlock s.catalog d.request d.now } (.opening .inserted) =
      ⟨withBlock s.catalog d.request d.now, next⟩ := by
    change (⟨withBlock s.catalog d.request d.now,
      (s.objects.answer (.openUpload d.request.blockHash.objectKey)).2⟩ : Stores) = _
    rw [hanswer]
  refine ⟨d.left t (.removing why), why, .head ⟨_, rfl, ?_⟩ (.tail hgoes ⟨_, rfl, rfl⟩), ?_⟩
  · rw [hleft, leads_opening (s := { s with catalog := withBlock s.catalog d.request d.now }) hs.orderly]
  · change (t.catalog.commitOr (t.catalog.deleteBlock d.request.blockHash.hex)).2 = _
    rw [hcatalog, deleteBlock_withBlock hs.content hnew]
    rfl

/-! ### Refused over another upload -/

section Refusals

variable [DecidableEq ι] {j : ι}

theorem reaches_looking (hji : j ≠ i) (hblock : (jobs j).request.blockHash = (jobs i).request.blockHash)
    (hadmitted : Admitted settings s.catalog (jobs i).request) (hother : Admitted settings s.catalog (jobs j).request)
    (hnew : s.catalog.block? (jobs j).request.blockHash.hex = none) :
    ∃ stages : ι → Stage,
      Uploads.Reaches jobs (.start settings jobs s)
        ⟨{ s with catalog := withBlock s.catalog (jobs j).request (jobs j).now }, stages⟩ ∧
      stages i = .waits .looking ∧ stages j = .waits (.opening .inserted) := by
  let recorded : Stores := { s with catalog := withBlock s.catalog (jobs j).request (jobs j).now }
  let stages := Function.update (Uploads.start settings jobs s).stages j (.waits (.opening .inserted))
  have hrecords : Uploads.Reaches jobs (.start settings jobs s) ⟨recorded, stages⟩ :=
    Uploads.reaches_of_goes (goes_recorded hother hnew)
  have hstage : stages i = .start (jobs i).request settings := Function.update_of_ne (Ne.symm hji) _ _
  have hknown : (recorded.catalog.block? (jobs i).request.blockHash.hex).isSome := by
    change ((withBlock s.catalog _ _).block? _).isSome
    rw [block?_withBlock hnew, if_pos (by rw [hblock])]
    rfl
  have hlooks : (jobs i).Goes (recorded, stages i) (recorded, .waits .looking) := by
    rw [hstage]
    exact goes_looking ⟨hadmitted.valid, hadmitted.permitted⟩ hknown
  refine ⟨_, hrecords.trans (Uploads.reaches_of_goes hlooks), Function.update_self i _ _, ?_⟩
  exact (Function.update_of_ne hji _ _).trans (Function.update_self j _ _)

/-- An upload that finds the row of another one that is wrong about the size is refused for its own size. -/
theorem refused_over_size (hji : j ≠ i) (hblock : (jobs j).request.blockHash = (jobs i).request.blockHash)
    (hadmitted : Admitted settings s.catalog (jobs i).request) (hother : Admitted settings s.catalog (jobs j).request)
    (hnew : s.catalog.block? (jobs j).request.blockHash.hex = none)
    {stored : Int} (hstored : recordedSize (jobs j).request.size = stored)
    (hsize : stored ≠ recordedSize (jobs i).request.size) :
    ∃ x, Uploads.Reaches jobs (.start settings jobs s) x ∧ x.stages i = .ended (.error (.malformedRequest
      s!"declared size {(jobs i).request.size} does not match stored block size {stored}")) := by
  subst hstored
  obtain ⟨stages, hfinds, hlooking, _⟩ := reaches_looking hji hblock hadmitted hother hnew
  refine ⟨_, hfinds.trans (Uploads.reaches_call (i := i) hlooking), (Function.update_self i _ _).trans ?_⟩
  rw [leads_looking]
  dsimp only
  rw [block?_withBlock hnew, if_pos (by rw [hblock])]
  dsimp only
  rw [if_pos hsize]

theorem refused_over_row (hs : Backed real s) (hji : j ≠ i)
    (hblock : (jobs j).request.blockHash = (jobs i).request.blockHash)
    (hadmitted : Admitted settings s.catalog (jobs i).request) (hother : Admitted settings s.catalog (jobs j).request)
    (hnew : s.catalog.block? (jobs j).request.blockHash.hex = none) (hbody : ¬Honest (jobs j)) :
    ∃ x, Uploads.Reaches jobs (.start settings jobs s) x ∧ x.stages i = .ended (.error (.internal
      s!"block {(jobs i).request.blockHash.hex} vanished")) := by
  obtain ⟨stages, hfinds, hlooking, hopening⟩ := reaches_looking hji hblock hadmitted hother hnew
  obtain ⟨t, e, hremoves, hcatalog⟩ := goes_removed hs hbody hnew
  have hremoved := hfinds.trans (Uploads.reaches_of_goes (i := j) (hopening.symm ▸ hremoves))
  have hstill : Function.update stages j (.ended (.error e)) i = .waits .looking :=
    (Function.update_of_ne (Ne.symm hji) _ _).trans hlooking
  refine ⟨_, hremoved.trans (Uploads.reaches_call (i := i) hstill), (Function.update_self i _ _).trans ?_⟩
  rw [leads_looking, hcatalog, ← hblock, hnew]

end Refusals

end Depot.Service
