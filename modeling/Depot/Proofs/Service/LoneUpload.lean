import Depot.Proofs.Service.UploadCrowd

/-!
# Uploads that succeed alone

- Storing the bytes of a block makes no call to the catalog (`objects_storeVerified`), so the catalog does not change.
- `registers_of_perform_ok`: an upload that succeeds has registered its chunk beside the row of its block.
- `Accepting`: what it has found in the catalog (`perform_upload_ok`).
-/

namespace Depot.Service

open Content Time Objects

variable {settings : Settings} {d : Delivery} {s t : Stores}

/-- Calls to the object store. -/
def IsObjects : Call → Prop
  | .objects _ => True
  | .catalog _ => False

theorem objects_copyHashed (request : UploadRequest) (n : Nat) (hasher : Hasher) (received : Nat)
    (frames : List Frame) : Makes IsObjects (copyHashed request n hasher received frames) := by
  induction frames generalizing hasher received with
  | nil => exact makes_lift _ _
  | cons frame rest ih =>
    cases frame with
    | fault reason => exact makes_throw _
    | data bytes =>
      rw [copyHashed]
      split
      · exact makes_throw _
      · exact (makes_askObjects trivial).bind fun _ => ih _ _

theorem objects_storeVerified (request : UploadRequest) (body : List Frame) :
    Makes IsObjects (storeVerified request body) := by
  refine (makes_askObjects trivial).bind fun n =>
    (makes_lift_run (objects_copyHashed request n .empty 0 body).only).bind fun copied => ?_
  cases copied with
  | ok _ => exact makes_discard (makes_askObjects trivial)
  | error e => exact (makes_discard (makes_attempt trivial)).bind fun _ => makes_throw e

theorem catalog_storeVerified (request : UploadRequest) (body : List Frame) (s : Stores) :
    (perform (storeVerified request body) s).2.catalog = s.catalog := by
  refine (objects_storeVerified request body).perform_induction (I := fun t => t.catalog = s.catalog) ?_ rfl
  intro call t hcall ht
  cases call with
  | catalog r => cases hcall
  | objects r => exact ht

theorem perform_linkChunk_ok {outcome value : UploadOutcome}
    (h : perform (linkChunk d.request d.now >>= fun _ => pure outcome : Op UploadOutcome) s = (.ok value, t)) :
    ∃ reply, s.catalog.registerChunk d.request.uploaderId (chunkOf d.request d.now) = (.ok reply, t.catalog) := by
  rw [perform_linkChunk_bind, Prod.mk.injEq] at h
  obtain ⟨hvalue, rfl⟩ := h
  cases hreply : (s.catalog.registerChunk d.request.uploaderId (chunkOf d.request d.now)).1 with
  | ok reply => exact ⟨reply, Prod.ext hreply rfl⟩
  | error e =>
    rw [hreply] at hvalue
    cases hvalue

theorem admitted_of_perform_ok {outcome : UploadOutcome} (h : (perform (d.upload settings) s).1 = .ok outcome) :
    Admitted settings s.catalog d.request := by
  rw [Delivery.upload, uploadChunk] at h
  obtain ⟨_, u, hvalid, h⟩ := perform_bind_eq_ok h
  rw [perform_lift, Prod.mk.injEq] at hvalid
  obtain ⟨hvalid, rfl⟩ := hvalid
  rw [perform_bind_ok (perform_canUpload _ _)] at h
  cases hresult : d.request.validate settings.maxBlockSize with
  | error e =>
    rw [hresult] at hvalid
    cases hvalid
  | ok =>
    cases hcan : s.catalog.canUpload d.request.uploaderId with
    | true => exact ⟨hresult, hcan⟩
    | false =>
      rw [hcan] at h
      cases h

/-- What an upload that succeeds alone has found: it is admitted, its size is that of the row if there is one, and
its chunk can be registered. -/
structure Accepting (settings : Settings) (c : Catalog) (d : Delivery) : Prop where
  admitted : Admitted settings c d.request
  sized : ∀ row, c.block? d.request.blockHash.hex = some row → row.size = recordedSize d.request.size
  links : ∃ reply, ((c.putBlock (rowOf d.request d.now)).2.registerChunk d.request.uploaderId
    (chunkOf d.request d.now)).1 = .ok reply

theorem perform_uploadNew_ok {recorded : InsertOutcome} {outcome : UploadOutcome}
    (h : perform (uploadNew d.request recorded d.body d.now) s = (.ok outcome, t)) :
    ∃ reply, s.catalog.registerChunk d.request.uploaderId (chunkOf d.request d.now) = (.ok reply, t.catalog) := by
  rw [uploadNew, perform_bind_ok (perform_lift_run _ _)] at h
  rw [← catalog_storeVerified d.request d.body s]
  cases hstored : (perform (storeVerified d.request d.body) s).1 with
  | ok _ =>
    rw [hstored] at h
    exact perform_linkChunk_ok h
  | error e =>
    have hok := congrArg Prod.fst h
    rw [hstored] at hok
    dsimp only at hok
    split at hok
    · obtain ⟨_, _, _, hthrow⟩ := perform_bind_eq_ok hok
      cases hthrow
    · cases hok

/-- An upload that succeeds alone has found the size of its block in the row, if there was one, and has registered its
chunk beside the row. -/
theorem registers_of_perform_ok {outcome : UploadOutcome} (h : perform (d.upload settings) s = (.ok outcome, t)) :
    (∀ row, s.catalog.block? d.request.blockHash.hex = some row → row.size = recordedSize d.request.size) ∧
      ∃ reply, (s.catalog.putBlock (rowOf d.request d.now)).2.registerChunk d.request.uploaderId
        (chunkOf d.request d.now) = (.ok reply, t.catalog) := by
  have hok : (perform (d.upload settings) s).1 = .ok outcome := by rw [h]
  have hadmitted := admitted_of_perform_ok hok
  rw [Delivery.upload] at h
  cases hrow : s.catalog.block? d.request.blockHash.hex with
  | none =>
    rw [perform_uploadChunk_new hadmitted hrow] at h
    rw [putBlock_new hrow]
    refine ⟨fun row hsome => ?_, perform_uploadNew_ok h⟩
    cases hsome
  | some row =>
    rw [perform_uploadChunk_known hadmitted hrow] at h
    rw [putBlock_known (by rw [hrow]; rfl)]
    split at h
    · cases h
    · rename_i hsize
      refine ⟨fun other hother => Option.some.inj hother ▸ not_not.mp hsize, ?_⟩
      obtain ⟨found, u, hcontains, _⟩ := perform_bind_eq_ok (congrArg Prod.fst h)
      rw [perform_bind_ok hcontains] at h
      have hcatalog : u.catalog = s.catalog := by
        rw [perform_askObjects] at hcontains
        exact congrArg (fun r => r.2.catalog) hcontains.symm
      rw [← hcatalog]
      cases found with
      | true => exact perform_linkChunk_ok h
      | false => exact perform_uploadNew_ok h

/-- **What an upload that succeeds has found.** -/
theorem perform_upload_ok {outcome : UploadOutcome} (h : (perform (d.upload settings) s).1 = .ok outcome) :
    Accepting settings s.catalog d := by
  obtain ⟨hsized, reply, hlinks⟩ := registers_of_perform_ok (Prod.ext h rfl)
  exact ⟨admitted_of_perform_ok h, hsized, reply, congrArg Prod.fst hlinks⟩

end Depot.Service
