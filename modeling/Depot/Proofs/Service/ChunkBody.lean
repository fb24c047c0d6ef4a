import Depot.Proofs.Objects.BlockUploads
import Depot.Proofs.Service.Run
import Depot.Service.ChunkUpload

/-!
# The body of a chunk

A body is read frame by frame, and written as it is read. What comes of it is what `readBody` says of the frames
alone, and the block is there afterwards only if that is success.
-/

namespace Depot.Service

open Content Time Objects

variable {c : Catalog} {f : FileStore} {real : Path} {n : Nat} {h : BlockHash} {request : UploadRequest}

/-! ### Calls to a store of files -/

theorem answer_contains (key : String) : f.answer (.contains key) = (f.contains key, f) := rfl

theorem answer_openUpload (key : String) : f.answer (.openUpload key) = f.openUpload key := rfl

theorem answer_write (upload : Nat) (data : List UInt8) :
    f.answer (.write upload data) = f.writeUpload upload data := rfl

theorem answer_finish (upload : Nat) : f.answer (.finish upload) = f.finish upload := rfl

theorem answer_abort (upload : Nat) : f.answer (.abort upload) = f.abort upload := rfl

theorem answer_presign (key : String) (ttl : Lifetime) (now : DateTime) :
    f.answer (.presign key ttl now) = (f.presign key ttl now, f) := rfl

theorem perform_askFiles {r : Objects.Request} {reply : r.Reply} {next : FileStore}
    (hanswer : f.answer r = (.ok reply, next)) :
    perform (askObjects r) ⟨c, .files f⟩ = (.ok reply, ⟨c, .files next⟩) := by
  rw [perform_askObjects]
  simp only [ObjectStore.answer, hanswer, mapError_ok]

theorem perform_attemptFiles {r : Objects.Request} {reply : Except ObjectError r.Reply} {next : FileStore}
    (hanswer : f.answer r = (reply, next)) :
    perform (attempt (.objects r)) ⟨c, .files f⟩ = (.ok reply, ⟨c, .files next⟩) := by
  rw [perform_attempt]
  simp only [Stores.answer, ObjectStore.answer, hanswer]

/-! ### Reading a body -/

/-- The bytes of a body behind those that were read before, or why the body is refused. -/
def readBody (request : UploadRequest) (before : List UInt8) : List Frame → Except ServiceError (List UInt8)
  | [] => (checkBody request before.length (.compute before)).map fun _ => before
  | .fault reason :: _ => .error (.malformedRequest s!"failed to read chunk body: {reason}")
  | .data bytes :: rest =>
    if request.size < before.length + bytes.length then
      .error (.malformedRequest s!"chunk body exceeds declared size {request.size}")
    else readBody request (before ++ bytes) rest

theorem readBody_eq_ok {before data : List UInt8} {body : List Frame}
    (hread : readBody request before body = .ok data) :
    data.length = request.size ∧ BlockHash.compute data = request.blockHash := by
  induction body generalizing before with
  | nil =>
    cases hcheck : checkBody request before.length (.compute before) with
    | error e =>
      rw [readBody, hcheck] at hread
      cases hread
    | ok =>
      rw [readBody, hcheck] at hread
      cases hread
      rw [checkBody] at hcheck
      split at hcheck
      · cases hcheck
      · split at hcheck
        · cases hcheck
        · exact ⟨Decidable.not_not.mp ‹_›, congrArg BlockHash.mk (Decidable.not_not.mp ‹_›)⟩
  | cons frame rest ih =>
    cases frame with
    | fault reason => cases hread
    | data bytes =>
      rw [readBody] at hread
      split at hread
      · cases hread
      · exact ih hread

theorem readBody_data {before : List UInt8} (pieces : List (List UInt8))
    (hsize : (before ++ pieces.flatten).length = request.size)
    (hhash : BlockHash.compute (before ++ pieces.flatten) = request.blockHash) :
    readBody request before (pieces.map .data) = .ok (before ++ pieces.flatten) := by
  induction pieces generalizing before with
  | nil =>
    rw [List.flatten_nil, List.append_nil] at *
    rw [List.map_nil, readBody, checkBody, if_neg (by simpa using hsize), if_neg]
    · rfl
    · rw [← hhash]
      simp [BlockHash.compute]
  | cons bytes rest ih =>
    rw [List.flatten_cons, ← List.append_assoc] at *
    rw [List.map_cons, readBody, if_neg, ih hsize hhash]
    simp only [List.length_append] at hsize
    omega

/-! ### Writing a body -/

theorem perform_copyHashed {before : List UInt8} (hf : BlockFiles f real) (hu : Writing f real n h before)
    (hids : f.uploads.map Prod.fst = [n]) (body : List Frame) :
    ∃ next written, perform (copyHashed request n ⟨before⟩ before.length body) ⟨c, .files f⟩ =
        ((readBody request before body).map fun _ => (), ⟨c, .files next⟩) ∧
      Leaves f next real [n] ∧ Writing next real n h written ∧
      (∀ data, readBody request before body = .ok data → written = data) ∧
      ∀ g, next.object? real g = f.object? real g := by
  -- On the frames, with what the earlier ones have written.
  induction body generalizing f before with
  | nil =>
    refine ⟨f, before, ?_, ⟨hf, rfl, rfl, hids⟩, hu, fun data hread => ?_, fun _ => rfl⟩
    · rw [copyHashed, perform_lift, readBody, Hasher.finish]
      cases checkBody request before.length (.compute before) <;> rfl
    · rw [readBody] at hread
      cases hcheck : checkBody request before.length (.compute before) with
      | error e =>
        rw [hcheck] at hread
        cases hread
      | ok =>
        rw [hcheck] at hread
        exact Except.ok.inj hread
  | cons frame rest ih =>
    cases frame with
    | fault reason => exact ⟨f, before, rfl, ⟨hf, rfl, rfl, hids⟩, hu, nofun, fun _ => rfl⟩
    | data bytes =>
      by_cases hlong : request.size < before.length + bytes.length
      · refine ⟨f, before, ?_, ⟨hf, rfl, rfl, hids⟩, hu, fun data hread => ?_, fun _ => rfl⟩
        · rw [copyHashed, if_pos hlong, readBody, if_pos hlong]
          rfl
        · rw [readBody, if_pos hlong] at hread
          cases hread
      · obtain ⟨mid, hwrite, hleaves, hmid, hobjects⟩ := hf.writeUpload_eq hu bytes
        have hask : perform (askObjects (.write n bytes)) ⟨c, .files f⟩ = (.ok (), ⟨c, .files mid⟩) :=
          perform_askFiles (by rw [answer_write, hwrite])
        have hidsMid : mid.uploads.map Prod.fst = [n] := by
          rw [hleaves.uploads, ids_forget, hids]
          simp
        obtain ⟨next, written, hperform, hlast, hwriting, hread, hsame⟩ := ih hleaves.files hmid hidsMid
        refine ⟨next, written, ?_, hleaves.trans hlast, hwriting, fun data hdata => ?_,
          fun g => (hsame g).trans (hobjects g)⟩
        · rw [copyHashed, if_neg hlong, perform_bind_ok hask, readBody, if_neg hlong]
          rw [List.length_append] at hperform
          exact hperform
        · rw [readBody, if_neg hlong] at hdata
          exact hread data hdata

theorem perform_storeVerified (hf : BlockFiles f real) (hidle : f.uploads = []) (body : List Frame) :
    ∃ next, perform (storeVerified request body) ⟨c, .files f⟩ =
        ((readBody request [] body).map fun _ => (), ⟨c, .files next⟩) ∧
      Leaves f next real [] ∧
      ∀ g, next.object? real g =
        match readBody request [] body with
        | .ok data => if g = request.blockHash then some data else f.object? real g
        | .error _ => f.object? real g := by
  obtain ⟨opened, hopen, hopened, hwriting, hsameOpen⟩ := hf.openUpload_eq request.blockHash
  have hids : opened.uploads.map Prod.fst = [f.serial] := by
    rw [hopened.uploads, hidle]
    rfl
  have haskOpen : perform (askObjects (.openUpload request.blockHash.objectKey)) ⟨c, .files f⟩ =
      (.ok f.serial, ⟨c, .files opened⟩) := perform_askFiles (by rw [answer_openUpload, hopen])
  obtain ⟨mid, written, hcopy, hmid, hwritten, hread, hsame⟩ :=
    @perform_copyHashed c opened real f.serial request.blockHash request [] hopened.files hwriting hids body
  have hcopied : perform (ExceptT.lift (copyHashed request f.serial .empty 0 body).run : Op (Except ServiceError Unit))
      ⟨c, .files opened⟩ = (.ok ((readBody request [] body).map fun _ => ()), ⟨c, .files mid⟩) := by
    have hcopy : perform (copyHashed request f.serial .empty 0 body) ⟨c, .files opened⟩ = _ := hcopy
    rw [perform_lift_run, hcopy]
  have hnone : (mid.forget f.serial).uploads.map Prod.fst = [] := by
    rw [ids_forget, hmid.uploads]
    simp
  rw [storeVerified, perform_bind_ok haskOpen, perform_bind_ok hcopied]
  cases hbody : readBody request [] body with
  | ok data =>
    rw [hread data hbody] at hwritten
    obtain ⟨next, hfinish, hnext, hobjects⟩ := hmid.files.finish_eq hwritten
    have haskFinish : perform (askObjects (.finish f.serial)) ⟨c, .files mid⟩ = (.ok data.length, ⟨c, .files next⟩) :=
      perform_askFiles (by rw [answer_finish, hfinish])
    refine ⟨next, ?_, (hopened.trans hmid).trans (hnone ▸ hnext), fun g => ?_⟩
    · change perform (discard (askObjects (.finish f.serial))) _ = _
      rw [perform_discard, haskFinish]
      rfl
    · rw [hobjects]
      dsimp only
      rw [hsame, hsameOpen]
  | error e =>
    obtain ⟨next, habort, hnext, hobjects⟩ := hmid.files.abort_eq hwritten
    have hattempt :
        perform (attempt (.objects (.abort f.serial))) ⟨c, .files mid⟩ = (.ok (.ok ()), ⟨c, .files next⟩) :=
      perform_attemptFiles (by rw [answer_abort, habort])
    refine ⟨next, ?_, (hopened.trans hmid).trans (hnone ▸ hnext), fun g => ?_⟩
    · change perform (discard (attempt (.objects (.abort f.serial))) >>= fun _ => throw e) _ = _
      rw [perform_bind, perform_discard, hattempt]
      rfl
    · exact (hobjects g).trans ((hsame g).trans (hsameOpen g))

end Depot.Service
