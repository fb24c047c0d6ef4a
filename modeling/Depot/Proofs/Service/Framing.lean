import Depot.Proofs.Service.CrowdContent

/-!
# How a body is cut into frames

A body comes in frames of any lengths. What an upload of a block that is not stored answers, and what it leaves, is
said of the bytes of all frames together.

- `Wrote`: what an upload of the object store has written in pieces, it could have written at once
  (`Wrote.at_once`).
- `judge`: the verdict on the bytes of a body. Reading the frames comes to it however they are cut
  (`readBody_pieces`), and a frame that cannot be read is a verdict of its own (`readBody_fault`).
- `perform_uploadChunk_absent`: the whole of an upload as a function of the verdict.
-/

namespace Depot.Objects

open Content

variable {o t : ObjectStore} {n : Nat} {written : List UInt8}

/-! ### Writing in pieces -/

theorem FileStore.writeUpload_writeUpload (s : FileStore) (n : Nat) (first second : List UInt8) :
    ((s.writeUpload n first).2.writeUpload n second).2 = (s.writeUpload n (first ++ second)).2 := by
  cases hu : s.uploads.lookup n with
  | none => simp [writeUpload, hu]
  | some u => simp [writeUpload, hu, forget, List.filter_filter]

theorem BucketStore.writeUpload_writeUpload (s : BucketStore) (n : Nat) (first second : List UInt8) :
    ((s.writeUpload n first).2.writeUpload n second).2 = (s.writeUpload n (first ++ second)).2 := by
  cases hu : s.uploads.lookup n with
  | none => simp [writeUpload, hu]
  | some u => simp [writeUpload, hu, forget, List.filter_filter]

theorem answer_write_write (o : ObjectStore) (n : Nat) (first second : List UInt8) :
    ((o.answer (.write n first)).2.answer (.write n second)).2 = (o.answer (.write n (first ++ second))).2 := by
  cases o with
  | files s => exact congrArg ObjectStore.files (s.writeUpload_writeUpload n first second)
  | bucket s => exact congrArg ObjectStore.bucket (s.writeUpload_writeUpload n first second)

theorem answer_abort_write (o : ObjectStore) (n : Nat) (data : List UInt8) :
    ((o.answer (.write n data)).2.answer (.abort n)).2 = (o.answer (.abort n)).2 := by
  cases o with
  | files s =>
    refine congrArg ObjectStore.files ?_
    change ((s.writeUpload n data).2.abort n).2 = (s.abort n).2
    cases hu : s.uploads.lookup n with
    | none => simp [FileStore.writeUpload, hu]
    | some u => simp [FileStore.writeUpload, FileStore.abort, hu, FileStore.forget]
  | bucket s =>
    refine congrArg ObjectStore.bucket ?_
    change ((s.writeUpload n data).2.abort n).2 = (s.abort n).2
    cases hu : s.uploads.lookup n with
    | none => simp [BucketStore.writeUpload, hu]
    | some u => simp [BucketStore.writeUpload, BucketStore.abort, hu, BucketStore.forget]

theorem answer_finish_write_nil (o : ObjectStore) (n : Nat) :
    (o.answer (.write n [])).2.answer (.finish n) = o.answer (.finish n) := by
  cases o with
  | files s =>
    cases hu : s.uploads.lookup n with
    | none => simp [ObjectStore.answer, FileStore.answer, FileStore.writeUpload, hu]
    | some u =>
      simp [ObjectStore.answer, FileStore.answer, FileStore.writeUpload, FileStore.finish, hu, FileStore.forget]
  | bucket s =>
    cases hu : s.uploads.lookup n with
    | none => simp [ObjectStore.answer, BucketStore.answer, BucketStore.writeUpload, hu]
    | some u =>
      simp [ObjectStore.answer, BucketStore.answer, BucketStore.writeUpload, BucketStore.finish, hu,
        BucketStore.forget]

/-- An upload has written so much to a store since it was some other store, in pieces. -/
inductive Wrote (o : ObjectStore) (n : Nat) : List UInt8 → ObjectStore → Prop where
  | nothing : Wrote o n [] o
  | more {written : List UInt8} {t : ObjectStore} (before : Wrote o n written t) (bytes : List UInt8) :
    Wrote o n (written ++ bytes) (t.answer (.write n bytes)).2

/-- What was written in pieces could have been written at once, but for the order of uploads that are under way. -/
theorem Wrote.at_once (h : Wrote o n written t) :
    (t.answer (.write n [])).2 = (o.answer (.write n written)).2 := by
  induction h with
  | nothing => rfl
  | @more written t before bytes ih =>
    calc ((t.answer (.write n bytes)).2.answer (.write n [])).2
      _ = (t.answer (.write n bytes)).2 := by rw [answer_write_write, List.append_nil]
      _ = ((t.answer (.write n [])).2.answer (.write n bytes)).2 := by rw [answer_write_write, List.nil_append]
      _ = ((o.answer (.write n written)).2.answer (.write n bytes)).2 := by rw [ih]
      _ = (o.answer (.write n (written ++ bytes))).2 := answer_write_write o n written bytes

theorem Wrote.finish_eq (h : Wrote o n written t) :
    t.answer (.finish n) = (o.answer (.write n written)).2.answer (.finish n) := by
  rw [← answer_finish_write_nil t, h.at_once]

theorem Wrote.abort_eq (h : Wrote o n written t) : (t.answer (.abort n)).2 = (o.answer (.abort n)).2 := by
  rw [← answer_abort_write t n [], h.at_once, answer_abort_write]

end Depot.Objects

namespace Depot.Service

open Content Time Objects

variable {ι : Type} {real : Path} {c : Catalog} {o t : ObjectStore} {s : Stores} {n : Nat} {h : BlockHash}
  {settings : Settings} {request : UploadRequest} {body : List Frame} {now : DateTime}

/-! ### The verdict on a body -/

/-- The bytes of a body, if they are what was declared, or why they are refused. -/
def judge (request : UploadRequest) (data : List UInt8) : Except ServiceError (List UInt8) :=
  if request.size < data.length then
    .error (.malformedRequest s!"chunk body exceeds declared size {request.size}")
  else (checkBody request data.length (.compute data)).map fun _ => data

/-- **However bytes are cut into frames, reading the frames comes to the verdict on the bytes.** -/
theorem readBody_pieces {before : List UInt8} (hbefore : before.length ≤ request.size)
    (pieces : List (List UInt8)) :
    readBody request before (pieces.map .data) = judge request (before ++ pieces.flatten) := by
  induction pieces generalizing before with
  | nil => rw [List.map_nil, readBody, judge, List.flatten_nil, List.append_nil, if_neg (by omega)]
  | cons bytes rest ih =>
    rw [List.map_cons, readBody, List.flatten_cons, ← List.append_assoc]
    split
    · -- what is behind the frame that is too long makes it no shorter
      rw [judge, if_pos (by simp only [List.length_append]; omega)]
    · exact ih (by rw [List.length_append]; omega)

theorem readBody_fault {reason : String} (hfault : .fault reason ∈ body) (before : List UInt8) :
    ∃ why, readBody request before body = .error (.malformedRequest why) := by
  induction body generalizing before with
  | nil => cases hfault
  | cons frame rest ih =>
    cases frame with
    | fault other => exact ⟨_, rfl⟩
    | data bytes =>
      rw [readBody]
      split
      · exact ⟨_, rfl⟩
      · have hrest : .fault reason ∈ rest := by simpa using hfault
        exact ih hrest _

theorem judge_of_length {data : List UInt8} (hlength : data.length ≠ request.size) :
    ∃ why, judge request data = .error (.malformedRequest why) := by
  unfold judge
  split
  · exact ⟨_, rfl⟩
  · rw [checkBody, if_pos hlength]
    exact ⟨_, rfl⟩

theorem judge_of_hash {data : List UInt8} (hlength : data.length = request.size)
    (hhash : BlockHash.compute data ≠ request.blockHash) :
    judge request data = .error (.contentMismatch request.blockHash.hex (BlockHash.compute data).hex) := by
  have hne : Hash.compute data ≠ request.blockHash.hash := fun heq => hhash (congrArg BlockHash.mk heq)
  rw [judge, if_neg (by omega), checkBody, if_neg (not_not.mpr hlength), if_pos hne]
  rfl

theorem judge_of_declared {data : List UInt8} (hlength : data.length = request.size)
    (hhash : BlockHash.compute data = request.blockHash) : judge request data = .ok data := by
  have hsame : Hash.compute data = request.blockHash.hash := congrArg BlockHash.hash hhash
  rw [judge, if_neg (by omega), checkBody, if_neg (not_not.mpr hlength), if_neg (not_not.mpr hsame)]
  rfl

/-! ### What an upload leaves -/

/-- The object store after a block was written of which this is the verdict. -/
def storedAs (o : ObjectStore) (h : BlockHash) (verdict : Except ServiceError (List UInt8)) : ObjectStore :=
  let opened := (o.answer (.openUpload h.objectKey)).2
  match verdict with
  | .ok data => ((opened.answer (.write o.opened data)).2.answer (.finish o.opened)).2
  | .error _ => (opened.answer (.abort o.opened)).2

theorem finish_storedAs (ho : o.Orderly real) (hserves : o.Serves) (h : BlockHash) (data : List UInt8) :
    ((o.answer (.openUpload h.objectKey)).2.answer (.write o.opened data)).2.answer (.finish o.opened) =
        (.ok data.length, storedAs o h (.ok data)) ∧
      ∀ g, (storedAs o h (.ok data)).block? real g = if g = h then some data else o.block? real g := by
  obtain ⟨opened, hopen, hbesides, hwrites, hsame⟩ := answer_openUpload_block ho h
  obtain ⟨filled, hwrite, hmore, hwritten, hsameFilled⟩ := answer_write_block hbesides.orderly hwrites data
  obtain ⟨reply, next, hfinish, _, hcame⟩ := answer_finish_block hmore.orderly hwritten
  have hopened : opened.Serves := by simpa only [hopen] using serves_answer hserves (.openUpload h.objectKey)
  have hfilled : filled.Serves := by simpa only [hwrite] using serves_answer hopened (.write o.opened data)
  rcases hcame with ⟨rfl, hblocks⟩ | ⟨_, hrefused, _⟩
  · simp only [storedAs, hopen, hwrite, hfinish, hblocks, List.nil_append, hsameFilled, hsame]
    exact ⟨trivial, fun _ => trivial⟩
  · exact absurd hfilled hrefused

theorem block?_storedAs_error (ho : o.Orderly real) (h : BlockHash) (e : ServiceError) :
    (storedAs o h (.error e)).block? real = o.block? real := by
  obtain ⟨opened, hopen, hbesides, hwrites, hsame⟩ := answer_openUpload_block ho h
  obtain ⟨next, habort, _, hsameNext⟩ := answer_abort_block hbesides.orderly hwrites
  simp only [storedAs, hopen, habort, hsameNext, hsame]

theorem perform_copyHashed_pieces {before : List UInt8} (ho : t.Orderly real) (hw : t.Writes real n h before)
    (hwrote : Wrote o n before t) (body : List Frame) :
    ∃ next written, perform (copyHashed request n ⟨before⟩ before.length body) ⟨c, t⟩ =
        ((readBody request before body).map fun _ => (), ⟨c, next⟩) ∧
      Wrote o n written next ∧ ∀ data, readBody request before body = .ok data → written = data := by
  -- On the frames, with what the earlier ones have written.
  induction body generalizing t before with
  | nil =>
    refine ⟨t, before, ?_, hwrote, fun data hread => ?_⟩
    · rw [copyHashed, perform_lift, readBody, Hasher.finish]
      cases checkBody request before.length (.compute before) <;> rfl
    · rw [readBody] at hread
      cases hcheck : checkBody request before.length (.compute before) with
      | error e =>
        rw [hcheck] at hread
        cases hread
      | ok =>
        rw [hcheck] at hread
        exact Except.ok.inj hread
  | cons frame rest ih =>
    cases frame with
    | fault reason => exact ⟨t, before, rfl, hwrote, fun data hread => by cases hread⟩
    | data bytes =>
      by_cases hlong : request.size < before.length + bytes.length
      · rw [copyHashed, if_pos hlong, readBody, if_pos hlong]
        exact ⟨t, before, rfl, hwrote, fun data hread => by cases hread⟩
      · obtain ⟨mid, hwrite, hbesides, hmid, _⟩ := answer_write_block ho hw bytes
        have hask : perform (askObjects (.write n bytes)) ⟨c, t⟩ = (.ok (), ⟨c, mid⟩) := by
          rw [perform_askObjects]
          simp only [hwrite, mapError_ok]
        have hmore : Wrote o n (before ++ bytes) mid := by simpa only [hwrite] using hwrote.more bytes
        rw [copyHashed, if_neg hlong, perform_bind_ok hask, readBody, if_neg hlong, ← List.length_append]
        exact ih hbesides.orderly hmid hmore

/-- **A body is stored by its verdict alone.** -/
theorem perform_storeVerified_eq (ho : o.Orderly real) (hserves : o.Serves) (body : List Frame) :
    perform (storeVerified request body) ⟨c, o⟩ =
      ((readBody request [] body).map fun _ => (),
        ⟨c, storedAs o request.blockHash (readBody request [] body)⟩) := by
  obtain ⟨opened, hopen, hbesides, hwrites, _⟩ := answer_openUpload_block ho request.blockHash
  have hask : perform (askObjects (.openUpload request.blockHash.objectKey)) ⟨c, o⟩ =
      (.ok o.opened, ⟨c, opened⟩) := by
    rw [perform_askObjects]
    simp only [hopen, mapError_ok]
  obtain ⟨copied, written, hcopy, hwrote, hread⟩ : ∃ next written,
      perform (copyHashed request o.opened .empty 0 body) ⟨c, opened⟩ =
          ((readBody request [] body).map fun _ => (), ⟨c, next⟩) ∧
        Wrote opened o.opened written next ∧ ∀ data, readBody request [] body = .ok data → written = data :=
    perform_copyHashed_pieces hbesides.orderly hwrites .nothing body
  have hcopied : perform (ExceptT.lift (copyHashed request o.opened .empty 0 body).run : Op (Except ServiceError Unit))
      ⟨c, opened⟩ = (.ok ((readBody request [] body).map fun _ => ()), ⟨c, copied⟩) := by
    rw [perform_lift_run, hcopy]
  rw [storeVerified, perform_bind_ok hask, perform_bind_ok hcopied]
  cases hbody : readBody request [] body with
  | ok data =>
    obtain rfl := hread data hbody
    have hfinish := (finish_storedAs ho hserves request.blockHash written).1
    rw [hopen] at hfinish
    change perform (discard (askObjects (.finish o.opened))) _ = _
    rw [perform_discard, perform_askObjects, hwrote.finish_eq, hfinish]
    rfl
  | error e =>
    change perform (discard (attempt (.objects (.abort o.opened))) >>= fun _ => throw e) _ = _
    rw [perform_bind, perform_discard, perform_attempt]
    simp only [Stores.answer, storedAs, hopen, hwrote.abort_eq]
    rfl

/-- A block is written and its chunk registered, or the row is removed again that was recorded for it. -/
theorem perform_uploadNew_eq (ho : o.Orderly real) (hserves : o.Serves) (recorded : InsertOutcome) (body : List Frame)
    (now : DateTime) :
    perform (uploadNew request recorded body now) ⟨c, o⟩ =
      match readBody request [] body with
      | .ok data =>
        (((c.registerChunk request.uploaderId (chunkOf request now)).1.mapError .ofStore).map fun _ => .uploaded,
          ⟨(c.registerChunk request.uploaderId (chunkOf request now)).2,
            storedAs o request.blockHash (.ok data)⟩)
      | .error e =>
        (.error e, ⟨if recorded.isInserted then (c.commitOr (c.deleteBlock request.blockHash.hex)).2 else c,
          storedAs o request.blockHash (.error e)⟩) := by
  have hstored : perform (ExceptT.lift (storeVerified request body).run : Op (Except ServiceError Unit)) ⟨c, o⟩ =
      (.ok ((readBody request [] body).map fun _ => ()),
        ⟨c, storedAs o request.blockHash (readBody request [] body)⟩) := by
    rw [perform_lift_run, perform_storeVerified_eq ho hserves]
  rw [uploadNew, perform_bind_ok hstored]
  cases readBody request [] body with
  | ok data => exact perform_linkChunk_bind _ _
  | error e => cases recorded <;> rfl

/-- **An upload of a block that is not stored goes by the verdict on its body.** -/
theorem perform_uploadChunk_absent (hs : Backed real s) (hserves : s.objects.Serves)
    (hadmitted : Admitted settings s.catalog request) (habsent : s.objects.block? real request.blockHash = none)
    (hsized : ∀ row, s.catalog.block? request.blockHash.hex = some row → row.size = recordedSize request.size)
    (body : List Frame) (now : DateTime) :
    perform (uploadChunk settings request body now) s =
      match readBody request [] body with
      | .ok data =>
        ((((s.catalog.putBlock (rowOf request now)).2.registerChunk request.uploaderId (chunkOf request now)).1.mapError
            .ofStore).map fun _ => .uploaded,
          ⟨((s.catalog.putBlock (rowOf request now)).2.registerChunk request.uploaderId (chunkOf request now)).2,
            storedAs s.objects request.blockHash (.ok data)⟩)
      | .error e => (.error e, ⟨s.catalog, storedAs s.objects request.blockHash (.error e)⟩) := by
  cases hrow : s.catalog.block? request.blockHash.hex with
  | none =>
    have hremoved : ((withBlock s.catalog request now).commitOr
        ((withBlock s.catalog request now).deleteBlock request.blockHash.hex)).2 = s.catalog := by
      rw [deleteBlock_withBlock hs.content hrow]
      rfl
    rw [perform_uploadChunk_new hadmitted hrow, perform_uploadNew_eq hs.orderly hserves, putBlock_new hrow, hremoved]
    rfl
  | some row =>
    obtain ⟨reply, hanswer, _, hexact⟩ := answer_contains_block hs.orderly request.blockHash
    have hcontains : perform (askObjects (.contains request.blockHash.objectKey)) s = (.ok false, s) := by
      rw [perform_askObjects, hanswer, hexact hserves, habsent]
      rfl
    rw [perform_uploadChunk_known hadmitted hrow, if_neg (not_not.mpr (hsized row hrow)), perform_bind_ok hcontains,
      if_neg Bool.false_ne_true, putBlock_known (by rw [hrow]; rfl)]
    exact perform_uploadNew_eq hs.orderly hserves .alreadyExists body now

/-! ### The verdict does not depend on the framing -/

/-- **The verdict on a body does not depend on its framing.** After whatever operations have done, an upload that is
admitted, of a block that is not stored and not recorded with another size, over stores that serve: with `data` for the
bytes of all frames together, it is malformed if there are not as many as declared, and a mismatch that names both
hashes if they have another hash, and then all is as it was; otherwise the block is exactly `data`, and the upload ends
as registering its chunk does. Two framings of the same bytes end alike and leave the same stores. A body that breaks
off anywhere is malformed, and nothing is stored. -/
theorem upload_framing [DecidableEq ι] (ops : ι → Operation) (ho : o.Blank real)
    {w : Crowd ι (Except ServiceError Unit)} (hsteps : Crowd.Steps Faulty (crowdOf settings ops ⟨.empty, o⟩) w)
    (hserves : w.stores.objects.Serves)
    (hadmitted : Admitted settings w.stores.catalog request)
    (habsent : w.stores.objects.block? real request.blockHash = none)
    (hsized : ∀ row, w.stores.catalog.block? request.blockHash.hex = some row → row.size = recordedSize request.size)
    (pieces : List (List UInt8)) (now : DateTime) :
    let data := pieces.flatten
    let upload (body : List Frame) := perform (uploadChunk settings request body now) w.stores
    let ended := upload (pieces.map .data)
    let recorded := (w.stores.catalog.putBlock (rowOf request now)).2
    let linked := recorded.registerChunk request.uploaderId (chunkOf request now)
    let untouched (t : Stores) := t.catalog = w.stores.catalog ∧ t.objects.block? real = w.stores.objects.block? real
    (data.length ≠ request.size → (∃ why, ended.1 = .error (.malformedRequest why)) ∧ untouched ended.2) ∧
    (data.length = request.size → BlockHash.compute data ≠ request.blockHash →
      ended.1 = .error (.contentMismatch request.blockHash.hex (BlockHash.compute data).hex) ∧ untouched ended.2) ∧
    (data.length = request.size → BlockHash.compute data = request.blockHash →
      ended.1 = (linked.1.mapError .ofStore).map (fun _ => .uploaded) ∧ ended.2.catalog = linked.2 ∧
        ∀ h, ended.2.objects.block? real h =
          if h = request.blockHash then some data else w.stores.objects.block? real h) ∧
    (∀ others : List (List UInt8), others.flatten = data → upload (others.map .data) = ended) ∧
    ∀ (body : List Frame) (reason : String), .fault reason ∈ body →
      (∃ why, (upload body).1 = .error (.malformedRequest why)) ∧ untouched (upload body).2 := by
  intro data upload ended recorded linked untouched
  have hs := (tended_steps ho hsteps).backed
  have hupload (body : List Frame) := perform_uploadChunk_absent hs hserves hadmitted habsent hsized body now
  have hread (pieces : List (List UInt8)) :
      readBody request [] (pieces.map .data) = judge request pieces.flatten :=
    readBody_pieces (Nat.zero_le _) pieces
  have hrefused {body : List Frame} {e : ServiceError} (hbody : readBody request [] body = .error e) :
      (upload body).1 = .error e ∧ untouched (upload body).2 := by
    have hended := hupload body
    rw [hbody] at hended
    refine ⟨congrArg Prod.fst hended, congrArg (fun r => r.2.catalog) hended, ?_⟩
    rw [congrArg (fun r => r.2.objects) hended]
    exact block?_storedAs_error hs.orderly _ e
  refine ⟨fun hlength => ?_, fun hlength hhash => ?_, fun hlength hhash => ?_, fun others hsame => ?_, ?_⟩
  · obtain ⟨why, hjudge⟩ := judge_of_length hlength
    obtain ⟨hended, hsame⟩ := hrefused ((hread pieces).trans hjudge)
    exact ⟨⟨why, hended⟩, hsame⟩
  · exact hrefused ((hread pieces).trans (judge_of_hash hlength hhash))
  · have hended := hupload (pieces.map .data)
    rw [(hread pieces).trans (judge_of_declared hlength hhash)] at hended
    refine ⟨congrArg Prod.fst hended, congrArg (fun r => r.2.catalog) hended, ?_⟩
    rw [congrArg (fun r => r.2.objects) hended]
    exact (finish_storedAs hs.orderly hserves request.blockHash data).2
  · change perform _ w.stores = perform _ w.stores
    rw [hupload, hupload, hread, hread, hsame]
  · intro body reason hfault
    obtain ⟨why, hbody⟩ := readBody_fault hfault []
    obtain ⟨hended, hsame⟩ := hrefused hbody
    exact ⟨⟨why, hended⟩, hsame⟩

/-- Three bytes in three frames, one of them empty, are uploaded as they are in one; two of the bytes are not enough. -/
theorem upload_framing_three :
    let o : ObjectStore := .files ⟨⟨[]⟩, [], ⟨[], ""⟩, [], 0⟩
    let ops : Unit → Operation := fun _ => .grantOnTeam "ann" "team" .write .epoch
    let w : Crowd Unit _ := (crowdOf ⟨3, 60, 1⟩ ops ⟨.empty, o⟩).alone ()
    let request : UploadRequest := ⟨"ann", default, 0, 2, .compute [1, 2, 3], 3⟩
    let upload (body : List Frame) := perform (uploadChunk ⟨3, 60, 1⟩ request body .epoch) w.stores
    (o.Blank [] ∧ Crowd.Steps Faulty (crowdOf ⟨3, 60, 1⟩ ops ⟨.empty, o⟩) w ∧ w.stores.objects.Serves ∧
      Admitted ⟨3, 60, 1⟩ w.stores.catalog request ∧ w.stores.objects.block? [] request.blockHash = none ∧
      ∀ row, w.stores.catalog.block? request.blockHash.hex = some row → row.size = recordedSize request.size) ∧
    (upload [.data [1], .data [], .data [2, 3]]).2.objects.block? [] request.blockHash = some [1, 2, 3] ∧
    upload [.data [1, 2, 3]] = upload [.data [1], .data [], .data [2, 3]] ∧
    (∃ why, (upload [.data [1, 2]]).1 = .error (.malformedRequest why)) ∧
    ∃ why, (upload [.data [1, 2, 3], .fault "reset"]).1 = .error (.malformedRequest why) := by
  intro o ops w request upload
  have hblank : o.Blank [] := fresh_root _
  have hsteps : Crowd.Steps Faulty (crowdOf ⟨3, 60, 1⟩ ops ⟨.empty, o⟩) w :=
    Crowd.steps_mono (fun _ _ _ _ => .works) (Crowd.steps_alone _ ())
  have hserves : w.stores.objects.Serves := trivial
  have hnew : w.stores.catalog.block? request.blockHash.hex = none := by
    have hblocks : w.stores.catalog.blocks = [] := by decide +kernel
    rw [Catalog.block?, hblocks]
    rfl
  have hadmitted : Admitted ⟨3, 60, 1⟩ w.stores.catalog request :=
    ⟨validate_eq_ok Nat.zero_lt_two (Nat.le_refl 3), by decide +kernel⟩
  have habsent : w.stores.objects.block? [] request.blockHash = none := hblank.block?_eq _
  have hsized : ∀ row, w.stores.catalog.block? request.blockHash.hex = some row →
      row.size = recordedSize request.size := fun row hrow => by cases hnew.symm.trans hrow
  have hhash : BlockHash.compute ([[1], [], [2, 3]] : List (List UInt8)).flatten = request.blockHash := by
    simp only [request, List.flatten_cons, List.flatten_nil, List.cons_append, List.nil_append, List.append_nil]
  have hthree := upload_framing ops hblank hsteps hserves hadmitted habsent hsized [[1], [], [2, 3]] .epoch
  have htwo := (upload_framing ops hblank hsteps hserves hadmitted habsent hsized [[1, 2]] .epoch).1 (by decide)
  have hstored := (hthree.2.2.1 rfl hhash).2.2 request.blockHash
  rw [if_pos rfl] at hstored
  -- From here on nothing is evaluated any more.
  clear_value w request
  exact ⟨⟨hblank, hsteps, hserves, hadmitted, habsent, hsized⟩, hstored, hthree.2.2.2.1 [[1, 2, 3]] rfl, htwo.1,
    (hthree.2.2.2.2 _ "reset" (by simp)).1⟩

end Depot.Service
