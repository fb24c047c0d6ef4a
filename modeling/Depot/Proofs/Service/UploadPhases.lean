import Depot.Proofs.Service.ChunkUpload

/-!
# Uploads as machines

An upload awaits the reply of one call after another. `Phase` is which call that is, with what the upload still
knows, and `Phase.next` is where a reply leads. `follows_uploadChunk` says that the operation is this machine,
so that what holds of uploads between any two of their calls can be said of phases.
-/

namespace Depot.Service

open Content Time Objects

/-- The call whose reply an upload awaits. -/
inductive Phase where
  | rights
  | recording
  | looking
  | probing
  | opening (recorded : InsertOutcome)
  /-- Some bytes of the body are being written behind those before; the frames of the rest come later. -/
  | writing (recorded : InsertOutcome) (upload : Nat) (before bytes : List UInt8) (rest : List Frame)
  | finishing (recorded : InsertOutcome) (upload : Nat) (data : List UInt8)
  | dropping (recorded : InsertOutcome) (upload : Nat) (why : ServiceError)
  | removing (why : ServiceError)
  | linking (outcome : UploadOutcome)

/-- How far an upload is. -/
inductive Stage where
  | waits (phase : Phase)
  | ended (result : Except ServiceError UploadOutcome)

/-- After the bytes of a block could not be stored. -/
def Stage.failed (recorded : InsertOutcome) (why : ServiceError) : Stage :=
  if recorded.isInserted then .waits (.removing why) else .ended (.error why)

section Machine

variable (request : UploadRequest) (body : List Frame) (now : DateTime)

/-- The call that is made in a phase. -/
def Phase.call : Phase → Call
  | rights => .catalog (.canUpload request.uploaderId)
  | recording => .catalog (.putBlock (rowOf request now))
  | looking => .catalog (.getBlock request.blockHash.hex)
  | probing => .objects (.contains request.blockHash.objectKey)
  | opening _ => .objects (.openUpload request.blockHash.objectKey)
  | writing _ upload _ bytes _ => .objects (.write upload bytes)
  | finishing _ upload _ => .objects (.finish upload)
  | dropping _ upload _ => .objects (.abort upload)
  | removing _ => .catalog (.deleteBlock request.blockHash.hex)
  | linking _ => .catalog (.registerChunk request.uploaderId (chunkOf request now))

/-- Where an upload goes with the frames behind what it has written. -/
def Stage.copying (recorded : InsertOutcome) (upload : Nat) (before : List UInt8) : List Frame → Stage
  | [] =>
    match checkBody request before.length (Hasher.finish ⟨before⟩) with
    | .ok () => .waits (.finishing recorded upload before)
    | .error e => .waits (.dropping recorded upload e)
  | .fault reason :: _ =>
    .waits (.dropping recorded upload (.malformedRequest s!"failed to read chunk body: {reason}"))
  | .data bytes :: rest =>
    if request.size < before.length + bytes.length then
      .waits (.dropping recorded upload (.malformedRequest s!"chunk body exceeds declared size {request.size}"))
    else .waits (.writing recorded upload before bytes rest)

/-- Where a reply leads. -/
def Phase.next : (p : Phase) → (p.call request now).Reply → Stage
  | rights, .ok true => .waits .recording
  | rights, .ok false =>
    .ended (.error (.insufficientPermission "write access to a project or team required to upload"))
  | rights, .error e => .ended (.error (.ofStore e))
  | recording, .ok .inserted => .waits (.opening .inserted)
  | recording, .ok .alreadyExists => .waits .looking
  | recording, .error e => .ended (.error (.ofStore e))
  | looking, .ok (some row) =>
    if row.size ≠ recordedSize request.size then
      .ended (.error (.malformedRequest
        s!"declared size {request.size} does not match stored block size {row.size}"))
    else .waits .probing
  | looking, .ok none => .ended (.error (.internal s!"block {request.blockHash.hex} vanished"))
  | looking, .error e => .ended (.error (.ofStore e))
  | probing, .ok true => .waits (.linking .duplicateAccepted)
  | probing, .ok false => .waits (.opening .alreadyExists)
  | probing, .error e => .ended (.error (.ofObjects e))
  | opening recorded, .ok upload => .copying request recorded upload [] body
  | opening recorded, .error e => .failed recorded (.ofObjects e)
  | writing recorded upload before bytes rest, .ok () => .copying request recorded upload (before ++ bytes) rest
  | writing recorded upload _ _ _, .error e => .waits (.dropping recorded upload (.ofObjects e))
  | finishing _ _ _, .ok _ => .waits (.linking .uploaded)
  | finishing recorded _ _, .error e => .failed recorded (.ofObjects e)
  | dropping recorded _ why, _ => .failed recorded why
  | removing why, _ => .ended (.error why)
  | linking outcome, .ok _ => .ended (.ok outcome)
  | linking _, .error e => .ended (.error (.ofStore e))

/-- Where an upload begins. -/
def Stage.start (settings : Settings) : Stage :=
  match request.validate settings.maxBlockSize with
  | .ok () => .waits .rights
  | .error e => .ended (.error (.ofContent e))

/-- A task makes the calls of an upload from a stage on, and ends with a value of its result. -/
inductive Follows {α : Type} (value : Except ServiceError UploadOutcome → α) : Stage → CallTask α → Prop where
  | ended (result : Except ServiceError UploadOutcome) : Follows value (.ended result) (.done (value result))
  | waits {p : Phase} {resume : (p.call request now).Reply → CallTask α}
    (goesOn : ∀ reply, Follows value (p.next request body now reply) (resume reply)) :
    Follows value (.waits p) (.call (p.call request now) resume)

variable {request body now}

/-- Where an upload goes with the frames behind what it has written, and what that says of reading them. -/
inductive Stage.Copies (request : UploadRequest) (recorded : InsertOutcome) (upload : Nat) (before : List UInt8) :
    List Frame → Stage → Prop where
  | refused {frames : List Frame} {why : ServiceError} (read : readBody request before frames = .error why) :
    Copies request recorded upload before frames (.waits (.dropping recorded upload why))
  | complete (read : readBody request before [] = .ok before) :
    Copies request recorded upload before [] (.waits (.finishing recorded upload before))
  | more {bytes : List UInt8} {rest : List Frame}
    (read : readBody request before (.data bytes :: rest) = readBody request (before ++ bytes) rest) :
    Copies request recorded upload before (.data bytes :: rest) (.waits (.writing recorded upload before bytes rest))

theorem copies_copying (request : UploadRequest) (recorded : InsertOutcome) (upload : Nat) (before : List UInt8)
    (frames : List Frame) :
    Stage.Copies request recorded upload before frames (.copying request recorded upload before frames) := by
  cases frames with
  | nil =>
    have hread : readBody request before [] =
        (checkBody request before.length (Hasher.finish ⟨before⟩)).map fun _ => before := rfl
    rw [Stage.copying]
    cases hcheck : checkBody request before.length (Hasher.finish ⟨before⟩) with
    | ok => exact .complete (by rw [hread, hcheck]; rfl)
    | error why => exact .refused (by rw [hread, hcheck]; rfl)
  | cons frame rest =>
    cases frame with
    | fault reason => exact .refused rfl
    | data bytes =>
      rw [Stage.copying]
      split
      · exact .refused (by rw [readBody, if_pos ‹_›])
      · exact .more (by rw [readBody, if_neg ‹_›])

/-- What an upload does once the bytes of its block could not be stored. -/
def giveUp (request : UploadRequest) (recorded : InsertOutcome) (why : ServiceError) : Op UploadOutcome := do
  if recorded.isInserted then discard (attempt (.catalog (.deleteBlock request.blockHash.hex)))
  throw why

/-- What an upload does with what came of writing its body. -/
def settle (request : UploadRequest) (now : DateTime) (recorded : InsertOutcome) (upload : Nat)
    (copied : Except ServiceError Unit) : Op UploadOutcome := do
  let stored ← ExceptT.lift (match copied with
    | .ok () => discard (askObjects (.finish upload))
    | .error e => do
      discard (attempt (.objects (.abort upload)))
      throw e : Op Unit).run
  match stored with
  | .ok () =>
    linkChunk request now
    return .uploaded
  | .error e => giveUp request recorded e

theorem follows_giveUp (recorded : InsertOutcome) (why : ServiceError) :
    Follows request body now id (.failed recorded why) (giveUp request recorded why).run := by
  unfold Stage.failed
  cases recorded with
  | inserted => exact .waits fun reply => .ended _
  | alreadyExists => exact .ended _

theorem follows_linkChunk (outcome : UploadOutcome) :
    Follows request body now id (.waits (.linking outcome))
      (linkChunk request now >>= fun _ => pure outcome : Op UploadOutcome).run := by
  refine .waits fun reply => ?_
  cases reply with
  | ok _ => exact .ended _
  | error e => exact .ended _

theorem follows_settle_ok (recorded : InsertOutcome) (upload : Nat) (data : List UInt8) :
    Follows request body now id (.waits (.finishing recorded upload data))
      (settle request now recorded upload (.ok ())).run := by
  refine .waits fun reply => ?_
  cases reply with
  | ok _ => exact follows_linkChunk .uploaded
  | error e => exact follows_giveUp recorded _

theorem follows_settle_error (recorded : InsertOutcome) (upload : Nat) (why : ServiceError) :
    Follows request body now id (.waits (.dropping recorded upload why))
      (settle request now recorded upload (.error why)).run :=
  .waits fun _ => follows_giveUp recorded why

theorem follows_copyHashed (recorded : InsertOutcome) (upload : Nat) (before : List UInt8) (frames : List Frame) :
    Follows request body now id (.copying request recorded upload before frames)
      ((copyHashed request upload ⟨before⟩ before.length frames).run.bind fun copied =>
        (settle request now recorded upload copied).run) := by
  induction frames generalizing before with
  | nil =>
    rw [Stage.copying, copyHashed]
    cases checkBody request before.length (Hasher.finish ⟨before⟩) with
    | ok => exact follows_settle_ok recorded upload before
    | error e => exact follows_settle_error recorded upload e
  | cons frame rest ih =>
    cases frame with
    | fault reason => exact follows_settle_error recorded upload _
    | data bytes =>
      rw [Stage.copying, copyHashed]
      split
      · exact follows_settle_error recorded upload _
      · refine .waits fun reply => ?_
        cases reply with
        | ok _ =>
          have hrest := ih (before ++ bytes)
          rw [List.length_append] at hrest
          exact hrest
        | error e => exact follows_settle_error recorded upload _

theorem run_uploadNew (recorded : InsertOutcome) :
    (uploadNew request recorded body now).run =
      (askObjects (.openUpload request.blockHash.objectKey)).run >>= fun opened =>
        match opened with
        | .ok upload => (copyHashed request upload .empty 0 body).run >>= fun copied =>
            (settle request now recorded upload copied).run
        | .error e => (giveUp request recorded e).run := by
  rw [uploadNew, ExceptT.run_bind_lift, storeVerified, ExceptT.run_bind, bind_assoc]
  congr 1
  funext opened
  cases opened with
  | ok upload =>
    simp only [ExceptT.run_bind_lift, bind_assoc]
    congr 1
    funext copied
    unfold settle
    rw [ExceptT.run_bind_lift]
    rfl
  | error e => rfl

theorem follows_uploadNew (recorded : InsertOutcome) :
    Follows request body now id (.waits (.opening recorded)) (uploadNew request recorded body now).run := by
  rw [run_uploadNew]
  refine .waits fun reply => ?_
  cases reply with
  | ok upload => exact follows_copyHashed recorded upload [] body
  | error e => exact follows_giveUp recorded _

/-- **An upload is its machine.** -/
theorem follows_uploadChunk (settings : Settings) (request : UploadRequest) (body : List Frame) (now : DateTime) :
    Follows request body now id (.start request settings) (uploadChunk settings request body now).run := by
  unfold Stage.start uploadChunk
  cases request.validate settings.maxBlockSize with
  | error e => exact .ended _
  | ok =>
    refine .waits fun reply => ?_
    match reply with
    | .error e => exact .ended _
    | .ok false => exact .ended _
    | .ok true =>
      refine .waits fun reply => ?_
      match reply with
      | .error e => exact .ended _
      | .ok .inserted => exact follows_uploadNew .inserted
      | .ok .alreadyExists =>
        refine .waits fun reply => ?_
        match reply with
        | .error e => exact .ended _
        | .ok none => exact .ended _
        | .ok (some row) =>
          change Follows request body now id (if row.size ≠ recordedSize request.size then _ else _)
            (if row.size ≠ recordedSize request.size then _ else _)
          split
          · exact .ended _
          · refine .waits fun reply => ?_
            match reply with
            | .error e => exact .ended _
            | .ok true => exact follows_linkChunk .duplicateAccepted
            | .ok false => exact follows_uploadNew .alreadyExists

theorem Follows.map {α : Type} {stage : Stage} {task : CallTask (Except ServiceError UploadOutcome)}
    (h : Follows request body now id stage task) (value : Except ServiceError UploadOutcome → α) :
    Follows request body now value stage (task.bind fun result => .done (value result)) := by
  induction h with
  | ended result => exact .ended result
  | waits goesOn ih => exact .waits ih

theorem Follows.only {α : Type} {value : Except ServiceError UploadOutcome → α} {stage : Stage} {task : CallTask α}
    (h : Follows request body now value stage task) :
    Only (fun call => ∃ p : Phase, call = p.call request now) task := by
  induction h with
  | ended result => exact trivial
  | @waits p resume goesOn ih => exact ⟨⟨p, rfl⟩, ih⟩

end Machine

end Depot.Service
