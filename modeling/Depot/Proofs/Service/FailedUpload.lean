import Depot.Proofs.Service.CrowdContent
import Depot.Proofs.Service.Runs

/-!
# Uploads that fail leave nothing behind

An upload records its block before it writes the bytes, so what fails later has to take the row back, and to drop what
was written. Whatever fails before the chunk is registered, both stores are as they were.

- `Steady`: stores whose catalog does not fail, and whose object store may.
- `Undone`: how far the stores are from what they were, at each stage of an upload. One call keeps it
  (`Undone.step`), as long as the upload does not get as far as registering its chunk.
-/

namespace Depot.Service

open Content Time Objects

variable {ι : Type} {real : Path} {s t u : Stores} {o next : ObjectStore} {request : UploadRequest} {body : List Frame}
  {now : DateTime} {p : Phase} {recorded : InsertOutcome} {n : Nat}

/-! ### Stores whose catalog does not fail -/

/-- Every call is carried out, or it is one to the object store that fails. An upload whose end fails leaves every block
as it was. -/
inductive Steady (real : Path) : Answers where
  | works {c : Call} {s next : Stores} {reply : c.Reply} (done : s.answer c = (reply, next)) :
    Steady real c s reply next
  | objectsFail {r : Request} {s : Stores} {next : ObjectStore} (e : ObjectError) (left : Remains s.objects r next)
    (kept : ∀ n, r = .finish n → next.block? real = s.objects.block? real) :
    Steady real (.objects r) s (.error e) { s with objects := next }

theorem Steady.faulty {c : Call} {reply : c.Reply} (h : Steady real c s reply t) : Faulty c s reply t := by
  cases h with
  | works done => exact .works done
  | objectsFail e left kept => exact .objectsFail e left

theorem Steady.catalog_eq {r : Catalog.Request} {reply : Except Catalog.StoreError r.Reply}
    (h : Steady real (.catalog r) s reply t) :
    reply = (s.catalog.answer r).1 ∧ t = { s with catalog := (s.catalog.answer r).2 } := by
  cases h with
  | works done => exact ⟨(congrArg Prod.fst done).symm, (congrArg Prod.snd done).symm⟩

/-- A call to the object store that changes no block when it is carried out changes none when it fails. -/
theorem Steady.objects_same {r : Request} {reply : Except ObjectError r.Reply} (h : Steady real (.objects r) s reply t)
    (hall : (s.objects.answer r).2.block? real = s.objects.block? real)
    (hpart : ∀ n data more, r = .write n (data ++ more) →
      (s.objects.answer (.write n data)).2.block? real = s.objects.block? real) :
    t.catalog = s.catalog ∧ t.objects.block? real = s.objects.block? real := by
  cases h with
  | works done =>
    obtain rfl : (⟨s.catalog, (s.objects.answer r).2⟩ : Stores) = t := congrArg Prod.snd done
    exact ⟨rfl, hall⟩
  | objectsFail e left kept =>
    refine ⟨rfl, ?_⟩
    cases left with
    | nothing => rfl
    | all => exact hall
    | part => exact hpart _ _ _ rfl
    | dropped => exact kept _ rfl

/-! ### What is to be taken back -/

/-- The catalog of an upload that has recorded its block, or found it recorded. -/
def Took (request : UploadRequest) (now : DateTime) (c : Catalog) : InsertOutcome → Catalog → Prop
  | .inserted, d => c.block? request.blockHash.hex = none ∧ d = withBlock c request now
  | .alreadyExists, d => d = c

/-- Whether an upload has recorded its block, as far as it knows. -/
def Phase.taken : Phase → InsertOutcome
  | opening recorded | writing recorded _ _ _ _ | finishing recorded _ _ | dropping recorded _ _ => recorded
  | removing _ => .inserted
  | rights | recording | looking | probing | linking _ => .alreadyExists

/-- The stores during an upload, measured by what they were before it: a block that it has recorded is all that there
is more. At its end it has failed, and there is nothing more. -/
def Undone (real : Path) (request : UploadRequest) (now : DateTime) (s t : Stores) : Stage → Prop
  | .waits p => t.objects.block? real = s.objects.block? real ∧ Took request now s.catalog p.taken t.catalog
  | .ended result => t.objects.block? real = s.objects.block? real ∧ t.catalog = s.catalog ∧ ∃ e, result = .error e

theorem undone_copying (hsame : t.objects.block? real = s.objects.block? real)
    (htook : Took request now s.catalog recorded t.catalog) (n : Nat) (before : List UInt8) (frames : List Frame) :
    Undone real request now s t (.copying request recorded n before frames) := by
  have h := copies_copying request recorded n before frames
  generalize Stage.copying request recorded n before frames = stage at h ⊢
  cases h <;> exact ⟨hsame, htook⟩

theorem undone_failed (hsame : t.objects.block? real = s.objects.block? real)
    (htook : Took request now s.catalog recorded t.catalog) (why : ServiceError) :
    Undone real request now s t (.failed recorded why) := by
  cases recorded with
  | inserted => exact ⟨hsame, htook⟩
  | alreadyExists => exact ⟨hsame, htook, why, rfl⟩

theorem undone_start (settings : Settings) (request : UploadRequest) (now : DateTime) (s : Stores) :
    Undone real request now s s (.start request settings) := by
  unfold Stage.start
  cases request.validate settings.maxBlockSize with
  | ok => exact ⟨rfl, rfl⟩
  | error e => exact ⟨rfl, rfl, _, rfl⟩

/-! ### One call -/

/-- An upload has got as far as registering its chunk. -/
def Stage.Links : Stage → Prop
  | .waits (.linking _) => True
  | _ => False

section Calls

variable (hsame : t.objects.block? real = s.objects.block? real)
include hsame

theorem undone_recording {reply : (Phase.recording.call request now).Reply} (hcatalog : t.catalog = s.catalog)
    (h : Steady real (Phase.recording.call request now) t reply u) :
    Undone real request now s u (Phase.recording.next request body now reply) := by
  obtain ⟨rfl, rfl⟩ := h.catalog_eq
  change Undone real request now s { t with catalog := (t.catalog.putBlock (rowOf request now)).2 }
    (Phase.recording.next request body now (.ok (t.catalog.putBlock (rowOf request now)).1))
  cases hrow : t.catalog.block? request.blockHash.hex with
  | none =>
    rw [putBlock_new hrow]
    exact ⟨hsame, hcatalog ▸ hrow, hcatalog ▸ rfl⟩
  | some row =>
    rw [putBlock_known (by rw [hrow]; rfl)]
    exact ⟨hsame, hcatalog⟩

theorem undone_looking {reply : (Phase.looking.call request now).Reply} (hcatalog : t.catalog = s.catalog)
    (h : Steady real (Phase.looking.call request now) t reply u) :
    Undone real request now s u (Phase.looking.next request body now reply) := by
  obtain ⟨rfl, rfl⟩ := h.catalog_eq
  change Undone real request now s t
    (Phase.looking.next request body now (.ok (t.catalog.block? request.blockHash.hex)))
  cases t.catalog.block? request.blockHash.hex with
  | none => exact ⟨hsame, hcatalog, _, rfl⟩
  | some row =>
    change Undone real request now s t (if row.size ≠ recordedSize request.size then _ else _)
    split
    · exact ⟨hsame, hcatalog, _, rfl⟩
    · exact ⟨hsame, hcatalog⟩

theorem undone_probing {reply : (Phase.probing.call request now).Reply} (ho : t.objects.Orderly real)
    (hcatalog : t.catalog = s.catalog) (h : Steady real (Phase.probing.call request now) t reply u) :
    (Phase.probing.next request body now reply).Links ∨
      Undone real request now s u (Phase.probing.next request body now reply) := by
  obtain ⟨_, hanswer, _⟩ := answer_contains_block ho request.blockHash
  obtain ⟨hkept, hblocks⟩ := h.objects_same (by rw [hanswer]) nofun
  match reply with
  | .ok true => exact .inl trivial
  | .ok false => exact .inr ⟨hblocks.trans hsame, hkept.trans hcatalog⟩
  | .error e => exact .inr ⟨hblocks.trans hsame, hkept.trans hcatalog, _, rfl⟩

theorem undone_opening {reply : ((Phase.opening recorded).call request now).Reply} (ho : t.objects.Orderly real)
    (htook : Took request now s.catalog recorded t.catalog)
    (h : Steady real ((Phase.opening recorded).call request now) t reply u) :
    Undone real request now s u ((Phase.opening recorded).next request body now reply) := by
  obtain ⟨_, hanswer, _, _, hopened⟩ := answer_openUpload_block ho request.blockHash
  obtain ⟨hkept, hblocks⟩ := h.objects_same (by rw [hanswer, hopened]) nofun
  cases reply with
  | ok n => exact undone_copying (hblocks.trans hsame) (hkept ▸ htook) n [] body
  | error e => exact undone_failed (hblocks.trans hsame) (hkept ▸ htook) _

theorem undone_writing {before bytes : List UInt8} {rest : List Frame}
    {reply : ((Phase.writing recorded n before bytes rest).call request now).Reply} (ho : t.objects.Orderly real)
    (hwrites : t.objects.Writes real n request.blockHash before)
    (htook : Took request now s.catalog recorded t.catalog)
    (h : Steady real ((Phase.writing recorded n before bytes rest).call request now) t reply u) :
    Undone real request now s u ((Phase.writing recorded n before bytes rest).next request body now reply) := by
  have hwritten : ∀ data, (t.objects.answer (.write n data)).2.block? real = t.objects.block? real := fun data => by
    obtain ⟨_, hanswer, _, _, hblocks⟩ := answer_write_block ho hwrites data
    rw [hanswer, hblocks]
  obtain ⟨hkept, hblocks⟩ := h.objects_same (hwritten bytes) fun m data more heq => by
    cases heq
    exact hwritten data
  cases reply with
  | ok => exact undone_copying (hblocks.trans hsame) (hkept ▸ htook) n (before ++ bytes) rest
  | error e => exact ⟨hblocks.trans hsame, hkept ▸ htook⟩

theorem undone_dropping {why : ServiceError} {written : List UInt8}
    {reply : ((Phase.dropping recorded n why).call request now).Reply} (ho : t.objects.Orderly real)
    (hwrites : t.objects.Writes real n request.blockHash written)
    (htook : Took request now s.catalog recorded t.catalog)
    (h : Steady real ((Phase.dropping recorded n why).call request now) t reply u) :
    Undone real request now s u ((Phase.dropping recorded n why).next request body now reply) := by
  obtain ⟨_, hanswer, _, hdropped⟩ := answer_abort_block ho hwrites
  obtain ⟨hkept, hblocks⟩ := h.objects_same (by rw [hanswer, hdropped]) nofun
  exact undone_failed (hblocks.trans hsame) (hkept ▸ htook) why

theorem undone_finishing {data : List UInt8} {reply : ((Phase.finishing recorded n data).call request now).Reply}
    (ho : t.objects.Orderly real) (hwrites : t.objects.Writes real n request.blockHash data)
    (htook : Took request now s.catalog recorded t.catalog)
    (h : Steady real ((Phase.finishing recorded n data).call request now) t reply u) :
    ((Phase.finishing recorded n data).next request body now reply).Links ∨
      Undone real request now s u ((Phase.finishing recorded n data).next request body now reply) := by
  obtain ⟨_, next, hanswer, _, hfinished⟩ := answer_finish_block ho hwrites
  change Steady real (.objects (.finish n)) t reply u at h
  cases h with
  | works done =>
    change ((t.objects.answer (.finish n)).1, (⟨t.catalog, (t.objects.answer (.finish n)).2⟩ : Stores)) = _ at done
    rw [hanswer] at done
    cases done
    rcases hfinished with ⟨rfl, _⟩ | ⟨⟨e, rfl⟩, _, hblocks⟩
    · exact .inl trivial
    · exact .inr (undone_failed (t := ⟨t.catalog, next⟩) (hblocks.trans hsame) htook _)
  | @objectsFail _ _ left e _ kept =>
    exact .inr (undone_failed (t := ⟨t.catalog, left⟩) ((kept n rfl).trans hsame) htook _)

/-- The row that is removed is the one that was recorded: it was new, so no chunk is of that block. -/
theorem undone_removing {why : ServiceError} {reply : ((Phase.removing why).call request now).Reply}
    (hs : Catalog.ContentSound s.catalog) (htook : Took request now s.catalog .inserted t.catalog)
    (h : Steady real ((Phase.removing why).call request now) t reply u) :
    Undone real request now s u ((Phase.removing why).next request body now reply) := by
  obtain ⟨hnew, hrecorded⟩ := htook
  obtain ⟨-, rfl⟩ := h.catalog_eq
  refine ⟨hsame, ?_, why, rfl⟩
  change (t.catalog.commitOr (t.catalog.deleteBlock request.blockHash.hex)).2 = s.catalog
  rw [hrecorded, deleteBlock_withBlock hs hnew]
  rfl

end Calls

/-- **One call of an upload that does not get as far as registering its chunk.** -/
theorem Undone.step {reply : (p.call request now).Reply} (hs : Catalog.ContentSound s.catalog)
    (h : Undone real request now s t (.waits p)) (ho : t.objects.Orderly real)
    (hknows : Knows real request t.objects (.waits p)) (hlinks : ¬(Stage.waits p).Links)
    (hanswer : Steady real (p.call request now) t reply u) :
    (p.next request body now reply).Links ∨ Undone real request now s u (p.next request body now reply) := by
  obtain ⟨hsame, htook⟩ := h
  cases p with
  | rights =>
    right
    obtain ⟨rfl, rfl⟩ := hanswer.catalog_eq
    change Undone real request now s t
      (Phase.rights.next request body now (.ok (t.catalog.canUpload request.uploaderId)))
    cases t.catalog.canUpload request.uploaderId with
    | true => exact ⟨hsame, htook⟩
    | false => exact ⟨hsame, htook, _, rfl⟩
  | recording => exact .inr (undone_recording hsame htook hanswer)
  | looking => exact .inr (undone_looking hsame htook hanswer)
  | probing => exact undone_probing hsame ho htook hanswer
  | opening recorded => exact .inr (undone_opening hsame ho htook hanswer)
  | writing recorded n before bytes rest => exact .inr (undone_writing hsame ho hknows htook hanswer)
  | finishing recorded n data => exact undone_finishing hsame ho hknows.1 htook hanswer
  | dropping recorded n why =>
    obtain ⟨written, hwrites⟩ := hknows
    exact .inr (undone_dropping hsame ho hwrites htook hanswer)
  | removing why => exact .inr (undone_removing hsame hs htook hanswer)
  | linking outcome => exact absurd trivial hlinks

/-! ### Whole uploads -/

theorem Stage.Links.registers {stage : Stage} {task : CallTask (Except ServiceError UploadOutcome)} {calls : List Call}
    {result : Except ServiceError UploadOutcome} {answers : Answers} (h : stage.Links)
    (hfollows : Follows request body now id stage task) (hrun : Runs answers task t calls result u) :
    .catalog (.registerChunk request.uploaderId (chunkOf request now)) ∈ calls := by
  cases hfollows with
  | ended result => cases h
  | @waits p _ goesOn =>
    cases p with
    | linking outcome =>
      cases hrun with
      | call answered rest => exact List.mem_cons_self
    | _ => cases h

theorem Undone.run {stage : Stage} {task : CallTask (Except ServiceError UploadOutcome)} {calls : List Call}
    {result : Except ServiceError UploadOutcome} (hs : Catalog.ContentSound s.catalog)
    (hrun : Runs (Steady real) task t calls result u) (hfollows : Follows request body now id stage task)
    (h : Undone real request now s t stage) (ht : Backed real t) (hknows : Knows real request t.objects stage)
    (hcalls : ∀ uploader chunk, .catalog (.registerChunk uploader chunk) ∉ calls) :
    Undone real request now s u (.ended result) := by
  -- On the calls. The stores stay backed, and the upload goes on to know what it has to.
  induction hrun generalizing stage with
  | done result t =>
    cases hfollows with
    | ended result => exact h
  | @call c resume t next u reply calls result answered rest ih =>
    have hlinks : ¬stage.Links := fun hlinks =>
      hcalls _ _ (hlinks.registers hfollows (.call answered rest))
    cases hfollows with
    | @waits p _ goesOn =>
      have hadvances : Advances real request _ t next (p.next request body now reply) :=
        phase_step ht hknows answered.faulty
      have hstep : (p.next request body now reply).Links ∨ Undone real request now s next _ :=
        h.step hs ht.orderly hknows hlinks answered
      have hrest : ∀ uploader chunk, .catalog (.registerChunk uploader chunk) ∉ calls := fun uploader chunk hmem =>
        hcalls uploader chunk (List.mem_cons_of_mem _ hmem)
      rcases hstep with hlinks | hundone
      · exact absurd (hlinks.registers (goesOn reply) rest) (hrest _ _)
      · exact ih (goesOn reply) hundone hadvances.backed hadvances.knows hrest

/-- **An upload that ends without having registered its chunk, over a catalog that does not fail and an object store
that may, has failed and has changed neither the catalog nor any block: whatever was wrong with the request or its
body, and whether or not the block was recorded or stored before.** -/
theorem unregistered_upload_unchanged [DecidableEq ι] (settings : Settings) (ops : ι → Operation) (ho : o.Blank real)
    {w : Crowd ι (Except ServiceError Unit)} (hsteps : Crowd.Steps Faulty (crowdOf settings ops ⟨.empty, o⟩) w)
    (request : UploadRequest) (body : List Frame) (now : DateTime) {calls : List Call}
    {result : Except ServiceError UploadOutcome}
    (hrun : Runs (Steady real) (uploadChunk settings request body now).run w.stores calls result t)
    (hcalls : ∀ uploader chunk, .catalog (.registerChunk uploader chunk) ∉ calls) :
    (∃ e, result = .error e) ∧ t.catalog = w.stores.catalog ∧
      t.objects.block? real = w.stores.objects.block? real := by
  have hs := (tended_steps ho hsteps).backed
  obtain ⟨hblocks, hcatalog, hfailed⟩ := Undone.run hs.content hrun (follows_uploadChunk settings request body now)
    (undone_start settings request now w.stores) hs (isBare_start request settings).knows hcalls
  exact ⟨hfailed, hcatalog, hblocks⟩

theorem Follows.runs {answers : Answers} {task : CallTask (Except ServiceError UploadOutcome)} {calls : List Call}
    {result : Except ServiceError UploadOutcome} {reply : (p.call request now).Reply}
    (hfollows : Follows request body now id (.waits p) task) (hanswered : answers (p.call request now) s reply u)
    (hrest : ∀ rest, Follows request body now id (p.next request body now reply) rest →
      Runs answers rest u calls result t) :
    Runs answers task s (p.call request now :: calls) result t := by
  cases hfollows with
  | waits goesOn => exact .call hanswered (hrest _ (goesOn reply))

theorem answer_objects {r : Request} {reply : Except ObjectError r.Reply} (h : s.objects.answer r = (reply, next)) :
    s.answer (.objects r) = (reply, { s with objects := next }) := by
  change ((s.objects.answer r).1, ({ s with objects := (s.objects.answer r).2 } : Stores)) = _
  rw [h]

/-- An upload of a new block whose body is too long from the first records the block, opens an upload, and takes both
back. -/
theorem exists_runs_too_long {settings : Settings} {bytes : List UInt8} {rest : List Frame}
    (ho : s.objects.Orderly real) (hadmitted : Admitted settings s.catalog request)
    (hnew : s.catalog.block? request.blockHash.hex = none) (hlong : request.size < bytes.length) (now : DateTime) :
    ∃ result t, Runs (Steady real) (uploadChunk settings request (.data bytes :: rest) now).run s
      [.catalog (.canUpload request.uploaderId), .catalog (.putBlock (rowOf request now)),
        .objects (.openUpload request.blockHash.objectKey), .objects (.abort s.objects.opened),
        .catalog (.deleteBlock request.blockHash.hex)] result t := by
  obtain ⟨opened, hopen, hbesides, hwrites, _⟩ := answer_openUpload_block ho request.blockHash
  obtain ⟨aborted, habort, _⟩ := answer_abort_block hbesides.orderly hwrites
  let recorded : Stores := { s with catalog := withBlock s.catalog request now }
  have hrights : s.answer (.catalog (.canUpload request.uploaderId)) = (.ok true, s) := by
    change ((.ok (s.catalog.canUpload request.uploaderId) : Except Catalog.StoreError Bool), s) = _
    rw [hadmitted.permitted]
  have hrecords : s.answer (.catalog (.putBlock (rowOf request now))) = (.ok .inserted, recorded) := by
    change ((.ok (s.catalog.putBlock (rowOf request now)).1 : Except Catalog.StoreError InsertOutcome),
      ({ s with catalog := (s.catalog.putBlock (rowOf request now)).2 } : Stores)) = _
    rw [putBlock_new hnew]
  have hopens : recorded.answer (.objects (.openUpload request.blockHash.objectKey)) =
      (.ok s.objects.opened, { recorded with objects := opened }) := answer_objects hopen
  have haborts : Stores.answer (.objects (.abort s.objects.opened)) { recorded with objects := opened } =
      (.ok (), { recorded with objects := aborted }) := answer_objects habort
  have hstart : Stage.start request settings = .waits .rights := by rw [Stage.start, hadmitted.valid]
  let why : ServiceError := .malformedRequest s!"chunk body exceeds declared size {request.size}"
  have hcopying : (Phase.opening .inserted).next request (.data bytes :: rest) now (.ok s.objects.opened) =
      .waits (.dropping .inserted s.objects.opened why) := by
    change Stage.copying request .inserted s.objects.opened [] (.data bytes :: rest) = _
    rw [Stage.copying, if_pos (by simpa using hlong)]
  have hfollows := follows_uploadChunk settings request (.data bytes :: rest) now
  rw [hstart] at hfollows
  refine ⟨.error why,
    (Stores.answer (.catalog (.deleteBlock request.blockHash.hex)) { recorded with objects := aborted }).2, ?_⟩
  refine hfollows.runs (.works hrights) fun _ h => ?_
  refine h.runs (p := .recording) (.works hrecords) fun _ h => ?_
  refine h.runs (p := .opening .inserted) (.works hopens) fun _ h => ?_
  rw [hcopying] at h
  refine h.runs (.works haborts) fun _ h => ?_
  refine h.runs (p := .removing why) (.works rfl) fun _ h => ?_
  cases h with
  | ended result => exact .done _ _

/-- A block is recorded, a body that is too long is refused, and the row is removed. -/
theorem unregistered_upload_unchanged_too_long :
    let o : ObjectStore := .files ⟨⟨[]⟩, [], ⟨[], ""⟩, [], 0⟩
    let request : UploadRequest := ⟨"ann", default, 0, 1, default, 2⟩
    let ops : Unit → Operation := fun _ => .grantOnTeam "ann" "team" .write .epoch
    let w : Crowd Unit _ := (crowdOf ⟨2, 60, 1⟩ ops ⟨.empty, o⟩).alone ()
    o.Blank [] ∧ Crowd.Steps Faulty (crowdOf ⟨2, 60, 1⟩ ops ⟨.empty, o⟩) w ∧
      ∃ calls result t,
        Runs (Steady []) (uploadChunk ⟨2, 60, 1⟩ request [.data [1, 2, 3]] .epoch).run w.stores calls result t ∧
          (∀ uploader chunk, .catalog (.registerChunk uploader chunk) ∉ calls) ∧
          .catalog (.putBlock (rowOf request .epoch)) ∈ calls ∧
          (∃ e, result = .error e) ∧ t.catalog = w.stores.catalog ∧
          t.objects.block? [] = w.stores.objects.block? [] := by
  intro o request ops w
  have hblank : o.Blank [] := fresh_root _
  have hsteps : Crowd.Steps Faulty (crowdOf ⟨2, 60, 1⟩ ops ⟨.empty, o⟩) w :=
    Crowd.steps_mono (fun _ _ _ _ => .works) (Crowd.steps_alone _ ())
  have hadmitted : Admitted ⟨2, 60, 1⟩ w.stores.catalog request := ⟨rfl, by decide +kernel⟩
  have hnew : w.stores.catalog.block? request.blockHash.hex = none := by
    have hnone : w.stores.catalog.blocks = [] := by decide +kernel
    rw [Catalog.block?, hnone]
    rfl
  have ho : w.stores.objects.Orderly [] := hblank.orderly
  have hlong : request.size < ([1, 2, 3] : List UInt8).length := by decide
  obtain ⟨result, t, hrun⟩ := exists_runs_too_long ho hadmitted hnew hlong .epoch
  have hsame := unregistered_upload_unchanged ⟨2, 60, 1⟩ ops hblank hsteps request _ .epoch hrun (by simp)
  exact ⟨hblank, hsteps, _, result, t, hrun, by simp, by simp, hsame⟩

end Depot.Service
