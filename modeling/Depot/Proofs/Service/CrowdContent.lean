import Depot.Proofs.Service.Faults
import Depot.Proofs.Service.StoredContent

/-!
# Content in crowds

Operations of any kind run at once, over stores whose calls can fail. Each upload has an upload of the object store
to itself, so what it knows of it is nobody else's business (`Tended`), and no step of the crowd refers to
content that is not stored.
-/

namespace Depot.Service

open Content Time Objects

variable {ι α : Type} {real : Path} {s t : Stores} {o next : ObjectStore}

/-- What a task does, and the upload that it has under way: it leaves content alone, or it is an upload that knows
what it has to. -/
inductive Doing (real : Path) (o : ObjectStore) : CallTask α → Option Nat → Prop where
  | quiet {user : String} {task : CallTask α} (only : Only (QuietFor user) task) : Doing real o task none
  | uploads {request : UploadRequest} {body : List Frame} {now : DateTime}
    {value : Except ServiceError UploadOutcome → α} {stage : Stage} {task : CallTask α}
    (follows : Follows request body now value stage task) (knows : Knows real request o stage) :
    Doing real o task stage.upload?

theorem Doing.lt_opened {task : CallTask α} {own : Option Nat} (h : Doing real o task own) (ho : o.Orderly real)
    {n : Nat} (hn : own = some n) : n < o.opened := by
  cases h with
  | quiet _ => cases hn
  | uploads _ knows => exact knows.lt_opened ho hn

theorem Doing.spared {task : CallTask α} {own other : Option Nat} (h : Doing real o task own)
    (hspares : Spares real other o next) (hapart : ∀ n, own = some n → other ≠ some n) :
    Doing real next task own := by
  cases h with
  | quiet only => exact .quiet only
  | uploads follows knows => exact .uploads follows (knows.spared hspares hapart)

theorem quiet_step {user : String} {c : Call} {reply : c.Reply} (hs : Backed real s) (hquiet : QuietFor user c)
    (h : Faulty c s reply t) : Backed real t ∧ t.objects = s.objects := by
  cases c with
  | catalog r =>
    have hsame : Catalog.SameContent s.catalog (s.catalog.answer r).2 := Catalog.sameContent_answer hquiet
    rcases faulty_catalog h with rfl | rfl
    · exact ⟨hs.answer_of_same hsame.chunks hsame.staged, rfl⟩
    · exact ⟨hs, rfl⟩
  | objects r =>
    cases r with
    | presign key ttl now =>
      have hpresign := answer_presign_block s.objects key ttl now
      obtain ⟨next, rfl, hdone | ⟨_, hleft⟩⟩ := faulty_objects h
      · obtain rfl : s.objects = next := hpresign.symm.trans (congrArg Prod.snd hdone)
        exact ⟨hs, rfl⟩
      · cases hleft with
        | nothing => exact ⟨hs, rfl⟩
        | all =>
          rw [hpresign]
          exact ⟨hs, rfl⟩
    | _ => cases hquiet

theorem Doing.step {c : Call} {resume : c.Reply → CallTask α} {own : Option Nat} {reply : c.Reply}
    (hs : Backed real s) (hdoing : Doing real s.objects (.call c resume) own) (h : Faulty c s reply t) :
    ∃ own', Backed real t ∧ Spares real own s.objects t.objects ∧ Doing real t.objects (resume reply) own' ∧
      ∀ n, own' = some n → own = some n ∨ s.objects.opened ≤ n := by
  cases hdoing with
  | quiet only =>
    obtain ⟨ht, hsame⟩ := quiet_step hs only.1 h
    exact ⟨none, ht, hsame ▸ .refl hs.orderly none, .quiet (only.2 reply), nofun⟩
  | uploads follows knows =>
    cases follows with
    | @waits p _ goesOn =>
      obtain ⟨ht, hspares, hknows, hown⟩ := phase_step hs knows h
      exact ⟨_, ht, hspares, .uploads (goesOn reply) hknows, hown⟩

/-- The stores of a crowd are backed, and no two of its tasks have the same upload under way. -/
structure Tended (real : Path) (w : Crowd ι α) : Prop where
  backed : Backed real w.stores
  doing : ∃ own : ι → Option Nat, (∀ i, Doing real w.stores.objects (w.tasks i) (own i)) ∧
    ∀ i j n, own i = some n → own j = some n → i = j

theorem Tended.step [DecidableEq ι] {w v : Crowd ι α} (h : Tended real w) (hstep : Crowd.Step Faulty w v) :
    Tended real v := by
  obtain ⟨own, hdoing, hapart⟩ := h.doing
  cases hstep with
  | @call i c resume reply t hwaits hanswered =>
    obtain ⟨mine, ht, hspares, hmine, hnew⟩ := (hwaits ▸ hdoing i).step h.backed hanswered
    refine ⟨ht, Function.update own i mine, fun j => ?_,
      apart_update hapart (fun j n hj => (hdoing j).lt_opened h.backed.orderly hj) hnew⟩
    by_cases hji : j = i
    · subst hji
      simpa using hmine
    · simp only [Function.update_of_ne hji]
      exact (hdoing j).spared hspares fun n hj hi => hji (hapart j i n hj hi)

/-! ### Crowds of operations -/

/-- Operations that have yet to begin. -/
def crowdOf (settings : Settings) (ops : ι → Operation) (s : Stores) : Crowd ι (Except ServiceError Unit) :=
  ⟨s, fun i => ((ops i).act settings).run⟩

/-- Tasks have run to their ends one after another. -/
def Crowd.inTurn [DecidableEq ι] (w : Crowd ι α) (turns : List ι) : Crowd ι α := turns.foldl Crowd.alone w

theorem Crowd.steps_inTurn [DecidableEq ι] (w : Crowd ι α) (turns : List ι) :
    Crowd.Steps Healthy w (w.inTurn turns) := by
  induction turns generalizing w with
  | nil => exact .refl
  | cons i rest ih => exact (w.steps_alone i).trans (ih (w.alone i))

theorem stores_inTurn [DecidableEq ι] {settings : Settings} {ops : ι → Operation} {turns : List ι}
    {w : Crowd ι (Except ServiceError Unit)} (hdistinct : turns.Nodup)
    (hwaiting : ∀ i ∈ turns, w.tasks i = ((ops i).act settings).run) :
    (w.inTurn turns).stores = after settings (turns.map ops) w.stores := by
  induction turns generalizing w with
  | nil => rfl
  | cons i rest ih =>
    obtain ⟨hi, hrest⟩ := List.nodup_cons.mp hdistinct
    have hstores : (w.alone i).stores = (perform ((ops i).act settings) w.stores).2 := by
      rw [Crowd.stores_alone, hwaiting i List.mem_cons_self]
      rfl
    rw [List.map_cons, after, ← hstores]
    refine ih hrest fun j hj => ?_
    have hne : j ≠ i := fun heq => hi (heq ▸ hj)
    rw [Crowd.tasks_alone_of_ne w hne]
    exact hwaiting j (List.mem_cons_of_mem _ hj)

theorem follows_act (settings : Settings) (request : UploadRequest) (body : List Frame) (now : DateTime) :
    Follows request body now (fun result => result.map fun _ => ()) (.start request settings)
      ((Operation.upload request body now).act settings).run := by
  have h := (follows_uploadChunk settings request body now).map fun result => result.map fun _ => ()
  have hrun : ((Operation.upload request body now).act settings).run =
      (uploadChunk settings request body now).run.bind fun result => .done (result.map fun _ => ()) := by
    rw [Operation.act]
    exact ExceptT.run_map _ _
  rw [hrun]
  exact h

theorem doing_act (settings : Settings) (op : Operation) (real : Path) (o : ObjectStore) :
    Doing real o ((op.act settings).run) none := by
  rcases upload_or_quiet op with ⟨request, body, now, rfl⟩ | hquiet
  · have hfollows := follows_act settings request body now
    have hstart := isBare_start request settings
    rw [← hstart.upload?_eq]
    exact .uploads hfollows hstart.knows
  · exact .quiet (quiet_act settings op hquiet).only

theorem backed_blank (ho : o.Blank real) : Backed real ⟨.empty, o⟩ where
  orderly := ho.orderly
  content := Catalog.contentSound_empty
  history := Catalog.historySound_empty
  honest h data hobject := by cases (ho.block?_eq h).symm.trans hobject
  chunks k hk := by cases hk
  staged k hk := by cases hk

theorem Backed.tended (hs : Backed real s) (settings : Settings) (ops : ι → Operation) :
    Tended real (crowdOf settings ops s) where
  backed := hs
  doing := ⟨fun _ => none, fun i => doing_act settings (ops i) real s.objects, fun _ _ _ hn => by cases hn⟩

theorem tended_crowdOf (settings : Settings) (ops : ι → Operation) (ho : o.Blank real) :
    Tended real (crowdOf settings ops ⟨.empty, o⟩) :=
  (backed_blank ho).tended settings ops

theorem tended_steps [DecidableEq ι] {settings : Settings} {ops : ι → Operation} (ho : o.Blank real)
    {w : Crowd ι (Except ServiceError Unit)} (hsteps : Crowd.Steps Faulty (crowdOf settings ops ⟨.empty, o⟩) w) :
    Tended real w :=
  Crowd.steps_induction (fun _ _ hstep h => h.step hstep) (tended_crowdOf settings ops ho) hsteps

/-- **An operation that runs over stores which fail when they are told to leaves them backed.** -/
theorem backed_run_struck {faulty : FaultyStores} (h : faulty.Strikes FaultTarget.Fails)
    (hs : Backed real faulty.stores) (settings : Settings) (op : Operation) :
    Backed real (Task.run FaultyStores.answer (op.act settings).run faulty).2.stores := by
  let x : Trial Unit (Except ServiceError Unit) := ⟨faulty, fun _ => (op.act settings).run⟩
  have htended : Tended real ⟨_, _⟩ := Crowd.steps_induction (fun _ _ hstep h => h.step hstep)
    (hs.tended settings fun _ => op) (x.steps_run h ())
  exact htended.backed

/-- The content of a revision is stored: its chunks are of blocks that are stored with the bytes that have their
hashes, and that together have the hash of the content. -/
def ContentStored (real : Path) (s : Stores) (r : Catalog.Revision) : Prop :=
  ∃ blocks : List BlockHash,
    (s.catalog.listChunks r.contentHash).map Catalog.Chunk.blockHash = blocks.map BlockHash.hex ∧
      (blocks.length : Int) = r.chunkCount ∧ FileHash.parse r.contentHash = .ok (.ofBlocks blocks) ∧
      ∀ b ∈ blocks, ∃ data, s.objects.block? real b = some data ∧ BlockHash.compute data = b

theorem Backed.contentStored (hs : Backed real s) {r : Catalog.Revision} (hr : r ∈ s.catalog.revisions) :
    ContentStored real s r := by
  have hcounted := hs.history.counted r hr
  obtain ⟨n, hfile⟩ := hs.content.files r.contentHash (Catalog.listChunks_ne_nil_of_completeCount? hcounted)
  have hstored : ∀ k ∈ s.catalog.listChunks r.contentHash, Stored real s.objects k.blockHash := fun k hk =>
    hs.chunks k (Catalog.mem_listChunks.mp hk).1
  obtain ⟨blocks, hblocks⟩ : ∃ blocks : List BlockHash,
      (s.catalog.listChunks r.contentHash).map Catalog.Chunk.blockHash = blocks.map BlockHash.hex := by
    refine exists_hashes fun text htext => ?_
    obtain ⟨k, hk, rfl⟩ := List.mem_map.mp htext
    obtain ⟨h, _, hhex, _⟩ := hstored k hk
    exact ⟨h, hhex⟩
  refine ⟨blocks, hblocks, ?_, parse_of_blocksCompose (hblocks ▸ hfile.composes), fun b hb => ?_⟩
  · have hlength : blocks.length = n := by
      rw [← hfile.length_eq, ← List.length_map (f := Catalog.Chunk.blockHash), hblocks, List.length_map]
    rw [hlength]
    exact Option.some.inj (hfile.completeCount?_eq.symm.trans hcounted)
  · have hmem : b.hex ∈ (s.catalog.listChunks r.contentHash).map Catalog.Chunk.blockHash :=
      hblocks ▸ List.mem_map_of_mem hb
    obtain ⟨k, hk, hhex⟩ := List.mem_map.mp hmem
    obtain ⟨h, data, hspelled, hobject⟩ := hstored k hk
    obtain rfl : b = h := BlockHash.hex_injective (hhex.symm.trans hspelled)
    exact ⟨data, hobject, hs.honest b data hobject⟩

/-- **However the calls of operations are interleaved and whichever of them fail, from an empty catalog beside a
store without blocks: whatever is stored as a block has its hash, so what is fetched at its key has it; every chunk,
catalogued or staged, is of a stored block; and so is all content in any state of any project.** -/
theorem crowd_content_stored [DecidableEq ι] (settings : Settings) (ops : ι → Operation) (ho : o.Blank real)
    {w : Crowd ι (Except ServiceError Unit)}
    (hsteps : Crowd.Steps Faulty (crowdOf settings ops ⟨.empty, o⟩) w) :
    (∀ h data, w.stores.objects.block? real h = some data → BlockHash.compute data = h) ∧
      (∀ h data, (w.stores.objects.answer (.get (BlockHash.objectKey h))).1 = .ok data → BlockHash.compute data = h) ∧
      (∀ k ∈ w.stores.catalog.chunks, Stored real w.stores.objects k.blockHash) ∧
      (∀ k ∈ w.stores.catalog.staged, Stored real w.stores.objects k.chunk.blockHash) ∧
      ∀ projectId boundary, ∀ r ∈ w.stores.catalog.stateAt projectId boundary, ContentStored real w.stores r := by
  have hs := (tended_steps ho hsteps).backed
  refine ⟨hs.honest, fun h data hget => hs.honest h data (block?_of_get hs.orderly hget), hs.chunks, hs.staged, ?_⟩
  intro projectId boundary r hr
  exact hs.contentStored (Catalog.mem_stateAt_revisions hr)

/-! ### A block that two users upload at once -/

def bareBucket : ObjectStore :=
  .bucket (.ofSettings "blocks" none none none false ⟨true, "blocks", "", [], false, false, []⟩)

/-- The file of one block that both users upload. -/
def sharedFile : FileHash := .ofBlocks [.compute [104, 105]]

def sharedUpload (user : String) (body : List Frame) : Operation :=
  .upload ⟨user, sharedFile, 0, 1, .compute [104, 105], 2⟩ body .epoch

def sharedWork : Fin 6 → Operation :=
  [.grantOnTeam "ann" "team" .write .epoch, .grantOnTeam "bob" "team" .write .epoch,
    .createProject "bob" "team" "title" .epoch, sharedUpload "ann" [.data [104], .data [105]],
    sharedUpload "bob" [.data [104, 105]], .commit ⟨1, "bob", "first", [⟨"a", sharedFile, .add⟩]⟩ .epoch].get

/-- The call by which the first of both uploads ends is told to fail. -/
def sharedTrial : Trial (Fin 6) (Except ServiceError Unit) :=
  ⟨FaultyStores.inject ⟨⟨.empty, bareBucket⟩, []⟩ .uploadFinish 1,
    (crowdOf ⟨2, 60, 1⟩ sharedWork ⟨.empty, bareBucket⟩).tasks⟩

/-- Both uploads take turns. The end of ann's fails, bob's completes the file, and it is committed. -/
theorem crowd_content_stored_interleaved :
    let w := (sharedTrial.play [0, 1, 2, 2, 4, 4, 3, 3, 3, 3, 4, 3, 4, 3, 3, 3, 4, 4, 5, 5]).crowd
    (bareBucket.Blank [] ∧ Crowd.Steps Faulty (crowdOf ⟨2, 60, 1⟩ sharedWork ⟨.empty, bareBucket⟩) w) ∧
      ((∃ e, w.tasks 3 = .done (.error e)) ∧ w.tasks 4 = .done (.ok ()) ∧ w.stores.catalog.stateAt 1 2 ≠ []) ∧
      (∀ h data, w.stores.objects.block? [] h = some data → BlockHash.compute data = h) ∧
      (∀ h data, (w.stores.objects.answer (.get (BlockHash.objectKey h))).1 = .ok data → BlockHash.compute data = h) ∧
      (∀ k ∈ w.stores.catalog.chunks, Stored [] w.stores.objects k.blockHash) ∧
      (∀ k ∈ w.stores.catalog.staged, Stored [] w.stores.objects k.chunk.blockHash) ∧
      ∀ projectId boundary, ∀ r ∈ w.stores.catalog.stateAt projectId boundary, ContentStored [] w.stores r := by
  intro w
  have hblank : bareBucket.Blank [] := ⟨rfl, rfl⟩
  have hstrikes : sharedTrial.stores.Strikes FaultTarget.Fails :=
    (FaultyStores.strikes_nil _).inject ⟨nofun, nofun⟩ 1
  have hsteps : Crowd.Steps Faulty (crowdOf ⟨2, 60, 1⟩ sharedWork ⟨.empty, bareBucket⟩) w :=
    Trial.steps_play hstrikes _
  have hrun : ((ending? (w.tasks 3)).map Except.isOk = some false ∧ (ending? (w.tasks 4)).map Except.isOk = some true) ∧
      w.stores.catalog.stateAt 1 2 ≠ [] := by decide +kernel
  obtain ⟨⟨hfailed, hworked⟩, hlive⟩ := hrun
  refine ⟨⟨hblank, hsteps⟩, ⟨?_, ?_, hlive⟩, crowd_content_stored _ sharedWork hblank hsteps⟩
  · obtain ⟨result, hresult, herror⟩ := Option.map_eq_some_iff.mp hfailed
    cases result with
    | ok value => cases herror
    | error e => exact ⟨e, ending?_eq_some_iff.mp hresult⟩
  · obtain ⟨result, hresult, hok⟩ := Option.map_eq_some_iff.mp hworked
    cases result with
    | ok value => exact ending?_eq_some_iff.mp hresult
    | error e => cases hok

end Depot.Service
