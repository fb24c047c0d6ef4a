import Depot.Proofs.Objects.BlockStore
import Depot.Proofs.Service.Crowd
import Depot.Proofs.Service.Operation
import Depot.Proofs.Service.UploadPhases

/-!
# Content is stored before it is referred to

However the calls of operations are interleaved and whichever of them fail, what chunks and staged chunks refer to is
stored, and what is stored has its hash.

- `Backed`: this, as an invariant of the stores between any two calls.
- `Knows`: what an upload may rely on in each phase. Its own upload has what it has written, and the block that it
  registers is stored.
- `Spares`: what a call leaves to all others, by which what they know stays true.
- `phase_step`: one call of an upload. `Tended.step`: one call of any operation in a crowd.
-/

namespace Depot.Service

open Content Time Objects

variable {real : Path} {s t : Stores} {o next : ObjectStore} {request : UploadRequest} {body : List Frame}
  {now : DateTime}

/-! ### Stores between two calls -/

/-- A block is stored whose hash is spelled so. -/
def Stored (real : Path) (o : ObjectStore) (blockHash : String) : Prop :=
  ∃ h data, blockHash = h.hex ∧ o.block? real h = some data

/-- Stored blocks have their hashes, and all chunks are of stored blocks. -/
structure Backed (real : Path) (s : Stores) : Prop where
  orderly : s.objects.Orderly real
  content : Catalog.ContentSound s.catalog
  history : Catalog.HistorySound s.catalog
  honest : ∀ h data, s.objects.block? real h = some data → BlockHash.compute data = h
  chunks : ∀ k ∈ s.catalog.chunks, Stored real s.objects k.blockHash
  staged : ∀ k ∈ s.catalog.staged, Stored real s.objects k.chunk.blockHash

theorem Sound.backed (hs : Sound real s) : Backed real s := by
  obtain ⟨c, f, rfl⟩ := hs.exists_files
  have hstored : ∀ blockHash size, Held (Stores.object? ⟨c, .files f⟩ real) blockHash size →
      Stored real (.files f) blockHash := by
    rintro _ _ ⟨h, data, hhex, hobject, _⟩
    exact ⟨h, data, hhex, hobject⟩
  exact {
    orderly := hs.blockFiles.1
    content := hs.content
    history := hs.history
    honest := hs.honest
    chunks := fun k hk => hstored _ _ (hs.chunks k hk)
    staged := fun k hk => hstored _ _ (hs.staged k hk) }

/-- What a call leaves to the tasks that made other uploads than this one. -/
structure Spares (real : Path) (own : Option Nat) (o next : ObjectStore) : Prop where
  orderly : next.Orderly real
  stored : ∀ h, (o.block? real h).isSome → (next.block? real h).isSome
  others : ∀ n h written, own ≠ some n → o.Writes real n h written → next.Writes real n h written
  opened : o.opened ≤ next.opened

theorem Spares.refl (ho : o.Orderly real) (own : Option Nat) : Spares real own o o :=
  ⟨ho, fun _ hstored => hstored, fun _ _ _ _ hw => hw, Nat.le_refl _⟩

theorem spares_of_besides {n : Nat} (h : Besides real n o next)
    (hstored : ∀ h, (o.block? real h).isSome → (next.block? real h).isSome) : Spares real (some n) o next :=
  ⟨h.orderly, hstored, fun m _ _ hne hw => h.others m _ _ (fun heq => hne (congrArg some heq.symm)) hw, h.opened⟩

theorem spares_of_opened (ho : o.Orderly real) (h : Besides real o.opened o next)
    (hsame : next.block? real = o.block? real) : Spares real none o next :=
  ⟨h.orderly, fun g hstored => by rwa [hsame], fun m g w _ hw => h.others m g w (Nat.ne_of_lt (ho.lt_opened hw)) hw,
    h.opened⟩

theorem Stored.mono (hstored : ∀ h, (o.block? real h).isSome → (next.block? real h).isSome) {blockHash : String}
    (h : Stored real o blockHash) : Stored real next blockHash := by
  obtain ⟨g, data, hhex, hobject⟩ := h
  obtain ⟨data', hobject'⟩ := Option.isSome_iff_exists.mp (hstored g (by rw [hobject]; rfl))
  exact ⟨g, data', hhex, hobject'⟩

theorem Backed.withObjects (hs : Backed real s) {own : Option Nat} (hspares : Spares real own s.objects next)
    (hhonest : ∀ h data, next.block? real h = some data → BlockHash.compute data = h) :
    Backed real { s with objects := next } where
  orderly := hspares.orderly
  content := hs.content
  history := hs.history
  honest := hhonest
  chunks k hk := (hs.chunks k hk).mono hspares.stored
  staged k hk := (hs.staged k hk).mono hspares.stored

theorem Backed.answer (hs : Backed real s) (r : Catalog.Request)
    (hchunks : ∀ k ∈ (s.catalog.answer r).2.chunks,
      (k ∈ s.catalog.chunks ∨ ∃ u, ⟨u, k⟩ ∈ s.catalog.staged) ∨ Stored real s.objects k.blockHash)
    (hstaged : ∀ k ∈ (s.catalog.answer r).2.staged,
      k ∈ s.catalog.staged ∨ Stored real s.objects k.chunk.blockHash) :
    Backed real { s with catalog := (s.catalog.answer r).2 } where
  orderly := hs.orderly
  content := Catalog.contentSound_step (Catalog.answer_step _ r) hs.content
  history := Catalog.historySound_step (Catalog.answer_step _ r) hs.history
  honest := hs.honest
  chunks k hk := by
    rcases hchunks k hk with (hold | ⟨u, hold⟩) | hstored
    · exact hs.chunks k hold
    · exact hs.staged ⟨u, k⟩ hold
    · exact hstored
  staged k hk := (hstaged k hk).elim (hs.staged k) id

theorem Backed.answer_of_same (hs : Backed real s) {r : Catalog.Request}
    (hchunks : (s.catalog.answer r).2.chunks = s.catalog.chunks)
    (hstaged : (s.catalog.answer r).2.staged = s.catalog.staged) :
    Backed real { s with catalog := (s.catalog.answer r).2 } :=
  hs.answer r (fun _ hk => .inl (.inl (hchunks ▸ hk))) fun _ hk => .inl (hstaged ▸ hk)

theorem chunks_putBlock (c : Catalog) (row : Catalog.StoredBlock) :
    (c.putBlock row).2.chunks = c.chunks ∧ (c.putBlock row).2.staged = c.staged := by
  obtain ⟨_, h⟩ := Catalog.putBlock_eq c row
  rw [h]
  exact ⟨rfl, rfl⟩

theorem chunks_deleteBlock (c : Catalog) (blockHash : String) :
    (c.commitOr (c.deleteBlock blockHash)).2.chunks = c.chunks ∧
      (c.commitOr (c.deleteBlock blockHash)).2.staged = c.staged := by
  obtain ⟨_, h⟩ := Catalog.deleteBlock_eq c blockHash
  rw [h]
  exact ⟨rfl, rfl⟩

/-! ### What an upload knows -/

/-- The upload that is under way. -/
def Stage.upload? : Stage → Option Nat
  | .waits (.writing _ upload _ _ _) | .waits (.finishing _ upload _) | .waits (.dropping _ upload _) => some upload
  | _ => none

/-- What holds of the object store while an upload is at a stage. -/
def Knows (real : Path) (request : UploadRequest) (o : ObjectStore) : Stage → Prop
  | .waits (.writing _ upload before _ _) => o.Writes real upload request.blockHash before
  | .waits (.finishing _ upload data) =>
    o.Writes real upload request.blockHash data ∧ BlockHash.compute data = request.blockHash
  | .waits (.dropping _ upload _) => ∃ written, o.Writes real upload request.blockHash written
  | .waits (.linking _) => (o.block? real request.blockHash).isSome
  | _ => True

theorem Knows.spared {own : Option Nat} {stage : Stage} (h : Knows real request o stage)
    (hspares : Spares real own o next) (hapart : ∀ n, stage.upload? = some n → own ≠ some n) :
    Knows real request next stage := by
  cases stage with
  | ended result => trivial
  | waits p =>
    cases p with
    | writing recorded n before bytes rest => exact hspares.others n _ _ (hapart n rfl) h
    | finishing recorded n data => exact ⟨hspares.others n _ _ (hapart n rfl) h.1, h.2⟩
    | dropping recorded n why =>
      obtain ⟨written, hw⟩ := h
      exact ⟨written, hspares.others n _ _ (hapart n rfl) hw⟩
    | linking outcome => exact hspares.stored _ h
    | _ => trivial

theorem Knows.lt_opened {stage : Stage} (h : Knows real request o stage) (ho : o.Orderly real) {n : Nat}
    (hn : stage.upload? = some n) : n < o.opened := by
  cases stage with
  | ended result => cases hn
  | waits p =>
    cases p with
    | writing recorded m before bytes rest =>
      cases hn
      exact ho.lt_opened h
    | finishing recorded m data =>
      cases hn
      exact ho.lt_opened h.1
    | dropping recorded m why =>
      cases hn
      obtain ⟨written, hw⟩ := h
      exact ho.lt_opened hw
    | _ => cases hn

/-- At most stages an upload knows nothing of the object store. -/
def Stage.IsBare : Stage → Prop
  | .waits (.writing _ _ _ _ _) | .waits (.finishing _ _ _) | .waits (.dropping _ _ _) | .waits (.linking _) => False
  | _ => True

theorem Stage.IsBare.knows {stage : Stage} (h : stage.IsBare) : Knows real request o stage := by
  cases stage with
  | ended result => trivial
  | waits p => cases p <;> trivial

theorem Stage.IsBare.upload?_eq {stage : Stage} (h : stage.IsBare) : stage.upload? = none := by
  cases stage with
  | ended result => rfl
  | waits p => cases p <;> first | rfl | cases h

theorem Stage.IsBare.own {stage : Stage} (h : stage.IsBare) (own : Option Nat) (opened : Nat) :
    ∀ n, stage.upload? = some n → own = some n ∨ opened ≤ n := by
  intro n hn
  rw [h.upload?_eq] at hn
  cases hn

theorem isBare_start (request : UploadRequest) (settings : Settings) : (Stage.start request settings).IsBare := by
  unfold Stage.start
  cases request.validate settings.maxBlockSize <;> trivial

theorem isBare_failed (recorded : InsertOutcome) (why : ServiceError) : (Stage.failed recorded why).IsBare := by
  unfold Stage.failed
  split <;> trivial

theorem knows_copying {n : Nat} {before : List UInt8} (hw : o.Writes real n request.blockHash before)
    (recorded : InsertOutcome) (frames : List Frame) :
    Knows real request o (.copying request recorded n before frames) := by
  have h := copies_copying request recorded n before frames
  generalize Stage.copying request recorded n before frames = stage at h ⊢
  cases h with
  | refused => exact ⟨before, hw⟩
  | complete read => exact ⟨hw, (readBody_eq_ok read).2⟩
  | more => exact hw

theorem upload?_copying (recorded : InsertOutcome) (n : Nat) (before : List UInt8) (frames : List Frame) :
    (Stage.copying request recorded n before frames).upload? = some n := by
  have h := copies_copying request recorded n before frames
  generalize Stage.copying request recorded n before frames = stage at h ⊢
  cases h <;> rfl

/-! ### One call of an upload -/

/-- What one call makes of stores: they stay backed, others are spared, and the task that called knows what it has
to at its next stage, at which its upload is the one it had or a new one. -/
structure Advances (real : Path) (request : UploadRequest) (own : Option Nat) (s t : Stores) (stage : Stage) :
    Prop where
  backed : Backed real t
  spares : Spares real own s.objects t.objects
  knows : Knows real request t.objects stage
  own : ∀ n, stage.upload? = some n → own = some n ∨ s.objects.opened ≤ n

theorem faulty_catalog {r : Catalog.Request} {reply : Except Catalog.StoreError r.Reply}
    (h : Faulty (.catalog r) s reply t) : t = { s with catalog := (s.catalog.answer r).2 } ∨ t = s := by
  cases h with
  | works done => exact .inl (congrArg Prod.snd done).symm
  | catalogFails e => exact .inr rfl

theorem faulty_objects {r : Objects.Request} {reply : Except ObjectError r.Reply}
    (h : Faulty (.objects r) s reply t) :
    ∃ next, t = { s with objects := next } ∧
      (s.objects.answer r = (reply, next) ∨ (∃ e, reply = .error e) ∧ Remains s.objects r next) := by
  cases h with
  | works done =>
    have hreply : (s.objects.answer r).1 = reply := congrArg Prod.fst done
    exact ⟨(s.objects.answer r).2, (congrArg Prod.snd done).symm, .inl (Prod.ext hreply rfl)⟩
  | objectsFail e left => exact ⟨_, rfl, .inr ⟨⟨e, rfl⟩, left⟩⟩

/-- A call to the catalog after which stores are backed, and at whose end the upload knows nothing. -/
theorem advances_catalog {own : Option Nat} {stage : Stage} {r : Catalog.Request}
    {reply : Except Catalog.StoreError r.Reply} (hs : Backed real s)
    (hnext : Backed real { s with catalog := (s.catalog.answer r).2 }) (h : Faulty (.catalog r) s reply t)
    (hbare : stage.IsBare) : Advances real request own s t stage := by
  rcases faulty_catalog h with rfl | rfl
  · exact ⟨hnext, .refl hs.orderly own, hbare.knows, hbare.own own _⟩
  · exact ⟨hs, .refl hs.orderly own, hbare.knows, hbare.own own _⟩

theorem advances_objects {own : Option Nat} {stage : Stage} (hs : Backed real s)
    (hspares : Spares real own s.objects next) (hsame : next.block? real = s.objects.block? real)
    (hknows : Knows real request next stage)
    (hown : ∀ n, stage.upload? = some n → own = some n ∨ s.objects.opened ≤ n) :
    Advances real request own s { s with objects := next } stage :=
  ⟨hs.withObjects hspares (by rw [hsame]; exact hs.honest), hspares, hknows, hown⟩

section Phases

variable {recorded : InsertOutcome} {n : Nat} {why : ServiceError}

theorem advances_rights {reply : (Phase.rights.call request now).Reply} (hs : Backed real s)
    (h : Faulty (Phase.rights.call request now) s reply t) :
    Advances real request none s t (Phase.rights.next request body now reply) := by
  refine advances_catalog hs (hs.answer_of_same rfl rfl) h ?_
  match reply with
  | .error _ | .ok true | .ok false => trivial

theorem advances_recording {reply : (Phase.recording.call request now).Reply} (hs : Backed real s)
    (h : Faulty (Phase.recording.call request now) s reply t) :
    Advances real request none s t (Phase.recording.next request body now reply) := by
  have hkept := chunks_putBlock s.catalog (rowOf request now)
  have hnext : Backed real { s with catalog := (s.catalog.answer (.putBlock (rowOf request now))).2 } :=
    hs.answer_of_same hkept.1 hkept.2
  refine advances_catalog hs hnext h ?_
  match reply with
  | .error _ | .ok .inserted | .ok .alreadyExists => trivial

theorem advances_looking {reply : (Phase.looking.call request now).Reply} (hs : Backed real s)
    (h : Faulty (Phase.looking.call request now) s reply t) :
    Advances real request none s t (Phase.looking.next request body now reply) := by
  refine advances_catalog hs (hs.answer_of_same rfl rfl) h ?_
  match reply with
  | .error _ | .ok none => trivial
  | .ok (some row) =>
    change (if row.size ≠ recordedSize request.size then _ else _ : Stage).IsBare
    split <;> trivial

theorem advances_removing {reply : ((Phase.removing why).call request now).Reply} (hs : Backed real s)
    (h : Faulty ((Phase.removing why).call request now) s reply t) :
    Advances real request none s t ((Phase.removing why).next request body now reply) := by
  have hkept := chunks_deleteBlock s.catalog request.blockHash.hex
  have hnext : Backed real { s with catalog := (s.catalog.answer (.deleteBlock request.blockHash.hex)).2 } :=
    hs.answer_of_same hkept.1 hkept.2
  exact advances_catalog hs hnext h trivial

theorem advances_linking {outcome : UploadOutcome} {reply : ((Phase.linking outcome).call request now).Reply}
    (hs : Backed real s) (hstored : (s.objects.block? real request.blockHash).isSome)
    (h : Faulty ((Phase.linking outcome).call request now) s reply t) :
    Advances real request none s t ((Phase.linking outcome).next request body now reply) := by
  obtain ⟨data, hdata⟩ := Option.isSome_iff_exists.mp hstored
  have hblock : Stored real s.objects (chunkOf request now).blockHash := ⟨request.blockHash, data, rfl, hdata⟩
  have hnext : Backed real
      { s with catalog := (s.catalog.answer (.registerChunk request.uploaderId (chunkOf request now))).2 } := by
    refine hs.answer _ (fun k hk => ?_) fun k hk => ?_
    · rcases Catalog.mem_chunks_registerChunk hk with hold | hold | rfl
      · exact .inl (.inl hold)
      · exact .inl (.inr hold)
      · exact .inr hblock
    · rcases Catalog.mem_staged_registerChunk hk with hold | rfl
      · exact .inl hold
      · exact .inr hblock
  refine advances_catalog hs hnext h ?_
  match reply with
  | .error _ | .ok _ => trivial

theorem advances_probing {reply : (Phase.probing.call request now).Reply} (hs : Backed real s)
    (h : Faulty (Phase.probing.call request now) s reply t) :
    Advances real request none s t (Phase.probing.next request body now reply) := by
  obtain ⟨known, hcontains, htrue, _⟩ := answer_contains_block hs.orderly request.blockHash
  obtain ⟨next, rfl, hcall⟩ := faulty_objects h
  have hnext : next = s.objects ∧ (reply = .ok true → (s.objects.block? real request.blockHash).isSome) := by
    rcases hcall with hdone | ⟨⟨e, rfl⟩, hleft⟩
    · rw [hcontains] at hdone
      cases hdone
      exact ⟨rfl, htrue⟩
    · refine ⟨?_, nofun⟩
      cases hleft with
      | nothing => rfl
      | all => rw [hcontains]
  obtain ⟨rfl, hstored⟩ := hnext
  refine advances_objects hs (.refl hs.orderly none) rfl ?_ ?_
  · match reply with
    | .ok true => exact hstored rfl
    | .ok false | .error _ => trivial
  · match reply with
    | .ok true | .ok false | .error _ => nofun

theorem advances_opening {reply : ((Phase.opening recorded).call request now).Reply} (hs : Backed real s)
    (h : Faulty ((Phase.opening recorded).call request now) s reply t) :
    Advances real request none s t ((Phase.opening recorded).next request body now reply) := by
  obtain ⟨opened, hopen, hbesides, hwrites, hsame⟩ := answer_openUpload_block hs.orderly request.blockHash
  obtain ⟨next, rfl, hcall⟩ := faulty_objects h
  rcases hcall with hdone | ⟨⟨e, rfl⟩, hleft⟩
  · rw [hopen] at hdone
    cases hdone
    refine advances_objects hs (spares_of_opened hs.orderly hbesides hsame) hsame
      (knows_copying hwrites recorded body) ?_
    intro m hm
    cases (upload?_copying recorded s.objects.opened [] body).symm.trans hm
    exact .inr (Nat.le_refl _)
  · have hbare := isBare_failed recorded (.ofObjects e)
    cases hleft with
    | nothing => exact advances_objects hs (.refl hs.orderly none) rfl hbare.knows (hbare.own _ _)
    | all =>
      rw [hopen]
      exact advances_objects hs (spares_of_opened hs.orderly hbesides hsame) hsame hbare.knows (hbare.own _ _)

theorem advances_writing {before bytes : List UInt8} {rest : List Frame}
    {reply : ((Phase.writing recorded n before bytes rest).call request now).Reply} (hs : Backed real s)
    (hwrites : s.objects.Writes real n request.blockHash before)
    (h : Faulty ((Phase.writing recorded n before bytes rest).call request now) s reply t) :
    Advances real request (some n) s t ((Phase.writing recorded n before bytes rest).next request body now reply) := by
  have hwritten := fun data => answer_write_block hs.orderly hwrites data
  have hspares {next : ObjectStore} (hbesides : Besides real n s.objects next)
      (hsame : next.block? real = s.objects.block? real) : Spares real (some n) s.objects next :=
    spares_of_besides hbesides fun g hg => by rwa [hsame]
  obtain ⟨next, rfl, hcall⟩ := faulty_objects h
  rcases hcall with hdone | ⟨⟨e, rfl⟩, hleft⟩
  · obtain ⟨after, hwrite, hbesides, hmore, hsame⟩ := hwritten bytes
    rw [hwrite] at hdone
    cases hdone
    refine advances_objects hs (hspares hbesides hsame) hsame (knows_copying hmore recorded rest) fun m hm => ?_
    exact .inl ((upload?_copying recorded n (before ++ bytes) rest).symm.trans hm)
  · -- However much was written, the upload is still there to be dropped.
    have hown : ∀ m, (Stage.waits (.dropping recorded n (.ofObjects e))).upload? = some m →
        some n = some m ∨ s.objects.opened ≤ m := fun _ => .inl
    cases hleft with
    | nothing => exact advances_objects hs (.refl hs.orderly _) rfl ⟨before, hwrites⟩ hown
    | all =>
      obtain ⟨after, hwrite, hbesides, hmore, hsame⟩ := hwritten bytes
      rw [hwrite]
      exact advances_objects hs (hspares hbesides hsame) hsame ⟨_, hmore⟩ hown
    | @part _ data more =>
      obtain ⟨after, hwrite, hbesides, hmore, hsame⟩ := hwritten data
      rw [hwrite]
      exact advances_objects hs (hspares hbesides hsame) hsame ⟨_, hmore⟩ hown

theorem advances_dropping {reply : ((Phase.dropping recorded n why).call request now).Reply} (hs : Backed real s)
    {written : List UInt8} (hwrites : s.objects.Writes real n request.blockHash written)
    (h : Faulty ((Phase.dropping recorded n why).call request now) s reply t) :
    Advances real request (some n) s t ((Phase.dropping recorded n why).next request body now reply) := by
  obtain ⟨after, habort, hbesides, hsame⟩ := answer_abort_block hs.orderly hwrites
  have hspares : Spares real (some n) s.objects after := spares_of_besides hbesides fun g hg => by rwa [hsame]
  have hbare := isBare_failed recorded why
  obtain ⟨next, rfl, hcall⟩ := faulty_objects h
  have hnext : next = after ∨ next = s.objects := by
    rcases hcall with hdone | ⟨_, hleft⟩
    · rw [habort] at hdone
      exact .inl (congrArg Prod.snd hdone).symm
    · cases hleft with
      | nothing => exact .inr rfl
      | all => exact .inl (congrArg Prod.snd habort)
  rcases hnext with rfl | rfl
  · exact advances_objects hs hspares hsame hbare.knows (hbare.own _ _)
  · exact advances_objects hs (.refl hs.orderly _) rfl hbare.knows (hbare.own _ _)

theorem advances_finishing {data : List UInt8}
    {reply : ((Phase.finishing recorded n data).call request now).Reply} (hs : Backed real s)
    (hwrites : s.objects.Writes real n request.blockHash data) (hhash : BlockHash.compute data = request.blockHash)
    (h : Faulty ((Phase.finishing recorded n data).call request now) s reply t) :
    Advances real request (some n) s t ((Phase.finishing recorded n data).next request body now reply) := by
  obtain ⟨known, after, hfinish, hbesides, hcame⟩ := answer_finish_block hs.orderly hwrites
  obtain ⟨next, rfl, hcall⟩ := faulty_objects h
  have hhonest : ∀ g old, after.block? real g = some old → BlockHash.compute old = g := by
    intro g old hold
    rcases hcame with ⟨_, hobjects⟩ | ⟨_, _, hsame⟩
    · rw [hobjects] at hold
      split at hold
      · cases hold
        rw [hhash, ‹g = _›]
      · exact hs.honest g old hold
    · exact hs.honest g old (by rwa [hsame] at hold)
  have hstored : ∀ g, (s.objects.block? real g).isSome → (after.block? real g).isSome := by
    intro g hg
    rcases hcame with ⟨_, hobjects⟩ | ⟨_, _, hsame⟩
    · rw [hobjects]
      split
      · rfl
      · exact hg
    · rwa [hsame]
  have hfinished := hs.withObjects (spares_of_besides hbesides hstored) hhonest
  rcases hcall with hdone | ⟨⟨e, rfl⟩, hleft⟩
  · rw [hfinish] at hdone
    cases hdone
    rcases hcame with ⟨rfl, hobjects⟩ | ⟨⟨e, rfl⟩, _, _⟩
    · refine ⟨hfinished, spares_of_besides hbesides hstored, ?_, nofun⟩
      change (ObjectStore.block? real _ request.blockHash).isSome
      rw [hobjects, if_pos rfl]
      rfl
    · have hbare := isBare_failed recorded (.ofObjects e)
      exact ⟨hfinished, spares_of_besides hbesides hstored, hbare.knows, hbare.own _ _⟩
  · have hbare := isBare_failed recorded (.ofObjects e)
    cases hleft with
    | nothing => exact advances_objects hs (.refl hs.orderly _) rfl hbare.knows (hbare.own _ _)
    | all =>
      rw [hfinish]
      exact ⟨hfinished, spares_of_besides hbesides hstored, hbare.knows, hbare.own _ _⟩
    | dropped =>
      obtain ⟨dropped, habort, hbesides, hsame⟩ := answer_abort_block hs.orderly hwrites
      rw [habort]
      exact advances_objects hs (spares_of_besides hbesides fun g hg => by rwa [hsame]) hsame hbare.knows
        (hbare.own _ _)

/-- **One call of an upload, whatever comes of it.** -/
theorem phase_step {p : Phase} {reply : (p.call request now).Reply} (hs : Backed real s)
    (hknows : Knows real request s.objects (.waits p)) (h : Faulty (p.call request now) s reply t) :
    Advances real request (Stage.waits p).upload? s t (p.next request body now reply) := by
  cases p with
  | rights => exact advances_rights hs h
  | recording => exact advances_recording hs h
  | looking => exact advances_looking hs h
  | probing => exact advances_probing hs h
  | opening recorded => exact advances_opening hs h
  | writing recorded n before bytes rest => exact advances_writing hs hknows h
  | finishing recorded n data => exact advances_finishing hs hknows.1 hknows.2 h
  | dropping recorded n why =>
    obtain ⟨written, hwrites⟩ := hknows
    exact advances_dropping hs hwrites h
  | removing why => exact advances_removing hs h
  | linking outcome => exact advances_linking hs hknows h

end Phases

/-! ### Uploads of many -/

/-- No two have the same upload under way once one of them goes on, with the upload that it had or with a new one. -/
theorem apart_update {ι : Type} [DecidableEq ι] {own : ι → Option Nat} {opened : Nat} {i : ι} {mine : Option Nat}
    (hapart : ∀ j k n, own j = some n → own k = some n → j = k) (hold : ∀ j n, own j = some n → n < opened)
    (hmine : ∀ n, mine = some n → own i = some n ∨ opened ≤ n) :
    ∀ j k n, Function.update own i mine j = some n → Function.update own i mine k = some n → j = k := by
  have hothers : ∀ j n, j ≠ i → own j = some n → mine ≠ some n := by
    intro j n hji hj hi
    rcases hmine n hi with hi | hle
    · exact hji (hapart j i n hj hi)
    · exact absurd (hold j n hj) (by omega)
  intro j k n hj hk
  by_cases hji : j = i <;> by_cases hki : k = i
  · rw [hji, hki]
  · rw [hji, Function.update_self] at hj
    rw [Function.update_of_ne hki] at hk
    exact absurd hj (hothers k n hki hk)
  · rw [hki, Function.update_self] at hk
    rw [Function.update_of_ne hji] at hj
    exact absurd hk (hothers j n hji hj)
  · rw [Function.update_of_ne hji] at hj
    rw [Function.update_of_ne hki] at hk
    exact hapart j k n hj hk

end Depot.Service
