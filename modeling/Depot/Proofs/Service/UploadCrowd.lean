import Depot.Proofs.Service.StoredContent

/-!
# Uploads at once

Calls to healthy stores have one reply each, so an interleaving of uploads is the list of those whose turn it is.

- `Delivery`: what is to be uploaded; `Delivery.left`, `Delivery.leads`: what one call of it leaves, and where it
  leads.
- `Uploads`: stores, and how far the uploads are that call them. `Uploads.play` gives turns.
- `exists_play`, `Mirrors.play`: crowds of uploads and turns are the same.
- `Crew`: the stores are in order, and no two uploads are written to the same object.
-/

namespace Depot.Service

open Content Time Objects

/-- What is to be uploaded. -/
structure Delivery where
  request : UploadRequest
  body : List Frame
  now : DateTime

namespace Delivery

def upload (d : Delivery) (settings : Settings) : Op UploadOutcome := uploadChunk settings d.request d.body d.now

/-- The stores after the call of a phase. -/
def left (d : Delivery) (s : Stores) (p : Phase) : Stores := (s.answer (p.call d.request d.now)).2

/-- The stage after the call of a phase. -/
def leads (d : Delivery) (s : Stores) (p : Phase) : Stage :=
  p.next d.request d.body d.now (s.answer (p.call d.request d.now)).1

/-- What can come of some stores and a stage in any number of calls of one upload. -/
abbrev Goes (d : Delivery) : Stores × Stage → Stores × Stage → Prop :=
  Relation.ReflTransGen fun x y => ∃ p, x.2 = .waits p ∧ y = (d.left x.1 p, d.leads x.1 p)

end Delivery

/-- Stores, and how far the uploads are that call them. -/
structure Uploads (ι : Type) where
  stores : Stores
  stages : ι → Stage

variable {ι : Type} {real : Path} {settings : Settings} {jobs : ι → Delivery} {s : Stores}
  {x : Uploads ι} {i : ι} {p : Phase}

namespace Uploads

/-- Uploads that have yet to begin. -/
def start (settings : Settings) (jobs : ι → Delivery) (s : Stores) : Uploads ι :=
  ⟨s, fun i => .start (jobs i).request settings⟩

/-- One upload makes a call, unless it has ended. -/
def turn [DecidableEq ι] (jobs : ι → Delivery) (x : Uploads ι) (i : ι) : Uploads ι :=
  match x.stages i with
  | .waits p => ⟨(jobs i).left x.stores p, Function.update x.stages i ((jobs i).leads x.stores p)⟩
  | .ended _ => x

/-- Uploads make calls as it is their turn. -/
def play [DecidableEq ι] (jobs : ι → Delivery) (x : Uploads ι) (turns : List ι) : Uploads ι := turns.foldl (turn jobs) x

section Turns

variable [DecidableEq ι]

theorem turn_eq (hwaits : x.stages i = .waits p) :
    x.turn jobs i = ⟨(jobs i).left x.stores p, Function.update x.stages i ((jobs i).leads x.stores p)⟩ := by
  rw [turn, hwaits]

theorem play_append (jobs : ι → Delivery) (x : Uploads ι) (first rest : List ι) :
    x.play jobs (first ++ rest) = (x.play jobs first).play jobs rest :=
  List.foldl_append

theorem play_induction {P : Uploads ι → Prop}
    (hcall : ∀ (x : Uploads ι) i p, x.stages i = .waits p → P x →
      P ⟨(jobs i).left x.stores p, Function.update x.stages i ((jobs i).leads x.stores p)⟩)
    (hx : P x) (turns : List ι) : P (x.play jobs turns) := by
  induction turns generalizing x with
  | nil => exact hx
  | cons i rest ih =>
    refine ih ?_
    cases hstage : x.stages i with
    | waits p =>
      rw [turn_eq hstage]
      exact hcall x i p hstage hx
    | ended result =>
      rw [turn, hstage]
      exact hx

/-- What turns can make of uploads. -/
def Reaches (jobs : ι → Delivery) (x y : Uploads ι) : Prop := ∃ turns, x.play jobs turns = y

theorem Reaches.trans {y z : Uploads ι} (h : Reaches jobs x y) (hnext : Reaches jobs y z) : Reaches jobs x z := by
  obtain ⟨first, rfl⟩ := h
  obtain ⟨rest, rfl⟩ := hnext
  exact ⟨first ++ rest, play_append jobs x first rest⟩

theorem reaches_call (hwaits : x.stages i = .waits p) :
    Reaches jobs x ⟨(jobs i).left x.stores p, Function.update x.stages i ((jobs i).leads x.stores p)⟩ :=
  ⟨[i], turn_eq hwaits⟩

theorem reaches_of_goes {t : Stores} {stage : Stage} (h : (jobs i).Goes (x.stores, x.stages i) (t, stage)) :
    Reaches jobs x ⟨t, Function.update x.stages i stage⟩ := by
  generalize hlast : (t, stage) = y at h
  induction h generalizing t stage with
  | refl =>
    cases hlast
    exact ⟨[], by rw [Function.update_eq_self]; rfl⟩
  | tail _ hcall ih =>
    obtain ⟨p, hwaits, rfl⟩ := hcall
    cases hlast
    have hnext := (ih rfl).trans (reaches_call (i := i) ((Function.update_self i _ _).trans hwaits))
    rwa [Function.update_idem] at hnext

end Turns

end Uploads

/-! ### Crowds of uploads -/

/-- A crowd of uploads that have yet to begin. -/
def uploadsOf (settings : Settings) (jobs : ι → Delivery) (s : Stores) : Crowd ι (Except ServiceError UploadOutcome) :=
  ⟨s, fun i => ((jobs i).upload settings).run⟩

/-- The tasks of a crowd are the uploads at their stages. -/
structure Mirrors (jobs : ι → Delivery) (x : Uploads ι) (w : Crowd ι (Except ServiceError UploadOutcome)) : Prop where
  stores : w.stores = x.stores
  tasks : ∀ i, Follows (jobs i).request (jobs i).body (jobs i).now id (x.stages i) (w.tasks i)

theorem mirrors_start (settings : Settings) (jobs : ι → Delivery) (s : Stores) :
    Mirrors jobs (.start settings jobs s) (uploadsOf settings jobs s) :=
  ⟨rfl, fun i => follows_uploadChunk settings (jobs i).request (jobs i).body (jobs i).now⟩

variable {w v : Crowd ι (Except ServiceError UploadOutcome)}

theorem Mirrors.ended (h : Mirrors jobs x w) {result : Except ServiceError UploadOutcome}
    (hdone : w.tasks i = .done result) : x.stages i = .ended result := by
  have hfollows := h.tasks i
  rw [hdone] at hfollows
  generalize x.stages i = stage at hfollows ⊢
  cases hfollows with
  | ended _ => rfl

theorem Mirrors.done (h : Mirrors jobs x w) {result : Except ServiceError UploadOutcome}
    (hended : x.stages i = .ended result) : w.tasks i = .done result := by
  have hfollows := h.tasks i
  rw [hended] at hfollows
  generalize w.tasks i = task at hfollows ⊢
  cases hfollows with
  | ended _ => rfl

section Turns

variable [DecidableEq ι]

theorem Mirrors.update (h : Mirrors jobs x w) {resume : (p.call (jobs i).request (jobs i).now).Reply → CallTask _}
    (goesOn : ∀ reply, Follows (jobs i).request (jobs i).body (jobs i).now id
      (p.next (jobs i).request (jobs i).body (jobs i).now reply) (resume reply)) :
    Mirrors jobs ⟨(jobs i).left x.stores p, Function.update x.stages i ((jobs i).leads x.stores p)⟩
      ⟨(jobs i).left x.stores p,
        Function.update w.tasks i (resume (x.stores.answer (p.call (jobs i).request (jobs i).now)).1)⟩ := by
  refine ⟨rfl, fun j => ?_⟩
  dsimp only
  by_cases hji : j = i
  · subst hji
    rw [Function.update_self, Function.update_self]
    exact goesOn _
  · rw [Function.update_of_ne hji, Function.update_of_ne hji]
    exact h.tasks j

theorem Mirrors.step (h : Mirrors jobs x w) (hstep : Crowd.Step Healthy w v) : ∃ i, Mirrors jobs (x.turn jobs i) v := by
  cases hstep with
  | @call i c resume reply next hwaits hanswered =>
    have hfollows := h.tasks i
    rw [hwaits] at hfollows
    generalize hstage : x.stages i = stage at hfollows
    cases hfollows with
    | @waits p _ goesOn =>
      refine ⟨i, ?_⟩
      have hanswer : x.stores.answer (p.call (jobs i).request (jobs i).now) = (reply, next) := h.stores ▸ hanswered
      have hmirrors := h.update goesOn
      rw [Delivery.left, hanswer] at hmirrors
      rw [Uploads.turn_eq hstage, Delivery.left, hanswer]
      exact hmirrors

theorem Mirrors.turn (h : Mirrors jobs x w) (i : ι) :
    ∃ v, Crowd.Steps Healthy w v ∧ Mirrors jobs (x.turn jobs i) v := by
  have hfollows := h.tasks i
  cases hstage : x.stages i with
  | ended result => exact ⟨w, .refl, by rwa [Uploads.turn, hstage]⟩
  | waits p =>
    rw [hstage] at hfollows
    generalize htask : w.tasks i = task at hfollows
    cases hfollows with
    | waits goesOn =>
      rw [Uploads.turn_eq hstage]
      refine ⟨_, .single (.call htask ?_), h.update goesOn⟩
      rw [Healthy, h.stores]
      rfl

theorem exists_play (h : Crowd.Steps Healthy (uploadsOf settings jobs s) w) :
    ∃ turns, Mirrors jobs ((Uploads.start settings jobs s).play jobs turns) w := by
  refine Crowd.steps_induction
    (P := fun w => ∃ turns, Mirrors jobs ((Uploads.start settings jobs s).play jobs turns) w) ?_
    ⟨[], mirrors_start settings jobs s⟩ h
  rintro w v hstep ⟨turns, hmirrors⟩
  obtain ⟨i, hturn⟩ := hmirrors.step hstep
  exact ⟨turns ++ [i], by rwa [Uploads.play_append]⟩

theorem Mirrors.play (h : Mirrors jobs x w) (turns : List ι) :
    ∃ v, Crowd.Steps Healthy w v ∧ Mirrors jobs (x.play jobs turns) v := by
  induction turns generalizing x w with
  | nil => exact ⟨w, .refl, h⟩
  | cons i rest ih =>
    obtain ⟨u, hfirst, hturn⟩ := h.turn i
    obtain ⟨v, hrest, hmirrors⟩ := ih hturn
    exact ⟨v, hfirst.trans hrest, hmirrors⟩

end Turns

/-! ### Where calls lead when stores are healthy -/

section Healthy

variable {d : Delivery}

theorem leads_rights (h : s.catalog.canUpload d.request.uploaderId) : d.leads s .rights = .waits .recording := by
  have hreply : d.leads s .rights =
      Phase.rights.next d.request d.body d.now (.ok (s.catalog.canUpload d.request.uploaderId)) := rfl
  rw [hreply, h]
  rfl

theorem leads_rights_refused (h : s.catalog.canUpload d.request.uploaderId = false) :
    ∃ e, d.leads s .rights = .ended (.error e) := by
  have hreply : d.leads s .rights =
      Phase.rights.next d.request d.body d.now (.ok (s.catalog.canUpload d.request.uploaderId)) := rfl
  rw [hreply, h]
  exact ⟨_, rfl⟩

theorem leads_recording_new (h : s.catalog.block? d.request.blockHash.hex = none) :
    d.leads s .recording = .waits (.opening .inserted) := by
  have hreply : d.leads s .recording =
      Phase.recording.next d.request d.body d.now (.ok (s.catalog.putBlock (rowOf d.request d.now)).1) := rfl
  rw [hreply, putBlock_new h]
  rfl

theorem leads_recording_known (h : (s.catalog.block? d.request.blockHash.hex).isSome) :
    d.leads s .recording = .waits .looking := by
  have hreply : d.leads s .recording =
      Phase.recording.next d.request d.body d.now (.ok (s.catalog.putBlock (rowOf d.request d.now)).1) := rfl
  rw [hreply, putBlock_known h]
  rfl

theorem left_recording_new (hnew : s.catalog.block? d.request.blockHash.hex = none) :
    d.left s .recording = { s with catalog := withBlock s.catalog d.request d.now } := by
  have hleft : d.left s .recording = { s with catalog := (s.catalog.putBlock (rowOf d.request d.now)).2 } := rfl
  rw [hleft, putBlock_new hnew]

theorem left_recording_known (hknown : (s.catalog.block? d.request.blockHash.hex).isSome) :
    d.left s .recording = s := by
  have hleft : d.left s .recording = { s with catalog := (s.catalog.putBlock (rowOf d.request d.now)).2 } := rfl
  rw [hleft, putBlock_known hknown]

theorem leads_looking (s : Stores) : d.leads s .looking =
    match s.catalog.block? d.request.blockHash.hex with
    | some row =>
      if row.size ≠ recordedSize d.request.size then
        .ended (.error (.malformedRequest
          s!"declared size {d.request.size} does not match stored block size {row.size}"))
      else .waits .probing
    | none => .ended (.error (.internal s!"block {d.request.blockHash.hex} vanished")) := by
  have hreply : d.leads s .looking =
      Phase.looking.next d.request d.body d.now (.ok (s.catalog.block? d.request.blockHash.hex)) := rfl
  rw [hreply]
  cases s.catalog.block? d.request.blockHash.hex <;> rfl

theorem leads_probing (ho : s.objects.Orderly real) (hserves : s.objects.Serves) : d.leads s .probing =
    if (s.objects.block? real d.request.blockHash).isSome then .waits (.linking .duplicateAccepted)
    else .waits (.opening .alreadyExists) := by
  obtain ⟨reply, hanswer, _, hexact⟩ := answer_contains_block ho d.request.blockHash
  have hreply : d.leads s .probing =
      Phase.probing.next d.request d.body d.now (s.objects.answer (.contains d.request.blockHash.objectKey)).1 := rfl
  rw [hreply, hanswer, hexact hserves]
  cases (s.objects.block? real d.request.blockHash).isSome <;> rfl

theorem leads_opening (ho : s.objects.Orderly real) (recorded : InsertOutcome) :
    d.leads s (.opening recorded) = .copying d.request recorded s.objects.opened [] d.body := by
  obtain ⟨next, hanswer, _⟩ := answer_openUpload_block ho d.request.blockHash
  have hreply : d.leads s (.opening recorded) = (Phase.opening recorded).next d.request d.body d.now
      (s.objects.answer (.openUpload d.request.blockHash.objectKey)).1 := rfl
  rw [hreply, hanswer]
  rfl

theorem leads_writing {n : Nat} {before : List UInt8} (ho : s.objects.Orderly real)
    (hwrites : s.objects.Writes real n d.request.blockHash before) (recorded : InsertOutcome) (bytes : List UInt8)
    (rest : List Frame) :
    d.leads s (.writing recorded n before bytes rest) = .copying d.request recorded n (before ++ bytes) rest := by
  obtain ⟨next, hanswer, _⟩ := answer_write_block ho hwrites bytes
  have hreply : d.leads s (.writing recorded n before bytes rest) =
      (Phase.writing recorded n before bytes rest).next d.request d.body d.now
        (s.objects.answer (.write n bytes)).1 := rfl
  rw [hreply, hanswer]
  rfl

theorem leads_finishing {n : Nat} {data : List UInt8} (ho : s.objects.Orderly real) (hserves : s.objects.Serves)
    (hwrites : s.objects.Writes real n d.request.blockHash data) (recorded : InsertOutcome) :
    d.leads s (.finishing recorded n data) = .waits (.linking .uploaded) := by
  obtain ⟨reply, next, hanswer, _, ⟨rfl, _⟩ | ⟨_, hrefused, _⟩⟩ := answer_finish_block ho hwrites
  · have hreply : d.leads s (.finishing recorded n data) =
        (Phase.finishing recorded n data).next d.request d.body d.now (s.objects.answer (.finish n)).1 := rfl
    rw [hreply, hanswer]
    rfl
  · exact absurd hserves hrefused

theorem leads_linking {outcome : UploadOutcome} {reply : InsertOutcome}
    (h : (s.catalog.registerChunk d.request.uploaderId (chunkOf d.request d.now)).1 = .ok reply) :
    d.leads s (.linking outcome) = .ended (.ok outcome) := by
  have hreply : d.leads s (.linking outcome) = (Phase.linking outcome).next d.request d.body d.now
      (s.catalog.registerChunk d.request.uploaderId (chunkOf d.request d.now)).1 := rfl
  rw [hreply, h]
  rfl

end Healthy

/-! ### Uploads that keep apart -/

/-- The stores are in order and serve, and each upload is written to by itself alone. -/
structure Crew (real : Path) (jobs : ι → Delivery) (x : Uploads ι) : Prop where
  backed : Backed real x.stores
  serves : x.stores.objects.Serves
  knows : ∀ i, Knows real (jobs i).request x.stores.objects (x.stages i)
  apart : ∀ i j n, (x.stages i).upload? = some n → (x.stages j).upload? = some n → i = j

theorem crew_start (hs : Backed real s) (hserves : s.objects.Serves) (settings : Settings) (jobs : ι → Delivery) :
    Crew real jobs (.start settings jobs s) where
  backed := hs
  serves := hserves
  knows i := (isBare_start (jobs i).request settings).knows
  apart i _ _ hn _ := by cases (isBare_start (jobs i).request settings).upload?_eq.symm.trans hn

theorem serves_left (hserves : s.objects.Serves) (d : Delivery) (p : Phase) : (d.left s p).objects.Serves := by
  cases p with
  | rights | recording | looking | removing | linking => exact hserves
  | _ => exact serves_answer hserves _

theorem Crew.call [DecidableEq ι] (h : Crew real jobs x) (hwaits : x.stages i = .waits p) :
    Crew real jobs ⟨(jobs i).left x.stores p, Function.update x.stages i ((jobs i).leads x.stores p)⟩ := by
  have hknows : Knows real (jobs i).request x.stores.objects (.waits p) := hwaits ▸ h.knows i
  have hanswered : Faulty (p.call (jobs i).request (jobs i).now) x.stores
      (x.stores.answer (p.call (jobs i).request (jobs i).now)).1 ((jobs i).left x.stores p) := .works rfl
  have hnext : Advances real (jobs i).request (Stage.waits p).upload? x.stores ((jobs i).left x.stores p)
      ((jobs i).leads x.stores p) := phase_step h.backed hknows hanswered
  have hupload : ∀ j, (Function.update x.stages i ((jobs i).leads x.stores p) j).upload? =
      Function.update (fun j => (x.stages j).upload?) i ((jobs i).leads x.stores p).upload? j := fun j =>
    Function.apply_update (fun _ => Stage.upload?) x.stages i _ j
  refine ⟨hnext.backed, serves_left h.serves _ _, fun j => ?_, fun j k n hj hk => ?_⟩
  · by_cases hji : j = i
    · subst hji
      simpa using hnext.knows
    · simp only [Function.update_of_ne hji]
      exact (h.knows j).spared hnext.spares fun n hj hi => hji (h.apart j i n hj (hwaits ▸ hi))
  · rw [hupload] at hj hk
    refine apart_update (fun j k n => h.apart j k n) (fun j n hj => (h.knows j).lt_opened h.backed.orderly hj)
      (fun n hn => ?_) j k n hj hk
    rw [hwaits]
    exact hnext.own n hn

end Depot.Service
