import Depot.Proofs.Catalog.SameHistory
import Depot.Proofs.Service.Operation
import Depot.Proofs.Service.Runs

/-!
# Operations that say what they change

An operation makes one call after another, any of which can fail. None fails after a call that has changed history.

- `Candid`: an operation leaves history as it was, or succeeds with a value of some kind. `Candid.bind` puts such
  operations together.
- `candid_createProject`, `candid_commit`, `candid_restore`, `candid_uploadChunk`: the operations that change history.
  All others only read (`candid_of_reads`).
-/

namespace Depot.Service

open Catalog Content Time

variable {α β ε δ : Type} {c : Catalog} {s t : Stores} {P : α → Prop} {Q : β → Prop} {call : Call}

/-! ### Calls -/

/-- A reply after which history may have changed. -/
def Call.Changes : (call : Call) → call.Reply → Prop
  | .catalog r, reply => ∃ value, reply = .ok value ∧ r.Changes value
  | .objects _, _ => False

theorem faulty_cases {reply : call.Reply} (h : Faulty call s reply t) :
    SameHistory s.catalog t.catalog ∨ call.Changes reply := by
  cases h with
  | works done =>
    cases call with
    | catalog r =>
      cases done
      exact answer_cases s.catalog r
    | objects r =>
      cases done
      exact .inl (.refl _)
  | catalogFails e => exact .inl (.refl _)
  | objectsFail e left => exact .inl (.refl _)

theorem Call.IsRead.unchanging (h : call.IsRead) (reply : call.Reply) : ¬call.Changes reply := by
  cases call with
  | objects r => exact id
  | catalog r =>
    rintro ⟨value, _, hchanges⟩
    cases r <;> first | exact hchanges | cases h

/-! ### Operations -/

/-- In whatever ways its calls are answered, an operation leaves the history of a catalog as it was, or succeeds with a
value of some kind. -/
structure Candid (c : Catalog) (P : α → Prop) (op : ExceptT ε CallTask α) : Prop where
  ensures : ∀ s, SameHistory c s.catalog →
    Ensures Faulty (fun result t => SameHistory c t.catalog ∨ ∃ a, result = .ok a ∧ P a) op.run s

theorem candid_pure (a : α) : Candid c P (pure a : ExceptT ε CallTask α) := ⟨fun _ hs => .inl hs⟩

theorem candid_throw (e : ε) : Candid c P (throw e : ExceptT ε CallTask α) := ⟨fun _ hs => .inl hs⟩

theorem Candid.mono {R : α → Prop} {op : ExceptT ε CallTask α} (h : Candid c P op) (hmore : ∀ a, P a → R a) :
    Candid c R op :=
  ⟨fun s hs => (h.ensures s hs).mono fun _ _ => Or.imp id fun ⟨a, ha, hP⟩ => ⟨a, ha, hmore a hP⟩⟩

/-- An operation goes on after a candid one. Where that one has changed something, nothing is left to do but to say
so. -/
theorem Candid.bind {op : ExceptT ε CallTask α} {next : α → ExceptT ε CallTask β} (h : Candid c P op)
    (hnext : ∀ a, Candid c Q (next a)) (hchanged : ∀ a, P a → ∃ b, next a = pure b ∧ Q b) :
    Candid c Q (op >>= next) := by
  refine ⟨fun s hs => ?_⟩
  rw [ExceptT.run_bind]
  refine (h.ensures s hs).bind fun result t hresult => ?_
  rcases hresult with hsame | ⟨a, rfl, hP⟩
  · cases result with
    | ok a => exact (hnext a).ensures t hsame
    | error e => exact .inl hsame
  · obtain ⟨b, hb, hQ⟩ := hchanged a hP
    dsimp only
    rw [hb]
    exact .inr ⟨b, rfl, hQ⟩

theorem Candid.andThen {op : ExceptT ε CallTask α} {next : α → ExceptT ε CallTask β} (h : Candid c (fun _ => False) op)
    (hnext : ∀ a, Candid c Q (next a)) : Candid c Q (op >>= next) :=
  h.bind hnext fun _ => False.elim

theorem Candid.map {op : ExceptT ε CallTask α} {f : α → β} (h : Candid c P op) (hf : ∀ a, P a → Q (f a)) :
    Candid c Q (op >>= fun a => pure (f a)) :=
  h.bind (fun a => candid_pure (f a)) fun a hP => ⟨f a, rfl, hf a hP⟩

theorem candid_check {p : Prop} [Decidable p] {e : ε} {op : ExceptT ε CallTask α} (h : Candid c P op) :
    Candid c P (if p then (throw e : ExceptT ε CallTask PUnit) >>= fun _ => op else op) := by
  split
  · exact (candid_throw e).andThen fun _ => h
  · exact h

theorem candid_call {resume : call.Reply → CallTask (Except ε α)} {op : ExceptT ε CallTask α}
    (hrun : op.run = .call call resume)
    (hreply : ∀ reply, (∃ result, resume reply = .done result) ∧
      (call.Changes reply → ∃ a, resume reply = .done (.ok a) ∧ P a)) : Candid c P op := by
  refine ⟨fun s hs => ?_⟩
  rw [hrun]
  intro reply t hanswered
  obtain ⟨⟨result, hdone⟩, hchanged⟩ := hreply reply
  rcases faulty_cases hanswered with hsame | hchanges
  · rw [hdone]
    exact .inl (hs.trans hsame)
  · obtain ⟨a, ha, hP⟩ := hchanged hchanges
    rw [ha]
    exact .inr ⟨a, rfl, hP⟩

theorem candid_askCatalog (r : Catalog.Request) : Candid c r.Changes (askCatalog r) := by
  refine candid_call rfl fun reply => ?_
  cases reply with
  | ok value => exact ⟨⟨_, rfl⟩, fun ⟨_, heq, hchanges⟩ => ⟨value, rfl, by cases heq; exact hchanges⟩⟩
  | error e => exact ⟨⟨_, rfl⟩, nofun⟩

theorem candid_of_only {op : ExceptT ε CallTask α} (h : Only (fun call => ∀ reply, ¬call.Changes reply) op.run) :
    Candid c P op := by
  refine ⟨fun s hs => ?_⟩
  refine (h.ensures (I := fun t => SameHistory c t.catalog) (fun call s reply t hidle hanswered hs => ?_) hs).mono
    fun _ _ => .inl
  exact hs.trans ((faulty_cases hanswered).resolve_right (hidle reply))

theorem candid_of_reads {op : Op α} (h : Makes Call.IsRead op) : Candid c P op :=
  candid_of_only (h.only.mono fun _ hread => hread.unchanging)

theorem candid_persist (r : Nat → Catalog.Request) (number more : Nat) :
    Candid c (fun answered => (r answered.1).Changes answered.2) (persist r number more) := by
  induction more generalizing number with
  | zero => exact (candid_askCatalog (r number)).map fun _ => id
  | succ more ih =>
    refine ⟨fun s hs reply t hanswered => ?_⟩
    rcases faulty_cases hanswered with hsame | ⟨value, rfl, hchanges⟩
    · match reply with
      | .ok value => exact .inl (hs.trans hsame)
      | .error (.alreadyExists _) => exact (ih (number + 1)).ensures t (hs.trans hsame)
      | .error (.notFound _) | .error (.database _) | .error (.config _) | .error (.constraint _)
      | .error (.internal _) => exact .inl (hs.trans hsame)
    · exact .inr ⟨⟨number, value⟩, rfl, hchanges⟩

/-! ### The operations that change history -/

theorem candid_createProject (creator teamId title : String) (now : DateTime) :
    Candid c (fun _ => True) (createProject creator teamId title now) := by
  unfold createProject
  exact candid_check (candid_check ((candid_of_reads (makes_query fun _ => id)).andThen fun level =>
    candid_check ((candid_askCatalog (.createProject _ _ _ _)).mono fun _ _ => trivial)))

theorem candid_commit (request : CommitRequest) (now : DateTime) :
    Candid c (fun outcome => ∃ commitId sequence, outcome = .committed commitId sequence) (commit request now) := by
  refine (candid_of_reads (makes_requireAccess (fun _ => id) _ _ _)).andThen fun _ =>
    (candid_of_reads (makes_lift _ _)).andThen fun _ => (candid_persist _ _ _).bind (fun ⟨_, write⟩ => ?_) ?_
  · cases write with
    | committed commit => exact candid_pure _
    | missingContent hashes => exact (candid_of_reads (makes_lift _ _)).andThen fun missing => candid_pure _
  · rintro ⟨_, _⟩ ⟨commit, rfl⟩
    exact ⟨_, rfl, commit.commitId, commit.sequenceNumber, rfl⟩

theorem candid_restore (userId : String) (projectId commitId : Int) (clock : Clock) :
    Candid c (fun _ => True) (restore userId projectId commitId clock) :=
  (candid_of_reads (makes_requireAccess (fun _ => id) _ _ _)).andThen fun _ =>
    (candid_of_reads (makes_resolveBoundary (fun _ => id) _ _)).andThen fun _ =>
      (candid_persist _ _ _).map fun _ _ => trivial

theorem candid_follows {request : UploadRequest} {body : List Frame} {now : DateTime} {stage : Stage}
    {task : CallTask (Except ServiceError UploadOutcome)} (h : Follows request body now id stage task)
    (hs : SameHistory c s.catalog) :
    Ensures Faulty (fun result t => SameHistory c t.catalog ∨ ∃ outcome, result = .ok outcome ∧ True) task s := by
  induction h generalizing s with
  | ended result => exact .inl hs
  | @waits p resume goesOn ih =>
    intro reply t hanswered
    rcases faulty_cases hanswered with hsame | hchanges
    · exact ih reply (hs.trans hsame)
    · cases p with
      | linking outcome =>
        obtain ⟨value, rfl, _⟩ := hchanges
        have hended : Follows request body now id (.ended (.ok outcome)) (resume (.ok value)) := goesOn (.ok value)
        generalize resume (.ok value) = rest at hended ⊢
        cases hended with
        | ended result => exact .inr ⟨outcome, rfl, trivial⟩
      | rights | recording | looking | removing =>
        obtain ⟨_, _, hnone⟩ := hchanges
        exact hnone.elim
      | _ => exact hchanges.elim

theorem candid_uploadChunk (settings : Settings) (request : UploadRequest) (body : List Frame) (now : DateTime) :
    Candid c (fun _ => True) (uploadChunk settings request body now) :=
  ⟨fun _ hs => candid_follows (follows_uploadChunk settings request body now) hs⟩

end Depot.Service
