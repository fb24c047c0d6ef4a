import Depot.Proofs.Service.Attempts
import Depot.Proofs.Service.Runs
import Depot.Service.Faults

/-!
# Stores that fail when they are told to

`FaultyStores` let the next calls of some kinds fail. What they answer is what faulty stores can, so whatever holds of
all runs over those holds of these.

- `FaultyStores.Strikes`: only failures of some kinds are still to come. No call adds to them (`Strikes.answer`).
- `Strikes.faulty`, `Strikes.fitful`: such stores are among the `Faulty` ones, if they do not answer what is not so, and
  among the `Fitful` ones, if they let nothing but commits fail.
- `Trial`: tasks that call such stores in turns. A trial is a crowd over faulty stores (`Trial.steps_play`), and so is a
  task that is run over them alone (`Trial.steps_run`).
-/

namespace Depot.Service

open Content Time Objects

/-! ### Failures to come -/

/-- The call that is to fail fails, rather than answer what is not so. -/
def FaultTarget.Fails (t : FaultTarget) : Prop := t ≠ .getBlockNone ∧ t ≠ .createCommitJunk

/-- An attempt at a commit is to fail. -/
def FaultTarget.FailsCommit (t : FaultTarget) : Prop := t = .createCommit ∨ t = .restoreCommit

namespace FaultyStores

variable {s next : FaultyStores} {t u : FaultTarget} {P : FaultTarget → Prop} {c : Call}

theorem lookup_others (pending : List (FaultTarget × Nat)) (hne : u ≠ t) :
    (pending.filter fun p => p.1 ≠ t).lookup u = pending.lookup u := by
  induction pending with
  | nil => rfl
  | cons p rest ih =>
    by_cases hp : p.1 = t
    · have hother : (u == p.1) = false := beq_eq_false_iff_ne.mpr (hp ▸ hne)
      rw [List.filter_cons_of_neg (by simpa using hp), ih, List.lookup_cons, hother]
    · rw [List.filter_cons_of_pos (by simpa using hp), List.lookup_cons, List.lookup_cons, ih]

theorem count_inject (s : FaultyStores) (t u : FaultTarget) (n : Nat) :
    (s.inject t n).count u = if u = t then n else s.count u := by
  by_cases hu : u = t
  · rw [if_pos hu, hu, count, inject, List.lookup_cons, beq_self_eq_true]
    rfl
  · rw [if_neg hu, count, inject, List.lookup_cons, beq_eq_false_iff_ne.mpr hu, lookup_others _ hu]
    rfl

/-- All failures still to come are of some kinds. -/
def Strikes (P : FaultTarget → Prop) (s : FaultyStores) : Prop := ∀ t, 0 < s.count t → P t

theorem strikes_nil (s : Stores) : Strikes P ⟨s, []⟩ := fun _ ht => absurd ht (Nat.lt_irrefl 0)

theorem Strikes.inject (h : s.Strikes P) (ht : P t) (n : Nat) : (s.inject t n).Strikes P := by
  intro u hu
  rw [count_inject] at hu
  split at hu
  · rwa [‹u = t›]
  · exact h u hu

theorem strike?_eq_some {kinds : List FaultTarget} (h : s.strike? kinds = some (t, next)) :
    t ∈ kinds ∧ 0 < s.count t ∧ next = s.inject t (s.count t - 1) := by
  induction kinds with
  | nil => cases h
  | cons first rest ih =>
    rw [strike?] at h
    split at h
    · cases h
      exact ⟨List.mem_cons_self, ‹_›, rfl⟩
    · obtain ⟨hmem, hcount⟩ := ih h
      exact ⟨List.mem_cons_of_mem _ hmem, hcount⟩

theorem answer_cases (c : Call) (s : FaultyStores) :
    s.answer c = ((s.stores.answer c).1, { s with stores := (s.stores.answer c).2 }) ∨
      ∃ t ∈ targets c, 0 < s.count t ∧
        s.answer c = (failedReply t c, { s.inject t (s.count t - 1) with stores := remains c s.stores }) := by
  rw [answer]
  cases hstrike : s.strike? (targets c) with
  | none => exact .inl rfl
  | some struck =>
    obtain ⟨t, next⟩ := struck
    obtain ⟨hmem, hcount, rfl⟩ := strike?_eq_some hstrike
    exact .inr ⟨t, hmem, hcount, rfl⟩

theorem Strikes.answer (h : s.Strikes P) (c : Call) : (s.answer c).2.Strikes P := by
  obtain hanswer | ⟨t, -, hcount, hanswer⟩ := answer_cases c s <;> rw [hanswer]
  · exact h
  · exact h.inject (h t hcount) _

/-! ### What can be answered -/

theorem failedReply_catalog (ht : t.Fails) (r : Catalog.Request) :
    failedReply t (.catalog r) = .error (catalogFault t) := by
  cases r with
  | getBlock blockHash => exact if_neg ht.1
  | createCommit draft => exact if_neg ht.2
  | _ => rfl

theorem remains_objects (s : Stores) (r : Request) :
    ∃ o, remains (.objects r) s = { s with objects := o } ∧ Remains s.objects r o := by
  cases r with
  | finish upload => exact ⟨_, rfl, .dropped⟩
  | abort upload => exact ⟨_, rfl, .all⟩
  | _ => exact ⟨s.objects, rfl, .nothing⟩

/-- **Stores that fail when they are told to are among the faulty ones.** -/
theorem Strikes.faulty (h : s.Strikes FaultTarget.Fails) (c : Call) :
    Faulty c s.stores (s.answer c).1 (s.answer c).2.stores := by
  obtain hanswer | ⟨t, -, hcount, hanswer⟩ := answer_cases c s <;> rw [hanswer]
  · exact .works rfl
  · cases c with
    | catalog r =>
      rw [failedReply_catalog (h t hcount)]
      exact .catalogFails _
    | objects r =>
      obtain ⟨o, hremains, hleft⟩ := remains_objects s.stores r
      rw [hremains]
      exact .objectsFail _ hleft

theorem call_of_createCommit (h : .createCommit ∈ targets c) : ∃ draft, c = .catalog (.createCommit draft) := by
  cases c with
  | catalog r =>
    cases r with
    | createCommit draft => exact ⟨draft, rfl⟩
    | _ => simp [targets] at h
  | objects r => cases r <;> simp [targets] at h

theorem call_of_restoreCommit (h : .restoreCommit ∈ targets c) :
    ∃ projectId target authorId comment createdAt,
      c = .catalog (.restoreCommit projectId target authorId comment createdAt) := by
  cases c with
  | catalog r =>
    cases r with
    | restoreCommit projectId target authorId comment createdAt => exact ⟨_, _, _, _, _, rfl⟩
    | _ => simp [targets] at h
  | objects r => cases r <;> simp [targets] at h

/-- **If only commits are to fail, they are among those whose attempts at a commit can.** -/
theorem Strikes.fitful (h : s.Strikes FaultTarget.FailsCommit) (c : Call) :
    Fitful c s.stores (s.answer c).1 (s.answer c).2.stores := by
  obtain hanswer | ⟨t, hmem, hcount, hanswer⟩ := answer_cases c s <;> rw [hanswer]
  · exact .works rfl
  · rcases h t hcount with rfl | rfl
    · obtain ⟨draft, rfl⟩ := call_of_createCommit hmem
      exact .commitFails _
    · obtain ⟨_, _, _, _, _, rfl⟩ := call_of_restoreCommit hmem
      exact .restoreFails _

end FaultyStores

/-! ### Tasks over such stores -/

variable {ι α : Type} {answers : Answers} {P : FaultTarget → Prop}

section Alone

variable (hanswer : ∀ (s : FaultyStores) c, s.Strikes P → answers c s.stores (s.answer c).1 (s.answer c).2.stores)
include hanswer

/-- **Running a task over stores that fail when they are told to is one way for it to run.** -/
theorem exists_runs_struck (task : CallTask α) {s : FaultyStores} (h : s.Strikes P) :
    ∃ calls, Runs answers task s.stores calls (Task.run FaultyStores.answer task s).1
      (Task.run FaultyStores.answer task s).2.stores := by
  induction task generalizing s with
  | done value => exact ⟨[], .done value s.stores⟩
  | call c resume ih =>
    obtain ⟨calls, hrest⟩ := ih (s.answer c).1 (h.answer c)
    exact ⟨c :: calls, .call (hanswer s c h) hrest⟩

theorem exists_logs_struck (others : Stores → Stores → Prop) (task : CallTask α) {s : FaultyStores} (h : s.Strikes P) :
    ∃ log, Logs others answers task s.stores log (Task.run FaultyStores.answer task s).1
      (Task.run FaultyStores.answer task s).2.stores := by
  induction task generalizing s with
  | done value => exact ⟨[], .done value s.stores⟩
  | call c resume ih =>
    obtain ⟨log, hrest⟩ := ih (s.answer c).1 (h.answer c)
    exact ⟨_, .call .refl (hanswer s c h) hrest⟩

end Alone

/-- **A commit of distinct valid paths by someone who may write makes one commit or none, however many of its attempts
are told to fail.** -/
theorem commitLogged_struck {s : FaultyStores} (h : s.Strikes FaultTarget.FailsCommit) {request : CommitRequest}
    (now : DateTime) (hvalid : ∀ change ∈ request.changes, validatePath change.path = .ok ())
    (hdistinct : (request.changes.map ProposedChange.path).Nodup)
    (hwrite : AccessLevel.write ≤ s.stores.catalog.projectAccess request.authorId request.projectId) :
    let (result, t) := Task.run FaultyStores.answer (commit request now).run s
    ∃ log, Logs Eq Fitful (commit request now).run s.stores log result t.stores ∧
      CommitLogged request now log result := by
  obtain ⟨log, hlog⟩ := exists_logs_struck (fun _ c h => h.fitful c) Eq (commit request now).run h
  refine ⟨log, hlog, logs_commit hvalid hdistinct (fun u hu => ?_) hlog⟩
  induction hu with
  | refl => exact hwrite
  | tail _ hsame ih => exact hsame ▸ ih

/-- Tasks that call stores which fail when they are told to. -/
structure Trial (ι α : Type) where
  stores : FaultyStores
  tasks : ι → CallTask α

namespace Trial

variable [DecidableEq ι] {x : Trial ι α} {i : ι} {c : Call}

/-- The same stores and tasks, whatever is to fail. -/
def crowd (x : Trial ι α) : Crowd ι α := ⟨x.stores.stores, x.tasks⟩

/-- One task has its next call answered, unless it has ended. -/
def turn (x : Trial ι α) (i : ι) : Trial ι α :=
  match x.tasks i with
  | .done _ => x
  | .call c resume => ⟨(x.stores.answer c).2, Function.update x.tasks i (resume (x.stores.answer c).1)⟩

/-- Tasks have their calls answered as it is their turn. -/
def play (x : Trial ι α) (turns : List ι) : Trial ι α := turns.foldl turn x

theorem turn_of_done {value : α} (h : x.tasks i = .done value) : x.turn i = x := by
  rw [turn, h]

theorem turn_of_call {resume : c.Reply → CallTask α} (h : x.tasks i = .call c resume) :
    x.turn i = ⟨(x.stores.answer c).2, Function.update x.tasks i (resume (x.stores.answer c).1)⟩ := by
  rw [turn, h]

/-- **What comes of any turns is what a crowd over faulty stores can come to.** -/
theorem steps_play (h : x.stores.Strikes FaultTarget.Fails) (turns : List ι) :
    Crowd.Steps Faulty x.crowd (x.play turns).crowd := by
  induction turns generalizing x with
  | nil => exact .refl
  | cons i rest ih =>
    rw [play, List.foldl_cons]
    cases htask : x.tasks i with
    | done value =>
      rw [turn_of_done htask]
      exact ih h
    | call c resume =>
      rw [turn_of_call htask]
      exact .head (.call htask (h.faulty c)) (ih (x := ⟨_, _⟩) (h.answer c))

theorem exists_play_run (x : Trial ι α) (i : ι) :
    ∃ n, x.play (List.replicate n i) = ⟨((x.tasks i).run FaultyStores.answer x.stores).2,
      Function.update x.tasks i (.done ((x.tasks i).run FaultyStores.answer x.stores).1)⟩ := by
  generalize htask : x.tasks i = task
  induction task generalizing x with
  | done value =>
    refine ⟨0, ?_⟩
    dsimp only [Task.run]
    rw [← htask, Function.update_eq_self]
    rfl
  | call c resume ih =>
    have hnext : (x.turn i).tasks i = resume (x.stores.answer c).1 := by
      rw [turn_of_call htask]
      exact Function.update_self i _ _
    obtain ⟨n, hn⟩ := ih (x.stores.answer c).1 (x.turn i) hnext
    refine ⟨n + 1, ?_⟩
    rw [List.replicate_succ, play, List.foldl_cons, ← play, hn, turn_of_call htask, Function.update_idem]
    rfl

/-- **Running one task to its end over stores that fail when they are told to is a way to run a crowd.** -/
theorem steps_run (h : x.stores.Strikes FaultTarget.Fails) (i : ι) :
    Crowd.Steps Faulty x.crowd ⟨((x.tasks i).run FaultyStores.answer x.stores).2.stores,
      Function.update x.tasks i (.done ((x.tasks i).run FaultyStores.answer x.stores).1)⟩ := by
  obtain ⟨n, hn⟩ := x.exists_play_run i
  have hsteps := steps_play h (List.replicate n i)
  rwa [hn] at hsteps

end Trial

end Depot.Service
