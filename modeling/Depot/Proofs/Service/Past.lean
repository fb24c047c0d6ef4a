import Depot.Proofs.Catalog.Past
import Depot.Proofs.Service.Commit
import Depot.Service.Snapshots

/-!
# Reading the past

Who may read a project is told the same of a commit at all times after it was made: its detail, its state, and
how it differs from another commit. Two runs of a reading operation are compared step by step (`SameReading`).
-/

namespace Depot.Service

open Content Time

variable {α β : Type} {s t : Stores} {user : String} {projectId : Int}

/-! ### Operations that read -/

/-- An operation ends the same on two pairs of stores, and leaves both. -/
structure SameReading (s t : Stores) (op : Op α) : Prop where
  value : (perform op t).1 = (perform op s).1
  left : (perform op s).2 = s
  right : (perform op t).2 = t

theorem sameReading_of_perform {op : Op α} {result : Except ServiceError α} (hs : perform op s = (result, s))
    (ht : perform op t = (result, t)) : SameReading s t op :=
  ⟨by rw [hs, ht], by rw [hs], by rw [ht]⟩

theorem SameReading.bind {op : Op α} {next : α → Op β} (h : SameReading s t op)
    (hnext : ∀ a, perform op s = (.ok a, s) → SameReading s t (next a)) : SameReading s t (op >>= next) := by
  have hs : perform op s = ((perform op s).1, s) := Prod.ext rfl h.left
  have ht : perform op t = ((perform op s).1, t) := Prod.ext h.value h.right
  cases hresult : (perform op s).1 with
  | ok a =>
    rw [hresult] at hs ht
    have hrest := hnext a hs
    refine ⟨?_, ?_, ?_⟩
    · rw [perform_bind_ok hs, perform_bind_ok ht, hrest.value]
    · rw [perform_bind_ok hs, hrest.left]
    · rw [perform_bind_ok ht, hrest.right]
  | error e =>
    rw [hresult] at hs ht
    have hs' : perform (op >>= next) s = (.error e, s) := by rw [perform_bind, hs]
    have ht' : perform (op >>= next) t = (.error e, t) := by rw [perform_bind, ht]
    exact sameReading_of_perform hs' ht'

theorem sameReading_pure (a : α) : SameReading s t (pure a) := sameReading_of_perform rfl rfl

theorem sameReading_lift {ε : Type} (fail : ε → ServiceError) (x : Except ε α) : SameReading s t (lift fail x) :=
  sameReading_of_perform (perform_lift fail x s) (perform_lift fail x t)

theorem sameReading_askCatalog {r : Catalog.Request} {reply : r.Reply}
    (hs : s.catalog.answer r = (.ok reply, s.catalog)) (ht : t.catalog.answer r = (.ok reply, t.catalog)) :
    SameReading s t (askCatalog r) :=
  sameReading_of_perform (perform_askCatalog_ok hs) (perform_askCatalog_ok ht)

theorem sameReading_requireAccess {required : AccessLevel} (hs : required ≤ s.catalog.projectAccess user projectId)
    (ht : required ≤ t.catalog.projectAccess user projectId) :
    SameReading s t (requireAccess user projectId required) :=
  sameReading_of_perform (perform_requireAccess_ok hs) (perform_requireAccess_ok ht)

theorem sameReading_filesOf (revisions : List Catalog.Revision) : SameReading s t (filesOf revisions) :=
  (sameReading_lift _ _).bind fun _ _ => sameReading_pure _

/-! ### Commits that are there -/

/-- A boundary other than the latest names a commit. -/
def Names (c : Catalog) (projectId : Int) (k : CommitSummary) : CommitBoundary → Prop
  | .latest => False
  | .id commitId => c.commit? projectId commitId = some k
  | .sequence number => c.commitBySequence? projectId number = some k

variable {boundary : CommitBoundary} {k : CommitSummary}

theorem Names.mem {c : Catalog} (h : Names c projectId k boundary) : k ∈ c.commits := by
  cases boundary with
  | latest => cases h
  | id commitId => exact List.mem_of_find?_eq_some h
  | sequence number => exact List.mem_of_find?_eq_some h

theorem Names.commitId_le {c : Catalog} (h : Names c projectId k boundary) (hsound : Catalog.HistorySound c) :
    k.commitId ≤ c.commits.length := by
  have := (hsound.commitIds.mem_iff.mp (List.mem_map_of_mem h.mem)).2
  simpa using this

theorem perform_resolveBoundary (h : Names s.catalog projectId k boundary) :
    perform (resolveBoundary projectId boundary) s = (.ok k, s) := by
  cases boundary with
  | latest => cases h
  | id commitId =>
    have hanswer : s.catalog.answer (.getCommit projectId commitId) = (.ok (some k), s.catalog) :=
      congrArg (fun found => (Except.ok found, s.catalog)) h
    rw [resolveBoundary, perform_bind_ok (perform_askCatalog_ok hanswer)]
    rfl
  | sequence number =>
    have hanswer : s.catalog.answer (.getCommitBySequence projectId number) = (.ok (some k), s.catalog) :=
      congrArg (fun found => (Except.ok found, s.catalog)) h
    rw [resolveBoundary, perform_bind_ok (perform_askCatalog_ok hanswer)]
    rfl

theorem Names.later {c d : Catalog} (h : Names c projectId k boundary) (hlater : Catalog.Later c d) :
    Names d projectId k boundary := by
  cases boundary with
  | latest => cases h
  | id commitId => exact hlater.commit?_eq h
  | sequence number => exact hlater.commitBySequence?_eq h

section Later

variable (hsound : Catalog.HistorySound s.catalog) (hlater : Catalog.Later s.catalog t.catalog)
include hsound hlater

theorem sameReading_resolveState (hnames : Names s.catalog projectId k boundary) :
    SameReading s t (resolveState projectId boundary) := by
  have hboundary := perform_resolveBoundary hnames
  apply (sameReading_of_perform hboundary (perform_resolveBoundary (hnames.later hlater))).bind
  intro commit hcommit
  rw [hboundary] at hcommit
  cases hcommit
  have hstate := Catalog.stateAt_congr (hlater.within_eq projectId (hnames.commitId_le hsound))
  have hanswer : t.catalog.answer (.stateAt projectId k.commitId) =
      (.ok (s.catalog.stateAt projectId k.commitId), t.catalog) :=
    congrArg (fun rows => (Except.ok rows, t.catalog)) hstate
  exact (sameReading_askCatalog rfl hanswer).bind fun revisions _ =>
    (sameReading_filesOf revisions).bind fun _ _ => sameReading_pure _

theorem sameReading_stateAt (hnames : Names s.catalog projectId k boundary)
    (hs : AccessLevel.read ≤ s.catalog.projectAccess user projectId)
    (ht : AccessLevel.read ≤ t.catalog.projectAccess user projectId) :
    SameReading s t (stateAt user projectId boundary) :=
  (sameReading_requireAccess hs ht).bind fun _ _ => sameReading_resolveState hsound hlater hnames

theorem sameReading_diff {new : CommitBoundary} {k' : CommitSummary} (hold : Names s.catalog projectId k boundary)
    (hnew : Names s.catalog projectId k' new) (hs : AccessLevel.read ≤ s.catalog.projectAccess user projectId)
    (ht : AccessLevel.read ≤ t.catalog.projectAccess user projectId) :
    SameReading s t (diff user projectId boundary new) :=
  (sameReading_requireAccess hs ht).bind fun _ _ => (sameReading_resolveState hsound hlater hold).bind fun _ _ =>
    (sameReading_resolveState hsound hlater hnew).bind fun _ _ => sameReading_pure _

theorem sameReading_commitDetail {commitId : Int} (hfound : s.catalog.commit? projectId commitId = some k)
    (hs : AccessLevel.read ≤ s.catalog.projectAccess user projectId)
    (ht : AccessLevel.read ≤ t.catalog.projectAccess user projectId) :
    SameReading s t (commitDetail user projectId commitId) := by
  refine (sameReading_requireAccess hs ht).bind fun _ _ => ?_
  have hcommit : s.catalog.answer (.getCommit projectId commitId) = (.ok (some k), s.catalog) :=
    congrArg (fun found => (Except.ok found, s.catalog)) hfound
  have hcommit' : t.catalog.answer (.getCommit projectId commitId) = (.ok (some k), t.catalog) :=
    congrArg (fun found => (Except.ok found, t.catalog)) (hlater.commit?_eq hfound)
  apply (sameReading_askCatalog hcommit hcommit').bind
  intro found hfound'
  rw [perform_askCatalog_ok hcommit] at hfound'
  cases hfound'
  have hpast : commitId ≤ s.catalog.commits.length := by
    have hnames : Names s.catalog projectId k (.id commitId) := hfound
    have := hnames.commitId_le hsound
    rwa [(Catalog.commit?_eq_some hfound).2] at this
  have hanswer : t.catalog.answer (.listCommitRevisions commitId) =
      (.ok (s.catalog.commitRevisions commitId), t.catalog) :=
    congrArg (fun rows => (Except.ok rows, t.catalog)) (hlater.commitRevisions_eq hpast)
  exact (sameReading_askCatalog rfl hanswer).bind fun revisions _ =>
    (sameReading_filesOf revisions).bind fun _ _ => sameReading_pure _

end Later

/-- **No request touches the past of a catalog that requests have made, or a project that it does not write to.
So at all later times complete files have the same chunks, and who may read a project is told the same of
commits that were there: their details, their states, and how they differ.** -/
theorem reachable_past_stays (requests : List Catalog.Request) :
    let c := Catalog.empty.after requests
    (∀ r : Catalog.Request, Catalog.SamePast c (c.answer r).2 ∧
        ∀ projectId, r.logOf? c ≠ some projectId → Catalog.SameProject projectId c (c.answer r).2) ∧
      ∀ later : List Catalog.Request,
        let d := c.after later
        Catalog.SamePast c d ∧
          (∀ fileHash n, c.completeCount? fileHash = some n →
            d.completeCount? fileHash = some n ∧ d.listChunks fileHash = c.listChunks fileHash) ∧
          ∀ (user : String) (projectId : Int) (objects objects' : Objects.ObjectStore),
            AccessLevel.read ≤ c.projectAccess user projectId → AccessLevel.read ≤ d.projectAccess user projectId →
            (∀ commitId k, c.commit? projectId commitId = some k →
              (perform (commitDetail user projectId commitId) ⟨d, objects'⟩).1 =
                (perform (commitDetail user projectId commitId) ⟨c, objects⟩).1) ∧
            (∀ boundary k, Names c projectId k boundary →
              (perform (stateAt user projectId boundary) ⟨d, objects'⟩).1 =
                (perform (stateAt user projectId boundary) ⟨c, objects⟩).1) ∧
            ∀ old new k k', Names c projectId k old → Names c projectId k' new →
              (perform (diff user projectId old new) ⟨d, objects'⟩).1 =
                (perform (diff user projectId old new) ⟨c, objects⟩).1 := by
  intro c
  have h : Catalog.HistorySound c := Catalog.historySound_after requests
  refine ⟨fun r => ⟨?_, fun projectId => Catalog.sameProject_answer⟩, fun later => ?_⟩
  · exact h.samePast (Catalog.later_step (Catalog.answer_step c r))
  have hlater := Catalog.later_after c later
  refine ⟨h.samePast hlater, fun fileHash n hcomplete => ⟨Catalog.completeCount?_after hcomplete later, ?_⟩, ?_⟩
  · exact Catalog.listChunks_after later (Catalog.listChunks_ne_nil_of_completeCount? hcomplete)
  · intro user projectId objects objects' hread hread'
    refine ⟨fun commitId k hfound => ?_, fun boundary k hnames => ?_, fun old new k k' hold hnew => ?_⟩
    · exact (sameReading_commitDetail (t := ⟨_, objects'⟩) (s := ⟨c, objects⟩) h hlater hfound hread hread').value
    · exact (sameReading_stateAt (t := ⟨_, objects'⟩) (s := ⟨c, objects⟩) h hlater hnames hread hread').value
    · exact (sameReading_diff (t := ⟨_, objects'⟩) (s := ⟨c, objects⟩) h hlater hold hnew hread hread').value

end Depot.Service
