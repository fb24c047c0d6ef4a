import Depot.Proofs.Catalog.Paths
import Depot.Proofs.NormalPath
import Depot.Proofs.Service.CrowdContent
import Depot.Proofs.Service.Download
import Depot.Proofs.Service.Provenance
import Depot.Proofs.Service.State

/-!
# Paths that projects hold

Only a commit brings paths into a catalog, and it looks at all of them before it calls the catalog at all
(`makes_commit_accepted`). So however operations are interleaved, and whichever of their calls fail, the paths that
are stored and answered are in normal form, and no commit has one twice.
-/

namespace Depot.Service

open Content Time Objects

variable {ι α ε : Type} {s t : Stores} {projectId : Int} {boundary : CommitBoundary} {user : String}

/-! ### What operations ask for -/

theorem of_validateChanges {seen : List String} {changes : List ProposedChange}
    (h : validateChanges seen changes = .ok ()) :
    (∀ change ∈ changes, validatePath change.path = .ok ()) ∧ (changes.map ProposedChange.path).Nodup ∧
      ∀ change ∈ changes, change.path ∉ seen := by
  induction changes generalizing seen with
  | nil => exact ⟨nofun, List.nodup_nil, nofun⟩
  | cons change rest ih =>
    rw [validateChanges] at h
    split at h
    · cases h
    · rename_i hpath
      split at h
      · cases h
      · rename_i hunseen
        obtain ⟨hvalid, hdistinct, hnew⟩ := ih h
        refine ⟨List.forall_mem_cons.mpr ⟨hpath, hvalid⟩, List.nodup_cons.mpr ⟨fun hmem => ?_, hdistinct⟩,
          List.forall_mem_cons.mpr ⟨hunseen, fun other hother hseen => ?_⟩⟩
        · obtain ⟨other, hother, heq⟩ := List.mem_map.mp hmem
          exact hnew other hother (heq ▸ List.mem_cons_self)
        · exact hnew other hother (List.mem_cons_of_mem _ hseen)

theorem pathsAccepted_draftOf {request : CommitRequest} (h : validateChanges [] request.changes = .ok ())
    (now : DateTime) : Catalog.PathsAccepted (draftOf request now).revisions where
  valid draft hdraft := by
    obtain ⟨change, hchange, rfl⟩ := List.mem_map.mp hdraft
    exact (of_validateChanges h).1 change hchange
  distinct := by
    rw [draftOf, List.map_map]
    exact (of_validateChanges h).2.1

/-- A call brings no paths but accepted ones, each once. -/
def Call.PathsAccepted : Call → Prop
  | .catalog r => r.PathsAccepted
  | .objects _ => True

theorem Call.IsRead.pathsAccepted {call : Call} (h : call.IsRead) : call.PathsAccepted := by
  cases call with
  | catalog r => cases r <;> first | exact trivial | cases h
  | objects r => exact trivial

theorem makes_lift_bind {P : Call → Prop} {β : Type} (fail : ε → ServiceError) {x : Except ε α} {next : α → Op β}
    (hnext : ∀ a, x = .ok a → Makes P (next a)) : Makes P (lift fail x >>= next) := by
  cases x with
  | ok a => exact hnext a rfl
  | error e => exact ⟨trivial⟩

theorem makes_commit_accepted (request : CommitRequest) (now : DateTime) :
    Makes Call.PathsAccepted (commit request now) := by
  refine (makes_requireAccess (fun _ => Call.IsRead.pathsAccepted) _ _ _).bind fun _ =>
    makes_lift_bind _ fun _ hvalid => ?_
  have hwrite : (Call.catalog (.createCommit (draftOf request now))).PathsAccepted := pathsAccepted_draftOf hvalid now
  refine (makes_persist (fun _ => hwrite) _ _).bind fun ⟨_, write⟩ => ?_
  rcases write with row | hashes
  · exact makes_pure _
  · exact (makes_lift _ _).bind fun missing => makes_pure _

theorem makes_act_accepted (settings : Settings) (op : Operation) : Makes Call.PathsAccepted (op.act settings) := by
  by_cases hcommit : ∃ request now, op = .commit request now
  · obtain ⟨request, now, rfl⟩ := hcommit
    exact makes_discard (makes_commit_accepted request now)
  · refine (makes_act settings op).mono fun call hcall => ?_
    rcases hcall with hread | hchanges
    · exact hread.pathsAccepted
    cases op with
    | commit request now => exact absurd ⟨request, now, rfl⟩ hcommit
    | upload request body now =>
      obtain ⟨p, rfl⟩ := hchanges
      cases p <;> exact trivial
    | restore user projectId commitId clock =>
      obtain ⟨_, _, _, rfl⟩ := hchanges
      exact trivial
    | createProject _ _ _ _ | grantOnProject _ _ _ _ | grantOnTeam _ _ _ _ =>
      cases hchanges
      exact trivial
    | _ => cases hchanges

/-! ### What a crowd leaves -/

/-- The paths of a crowd's catalog are accepted, and its tasks bring no others. -/
structure PathsKept (w : Crowd ι α) : Prop where
  history : Catalog.HistorySound w.stores.catalog
  paths : Catalog.PathsSound w.stores.catalog
  tasks : ∀ i, Only Call.PathsAccepted (w.tasks i)

theorem pathsSound_faulty {c : Call} {reply : c.Reply} (hc : c.PathsAccepted) (h : Faulty c s reply t)
    (hhistory : Catalog.HistorySound s.catalog) (hpaths : Catalog.PathsSound s.catalog) :
    Catalog.HistorySound t.catalog ∧ Catalog.PathsSound t.catalog := by
  cases c with
  | catalog r =>
    rcases faulty_catalog h with rfl | rfl
    · exact ⟨Catalog.historySound_step (Catalog.answer_step _ r) hhistory,
        Catalog.pathsSound_answer hc hpaths hhistory⟩
    · exact ⟨hhistory, hpaths⟩
  | objects r =>
    obtain ⟨next, rfl, _⟩ := faulty_objects h
    exact ⟨hhistory, hpaths⟩

theorem PathsKept.step [DecidableEq ι] {w v : Crowd ι α} (h : PathsKept w) (hstep : Crowd.Step Faulty w v) :
    PathsKept v := by
  cases hstep with
  | @call i c resume reply next hwaits hanswered =>
    have htask : Only Call.PathsAccepted (.call c resume) := hwaits ▸ h.tasks i
    obtain ⟨hhistory, hpaths⟩ := pathsSound_faulty htask.1 hanswered h.history h.paths
    refine ⟨hhistory, hpaths, fun j => ?_⟩
    by_cases hji : j = i
    · subst hji
      simpa using htask.2 reply
    · simpa only [Function.update_of_ne hji] using h.tasks j

theorem pathsKept_crowdOf (settings : Settings) (ops : ι → Operation) (o : ObjectStore) :
    PathsKept (crowdOf settings ops ⟨.empty, o⟩) where
  history := Catalog.historySound_empty
  paths := Catalog.pathsSound_empty
  tasks i := (makes_act_accepted settings (ops i)).only

/-! ### What is answered -/

theorem exists_revision_of_filesOf {revisions : List Catalog.Revision} {files : List FileState}
    (h : (perform (filesOf revisions) s).1 = .ok files) {f : FileState} (hf : f ∈ files) :
    ∃ r ∈ revisions, f.path = r.path := by
  obtain ⟨read, u, hread, hsorted⟩ := perform_bind_eq_ok h
  rw [perform_lift] at hread
  have hfiles : revisions.mapM Catalog.Revision.fileState = .ok read := by
    cases hmap : revisions.mapM Catalog.Revision.fileState with
    | ok found =>
      rw [hmap] at hread
      cases hread
      rfl
    | error e =>
      rw [hmap] at hread
      cases hread
  cases hsorted
  obtain ⟨r, hr, hfile⟩ := ((mapM_fileState hfiles).2 f).mp (List.mem_mergeSort.mp hf)
  exact ⟨r, hr, (reads_of_fileState hfile).path⟩

theorem exists_revision_of_stateAt {state : ProjectState}
    (h : (perform (stateAt user projectId boundary) s).1 = .ok state) {f : FileState} (hf : f ∈ state.files) :
    ∃ r ∈ s.catalog.revisions, f.path = r.path := by
  obtain ⟨_, _, haccess, h⟩ := perform_bind_eq_ok h
  rw [perform_requireAccess] at haccess
  obtain ⟨_, rfl⟩ := Prod.mk.inj haccess
  obtain ⟨k, _, hcommit, h⟩ := perform_bind_eq_ok h
  rw [perform_resolveBoundary_eq] at hcommit
  obtain ⟨_, rfl⟩ := Prod.mk.inj hcommit
  rw [perform_bind_ok (perform_askCatalog_ok rfl)] at h
  obtain ⟨files, _, hfiles, hstate⟩ := perform_bind_eq_ok h
  cases hstate
  obtain ⟨r, hr, hpath⟩ := exists_revision_of_filesOf (congrArg Prod.fst hfiles) hf
  exact ⟨r, Catalog.mem_stateAt_revisions hr, hpath⟩

/-- **The paths that are accepted are the normal ones, so no file has two. However the calls of operations are
interleaved and whichever of them fail: the paths of all revisions and of all states are accepted, and no commit has
one twice.** -/
theorem paths_normal [DecidableEq ι] (settings : Settings) (ops : ι → Operation) (o : ObjectStore)
    {w : Crowd ι (Except ServiceError Unit)} (hsteps : Crowd.Steps Faulty (crowdOf settings ops ⟨.empty, o⟩) w) :
    (∀ path, validatePath path = .ok () ↔ NormalPath path) ∧
      (∀ path other, validatePath path = .ok () → validatePath other = .ok () →
        normalForm path = normalForm other → path = other) ∧
      (∀ r ∈ w.stores.catalog.revisions, validatePath r.path = .ok ()) ∧
      (∀ projectId boundary, ∀ r ∈ w.stores.catalog.stateAt projectId boundary, validatePath r.path = .ok ()) ∧
      (∀ user projectId boundary state, (perform (stateAt user projectId boundary) w.stores).1 = .ok state →
        ∀ f ∈ state.files, validatePath f.path = .ok ()) ∧
      ∀ commitId, ((w.stores.catalog.commitRevisions commitId).map Catalog.Revision.path).Nodup := by
  have hkept : PathsKept w :=
    Crowd.steps_induction (P := PathsKept) (fun _ _ hstep h => h.step hstep) (pathsKept_crowdOf settings ops o) hsteps
  refine ⟨fun _ => validatePath_eq_ok_iff, fun _ _ => eq_of_normalForm_eq, hkept.paths.valid, ?_, ?_,
    hkept.paths.distinct⟩
  · intro projectId boundary r hr
    exact hkept.paths.valid r (Catalog.mem_stateAt_revisions hr)
  · intro user projectId boundary state hstate f hf
    obtain ⟨r, hr, hpath⟩ := exists_revision_of_stateAt hstate hf
    exact hpath ▸ hkept.paths.valid r hr

/-- A file is uploaded to a project of its own and committed. -/
theorem paths_normal_first :
    let o : ObjectStore := .files ⟨⟨[]⟩, [], ⟨[], ""⟩, [], 0⟩
    let ops : Fin 4 → Operation := [.grantOnTeam "ann" "team" .write .epoch, .createProject "ann" "team" "title" .epoch,
      .upload (pieceRequest "ann" [[104, 105]] 0) [.data [104, 105]] .epoch,
      .commit ⟨1, "ann", "first", [⟨"a/b", fileOf [[104, 105]], .add⟩]⟩ .epoch].get
    let w := (crowdOf ⟨2, 60, 1⟩ ops ⟨.empty, o⟩).inTurn (List.finRange 4)
    Crowd.Steps Faulty (crowdOf ⟨2, 60, 1⟩ ops ⟨.empty, o⟩) w ∧
      w.stores.catalog.revisions ≠ [] ∧
      (∀ path, validatePath path = .ok () ↔ NormalPath path) ∧
      (∀ path other, validatePath path = .ok () → validatePath other = .ok () →
        normalForm path = normalForm other → path = other) ∧
      (∀ r ∈ w.stores.catalog.revisions, validatePath r.path = .ok ()) ∧
      (∀ projectId boundary, ∀ r ∈ w.stores.catalog.stateAt projectId boundary, validatePath r.path = .ok ()) ∧
      (∀ user projectId boundary state, (perform (stateAt user projectId boundary) w.stores).1 = .ok state →
        ∀ f ∈ state.files, validatePath f.path = .ok ()) ∧
      ∀ commitId, ((w.stores.catalog.commitRevisions commitId).map Catalog.Revision.path).Nodup := by
  intro o ops w
  have hsteps : Crowd.Steps Faulty (crowdOf ⟨2, 60, 1⟩ ops ⟨.empty, o⟩) w :=
    Crowd.steps_mono (fun _ _ _ _ => .works) (Crowd.steps_inTurn _ _)
  refine ⟨hsteps, ?_, paths_normal _ ops o hsteps⟩
  -- The project, then the file, then the commit.
  let s := after ⟨2, 60, 1⟩ [.grantOnTeam "ann" "team" .write .epoch, .createProject "ann" "team" "title" .epoch]
    ⟨.empty, o⟩
  let upload : Turn "ann" [[104, 105]] := .piece 0 [[104, 105]] rfl .epoch
  let request : CommitRequest := ⟨1, "ann", "first", [⟨"a/b", fileOf [[104, 105]], .add⟩]⟩
  have hs : Sound [] s := sound_after _ _ (sound_fresh (fresh_root _))
  have hnothing : ComesFrom [] (fun _ => False) (fun _ => False) s := comesFrom_nothing (fresh_root _) _ (by simp)
  have hall : ∀ i, Turn.Uploads [upload] i := by
    intro i
    obtain rfl : i = 0 := Fin.fin_one_eq_zero i
    exact ⟨_, _, _, List.mem_singleton_self upload⟩
  have hcan : s.catalog.canUpload "ann" := by decide +kernel
  have hholds : Holds [] [[104, 105]] (afterTurns ⟨2, 60, 1⟩ [upload] s) := by
    refine holds_first hs hnothing (List.forall_mem_singleton.mpr (by decide)) hcan (fun op someone hop => ?_)
      (fun data hdata piece hpiece _ => ?_) (List.cons_ne_nil _ _) hall
    · simp [upload] at hop
    · rw [List.mem_singleton.mp hdata, List.mem_singleton.mp hpiece]
  have hlast := sound_afterTurns ⟨2, 60, 1⟩ [upload] hs
  have hwrite : AccessLevel.write ≤ (afterTurns ⟨2, 60, 1⟩ [upload] s).catalog.projectAccess "ann" 1 := by
    rw [(sameRights_afterTurns ⟨2, 60, 1⟩ [upload] hs).projectAccess_eq (by decide +kernel)]
    decide +kernel
  have hpath : validatePath "a/b" = .ok () := by decide +kernel
  obtain ⟨t, _, row, hcommitted⟩ := hholds.commit hlast (List.cons_ne_nil _ _) request hwrite
    (List.forall_mem_singleton.mpr hpath) (List.nodup_singleton _) (by simp [request]) .epoch
  have hstores : w.stores = t := by
    have hrun : w.stores = (perform ((ops 3).act ⟨2, 60, 1⟩) (afterTurns ⟨2, 60, 1⟩ [upload] s)).2 :=
      stores_inTurn (List.nodup_finRange 4) fun _ _ => rfl
    exact hrun.trans (hcommitted.act ⟨2, 60, 1⟩)
  rw [hstores]
  obtain ⟨r, hr⟩ := hcommitted.written _ (List.mem_singleton_self _) (by decide)
  exact List.ne_nil_of_mem (hcommitted.sound.history.fileAt?_mem hr.file)

end Depot.Service
