import Depot.Proofs.Catalog.Touched
import Depot.Proofs.Service.State

/-!
# Differences between commits

`Tells`: a difference between two commits tells what stayed from the first to the second and what became of all other
paths. Whoever may read a project is told so of any two of its commits, and the same backwards (`reachable_diff`).
-/

namespace Depot.Service

open Content Time

variable {s : Stores} {c : Catalog} {user : String} {projectId : Int} {a b : CommitSummary} {f g : FileState}
  {before after : ProjectState}

theorem LiveAt.eq_of_revisionId_eq (h : Catalog.HistorySound c) (hf : LiveAt c projectId a f)
    (hg : LiveAt c projectId b g) (heq : f.revisionId = g.revisionId) : f = g := by
  obtain ⟨r, hr, hread⟩ := hf
  obtain ⟨r', hr', hread'⟩ := hg
  have hids : r.revisionId = r'.revisionId := by
    rw [← (reads_of_fileState hread).revisionId, heq, (reads_of_fileState hread').revisionId]
  obtain rfl := h.eq_of_revisionId_eq (Catalog.mem_stateAt_revisions hr) (Catalog.mem_stateAt_revisions hr') hids
  exact Except.ok.inj (hread.symm.trans hread')

/-- What a difference from one commit to a later one tells: the files that are live at the first and whose paths no
commit since has touched, and all other paths with what is live there at either commit. -/
structure Tells (c : Catalog) (projectId : Int) (a b : CommitSummary) (d : StateDiff) : Prop where
  fromCommitId : d.fromCommitId = a.commitId
  toCommitId : d.toCommitId = b.commitId
  ascending_unchanged : AscendingByPath d.unchanged
  unchanged : ∀ f, f ∈ d.unchanged ↔ LiveAt c projectId a f ∧ ¬c.TouchedBetween projectId a b f.path
  ascending_changed : (d.changed.map ChangedPath.path).Pairwise (· < ·)
  changed : ∀ path, path ∈ d.changed.map ChangedPath.path ↔
    (∃ f, (LiveAt c projectId a f ∨ LiveAt c projectId b f) ∧ f.path = path) ∧
      path ∉ d.unchanged.map FileState.path
  before : ∀ x ∈ d.changed, ∀ f, x.before = some f ↔ LiveAt c projectId a f ∧ f.path = x.path
  after : ∀ x ∈ d.changed, ∀ f, x.after = some f ↔ LiveAt c projectId b f ∧ f.path = x.path

theorem tells_compareStates (h : Catalog.HistorySound c) (ha : a ∈ c.commitsOf projectId)
    (hb : b ∈ c.commitsOf projectId) (hle : a.commitId ≤ b.commitId) (hbefore : Lists c projectId a before)
    (hafter : Lists c projectId b after) : Tells c projectId a b (compareStates before after) where
  fromCommitId := hbefore.commitId
  toCommitId := hafter.commitId
  ascending_unchanged := ascending_unchanged hbefore.ascending hafter.ascending
  unchanged f := by
    rw [mem_unchanged hbefore.ascending hafter.ascending, hafter.mem_iff]
    simp only [hbefore.mem_iff]
    constructor
    · rintro ⟨hf, g, hg, _, hid⟩
      obtain rfl := hg.eq_of_revisionId_eq h hf hid
      obtain ⟨r, hr, hread⟩ := hg
      obtain ⟨r', hr', hread'⟩ := hf
      have hids := (reads_of_fileState hread).revisionId.symm.trans (reads_of_fileState hread').revisionId
      obtain rfl := h.eq_of_revisionId_eq (Catalog.mem_stateAt_revisions hr) (Catalog.mem_stateAt_revisions hr') hids
      rw [(reads_of_fileState hread).path, ← h.mem_stateAt_later_iff ha hb hle hr]
      exact ⟨⟨r, hr, hread⟩, hr'⟩
    · rintro ⟨⟨r, hr, hread⟩, huntouched⟩
      rw [(reads_of_fileState hread).path, ← h.mem_stateAt_later_iff ha hb hle hr] at huntouched
      exact ⟨⟨r, huntouched, hread⟩, f, ⟨r, hr, hread⟩, rfl, rfl⟩
  ascending_changed := ascending_changed before after
  changed path := by
    have hlive : (∃ f, (LiveAt c projectId a f ∨ LiveAt c projectId b f) ∧ f.path = path) ↔
        path ∈ before.files.map FileState.path ∨ path ∈ after.files.map FileState.path := by
      simp only [List.mem_map, hbefore.mem_iff, hafter.mem_iff, or_and_right, exists_or]
    rw [hlive, List.mem_map]
    simp only [mem_changed hbefore.ascending hafter.ascending]
    constructor
    · rintro ⟨x, ⟨hpath, hnot, _, _⟩, rfl⟩
      exact ⟨hpath, hnot⟩
    · rintro ⟨hpath, hnot⟩
      exact ⟨⟨path, before.get? path, after.get? path⟩, ⟨hpath, hnot, rfl, rfl⟩, rfl⟩
  before x hx f := by
    obtain ⟨_, _, hside, _⟩ := (mem_changed hbefore.ascending hafter.ascending).mp hx
    rw [hside, ProjectState.get?_eq_some_iff hbefore.ascending, hbefore.mem_iff]
  after x hx f := by
    obtain ⟨_, _, _, hside⟩ := (mem_changed hbefore.ascending hafter.ascending).mp hx
    rw [hside, ProjectState.get?_eq_some_iff hafter.ascending, hafter.mem_iff]

theorem Tells.unique {d d' : StateDiff} (h : Tells c projectId a b d) (h' : Tells c projectId a b d') : d = d' := by
  have hunchanged : d.unchanged = d'.unchanged := Catalog.eq_of_ascending_by FileState.path
    (List.pairwise_map.mp h.ascending_unchanged) (List.pairwise_map.mp h'.ascending_unchanged) fun f =>
      (h.unchanged f).trans (h'.unchanged f).symm
  have hpaths (path : String) : path ∈ d.changed.map ChangedPath.path ↔ path ∈ d'.changed.map ChangedPath.path := by
    rw [h.changed, h'.changed, hunchanged]
  have hsides {x y : ChangedPath} (hx : x ∈ d.changed) (hy : y ∈ d'.changed) (hpath : x.path = y.path) : x = y := by
    have hbefore : x.before = y.before := Option.ext fun f => by rw [h.before x hx, h'.before y hy, hpath]
    have hafter : x.after = y.after := Option.ext fun f => by rw [h.after x hx, h'.after y hy, hpath]
    obtain ⟨path, before, after⟩ := x
    cases hpath
    cases hbefore
    cases hafter
    rfl
  have hchanged : d.changed = d'.changed := Catalog.eq_of_ascending_by ChangedPath.path
    (List.pairwise_map.mp h.ascending_changed) (List.pairwise_map.mp h'.ascending_changed) fun x => by
      constructor
      · intro hx
        obtain ⟨y, hy, hpath⟩ := List.mem_map.mp ((hpaths x.path).mp (List.mem_map_of_mem hx))
        exact hsides hx hy hpath.symm ▸ hy
      · intro hx
        obtain ⟨y, hy, hpath⟩ := List.mem_map.mp ((hpaths x.path).mpr (List.mem_map_of_mem hx))
        exact hsides hy hx hpath ▸ hy
  obtain ⟨fromId, toId, unchanged, changed⟩ := d
  cases h.fromCommitId.trans h'.fromCommitId.symm
  cases h.toCommitId.trans h'.toCommitId.symm
  cases hunchanged
  cases hchanged
  rfl

theorem perform_diff {old new : CommitBoundary} (hread : AccessLevel.read ≤ s.catalog.projectAccess user projectId)
    (hold : perform (resolveState projectId old) s = (.ok before, s))
    (hnew : perform (resolveState projectId new) s = (.ok after, s)) :
    perform (diff user projectId old new) s = (.ok (compareStates before after), s) := by
  rw [diff, perform_bind_ok (perform_requireAccess_ok hread), perform_bind_ok hold, perform_bind_ok hnew]
  rfl

/-- **In every catalog that requests have made, whoever may read a project is told of any two of its commits, the first
not after the second, what differs between them: the files that are live at the first and whose paths no commit after it
and up to the second has touched, and every other path of either state, once, with what is live there at both; each in
the order of the paths. Backwards the same is told with both sides exchanged.** -/
theorem reachable_diff (requests : List Catalog.Request) (projectId : Int) (user : String)
    (objects : Objects.ObjectStore) :
    let c := Catalog.empty.after requests
    let s : Stores := ⟨c, objects⟩
    AccessLevel.read ≤ c.projectAccess user projectId →
      ∀ a ∈ c.commitsOf projectId, ∀ b ∈ c.commitsOf projectId, a.sequenceNumber ≤ b.sequenceNumber →
        ∃ d, Tells c projectId a b d ∧ ∀ old new, boundaryCommit? c projectId old = some a →
          boundaryCommit? c projectId new = some b →
            perform (diff user projectId old new) s = (.ok d, s) ∧
              perform (diff user projectId new old) s = (.ok d.reversed, s) := by
  intro c s hread a ha b hb hle
  have h : Catalog.HistorySound c := Catalog.historySound_after requests
  have hcontent : Catalog.ContentSound c := Catalog.contentSound_after requests
  have hids : a.commitId ≤ b.commitId := Int.not_lt.mp (mt (h.sequence_lt_iff hb ha).mpr (Int.not_lt.mpr hle))
  obtain ⟨before, hbefore, hold⟩ := exists_resolved (s := s) h hcontent projectId a
  obtain ⟨after, hafter, hnew⟩ := exists_resolved (s := s) h hcontent projectId b
  have hreversed : compareStates after before = (compareStates before after).reversed := by
    refine compareStates_reversed hbefore.ascending hafter.ascending fun f hf g hg hid => ?_
    exact ((hbefore.mem_iff f).mp hf).eq_of_revisionId_eq h ((hafter.mem_iff g).mp hg) hid
  refine ⟨compareStates before after, tells_compareStates h ha hb hids hbefore hafter, fun old new hfirst hsecond => ?_⟩
  refine ⟨perform_diff hread (hold old hfirst) (hnew new hsecond), ?_⟩
  rw [← hreversed]
  exact perform_diff hread (hnew new hsecond) (hold old hfirst)

/-- Of three files that were committed together one was kept, one deleted, and one deleted and committed again. -/
theorem reachable_diff_restored :
    let block := (default : BlockHash).hex
    let file := FileHash.ofBlocks [default]
    let change (path : String) (kind : ChangeKind) : Catalog.RevisionDraft := ⟨path, file.hex, kind⟩
    let requests : List Catalog.Request :=
      [.createProject "team" "title" "ann" .epoch, .putBlock ⟨block, "key", 4, .epoch⟩,
        .registerChunk "ann" ⟨file.hex, 0, block, 4, 1, .epoch⟩,
        .createCommit ⟨1, "ann", "first", [change "a" .add, change "b" .add, change "c" .add], .epoch⟩,
        .createCommit ⟨1, "ann", "second", [change "b" .delete, change "c" .delete], .epoch⟩,
        .createCommit ⟨1, "ann", "third", [change "c" .add], .epoch⟩]
    let s : Stores := ⟨Catalog.empty.after requests, .files ⟨⟨[]⟩, [], ⟨[], ""⟩, [], 0⟩⟩
    let d : StateDiff := ⟨2, 4, [⟨"a", file, .add, 2, 1, 1⟩], [⟨"b", some ⟨"b", file, .add, 2, 2, 1⟩, none⟩,
      ⟨"c", some ⟨"c", file, .add, 2, 3, 1⟩, some ⟨"c", file, .add, 4, 6, 1⟩⟩]⟩
    perform (diff "ann" 1 (.sequence 2) .latest) s = (.ok d, s) ∧
      perform (diff "ann" 1 .latest (.sequence 2)) s = (.ok d.reversed, s) := by
  intro block file change requests s d
  let first : CommitSummary := ⟨2, 1, 2, "ann", "first", 3, .epoch⟩
  let third : CommitSummary := ⟨4, 1, 4, "ann", "third", 1, .epoch⟩
  let kept : FileState := ⟨"a", file, .add, 2, 1, 1⟩
  let deleted : FileState := ⟨"b", file, .add, 2, 2, 1⟩
  let replaced : FileState := ⟨"c", file, .add, 2, 3, 1⟩
  let restored : FileState := ⟨"c", file, .add, 4, 6, 1⟩
  let touches (path : String) : Prop :=
    ∃ r ∈ s.catalog.revisions, r.projectId = 1 ∧ r.path = path ∧ 2 < r.commitId ∧ r.commitId ≤ 4
  -- One computation for all of it, since the requests are run again in each.
  have hrun : (AccessLevel.read ≤ s.catalog.projectAccess "ann" 1 ∧
      boundaryCommit? s.catalog 1 (.sequence 2) = some first) ∧
      s.catalog.commitsOf 1 = [⟨1, 1, 1, "ann", initialCommitMessage, 0, .epoch⟩, first,
        ⟨3, 1, 3, "ann", "second", 2, .epoch⟩, third] ∧
      ((∀ r ∈ s.catalog.revisions, 2 < r.commitId → r.path = "b" ∨ r.path = "c") ∧ touches "b" ∧ touches "c") ∧
      (s.catalog.stateAt 1 2).mapM Catalog.Revision.fileState = .ok [kept, deleted, replaced] ∧
      (s.catalog.stateAt 1 4).mapM Catalog.Revision.fileState = .ok [kept, restored] := by
    decide +kernel
  obtain ⟨⟨hread, hold⟩, hcommits, ⟨honly, hb, hc⟩, hbefore, hafter⟩ := hrun
  have h : Catalog.HistorySound s.catalog := Catalog.historySound_after requests
  have hfirst : first ∈ s.catalog.commitsOf 1 := by simp [hcommits]
  have hthird : third ∈ s.catalog.commitsOf 1 := by simp [hcommits]
  have hlatest : s.catalog.latestCommit? 1 = some third := by
    rw [h.latestCommit?_eq, hcommits]
    rfl
  have hlive (f : FileState) : LiveAt s.catalog 1 first f ↔ f ∈ [kept, deleted, replaced] :=
    ((mapM_fileState hbefore).2 f).symm
  have hlast (f : FileState) : LiveAt s.catalog 1 third f ↔ f ∈ [kept, restored] := ((mapM_fileState hafter).2 f).symm
  have htouched (path : String) : s.catalog.TouchedBetween 1 first third path ↔ path = "b" ∨ path = "c" := by
    rw [h.touchedBetween_iff hfirst hthird]
    constructor
    · rintro ⟨r, hr, -, rfl, hlt, -⟩
      exact honly r hr hlt
    · rintro (rfl | rfl)
      · exact hb
      · exact hc
  have htells : Tells s.catalog 1 first third d :=
    { fromCommitId := rfl
      toCommitId := rfl
      ascending_unchanged := List.pairwise_singleton _ _
      unchanged := fun f => by
        rw [hlive, htouched]
        grind
      ascending_changed := by decide
      changed := fun path => by
        simp only [hlive, hlast, or_and_right, exists_or, ← List.mem_map]
        grind
      before := fun x hx f => by
        rw [hlive]
        grind
      after := fun x hx f => by
        rw [hlast]
        grind }
  obtain ⟨told, htold, hanswers⟩ :=
    reachable_diff requests 1 "ann" s.objects hread first hfirst third hthird (by decide)
  obtain rfl := htold.unique htells
  exact hanswers (.sequence 2) .latest hold hlatest

end Depot.Service
