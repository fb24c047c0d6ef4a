import Depot.Proofs.Catalog.History
import Mathlib.Data.List.Induction

/-!
# Snapshots of reachable catalogs

- The log of a project is its commits backwards, so its latest commit is the one made last.
- `stateAt` and `fileAt?` say the same: the newest revision of a path, unless it is a deletion.
- A commit changes the state at the paths that it names and leaves all earlier states as they were.
-/

namespace Depot.Catalog

open Content Time

variable {c : Catalog} {projectId boundary : Int} {path : String} {r : Revision}

/-! ### The latest commit -/

theorem HistorySound.ascending_commitsOf (h : HistorySound c) (projectId : Int) :
    (c.commitsOf projectId).Pairwise fun a b => a.sequenceNumber < b.sequenceNumber ∧ a.commitId < b.commitId := by
  have hids : (c.commitsOf projectId).Pairwise fun a b => a.commitId < b.commitId :=
    (List.pairwise_map.mp h.commitIds.ascending).sublist List.filter_sublist
  exact (List.pairwise_map.mp (h.sequences projectId).ascending).and hids

theorem HistorySound.log_eq (h : HistorySound c) (projectId : Int) :
    c.log projectId = (c.commitsOf projectId).reverse := by
  have hsorted : (c.commitsOf projectId).reverse.Pairwise fun a b => newestFirst a b = true := by
    refine List.pairwise_reverse.mpr ((h.ascending_commitsOf projectId).imp fun hlt => ?_)
    simp only [newestFirst, decide_eq_true_eq]
    omega
  have hlog : (c.log projectId).Pairwise fun a b => newestFirst a b = true := by
    refine List.pairwise_mergeSort (fun a b d hab hbd => ?_) (fun a b => ?_) _
    · simp only [newestFirst, decide_eq_true_eq] at *
      omega
    · simp only [newestFirst, Bool.or_eq_true, decide_eq_true_eq]
      omega
  have hperm : (c.log projectId).Perm (c.commitsOf projectId).reverse :=
    (List.mergeSort_perm _ _).trans (List.reverse_perm _).symm
  refine hperm.eq_of_pairwise (fun a b ha hb hab hba => ?_) hlog hsorted
  -- Two commits of a project that have the same number are the same commit.
  simp only [newestFirst, decide_eq_true_eq] at hab hba
  have hdistinct : ((c.commitsOf projectId).map CommitSummary.sequenceNumber).Nodup :=
    (h.sequences projectId).ascending.imp fun hlt => by omega
  exact List.inj_on_of_nodup_map hdistinct (by simpa using hperm.mem_iff.mp ha) (by simpa using hb) (by omega)

theorem HistorySound.latestCommit?_eq (h : HistorySound c) (projectId : Int) :
    c.latestCommit? projectId = (c.commitsOf projectId).getLast? := by
  rw [latestCommit?, h.log_eq, List.head?_reverse]

theorem HistorySound.le_latestCommit (h : HistorySound c) {latest k : CommitSummary}
    (hlatest : c.latestCommit? projectId = some latest) (hk : k ∈ c.commitsOf projectId) :
    k.commitId ≤ latest.commitId ∧ k.sequenceNumber ≤ latest.sequenceNumber := by
  rw [h.latestCommit?_eq, List.getLast?_eq_some_iff] at hlatest
  obtain ⟨before, hbefore⟩ := hlatest
  have hascending := h.ascending_commitsOf projectId
  rw [hbefore, List.pairwise_append] at hascending
  rw [hbefore, List.mem_append, List.mem_singleton] at hk
  rcases hk with hk | rfl
  · have := hascending.2.2 k hk latest List.mem_cons_self
    omega
  · omega

theorem HistorySound.exists_latestCommit (h : HistorySound c) (hproject : (c.project? projectId).isSome) :
    ∃ latest, c.latestCommit? projectId = some latest := by
  rw [h.latestCommit?_eq]
  exact Option.ne_none_iff_exists'.mp fun hnone =>
    h.founded projectId hproject (List.getLast?_eq_none_iff.mp hnone)

theorem HistorySound.latestCommit?_mem (h : HistorySound c) {latest : CommitSummary}
    (hlatest : c.latestCommit? projectId = some latest) : latest ∈ c.commitsOf projectId := by
  rw [h.latestCommit?_eq] at hlatest
  exact List.mem_of_getLast? hlatest

theorem commit?_eq_some {commitId : Int} {k : CommitSummary} (h : c.commit? projectId commitId = some k) :
    k ∈ c.commitsOf projectId ∧ k.commitId = commitId := by
  have hfound := List.find?_some h
  simp only [Bool.and_eq_true, beq_iff_eq] at hfound
  exact ⟨mem_commitsOf.mpr ⟨List.mem_of_find?_eq_some h, hfound.1⟩, hfound.2⟩

theorem HistorySound.within_latest (h : HistorySound c) {latest : CommitSummary}
    (hlatest : c.latestCommit? projectId = some latest) (hr : r ∈ c.revisions) (hproject : r.projectId = projectId) :
    r.commitId ≤ latest.commitId := by
  obtain ⟨k, hk, hid, hown⟩ := h.attached r hr
  rw [← hid]
  exact (h.le_latestCommit hlatest (mem_commitsOf.mpr ⟨hk, hown.trans hproject⟩)).1

/-! ### The newest revision of a path -/

theorem HistorySound.ascending_revisions (h : HistorySound c) :
    c.revisions.Pairwise fun a b => a.revisionId < b.revisionId :=
  List.pairwise_map.mp h.revisionIds.ascending

theorem foldl_later {rows : List Revision} (h : rows.Pairwise fun a b => a.revisionId < b.revisionId) :
    rows.foldl later none = rows.getLast? := by
  induction rows using List.reverseRecOn with
  | nil => rfl
  | append_singleton rows last ih =>
    obtain ⟨hrows, _, hlast⟩ := List.pairwise_append.mp h
    rw [List.foldl_append, ih hrows, List.getLast?_concat, List.foldl_cons, List.foldl_nil]
    cases hbest : rows.getLast? with
    | none => rfl
    | some best =>
      have := hlast best (List.mem_of_getLast? hbest) last List.mem_cons_self
      rw [later, if_pos (by omega)]

theorem getLast?_eq_some_iff_newest {rows : List Revision}
    (h : rows.Pairwise fun a b => a.revisionId < b.revisionId) :
    rows.getLast? = some r ↔ r ∈ rows ∧ ∀ s ∈ rows, s.revisionId ≤ r.revisionId := by
  constructor
  · intro hlast
    refine ⟨List.mem_of_getLast? hlast, fun s hs => ?_⟩
    obtain ⟨before, rfl⟩ := List.getLast?_eq_some_iff.mp hlast
    rcases List.mem_append.mp hs with hs | hs
    · have := (List.pairwise_append.mp h).2.2 s hs r List.mem_cons_self
      omega
    · exact Int.le_of_eq (by rw [List.mem_singleton.mp hs])
  · rintro ⟨hr, hnewest⟩
    cases hlast : rows.getLast? with
    | none => simp [List.getLast?_eq_none_iff.mp hlast] at hr
    | some last =>
      obtain ⟨before, rfl⟩ := List.getLast?_eq_some_iff.mp hlast
      rcases List.mem_append.mp hr with hbefore | hr
      · have hlt := (List.pairwise_append.mp h).2.2 r hbefore last List.mem_cons_self
        have := hnewest last (List.mem_append_right _ List.mem_cons_self)
        omega
      · rw [List.mem_singleton.mp hr]

/-- The revisions of a path up to a boundary. -/
def revisionsAt (c : Catalog) (projectId : Int) (path : String) (boundary : Int) : List Revision :=
  c.revisions.filter fun r => isWithin projectId boundary r && r.path == path

theorem mem_revisionsAt :
    r ∈ c.revisionsAt projectId path boundary ↔
      r ∈ c.revisions ∧ (r.projectId = projectId ∧ r.commitId ≤ boundary) ∧ r.path = path := by
  simp [revisionsAt, isWithin]

theorem HistorySound.fileAt?_eq (h : HistorySound c) (projectId : Int) (path : String) (boundary : Int) :
    c.fileAt? projectId path boundary =
      (c.revisionsAt projectId path boundary).getLast?.filter fun r => !r.isDelete := by
  rw [fileAt?, foldl_later (h.ascending_revisions.sublist List.filter_sublist)]
  rfl

theorem HistorySound.mem_stateAt_iff (h : HistorySound c) :
    r ∈ c.stateAt projectId boundary ↔ c.fileAt? projectId r.path boundary = some r := by
  have hascending : (c.revisionsAt projectId r.path boundary).Pairwise fun a b => a.revisionId < b.revisionId :=
    h.ascending_revisions.sublist List.filter_sublist
  rw [h.fileAt?_eq, Option.filter_eq_some_iff, getLast?_eq_some_iff_newest hascending]
  simp only [stateAt, List.mem_filter, mem_revisionsAt, isWithin, Bool.and_eq_true, beq_iff_eq, decide_eq_true_eq,
    List.all_eq_true, Bool.or_eq_true, bne_iff_ne, Bool.not_eq_true']
  grind

theorem HistorySound.fileAt?_path (h : HistorySound c) (hfile : c.fileAt? projectId path boundary = some r) :
    r.path = path := by
  rw [h.fileAt?_eq, Option.filter_eq_some_iff] at hfile
  exact (mem_revisionsAt.mp (List.mem_of_getLast? hfile.1)).2.2

theorem HistorySound.fileAt?_mem (h : HistorySound c) (hfile : c.fileAt? projectId path boundary = some r) :
    r ∈ c.revisions := by
  rw [h.fileAt?_eq, Option.filter_eq_some_iff] at hfile
  exact (mem_revisionsAt.mp (List.mem_of_getLast? hfile.1)).1

theorem HistorySound.nodup_stateAt (h : HistorySound c) (projectId boundary : Int) :
    ((c.stateAt projectId boundary).map Revision.path).Nodup := by
  have hnodup : (c.stateAt projectId boundary).Nodup :=
    (h.ascending_revisions.imp fun {a b} hlt heq => by rw [heq] at hlt; omega).sublist
      (List.filter_sublist.trans List.filter_sublist)
  apply hnodup.map_on
  intro a ha b hb heq
  have ha := h.mem_stateAt_iff.mp ha
  rw [heq, h.mem_stateAt_iff.mp hb] at ha
  exact (Option.some.inj ha).symm

theorem HistorySound.lastRevisionAt?_stateAt (h : HistorySound c) (projectId boundary : Int) (path : String) :
    lastRevisionAt? (c.stateAt projectId boundary) path = c.fileAt? projectId path boundary := by
  cases hfile : c.fileAt? projectId path boundary with
  | none =>
    rw [lastRevisionAt?_eq_none_iff]
    rintro hpath
    obtain ⟨r, hr, rfl⟩ := List.mem_map.mp hpath
    rw [h.mem_stateAt_iff.mp hr] at hfile
    cases hfile
  | some r =>
    have hpath := h.fileAt?_path hfile
    have hr : r ∈ c.stateAt projectId boundary := h.mem_stateAt_iff.mpr (hpath ▸ hfile)
    cases hfound : lastRevisionAt? (c.stateAt projectId boundary) path with
    | none => exact absurd (hpath ▸ List.mem_map_of_mem hr) (lastRevisionAt?_eq_none_iff.mp hfound)
    | some s =>
      obtain ⟨hs, hspath⟩ := lastRevisionAt?_mem hfound
      have hs := h.mem_stateAt_iff.mp hs
      rw [hspath, hfile] at hs
      rw [hs]

/-! ### What a commit does to states -/

section Commit

variable {commit : CommitSummary} {rows : List Revision}

theorem isDelete_iff : r.isDelete ↔ r.kind = ChangeKind.delete.code := by
  simp [Revision.isDelete]

/-- Rows that a commit made. -/
def MadeBy (commit : CommitSummary) (rows : List Revision) : Prop :=
  ∀ r ∈ rows, r.projectId = commit.projectId ∧ r.commitId = commit.commitId

theorem stateAt_withCommit_of_lt (hmade : MadeBy commit rows) (hlt : boundary < commit.commitId) :
    (c.withCommit commit rows).stateAt projectId boundary = c.stateAt projectId boundary := by
  have hnone : rows.filter (isWithin projectId boundary) = [] := by
    apply List.filter_eq_nil_iff.mpr
    intro r hr
    have := (hmade r hr).2
    simp only [isWithin, Bool.and_eq_true, beq_iff_eq, decide_eq_true_eq]
    omega
  simp only [stateAt, withCommit, List.filter_append, hnone, List.append_nil]

theorem fileAt?_withCommit_of_not_mem (hnext : HistorySound (c.withCommit commit rows)) (h : HistorySound c)
    {latest : Int} (hbefore : latest ≤ commit.commitId)
    (hlatest : ∀ r ∈ c.revisions, r.projectId = commit.projectId → r.commitId ≤ latest)
    (hpath : path ∉ rows.map Revision.path) :
    (c.withCommit commit rows).fileAt? commit.projectId path commit.commitId =
      c.fileAt? commit.projectId path latest := by
  rw [hnext.fileAt?_eq, h.fileAt?_eq]
  have hnone : rows.filter (fun r => isWithin commit.projectId commit.commitId r && r.path == path) = [] := by
    apply List.filter_eq_nil_iff.mpr
    intro r hr
    have hne : r.path ≠ path := fun heq => hpath (heq ▸ List.mem_map_of_mem hr)
    simp [hne]
  have hold : c.revisions.filter (fun r => isWithin commit.projectId commit.commitId r && r.path == path) =
      c.revisions.filter fun r => isWithin commit.projectId latest r && r.path == path := by
    apply List.filter_congr
    intro r hr
    have hle := hlatest r hr
    simp only [isWithin]
    grind
  rw [revisionsAt, withCommit, List.filter_append, hnone, List.append_nil, hold]
  rfl

theorem fileAt?_withCommit_of_mem (hnext : HistorySound (c.withCommit commit rows)) (hmade : MadeBy commit rows)
    (hdistinct : (rows.map Revision.path).Nodup) (hr : r ∈ rows) :
    (c.withCommit commit rows).fileAt? commit.projectId r.path commit.commitId =
      if r.isDelete then none else some r := by
  have hmine : rows.filter (fun s => isWithin commit.projectId commit.commitId s && s.path == r.path) = [r] := by
    have hfilter : rows.filter (fun s => isWithin commit.projectId commit.commitId s && s.path == r.path) =
        rows.filter fun s => s.path == r.path := by
      apply List.filter_congr
      intro s hs
      obtain ⟨hproject, hcommit⟩ := hmade s hs
      simp [isWithin, hproject, hcommit]
    rw [hfilter, filter_eq_singleton hdistinct hr]
  rw [hnext.fileAt?_eq, revisionsAt, withCommit, List.filter_append, hmine, List.getLast?_concat]
  cases hdelete : r.isDelete <;> simp [hdelete]

/-- What a path has once rows are applied to a state. -/
def applied (before rows : List Revision) (path : String) : Option Revision :=
  match lastRevisionAt? rows path with
  | some r => if r.isDelete then none else some r
  | none => lastRevisionAt? before path

theorem lastRevisionAt?_withCommit (hnext : HistorySound (c.withCommit commit rows)) (h : HistorySound c)
    {latest : CommitSummary} (hlatest : c.latestCommit? commit.projectId = some latest)
    (hnew : latest.commitId ≤ commit.commitId) (hmade : MadeBy commit rows)
    (hdistinct : (rows.map Revision.path).Nodup) (path : String) :
    lastRevisionAt? ((c.withCommit commit rows).stateAt commit.projectId commit.commitId) path =
      applied (c.stateAt commit.projectId latest.commitId) rows path := by
  rw [hnext.lastRevisionAt?_stateAt, applied, h.lastRevisionAt?_stateAt]
  cases hrow : lastRevisionAt? rows path with
  | none =>
    exact fileAt?_withCommit_of_not_mem hnext h hnew (fun r hr hown => h.within_latest hlatest hr hown)
      (lastRevisionAt?_eq_none_iff.mp hrow)
  | some r =>
    obtain ⟨hr, rfl⟩ := lastRevisionAt?_mem hrow
    exact fileAt?_withCommit_of_mem hnext hmade hdistinct hr

theorem latestCommit?_withCommit (hnext : HistorySound (c.withCommit commit rows)) :
    (c.withCommit commit rows).latestCommit? commit.projectId = some commit := by
  rw [hnext.latestCommit?_eq, commitsOf, withCommit, commitsOf_append_self rfl, List.getLast?_concat]

theorem commit?_withCommit_self (hbehind : ∀ k ∈ c.commits, k.commitId < commit.commitId) :
    (c.withCommit commit rows).commit? commit.projectId commit.commitId = some commit := by
  rw [commit?, withCommit, List.find?_append, List.find?_eq_none.mpr, Option.none_or]
  · simp
  · intro k hk
    have := hbehind k hk
    simp only [Bool.and_eq_true, beq_iff_eq]
    omega

/-- The next commit comes behind all others of the catalog, and its number behind all others of the project. -/
theorem HistorySound.nextCommit_isNew (h : HistorySound c) (hproject : (c.project? projectId).isSome)
    (authorId comment : String) (fileCount : Int) (createdAt : DateTime) :
    let next := c.nextCommit projectId authorId comment fileCount createdAt
    (∀ k ∈ c.commits, k.commitId < next.commitId) ∧
      greatest? ((c.commitsOf projectId).map CommitSummary.sequenceNumber) = some (next.sequenceNumber - 1) := by
  refine ⟨fun k hk => ?_, ?_⟩
  · have := (h.commitIds.mem_iff.mp (List.mem_map_of_mem hk)).2
    simp only [List.length_map] at this
    simp only [nextCommit]
    omega
  · cases hgreatest : greatest? ((c.commitsOf projectId).map CommitSummary.sequenceNumber) with
    | none =>
      exact absurd (List.map_eq_nil_iff.mp (greatest?_eq_none_iff.mp hgreatest)) (h.founded projectId hproject)
    | some n => simp [nextCommit, nextSequence, hgreatest]

theorem madeBy_rowsFrom {count : Nat} {chunkCount : String → Int} {drafts : List RevisionDraft} :
    MadeBy commit (rowsFrom count commit chunkCount drafts) := by
  intro r hr
  obtain ⟨_, _, hrow⟩ := exists_draft hr
  exact ⟨hrow.projectId, hrow.commitId⟩

end Commit

/-! ### Commits stay -/

section Later

variable {projectId boundary : Int} {next : Catalog}

theorem log_step (hstep : Step c next) (h : HistorySound c) :
    ∃ commits rows, next.commits = c.commits ++ commits ∧ next.revisions = c.revisions ++ rows ∧
      ∀ r ∈ rows, ∀ k ∈ c.commits, k.commitId < r.commitId := by
  cases hstep with
  | founded => exact ⟨_, [], rfl, (List.append_nil _).symm, nofun⟩
  | committed project complete =>
    refine ⟨_, _, rfl, rfl, fun r hr k hk => ?_⟩
    rw [(madeBy_rowsFrom r hr).2]
    exact (h.nextCommit_isNew project _ _ _ _).1 k hk
  | restored project known newest planned =>
    refine ⟨_, _, rfl, rfl, fun r hr k hk => ?_⟩
    rw [(madeBy_rowsFrom r hr).2]
    exact (h.nextCommit_isNew project _ _ _ _).1 k hk
  | _ => exact ⟨[], [], (List.append_nil _).symm, (List.append_nil _).symm, nofun⟩

theorem commit?_step (hstep : Step c next) (h : HistorySound c) {k : CommitSummary}
    (hfound : c.commit? projectId boundary = some k) : next.commit? projectId boundary = some k := by
  obtain ⟨commits, _, hcommits, _⟩ := log_step hstep h
  rw [commit?] at hfound ⊢
  rw [hcommits, List.find?_append, hfound]
  rfl

theorem fileAt?_step (hstep : Step c next) (h : HistorySound c) {k : CommitSummary}
    (hfound : c.commit? projectId boundary = some k) (path : String) :
    next.fileAt? projectId path boundary = c.fileAt? projectId path boundary := by
  obtain ⟨_, rows, _, hrevisions, hlater⟩ := log_step hstep h
  obtain ⟨hmem, hid⟩ := commit?_eq_some hfound
  have hk := (mem_commitsOf.mp hmem).1
  have hnone : rows.filter (fun r => isWithin projectId boundary r && r.path == path) = [] := by
    apply List.filter_eq_nil_iff.mpr
    intro r hr
    have := hlater r hr k hk
    simp only [isWithin, Bool.and_eq_true, beq_iff_eq, decide_eq_true_eq]
    omega
  rw [fileAt?, fileAt?, hrevisions, List.filter_append, hnone, List.append_nil]

end Later

end Depot.Catalog
