import Depot.Proofs.Catalog.Integrity
import Depot.Proofs.Catalog.Numbering
import Depot.Proofs.Service.Commit

/-!
# Pages of the log

The log of a project counts its commits down to 1, without gaps, so a page is told by the numbers on it
(`countsDown_page`). Who reads page after page from the newest commit on gets the whole log (`perform_readPages`).
-/

namespace Depot.Service

open Content Time

/-- The numbers from one down to another, none if that is greater. -/
def countdown (high low : Int) : List Int := (List.range (high - low + 1).toNat).map fun (i : Nat) => high - i

/-- Commits of a project, with the numbers from one down to another. -/
structure CountsDown (c : Catalog) (projectId : Int) (commits : List CommitSummary) (high low : Int) : Prop where
  own : ∀ k ∈ commits, k ∈ c.commitsOf projectId
  numbers : commits.map CommitSummary.sequenceNumber = countdown high low

/-- Reads the given number of pages of the log one after another, from an offset on. -/
def readPages (settings : Settings) (userId : String) (projectId offset : Int) : Nat → Op (List CommitSummary)
  | 0 => return []
  | more + 1 => do
    let page ← history settings userId projectId offset
    let older ← readPages settings userId projectId (offset + settings.historyPageSize) more
    return page.commits ++ older

variable {c : Catalog} {s : Stores} {user : String} {projectId : Int} {settings : Settings}

/-! ### The numbers on a page -/

theorem reverse_range_eq_countdown (n : Nat) :
    ((List.range n).map fun (i : Nat) => (i : Int) + 1).reverse = countdown n 1 := by
  refine List.ext_getElem (by simp [countdown]) fun i hi _ => ?_
  simp only [List.length_reverse, List.length_map, List.length_range] at hi
  simp only [countdown, List.getElem_reverse, List.getElem_map, List.getElem_range, List.length_map,
    List.length_range]
  omega

theorem countdown_drop_take (n offset size : Nat) :
    ((countdown n 1).drop offset).take size =
      countdown (n - offset : Int) (max 1 ((n : Int) - offset - size + 1)) := by
  refine List.ext_getElem ?_ fun i _ _ => ?_
  · simp only [countdown, List.length_take, List.length_drop, List.length_map, List.length_range]
    omega
  · simp only [countdown, List.getElem_take, List.getElem_drop, List.getElem_map, List.getElem_range]
    omega

theorem countsDown_log (h : Catalog.HistorySound c) (projectId : Int) :
    CountsDown c projectId (c.log projectId) (c.countCommits projectId) 1 where
  own k hk := List.mem_reverse.mp (h.log_eq projectId ▸ hk)
  numbers := by
    rw [h.log_eq, List.map_reverse, h.sequences projectId, List.length_map]
    exact reverse_range_eq_countdown _

theorem listCommits_eq (c : Catalog) (projectId : Int) (offset size : Nat) :
    c.listCommits projectId offset size = ((c.log projectId).drop offset).take size := by
  rw [Catalog.listCommits, if_neg (Int.not_lt.mpr (Int.natCast_nonneg size))]
  rfl

theorem countsDown_page (h : Catalog.HistorySound c) (projectId : Int) (offset size : Nat) :
    CountsDown c projectId (c.listCommits projectId offset size) (c.countCommits projectId - offset)
      (max 1 ((c.countCommits projectId : Int) - offset - size + 1)) := by
  have hlog := countsDown_log h projectId
  rw [listCommits_eq]
  refine ⟨fun k hk => hlog.own k (List.mem_of_mem_drop (List.mem_of_mem_take hk)), ?_⟩
  rw [List.map_take, List.map_drop, hlog.numbers, countdown_drop_take]

theorem exists_log_eq (h : Catalog.HistorySound c) (ht : Catalog.Tallied c) (hproject : (c.project? projectId).isSome) :
    ∃ newer initial, c.log projectId = newer ++ [initial] ∧ initial.sequenceNumber = 1 ∧
      initial.fileCount = 0 ∧ c.commitRevisions initial.commitId = [] := by
  obtain ⟨initial, later, hcommits⟩ := List.exists_cons_of_ne_nil (h.founded projectId hproject)
  have hnumbered := h.sequences projectId
  rw [hcommits, List.map_cons] at hnumbered
  have hone := hnumbered.head_eq
  have hmem : initial ∈ c.commits := (Catalog.mem_commitsOf.mp (hcommits ▸ List.mem_cons_self)).1
  have hnone := ht.first initial hmem hone
  refine ⟨later.reverse, initial, by rw [h.log_eq, hcommits, List.reverse_cons], hone, hnone, ?_⟩
  have hcount := ht.counts initial hmem
  exact List.length_eq_zero_iff.mp (by omega)

/-! ### Reading pages -/

theorem perform_history (hread : AccessLevel.read ≤ s.catalog.projectAccess user projectId) (offset : Nat) :
    perform (history settings user projectId offset) s =
      (.ok ⟨s.catalog.countCommits projectId, offset,
        s.catalog.listCommits projectId offset settings.historyPageSize⟩, s) := by
  have hoffset : ¬(offset : Int) < 0 := Int.not_lt.mpr (Int.natCast_nonneg offset)
  rw [history, if_neg hoffset, perform_bind_ok (perform_requireAccess_ok hread),
    perform_bind_ok (perform_askCatalog_ok rfl), perform_bind_ok (perform_askCatalog_ok rfl)]
  rfl

theorem perform_readPages (hread : AccessLevel.read ≤ s.catalog.projectAccess user projectId) (offset count : Nat) :
    perform (readPages settings user projectId offset count) s =
      (.ok (((s.catalog.log projectId).drop offset).take (count * settings.historyPageSize)), s) := by
  induction count generalizing offset with
  | zero =>
    rw [Nat.zero_mul, List.take_zero]
    rfl
  | succ count ih =>
    have hrest := ih (offset + settings.historyPageSize)
    rw [Int.natCast_add] at hrest
    have hsplit : (count + 1) * settings.historyPageSize =
        settings.historyPageSize + count * settings.historyPageSize := by
      rw [Nat.succ_mul, Nat.add_comm]
    rw [readPages, perform_bind_ok (perform_history hread offset), perform_bind_ok hrest, listCommits_eq, hsplit,
      List.take_add, List.drop_drop]
    rfl

/-- **A page of the log of a project with `n` commits has those with the numbers from `n` less the offset on down, as
many as a page takes and not past 1. Pages one after another from the newest commit on, enough of them, are the whole
log: every commit of the project once, down to the first, which made no revisions.** -/
theorem reachable_pages (requests : List Catalog.Request) (objects : Objects.ObjectStore) (settings : Settings)
    (user : String) (projectId : Int) :
    let c := Catalog.empty.after requests
    let s : Stores := ⟨c, objects⟩
    let n : Int := c.countCommits projectId
    let size : Int := settings.historyPageSize
    AccessLevel.read ≤ c.projectAccess user projectId →
      (∀ offset : Int, 0 ≤ offset →
        ∃ commits, perform (history settings user projectId offset) s = (.ok ⟨n, offset, commits⟩, s) ∧
          CountsDown c projectId commits (n - offset) (max 1 (n - offset - size + 1))) ∧
      ∀ count : Nat, n ≤ count * size →
        ∃ newer initial, perform (readPages settings user projectId 0 count) s = (.ok (newer ++ [initial]), s) ∧
          CountsDown c projectId (newer ++ [initial]) n 1 ∧
          (newer ++ [initial]).Perm (c.commitsOf projectId) ∧ (newer ++ [initial]).Nodup ∧
          initial.sequenceNumber = 1 ∧ initial.fileCount = 0 ∧ c.commitRevisions initial.commitId = [] := by
  intro c s n size hread
  have h : Catalog.HistorySound c := Catalog.historySound_after requests
  refine ⟨fun offset hoffset => ?_, fun count hcount => ?_⟩
  · lift offset to Nat using hoffset
    exact ⟨_, perform_history (s := s) hread offset, countsDown_page h projectId offset _⟩
  · obtain ⟨newer, initial, hlog, hinitial⟩ :=
      exists_log_eq h (Catalog.tallied_after requests) (h.project_of_access hread)
    have hperm : (c.log projectId).Perm (c.commitsOf projectId) := h.log_eq projectId ▸ List.reverse_perm _
    have hnodup : (c.commitsOf projectId).Nodup := (h.ascending_commitsOf projectId).imp fun hlt heq => by
      subst heq
      omega
    have hall : (c.log projectId).length ≤ count * settings.historyPageSize := by
      have hlength : (c.log projectId).length = c.countCommits projectId := hperm.length_eq
      rw [hlength]
      exact Int.ofNat_le.mp (by rwa [Int.natCast_mul])
    have hpages : perform (readPages settings user projectId 0 count) s =
        (.ok (((c.log projectId).drop 0).take (count * settings.historyPageSize)), s) :=
      perform_readPages (s := s) hread 0 count
    rw [List.drop_zero, List.take_of_length_le hall, hlog] at hpages
    have hcounts := countsDown_log h projectId
    rw [hlog] at hperm hcounts
    exact ⟨newer, initial, hpages, hcounts, hperm, hperm.nodup_iff.mpr hnodup, hinitial⟩

/-- Three commits on pages of two. -/
theorem reachable_pages_three :
    let requests : List Catalog.Request :=
      [.createProject "team" "title" "ann" .epoch, .createCommit ⟨1, "ann", "second", [], .epoch⟩,
        .createCommit ⟨1, "ann", "third", [], .epoch⟩]
    let s : Stores := ⟨Catalog.empty.after requests, .files ⟨⟨[]⟩, [], ⟨[], ""⟩, [], 0⟩⟩
    ∃ newest older, perform (history ⟨0, 0, 2⟩ "ann" 1 0) s = (.ok ⟨3, 0, newest⟩, s) ∧
      newest.map CommitSummary.sequenceNumber = [3, 2] ∧
      perform (history ⟨0, 0, 2⟩ "ann" 1 2) s = (.ok ⟨3, 2, older⟩, s) ∧
      older.map CommitSummary.sequenceNumber = [1] ∧
      ∃ log, perform (readPages ⟨0, 0, 2⟩ "ann" 1 0 2) s = (.ok log, s) ∧
        log.map CommitSummary.sequenceNumber = [3, 2, 1] := by
  intro requests s
  have hread : AccessLevel.read ≤ s.catalog.projectAccess "ann" 1 := by decide +kernel
  have hcount : s.catalog.countCommits 1 = 3 := by decide +kernel
  obtain ⟨hpages, hlog⟩ := reachable_pages requests s.objects ⟨0, 0, 2⟩ "ann" 1 hread
  obtain ⟨newest, hnewest, hfirst⟩ := hpages 0 (by decide)
  obtain ⟨older, holder, hsecond⟩ := hpages 2 (by decide)
  obtain ⟨newer, initial, hall, hcounts, _⟩ := hlog 2 (by decide +kernel)
  have hthree : ((Catalog.empty.after requests).countCommits 1 : Int) = 3 := congrArg Nat.cast hcount
  rw [hthree] at hnewest holder hfirst hsecond hcounts
  exact ⟨newest, older, hnewest, hfirst.numbers, holder, hsecond.numbers, _, hall, hcounts.numbers⟩

end Depot.Service
