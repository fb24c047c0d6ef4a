import Mathlib.Data.List.Nodup
import Mathlib.Data.List.Perm.Subperm
import Mathlib.Data.List.Sort
import Depot.Catalog.Commits

/-!
# Lists of rows

Facts about the lists that tables and their columns are read as: the greatest number of a column, texts named
once each, and rows in the order of a column that numbers them `0, 1, …`.
-/

namespace Depot.Catalog

/-! ### The greatest number -/

theorem greatest?_eq_max? (numbers : List Int) : greatest? numbers = numbers.max? := by
  have hrest : ∀ (rest : List Int) (best : Int),
      rest.foldl (fun best n => some (best.elim n (max n))) (some best) = some (rest.foldl max best) := by
    intro rest
    induction rest with
    | nil => intro best; rfl
    | cons n rest ih =>
      intro best
      rw [List.foldl_cons, List.foldl_cons, Int.max_comm best n]
      exact ih (max n best)
  cases numbers with
  | nil => rfl
  | cons n rest => exact hrest rest n

theorem greatest?_eq_some_iff {numbers : List Int} {n : Int} :
    greatest? numbers = some n ↔ n ∈ numbers ∧ ∀ m ∈ numbers, m ≤ n := by
  rw [greatest?_eq_max?, List.max?_eq_some_iff]

theorem greatest?_eq_none_iff {numbers : List Int} : greatest? numbers = none ↔ numbers = [] := by
  rw [greatest?_eq_max?, List.max?_eq_none_iff]

theorem greatest?_of_forall_eq {numbers : List Int} {n : Int} (hne : numbers ≠ [])
    (h : ∀ m ∈ numbers, m = n) : greatest? numbers = some n := by
  obtain ⟨m, hm⟩ := List.exists_mem_of_ne_nil numbers hne
  exact greatest?_eq_some_iff.mpr ⟨h m hm ▸ hm, fun k hk => Int.le_of_eq (h k hk)⟩

/-! ### Values named once each -/

theorem nodup_eraseDups {α : Type} [BEq α] [LawfulBEq α] (xs : List α) : xs.eraseDups.Nodup := by
  match xs with
  | [] => simp
  | x :: rest =>
    rw [List.eraseDups_cons, List.nodup_cons]
    refine ⟨fun hmem => ?_, nodup_eraseDups _⟩
    simpa using (List.mem_filter.mp (List.mem_eraseDups.mp hmem)).2
termination_by xs.length
decreasing_by
  have := List.length_filter_le (fun y => !y == x) rest
  simp only [List.length_cons]
  omega

theorem eraseDups_of_nodup {α : Type} [BEq α] [LawfulBEq α] {xs : List α} (h : xs.Nodup) : xs.eraseDups = xs := by
  induction xs with
  | nil => rfl
  | cons x rest ih =>
    obtain ⟨hx, hrest⟩ := List.nodup_cons.mp h
    have hkeep : rest.filter (fun y => !y == x) = rest := by
      apply List.filter_eq_self.mpr
      intro y hy
      have hne : y ≠ x := fun heq => hx (heq ▸ hy)
      simpa using hne
    rw [List.eraseDups_cons, hkeep, ih hrest]

theorem eraseDups_map {α β : Type} [BEq α] [LawfulBEq α] [BEq β] [LawfulBEq β] {f : α → β}
    (hf : ∀ {a b}, f a = f b → a = b) (xs : List α) : (xs.map f).eraseDups = xs.eraseDups.map f := by
  match xs with
  | [] => rfl
  | x :: rest =>
    have hsame : (fun y => !y == f x) ∘ f = fun y => !y == x := by
      funext y
      have hiff : f y = f x ↔ y = x := ⟨fun h => hf h, fun h => h ▸ rfl⟩
      simp only [Function.comp_apply, Bool.not_eq_eq_eq_not, Bool.not_not]
      rw [Bool.eq_iff_iff, beq_iff_eq, beq_iff_eq]
      exact hiff
    rw [List.map_cons, List.eraseDups_cons, List.eraseDups_cons, List.filter_map, hsame, eraseDups_map hf,
      List.map_cons]
termination_by xs.length
decreasing_by
  have := List.length_filter_le (fun y => !y == x) rest
  simp only [List.length_cons]
  omega

theorem filter_eq_singleton {α : Type} {key : α → String} {rows : List α} (hdistinct : (rows.map key).Nodup)
    {row : α} (hrow : row ∈ rows) : rows.filter (fun other => key other == key row) = [row] := by
  induction rows with
  | nil => simp at hrow
  | cons first rest ih =>
    obtain ⟨hfirst, hrest⟩ := List.nodup_cons.mp hdistinct
    rcases List.mem_cons.mp hrow with rfl | hrow
    · have hnone : rest.filter (fun other => key other == key row) = [] := by
        refine List.filter_eq_nil_iff.mpr fun other hother heq => hfirst ?_
        rw [← beq_iff_eq.mp heq]
        exact List.mem_map_of_mem hother
      simp [hnone]
    · have hne : key first ≠ key row := fun heq => hfirst (heq ▸ List.mem_map_of_mem hrow)
      rw [List.filter_cons_of_neg (by simpa using hne), ih hrest hrow]

theorem find?_eq_some_of_only {α : Type} {rows : List α} {p : α → Bool} {row : α} (hrow : row ∈ rows) (hp : p row)
    (honly : ∀ other ∈ rows, p other → other = row) : rows.find? p = some row := by
  cases hfound : rows.find? p with
  | none => exact absurd hp (List.find?_eq_none.mp hfound row hrow)
  | some other => rw [honly other (List.mem_of_find?_eq_some hfound) (List.find?_some hfound)]

theorem mem_sortedDistinct {texts : List String} {text : String} : text ∈ sortedDistinct texts ↔ text ∈ texts := by
  simp [sortedDistinct]

theorem ascending_sortedDistinct (texts : List String) : (sortedDistinct texts).Pairwise (· < ·) := by
  have hsorted : (sortedDistinct texts).Pairwise (· ≤ ·) :=
    (List.pairwise_mergeSort (fun a b d hab hbd => by
      simp only [decide_eq_true_eq] at *
      exact String.le_trans hab hbd) (fun a b => by simpa using String.le_total a b) _).imp fun h => by
        simpa using h
  have hnodup : (sortedDistinct texts).Nodup :=
    (List.mergeSort_perm _ _).nodup_iff.mpr (nodup_eraseDups texts)
  refine (hsorted.and hnodup).imp fun {a b} h => ?_
  by_contra hlt
  exact h.2 (String.le_antisymm h.1 (String.not_lt.mp hlt))

/-! ### Rows in the order of their indexes -/

theorem byIndex_trans (a b d : Chunk) (hab : byIndex a b = true) (hbd : byIndex b d = true) :
    byIndex a d = true := by
  simp only [byIndex, decide_eq_true_eq] at *
  omega

theorem byIndex_total (a b : Chunk) : (byIndex a b || byIndex b a) = true := by
  simp only [byIndex, Bool.or_eq_true, decide_eq_true_eq]
  omega

theorem eq_of_ascending {xs ys : List Int} (hxs : xs.Pairwise (· < ·)) (hys : ys.Pairwise (· < ·))
    (h : xs.Perm ys) : xs = ys :=
  h.eq_of_pairwise (fun a b _ _ hab hba => absurd hab (by omega)) hxs hys

theorem eq_of_ascending_by {α κ : Type} [LT κ] [Std.Asymm (α := κ) (· < ·)] (column : α → κ) {xs ys : List α}
    (hxs : xs.Pairwise fun a b => column a < column b) (hys : ys.Pairwise fun a b => column a < column b)
    (h : ∀ a, a ∈ xs ↔ a ∈ ys) : xs = ys :=
  List.Pairwise.eq_of_mem_iff (r := InvImage (· < ·) column) hxs hys h

theorem ascending_range (n : Nat) : ((List.range n).map Int.ofNat).Pairwise (· < ·) :=
  List.pairwise_map.mpr (List.pairwise_lt_range.imp fun h => Int.ofNat_lt.mpr h)

theorem indexes_subperm {rows : List Chunk} {n : Nat} (hinside : ∀ k ∈ rows, 0 ≤ k.index ∧ k.index < n)
    (hdistinct : (rows.map Chunk.index).Nodup) :
    (rows.map Chunk.index).Subperm ((List.range n).map Int.ofNat) := by
  apply List.subperm_of_subset hdistinct
  intro i hi
  obtain ⟨k, hk, rfl⟩ := List.mem_map.mp hi
  have := hinside k hk
  exact List.mem_map.mpr ⟨k.index.toNat, List.mem_range.mpr (by omega), by simp; omega⟩

theorem length_le_of_indexes {rows : List Chunk} {n : Nat} (hinside : ∀ k ∈ rows, 0 ≤ k.index ∧ k.index < n)
    (hdistinct : (rows.map Chunk.index).Nodup) : rows.length ≤ n := by
  simpa using (indexes_subperm hinside hdistinct).length_le

/-- Rows with as many distinct indexes below `n` as there can be have the indexes `0, …, n - 1` in order. -/
theorem indexes_mergeSort {rows : List Chunk} {n : Nat} (hinside : ∀ k ∈ rows, 0 ≤ k.index ∧ k.index < n)
    (hdistinct : (rows.map Chunk.index).Nodup) (hall : rows.length = n) :
    (rows.mergeSort byIndex).map Chunk.index = (List.range n).map Int.ofNat := by
  have hperm : ((rows.mergeSort byIndex).map Chunk.index).Perm (rows.map Chunk.index) :=
    (List.mergeSort_perm rows byIndex).map Chunk.index
  have hsorted : ((rows.mergeSort byIndex).map Chunk.index).Pairwise (· ≤ ·) :=
    List.pairwise_map.mpr ((List.pairwise_mergeSort byIndex_trans byIndex_total rows).imp fun h => by
      simpa [byIndex] using h)
  have hascending : ((rows.mergeSort byIndex).map Chunk.index).Pairwise (· < ·) :=
    (hsorted.and (hperm.nodup_iff.mpr hdistinct)).imp fun h => Int.lt_iff_le_and_ne.mpr h
  refine eq_of_ascending hascending (ascending_range _) (hperm.trans ?_)
  exact (indexes_subperm hinside hdistinct).perm_of_length_le (by simp [hall])

end Depot.Catalog
