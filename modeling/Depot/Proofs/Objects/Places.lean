import Depot.Objects.Files
import Depot.Proofs.Objects.LinkFree

/-!
# Places of keys

Where a store looks for the object of a key. Without links below the root nothing leads out of it, so a key that can be
read has its place unless the volume itself fails (`FileStore.locate_eq`).
-/

namespace Depot.Objects

open Volume

namespace Volume

variable {v : Volume} {root real q r : Path} {e : Entry}

theorem LinkFree.checkInside_eq (h : LinkFree v root real) (key : String) {asDirectory : Bool}
    (hroot : q = [] → asDirectory = false) (hthere : v.stat false ⟨root ++ q, asDirectory⟩ = .ok (r, e)) :
    FileStore.checkInside v real key ⟨root ++ q, asDirectory⟩ e = .ok () := by
  by_cases hq : q = []
  · rw [hroot hq, hq, List.append_nil, FileStore.checkInside, h.stat_root]
    exact if_pos (List.isPrefixOf_iff_prefix.mpr (List.prefix_refl real))
  · rw [h.stat_follow_eq hq] at hthere
    obtain ⟨rfl, _⟩ := h.of_stat hq hthere
    rw [FileStore.checkInside, hthere]
    exact if_pos (List.isPrefixOf_iff_prefix.mpr (List.prefix_append real q))

theorem exists_stat_behind (hroot : v.stat true ⟨root, false⟩ = .ok (real, e)) (he : e ≠ .directory) (hq : q ≠ [])
    (follow asDirectory : Bool) :
    ∃ fault, fault ≠ .missing ∧ v.stat follow ⟨root ++ q, asDirectory⟩ = .error fault := by
  obtain ⟨hresolve, hthere⟩ := stat_eq_ok hroot
  obtain ⟨_, hwalk⟩ := resolve_eq_ok hresolve
  rw [stat, resolve, walk_behind hthere he hwalk hq]
  split
  · exact ⟨.nameTooLong, by decide, rfl⟩
  · exact ⟨.notDirectory, by decide, rfl⟩

end Volume

namespace FileStore

variable {s : FileStore} {real : Path} {e : Entry} {key : String} {k : Key}

/-! ### On the way back -/

/-- A place behind a root and what is on the way back to the root. -/
def wayBack (root p : Path) (asDirectory : Bool) : List Location :=
  ⟨root ++ p, asDirectory⟩ :: (List.range p.length).reverse.map fun n => ⟨root ++ p.take n, false⟩

theorem root_mem_wayBack {p : Path} (hp : p ≠ []) (root : Path) (asDirectory : Bool) :
    ⟨root, false⟩ ∈ wayBack root p asDirectory := by
  refine List.mem_cons_of_mem _ (List.mem_map.mpr ⟨0, ?_, by rw [List.take_zero, List.append_nil]⟩)
  simpa using List.length_pos_iff.mpr hp

theorem of_mem_wayBack {root p : Path} {asDirectory : Bool} {l : Location} (hl : l ∈ wayBack root p asDirectory) :
    l = ⟨root ++ p, asDirectory⟩ ∨ ∃ n, l = ⟨root ++ p.take n, false⟩ := by
  rcases List.mem_cons.mp hl with rfl | hl
  · exact .inl rfl
  · obtain ⟨n, _, rfl⟩ := List.mem_map.mp hl
    exact .inr ⟨n, rfl⟩

theorem ancestry_append (root p : Path) (asDirectory : Bool) :
    ∃ rest, ancestry ⟨root ++ p, asDirectory⟩ = wayBack root p asDirectory ++ rest := by
  refine ⟨(List.range root.length).reverse.map fun n => ⟨(root ++ p).take n, false⟩, ?_⟩
  rw [ancestry, wayBack, List.length_append, List.range_add, List.reverse_append, List.map_append, ← List.map_reverse,
    List.map_map]
  simp [Function.comp_def, List.take_append, List.take_of_length_le]

/-- If something stands at one of the locations that come first, it or something before it is found, or the volume
fails on the way. -/
theorem nearest?_append {v : Volume} {first : List Location} (rest : List Location)
    (hsome : ∃ l ∈ first, ∃ found, v.stat false l = .ok found) :
    (∃ l ∈ first, ∃ fault, fault ≠ .missing ∧ v.stat false l = .error fault ∧
        nearest? v (first ++ rest) = .error fault) ∨
      ∃ l ∈ first, ∃ q e, v.stat false l = .ok (q, e) ∧ nearest? v (first ++ rest) = .ok (some (l, e)) := by
  induction first with
  | nil =>
    obtain ⟨l, hl, _⟩ := hsome
    cases hl
  | cons l first ih =>
    rw [List.cons_append, nearest?]
    cases hstat : v.stat false l with
    | ok found => exact .inr ⟨l, List.mem_cons_self, found.1, found.2, hstat, rfl⟩
    | error fault =>
      by_cases hfault : fault = .missing
      · subst hfault
        have hlater : ∃ m ∈ first, ∃ found, v.stat false m = .ok found := by
          obtain ⟨m, hm, found, hthere⟩ := hsome
          rcases List.mem_cons.mp hm with rfl | hm
          · rw [hstat] at hthere
            cases hthere
          · exact ⟨m, hm, found, hthere⟩
        rcases ih hlater with ⟨m, hm, hfail⟩ | ⟨m, hm, hfound⟩
        · exact .inl ⟨m, List.mem_cons_of_mem l hm, hfail⟩
        · exact .inr ⟨m, List.mem_cons_of_mem l hm, hfound⟩
      · refine .inl ⟨l, List.mem_cons_self, fault, hfault, hstat, ?_⟩
        cases fault with
        | missing => exact absurd rfl hfault
        | _ => rfl

theorem exists_inside {v : Volume} {root q : Path} {asDirectory : Bool} (h : LinkFree v root real) (hq : q ≠ [])
    {found : Option (Location × Entry)} (hfound : nearest? v (ancestry ⟨root ++ q, asDirectory⟩) = .ok found) :
    ∃ l e, found = some (l, e) ∧ ∀ key, checkInside v real key l e = .ok () := by
  obtain ⟨rest, hancestry⟩ := ancestry_append root q asDirectory
  obtain ⟨r, e, hthere⟩ := h.exists_stat_root
  rw [hancestry] at hfound
  rcases nearest?_append rest ⟨_, root_mem_wayBack hq root asDirectory, _, hthere⟩ with
    ⟨l, _, fault, _, _, hfail⟩ | ⟨l, hl, r, e, hthere, hnearest⟩
  · rw [hfail] at hfound
    cases hfound
  · rw [hnearest] at hfound
    refine ⟨l, e, (Except.ok.inj hfound).symm, fun key => ?_⟩
    rcases of_mem_wayBack hl with rfl | ⟨n, rfl⟩
    · exact h.checkInside_eq key (fun hnil => absurd hnil hq) hthere
    · exact h.checkInside_eq key (fun _ => rfl) hthere

/-! ### Places -/

/-- The place that a key which is read as `k` has, unless the volume fails on the way there. -/
def placeOf (s : FileStore) (key : String) (k : Key) : Except ObjectError Location :=
  if key.toList.contains (Char.ofNat 0) then .error (.io "file name contained an unexpected NUL byte")
  else
    match nearest? s.volume (ancestry (s.locationOf k)) with
    | .error fault => .error (io fault)
    | .ok _ => .ok (s.locationOf k)

variable (hroot : s.volume.stat true ⟨s.root, false⟩ = .ok (real, e)) (hnames : k.names ≠ [])
include hroot hnames

theorem exists_nearest?_eq_error (he : e ≠ .directory) :
    ∃ fault, nearest? s.volume (ancestry (s.locationOf k)) = .error fault := by
  obtain ⟨fault, hfault, hstat⟩ :=
    exists_stat_behind hroot he (fun hnil => hnames (List.map_eq_nil_iff.mp hnil)) false k.asDirectory
  rw [locationOf, ancestry, nearest?, hstat]
  cases fault with
  | missing => exact absurd rfl hfault
  | _ => exact ⟨_, rfl⟩

theorem placeOf_eq_error (he : e ≠ .directory) : ∃ detail, s.placeOf key k = .error (.io detail) := by
  obtain ⟨fault, hnearest⟩ := exists_nearest?_eq_error hroot hnames he
  rw [placeOf, hnearest]
  split
  · exact ⟨_, rfl⟩
  · exact ⟨_, rfl⟩

/-- **A key that can be read has its place**, and nothing on the way there leads out of the root. -/
theorem locate_eq (hlinks : NoLinksBelow s.volume real) (hparse : Key.parse key = .ok k) :
    s.locate key = s.placeOf key k := by
  rw [locate, hparse, ok_bind, placeOf]
  dsimp only
  split
  · rfl
  · rw [hroot]
    dsimp only
    cases hnearest : nearest? s.volume (ancestry (s.locationOf k)) with
    | error fault => rfl
    | ok found =>
      by_cases he : e = .directory
      · obtain ⟨l, e, rfl, hinside⟩ := exists_inside (linkFree_of_stat (he ▸ hroot) hlinks)
          (fun hnil => hnames (List.map_eq_nil_iff.mp hnil)) hnearest
        dsimp only
        rw [hinside]
        rfl
      · obtain ⟨fault, hfail⟩ := exists_nearest?_eq_error hroot hnames he
        rw [hnearest] at hfail
        cases hfail

end FileStore

end Depot.Objects
