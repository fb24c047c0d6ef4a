import Depot.Objects.Volume
import Depot.Proofs.Outcome

/-!
# Walks on a volume

- What `set` and `erase` leave at each path.
- `Leads`: how a path that may have links on it leads to a directory, said without `walk`. A walk that goes on
  behind such a path goes on from the directory.
- What happens below a directory does not change what leads to it (`Leads.congr`).
-/

namespace Depot.Objects.Volume

variable {v w : Volume} {p q : Path} {e : Entry}

/-! ### Entries -/

@[simp] theorem entry?_nil (v : Volume) : v.entry? [] = some .directory := rfl

theorem lookup_filter_ne {α β : Type} [BEq α] [LawfulBEq α] [DecidableEq α] {p q : α} {entries : List (α × β)} :
    (entries.filter fun entry => entry.1 ≠ p).lookup q = if q = p then none else entries.lookup q := by
  induction entries with
  | nil => simp
  | cons first rest ih =>
    obtain ⟨r, e⟩ := first
    by_cases hr : r = p
    · subst hr
      rw [List.filter_cons_of_neg (by simp), ih]
      by_cases hq : q = r
      · simp [hq]
      · simp [hq, List.lookup_cons, beq_eq_false_iff_ne.mpr hq]
    · rw [List.filter_cons_of_pos (by simpa using hr), List.lookup_cons, List.lookup_cons, ih]
      by_cases hq : q = r
      · simp [hq, hr]
      · simp [beq_eq_false_iff_ne.mpr hq]

theorem entry?_erase (v : Volume) (hp : p ≠ []) : entry? (v.erase p) q = if q = p then none else v.entry? q := by
  by_cases hq : q = []
  · rw [hq, if_neg (Ne.symm hp)]
    rfl
  · rw [ entry?, if_neg hq, entry?, if_neg hq]
    exact lookup_filter_ne

theorem entry?_set (v : Volume) (hp : p ≠ []) : entry? (v.set p e) q = if q = p then some e else v.entry? q := by
  by_cases hpq : q = p
  · rw [ entry?, if_neg (by rw [hpq]; exact hp), if_pos hpq]
    simp [set, hpq]
  · by_cases hq : q = []
    · rw [if_neg hpq, hq]
      rfl
    · have herase := entry?_erase (q := q) v hp
      rw [if_neg hpq] at herase ⊢
      rw [← herase, entry?, if_neg hq, entry?, if_neg hq]
      simp [set, List.lookup_cons, beq_eq_false_iff_ne.mpr hpq]

theorem entry?_set_below {dir : Path} (v : Volume) (hp : p ≠ []) :
    entry? (v.set (dir ++ p) e) (dir ++ q) = if q = p then some e else v.entry? (dir ++ q) := by
  rw [entry?_set v (by simp [hp])]
  simp only [List.append_cancel_left_eq]

theorem entry?_erase_below {dir : Path} (v : Volume) (hp : p ≠ []) :
    entry? (v.erase (dir ++ p)) (dir ++ q) = if q = p then none else v.entry? (dir ++ q) := by
  rw [entry?_erase v (by simp [hp])]
  simp only [List.append_cancel_left_eq]

@[simp] theorem pathSize_nil : pathSize [] = 0 := rfl

theorem foldl_pathSize (p : Path) (size : Nat) :
    p.foldl (fun size name => size + name.size + 1) size = size + pathSize p := by
  induction p generalizing size with
  | nil => rfl
  | cons name rest ih =>
    rw [pathSize, List.foldl_cons, List.foldl_cons, ih, ih (0 + name.size + 1)]
    omega

theorem pathSize_append (p q : Path) : pathSize (p ++ q) = pathSize p + pathSize q := by
  rw [pathSize, List.foldl_append, foldl_pathSize q]
  rfl

/-! ### Below a directory -/

/-- A path that leads from a directory to something in it. -/
def Below (dir p : Path) : Prop := ∃ name rest, p = dir ++ name :: rest

theorem Below.append {dir : Path} (h : Below dir p) (q : Path) : Below dir (p ++ q) := by
  obtain ⟨name, rest, rfl⟩ := h
  exact ⟨name, rest ++ q, by simp⟩

theorem below_append {dir : Path} (hp : p ≠ []) : Below dir (dir ++ p) := by
  obtain ⟨name, rest, rfl⟩ := List.exists_cons_of_ne_nil hp
  exact ⟨name, rest, rfl⟩

theorem Below.ne_nil {dir : Path} (h : Below dir p) : p ≠ [] := by
  obtain ⟨name, rest, rfl⟩ := h
  simp

theorem not_below_self {dir : Path} : ¬Below dir dir := by
  rintro ⟨name, rest, heq⟩
  exact absurd (congrArg List.length heq) (by simp)

/-- No link stands below a directory. -/
def NoLinksBelow (v : Volume) (dir : Path) : Prop := ∀ p target, Below dir p → v.entry? p ≠ some (.link target)

/-- Two volumes are the same but for what is below a directory. -/
def SameOutside (dir : Path) (v w : Volume) : Prop := ∀ p, ¬Below dir p → w.entry? p = v.entry? p

theorem SameOutside.trans {dir : Path} {u : Volume} (huv : SameOutside dir u v) (hvw : SameOutside dir v w) :
    SameOutside dir u w := fun p hp => (hvw p hp).trans (huv p hp)

theorem sameOutside_set {dir : Path} (hp : Below dir p) : SameOutside dir v (v.set p e) := by
  intro q hq
  rw [entry?_set v hp.ne_nil, if_neg fun heq : q = p => hq (by rw [heq]; exact hp)]

theorem sameOutside_erase {dir : Path} (hp : Below dir p) : SameOutside dir v (v.erase p) := by
  intro q hq
  rw [entry?_erase v hp.ne_nil, if_neg fun heq : q = p => hq (by rw [heq]; exact hp)]

/-! ### What a path leads to -/

/-- From a directory, and with so many links to follow, a path leads to the directory `real` with some links
left. Nothing on the way is below `real`. -/
inductive Leads (v : Volume) (real : Path) : Nat → Path → Path → Nat → Prop where
  | here {links : Nat} : Leads v real links real [] links
  | step {links left : Nat} {dir rest : Path} {name : Name} (directory : v.entry? dir = some .directory)
    (short : name.size ≤ maxName) (there : v.entry? (dir ++ [name]) = some .directory)
    (outside : ¬Below real (dir ++ [name])) (onward : Leads v real links (dir ++ [name]) rest left) :
    Leads v real links dir (name :: rest) left
  | link {links left : Nat} {dir rest target : Path} {name : Name} (directory : v.entry? dir = some .directory)
    (short : name.size ≤ maxName) (there : v.entry? (dir ++ [name]) = some (.link target))
    (outside : ¬Below real (dir ++ [name])) (onward : Leads v real links [] (target ++ rest) left) :
    Leads v real (links + 1) dir (name :: rest) left

variable {real dir rest : Path} {links left : Nat} {name : Name} {follow : Bool}

theorem Leads.congr (h : Leads v real links dir p left) (hsame : SameOutside real v w) :
    Leads w real links dir p left := by
  induction h with
  | here => exact .here
  | step directory short there outside _ ih =>
    have hdir := hsame _ fun hbelow => outside (hbelow.append _)
    exact .step (hdir.trans directory) short ((hsame _ outside).trans there) outside ih
  | link directory short there outside _ ih =>
    have hdir := hsame _ fun hbelow => outside (hbelow.append _)
    exact .link (hdir.trans directory) short ((hsame _ outside).trans there) outside ih

/-! ### One step of a walk -/

theorem walk_nil : v.walk follow links dir [] = .ok dir := by
  rw [walk]

theorem walk_directory (hdir : v.entry? dir = some .directory) (hshort : name.size ≤ maxName)
    (hthere : v.entry? (dir ++ [name]) = some e) (hlink : ∀ target, e ≠ .link target) :
    v.walk follow links dir (name :: rest) = v.walk follow links (dir ++ [name]) rest := by
  rw [walk, if_neg (by simp [hdir]), if_neg (by omega), hthere]
  cases e with
  | link target => exact absurd rfl (hlink target)
  | directory => rfl
  | file data => rfl

theorem walk_link {target : Path} (hdir : v.entry? dir = some .directory) (hshort : name.size ≤ maxName)
    (hthere : v.entry? (dir ++ [name]) = some (.link target)) (hfollow : rest ≠ [] ∨ follow = true) :
    v.walk follow (links + 1) dir (name :: rest) = v.walk follow links [] (target ++ rest) := by
  rw [walk, if_neg (by simp [hdir]), if_neg (by omega), hthere]
  dsimp only
  rw [if_neg]
  rintro ⟨hrest, hnot⟩
  simp [hrest, hnot] at hfollow

theorem walk_last (hdir : v.entry? dir = some .directory) (hshort : name.size ≤ maxName)
    (hthere : v.entry? (dir ++ [name]) = none) : v.walk follow links dir [name] = .ok (dir ++ [name]) := by
  rw [walk, if_neg (by simp [hdir]), if_neg (by omega), hthere]
  rfl

theorem walk_missing (hdir : v.entry? dir = some .directory) (hshort : name.size ≤ maxName)
    (hthere : v.entry? (dir ++ [name]) = none) (hrest : rest ≠ []) :
    v.walk follow links dir (name :: rest) = .error .missing := by
  rw [walk, if_neg (by simp [hdir]), if_neg (by omega), hthere]
  exact if_neg hrest

/-! ### Walks along a path that leads to a directory -/

theorem Leads.walk_append (h : Leads v real links dir p left) (hrest : follow = true ∨ rest ≠ []) :
    v.walk follow links dir (p ++ rest) = v.walk follow left real rest := by
  induction h with
  | here => rfl
  | step directory short there _ _ ih =>
    rw [List.cons_append, walk_directory directory short there (by simp), ih]
  | link directory short there _ _ ih =>
    rw [List.cons_append, walk_link directory short there, ← List.append_assoc, ih]
    rcases hrest with hfollow | hrest
    · exact .inr hfollow
    · exact .inl (by simp [hrest])

theorem Leads.walk_eq (h : Leads v real links dir p left) : v.walk true links dir p = .ok real := by
  have hwalk : v.walk true links dir (p ++ []) = v.walk true left real [] := h.walk_append (.inl rfl)
  rwa [List.append_nil, walk_nil] at hwalk

theorem Leads.exists_walk (h : Leads v real links dir p left) (hreal : v.entry? real = some .directory) :
    ∃ q e, v.walk false links dir p = .ok q ∧ v.entry? q = some e := by
  induction h with
  | here => exact ⟨real, _, walk_nil, hreal⟩
  | step directory short there _ _ ih =>
    rw [walk_directory directory short there (by simp)]
    exact ih
  | @link links left dir rest target name directory short there _ _ ih =>
    by_cases hrest : rest = []
    · subst hrest
      refine ⟨dir ++ [name], _, ?_, there⟩
      rw [walk, if_neg (by simp [directory]), if_neg (by omega), there]
      rfl
    · rw [walk_link directory short there (.inl hrest)]
      exact ih

theorem Leads.walk_take (h : Leads v real links dir (p ++ rest) left) (hreal : v.entry? real = some .directory) :
    ∃ q, v.walk true links dir p = .ok q ∧ v.entry? q = some .directory := by
  generalize hwhole : p ++ rest = whole at h
  induction h generalizing p with
  | here =>
    rw [(List.append_eq_nil_iff.mp hwhole).1]
    exact ⟨real, walk_nil, hreal⟩
  | @step links left dir tail name directory short there _ _ ih =>
    cases p with
    | nil => exact ⟨dir, walk_nil, directory⟩
    | cons first p =>
      obtain ⟨rfl, hrest⟩ := List.cons.inj hwhole
      rw [walk_directory directory short there (by simp)]
      exact ih hrest
  | @link links left dir tail target name directory short there _ _ ih =>
    cases p with
    | nil => exact ⟨dir, walk_nil, directory⟩
    | cons first p =>
      obtain ⟨rfl, hrest⟩ := List.cons.inj hwhole
      rw [walk_link directory short there (.inr rfl)]
      apply ih
      rw [List.append_assoc]
      exact congrArg (target ++ ·) hrest

theorem directory_of_walk (h : v.walk follow links dir p = .ok q) (hp : p ≠ []) : v.entry? dir = some .directory := by
  obtain ⟨name, rest, rfl⟩ := List.exists_cons_of_ne_nil hp
  rw [walk] at h
  apply Decidable.byContradiction
  intro hdir
  rw [if_pos hdir] at h
  cases h

/-! ### Walks where there are no links -/

theorem walk_cons_of_noLink (hlink : ∀ target, v.entry? (dir ++ [name]) ≠ some (.link target)) :
    v.walk follow links dir (name :: rest) =
      if v.entry? dir ≠ some .directory then .error .notDirectory
      else if maxName < name.size then .error .nameTooLong
      else if v.entry? (dir ++ [name]) = none then if rest = [] then .ok (dir ++ [name]) else .error .missing
      else v.walk follow links (dir ++ [name]) rest := by
  rw [walk]
  split
  · rfl
  · split
    · rfl
    · cases hthere : v.entry? (dir ++ [name]) with
      | none => rw [if_pos rfl]
      | some e =>
        rw [if_neg (Option.some_ne_none e)]
        cases e with
        | link target => exact absurd hthere (hlink target)
        | directory => rfl
        | file data => rfl

section NoLinks

variable (hlinks : NoLinksBelow v real)
include hlinks

theorem not_link_below (p : Path) (name : Name) (target : Path) :
    v.entry? (real ++ p ++ [name]) ≠ some (.link target) :=
  hlinks _ target (List.append_assoc real p [name] ▸ below_append (List.concat_ne_nil name p))

theorem eq_of_walk {r : Path} (h : v.walk follow links (real ++ p) q = .ok r) : r = real ++ (p ++ q) := by
  induction q generalizing p with
  | nil =>
    rw [walk_nil] at h
    rw [List.append_nil, Except.ok.inj h]
  | cons name q ih =>
    rw [walk_cons_of_noLink (not_link_below hlinks p name)] at h
    split at h
    · cases h
    · split at h
      · cases h
      · split at h
        · split at h
          · rename_i hq
            rw [hq, ← Except.ok.inj h, List.append_assoc]
          · cases h
        · rw [List.append_assoc] at h
          rw [ih h, List.append_assoc, List.singleton_append]

theorem walk_follow_eq (follow' : Bool) (links' : Nat) :
    v.walk follow links (real ++ p) q = v.walk follow' links' (real ++ p) q := by
  induction q generalizing p with
  | nil => rw [walk_nil, walk_nil]
  | cons name q ih =>
    have hlink := not_link_below hlinks p name
    rw [walk_cons_of_noLink hlink, walk_cons_of_noLink hlink, List.append_assoc, ih]

theorem walk_congr {r : Path} (hlinks' : NoLinksBelow w real)
    (hsame : ∀ a, a <+: q → a ≠ q → w.entry? (real ++ (p ++ a)) = v.entry? (real ++ (p ++ a)))
    (h : v.walk follow links (real ++ p) q = .ok r) : w.walk follow links (real ++ p) q = .ok r := by
  induction q generalizing p with
  | nil => rwa [walk_nil] at h ⊢
  | cons name q ih =>
    have hdir : w.entry? (real ++ p) = v.entry? (real ++ p) := by
      have hbase := hsame [] List.nil_prefix (by simp)
      rwa [List.append_nil] at hbase
    rw [walk_cons_of_noLink (not_link_below hlinks p name)] at h
    rw [walk_cons_of_noLink (not_link_below hlinks' p name), hdir]
    split at h
    · cases h
    · rw [if_neg ‹_›]
      split at h
      · cases h
      · rw [if_neg ‹_›]
        by_cases hq : q = []
        · subst hq
          rw [walk_nil, if_pos rfl, ite_self] at h ⊢
          exact h
        · have hnext : w.entry? (real ++ p ++ [name]) = v.entry? (real ++ p ++ [name]) := by
            rw [List.append_assoc]
            exact hsame [name] ⟨q, rfl⟩ (by simpa using Ne.symm hq)
          rw [hnext]
          split at h
          · cases h
          · rw [if_neg ‹_›]
            rw [List.append_assoc] at h ⊢
            refine ih (fun a ha hne => ?_) h
            have hlater := hsame (name :: a) (List.cons_prefix_cons.mpr ⟨rfl, ha⟩) (by simpa using hne)
            simpa using hlater

theorem exists_missing (h : v.walk follow links (real ++ p) q = .error .missing) :
    ∃ a, a ≠ [] ∧ a <+: q ∧ v.entry? (real ++ (p ++ a)) = none := by
  induction q generalizing p with
  | nil =>
    rw [walk_nil] at h
    cases h
  | cons name q ih =>
    rw [walk_cons_of_noLink (not_link_below hlinks p name)] at h
    split at h
    · cases h
    · split at h
      · cases h
      · split at h
        · rename_i hnone
          exact ⟨[name], by simp, ⟨q, rfl⟩, by rwa [← List.append_assoc]⟩
        · rw [List.append_assoc] at h
          obtain ⟨a, _, hprefix, hnone⟩ := ih h
          refine ⟨name :: a, by simp, List.cons_prefix_cons.mpr ⟨rfl, hprefix⟩, ?_⟩
          rwa [List.append_assoc, List.singleton_append] at hnone

theorem below_of_walk {r d : Path} (hd : Below real d) (h : v.walk follow links d q = .ok r) : Below real r := by
  obtain ⟨name, more, rfl⟩ := hd
  rw [eq_of_walk hlinks h]
  exact below_append (by simp)

theorem exists_leads (hreal : v.entry? real = some .directory) (h : v.walk true links dir p = .ok real) :
    ∃ left, Leads v real links dir p left := by
  -- A walk is led as long as no step looks below the last directory, from where only a link leads back.
  induction links, dir, p using walk.induct v true with
  | case1 links dir =>
    rw [walk_nil] at h
    rw [Except.ok.inj h]
    exact ⟨links, .here⟩
  | case2 links dir name rest hdir => exact absurd (directory_of_walk h (by simp)) hdir
  | case3 links dir name rest hdir hlong =>
    rw [walk, if_neg hdir, if_pos hlong] at h
    cases h
  | case4 links dir name hdir hlong hnone =>
    rw [walk_last (Decidable.not_not.mp hdir) (by omega) hnone] at h
    rw [Except.ok.inj h, hreal] at hnone
    cases hnone
  | case5 links dir name rest hdir hlong hnone hrest =>
    rw [walk_missing (Decidable.not_not.mp hdir) (by omega) hnone hrest] at h
    cases h
  | case6 links dir name rest hdir hlong target htarget hstop => exact absurd hstop.2 (by simp)
  | case7 dir name rest hdir hlong target htarget hgo =>
    rw [walk, if_neg hdir, if_neg hlong, htarget] at h
    dsimp only at h
    rw [if_neg hgo] at h
    cases h
  | case8 dir name rest hdir hlong target htarget hgo links ih =>
    rw [walk_link (Decidable.not_not.mp hdir) (by omega) htarget (.inr rfl)] at h
    obtain ⟨left, hleft⟩ := ih h
    exact ⟨left, .link (Decidable.not_not.mp hdir) (by omega) htarget (fun hbelow => hlinks _ target hbelow htarget)
      hleft⟩
  | case9 links dir name rest hdir hlong e hlink hthere ih =>
    rw [walk_directory (Decidable.not_not.mp hdir) (by omega) hthere fun target heq => hlink target heq] at h
    obtain ⟨left, hleft⟩ := ih h
    have hnext : v.entry? (dir ++ [name]) = some .directory := by
      by_cases hrest : rest = []
      · rw [hrest, walk_nil] at h
        rw [Except.ok.inj h]
        exact hreal
      · exact directory_of_walk h hrest
    exact ⟨left, .step (Decidable.not_not.mp hdir) (by omega) hnext
      (fun hbelow => not_below_self (below_of_walk hlinks hbelow h)) hleft⟩

end NoLinks

theorem walk_behind (hreal : v.entry? real = some e) (he : e ≠ .directory) (h : v.walk true links dir p = .ok real)
    (hq : q ≠ []) : v.walk follow links dir (p ++ q) = .error .notDirectory := by
  induction links, dir, p using walk.induct v true with
  | case1 links dir =>
    obtain ⟨name, rest, rfl⟩ := List.exists_cons_of_ne_nil hq
    rw [walk_nil] at h
    rw [List.nil_append, walk, Except.ok.inj h, hreal, if_pos (by simp [he])]
  | case2 links dir name rest hdir => exact absurd (directory_of_walk h (by simp)) hdir
  | case3 links dir name rest hdir hlong =>
    rw [walk, if_neg hdir, if_pos hlong] at h
    cases h
  | case4 links dir name hdir hlong hnone =>
    rw [walk_last (Decidable.not_not.mp hdir) (by omega) hnone] at h
    rw [Except.ok.inj h, hreal] at hnone
    cases hnone
  | case5 links dir name rest hdir hlong hnone hrest =>
    rw [walk_missing (Decidable.not_not.mp hdir) (by omega) hnone hrest] at h
    cases h
  | case6 links dir name rest hdir hlong target htarget hstop => exact absurd hstop.2 (by simp)
  | case7 dir name rest hdir hlong target htarget hgo =>
    rw [walk, if_neg hdir, if_neg hlong, htarget] at h
    dsimp only at h
    rw [if_neg hgo] at h
    cases h
  | case8 dir name rest hdir hlong target htarget hgo links ih =>
    rw [walk_link (Decidable.not_not.mp hdir) (by omega) htarget (.inr rfl)] at h
    rw [List.cons_append, walk_link (Decidable.not_not.mp hdir) (by omega) htarget (.inl (by simp [hq])),
      ← List.append_assoc]
    exact ih h
  | case9 links dir name rest hdir hlong there hlink hthere ih =>
    have hnot : ∀ target, there ≠ .link target := fun target heq => hlink target heq
    rw [walk_directory (Decidable.not_not.mp hdir) (by omega) hthere hnot] at h
    rw [List.cons_append, walk_directory (Decidable.not_not.mp hdir) (by omega) hthere hnot]
    exact ih h

/-! ### What stands at a location -/

theorem stat_eq_ok {l : Location} (h : v.stat follow l = .ok (p, e)) :
    v.resolve (follow || l.asDirectory) l.path = .ok p ∧ v.entry? p = some e := by
  rw [stat] at h
  obtain ⟨q, hresolve, hthere⟩ := bind_eq_ok.mp h
  cases hentry : v.entry? q with
  | none =>
    rw [hentry] at hthere
    cases hthere
  | some found =>
    rw [hentry] at hthere
    dsimp only at hthere
    split at hthere
    · cases hthere
    · cases hthere
      exact ⟨hresolve, hentry⟩

theorem resolve_eq_ok (h : v.resolve follow p = .ok q) :
    pathSize p ≤ maxPath ∧ v.walk follow maxLinks [] p = .ok q := by
  rw [resolve] at h
  split at h
  · cases h
  · exact ⟨Nat.not_lt.mp ‹_›, h⟩

end Depot.Objects.Volume
