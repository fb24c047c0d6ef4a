import Depot.Proofs.Objects.LinkFree

/-!
# A volume seen from a root

- `Rooted`: a root leads to a directory, links followed, and below it there are no links and everything stands
  in a directory.
- Where paths behind the root lead, what stands there (`Rooted.stat_eq`), and what changes there leave.
-/

namespace Depot.Objects.Volume

/-- The path `root` leads to the directory `real`, below which there are no links and everything stands in a
directory. -/
structure Rooted (v : Volume) (root real : Path) : Prop where
  led : ∃ left, Leads v real maxLinks [] root left
  directory : v.entry? real = some .directory
  noLinks : ∀ p target, v.entry? (real ++ p) ≠ some (.link target)
  parents : ∀ p name, v.entry? (real ++ p ++ [name]) ≠ none → v.entry? (real ++ p) = some .directory

namespace Rooted

variable {v w : Volume} {root real p q : Path} {name : Name} {e : Entry} {follow : Bool} {links : Nat}

theorem linkFree (h : Rooted v root real) (hfit : pathSize root ≤ maxPath) : LinkFree v root real :=
  ⟨h.led, h.directory, hfit, fun _ target ⟨name, rest, hp⟩ => hp ▸ h.noLinks (name :: rest) target⟩

theorem directory_of_append (h : Rooted v root real) (hdir : v.entry? (real ++ p ++ q) = some .directory) :
    v.entry? (real ++ p) = some .directory := by
  induction q generalizing p with
  | nil => rwa [List.append_nil] at hdir
  | cons name q ih =>
    apply h.parents p name
    intro hnone
    have hnext := @ih (p ++ [name]) (by simpa using hdir)
    rw [← List.append_assoc, hnone] at hnext
    cases hnext

/-! ### Walks behind the root -/

theorem walk_below (h : Rooted v root real) (hshort : ∀ name ∈ q, name.size ≤ maxName)
    (hdir : v.entry? (real ++ p ++ q.dropLast) = some .directory) :
    v.walk follow links (real ++ p) q = .ok (real ++ p ++ q) := by
  induction q generalizing p with
  | nil => rw [walk_nil, List.append_nil]
  | cons name q ih =>
    have hname := hshort name List.mem_cons_self
    have hbase := h.directory_of_append hdir
    by_cases hq : q = []
    · subst hq
      cases hthere : v.entry? (real ++ p ++ [name]) with
      | none => exact walk_last hbase hname hthere
      | some e =>
        rw [walk_directory hbase hname hthere fun target heq => ?_, walk_nil]
        apply h.noLinks (p ++ [name]) target
        rw [← List.append_assoc, hthere, heq]
    · rw [List.dropLast_cons_of_ne_nil hq] at hdir
      have hdir : v.entry? (real ++ (p ++ [name]) ++ q.dropLast) = some .directory := by simpa using hdir
      have hthere := h.directory_of_append hdir
      rw [← List.append_assoc] at hthere
      have hnext := ih (fun name hmem => hshort name (List.mem_cons_of_mem _ hmem)) hdir
      rw [walk_directory hbase hname hthere (by simp), List.append_assoc, hnext]
      simp

/-- Nothing but directories stands on the way along a path. -/
def Free (v : Volume) (dir p : Path) : Prop :=
  ∀ a b, p = a ++ b → b ≠ [] → v.entry? (dir ++ a) = none ∨ v.entry? (dir ++ a) = some .directory

theorem walk_missing_below (hshort : ∀ name ∈ q, name.size ≤ maxName) (hfree : Free v (real ++ p) q)
    (hbase : v.entry? (real ++ p) = some .directory) (hdir : v.entry? (real ++ p ++ q.dropLast) ≠ some .directory) :
    v.walk follow links (real ++ p) q = .error .missing := by
  induction q generalizing p with
  | nil =>
    rw [List.dropLast_nil, List.append_nil] at hdir
    exact absurd hbase hdir
  | cons name q ih =>
    have hname := hshort name List.mem_cons_self
    by_cases hq : q = []
    · subst hq
      rw [List.dropLast_singleton, List.append_nil] at hdir
      exact absurd hbase hdir
    · rcases hfree [name] q rfl hq with hnone | hthere
      · exact walk_missing hbase hname hnone hq
      · rw [List.dropLast_cons_of_ne_nil hq] at hdir
        rw [walk_directory hbase hname hthere (by simp), List.append_assoc]
        refine ih (fun name hmem => hshort name (List.mem_cons_of_mem _ hmem)) (fun a b hab hb => ?_)
          (by rwa [← List.append_assoc]) (by simpa using hdir)
        have hfree := hfree (name :: a) b (by rw [hab]; rfl) hb
        simpa using hfree

variable (hfit : pathSize (root ++ p) ≤ maxPath) (hshort : ∀ name ∈ p, name.size ≤ maxName)

include hfit in
theorem resolve_append (h : Rooted v root real) (follow : Bool) (hp : p ≠ []) :
    ∃ left, v.resolve follow (root ++ p) = v.walk follow left real p := by
  obtain ⟨left, hled⟩ := h.led
  exact ⟨left, by rw [resolve, if_neg (by omega), hled.walk_append (.inr hp)]⟩

include hfit hshort in
theorem resolve_eq (h : Rooted v root real) (hp : p ≠ []) (hdir : v.entry? (real ++ p.dropLast) = some .directory) :
    v.resolve follow (root ++ p) = .ok (real ++ p) := by
  obtain ⟨left, hleft⟩ := h.resolve_append hfit follow hp
  have hwalk : v.walk follow left (real ++ []) p = .ok (real ++ [] ++ p) :=
    h.walk_below hshort (by simpa using hdir)
  rw [hleft]
  simpa using hwalk

include hfit hshort in
theorem stat_eq (h : Rooted v root real) (hp : p ≠ []) (hfree : Free v real p) :
    v.stat follow ⟨root ++ p, false⟩ =
      match v.entry? (real ++ p) with
      | none => .error .missing
      | some e => .ok (real ++ p, e) := by
  by_cases hdir : v.entry? (real ++ p.dropLast) = some .directory
  · rw [stat, Bool.or_false, h.resolve_eq hfit hshort hp hdir, ok_bind]
    cases v.entry? (real ++ p) with
    | none => rfl
    | some e => simp [pure, Except.pure]
  · have hnone : v.entry? (real ++ p) = none := by
      refine Decidable.byContradiction fun hsome => hdir ?_
      apply h.parents p.dropLast (p.getLast hp)
      rwa [List.append_assoc, List.dropLast_concat_getLast]
    obtain ⟨left, hleft⟩ := h.resolve_append hfit follow hp
    have hwalk := @walk_missing_below v real [] p follow left hshort (by simpa using hfree)
      (by simpa using h.directory) (by simpa using hdir)
    rw [List.append_nil] at hwalk
    rw [stat, Bool.or_false, hleft, hwalk, hnone]
    rfl

/-! ### Changes behind the root -/

theorem append_singleton_ne_nil : real ++ p ++ [name] ≠ [] := by simp

theorem below_concat : Below real (real ++ p ++ [name]) := by
  rw [List.append_assoc]
  exact below_append (by simp)

theorem set (h : Rooted v root real) (hdir : v.entry? (real ++ p) = some .directory)
    (hlink : ∀ target, e ≠ .link target)
    (hkeep : v.entry? (real ++ p ++ [name]) = some .directory → e = .directory) :
    Rooted (v.set (real ++ p ++ [name]) e) root real := by
  obtain ⟨left, hled⟩ := h.led
  have hentry : ∀ q, entry? (v.set (real ++ p ++ [name]) e) q =
      if q = real ++ p ++ [name] then some e else v.entry? q := fun q => entry?_set v append_singleton_ne_nil
  have hne : ∀ q, real ++ q ++ [name] ≠ real := fun q heq => by simpa using congrArg List.length heq
  refine ⟨⟨left, hled.congr (sameOutside_set below_concat)⟩, ?_, fun q target => ?_, fun q other hthere => ?_⟩
  · rw [hentry, if_neg (Ne.symm (hne p))]
    exact h.directory
  · rw [hentry]
    split
    · exact fun heq => hlink target (Option.some.inj heq)
    · exact h.noLinks q target
  · have hold : v.entry? (real ++ q) = some .directory := by
      rw [hentry] at hthere
      split at hthere
      · rename_i heq
        rw [(List.append_inj' heq rfl).1]
        exact hdir
      · exact h.parents q other hthere
    rw [hentry]
    split
    · rename_i heq
      rw [heq] at hold
      rw [hkeep hold]
    · exact hold

theorem erase (h : Rooted v root real) (hkeep : v.entry? (real ++ p ++ [name]) ≠ some .directory) :
    Rooted (v.erase (real ++ p ++ [name])) root real := by
  obtain ⟨left, hled⟩ := h.led
  have hentry : ∀ q, entry? (v.erase (real ++ p ++ [name])) q =
      if q = real ++ p ++ [name] then none else v.entry? q := fun q => entry?_erase v append_singleton_ne_nil
  have hdirectory : ∀ q, v.entry? q = some .directory →
      entry? (v.erase (real ++ p ++ [name])) q = some .directory := by
    intro q hq
    rw [hentry, if_neg fun heq => hkeep (by rw [← heq]; exact hq)]
    exact hq
  refine ⟨⟨left, hled.congr (sameOutside_erase below_concat)⟩, hdirectory _ h.directory, fun q target => ?_,
    fun q other hthere => hdirectory _ (h.parents q other fun hnone => hthere ?_)⟩
  · rw [hentry]
    split
    · simp
    · exact h.noLinks q target
  · rw [hentry, hnone]
    simp

/-! ### Directories behind the root -/

/-- A volume is another one with the directories made that lead from `dir` along some names. -/
structure Extended (v w : Volume) (dir names : Path) : Prop where
  made : ∀ a, a <+: names → w.entry? (dir ++ a) = some .directory
  kept : ∀ q, (∀ a, a <+: names → a ≠ [] → q ≠ dir ++ a) → w.entry? q = v.entry? q

theorem makeDirectory_below (h : Rooted v root real) (hfit : pathSize (root ++ p ++ [name]) ≤ maxPath)
    (hshort : ∀ n ∈ p ++ [name], n.size ≤ maxName) (hdir : v.entry? (real ++ p) = some .directory)
    (hfree : v.entry? (real ++ p ++ [name]) = none ∨ v.entry? (real ++ p ++ [name]) = some .directory) :
    ∃ w, v.makeDirectory (root ++ p ++ [name]) = .ok w ∧ Rooted w root real ∧
      ∀ q, w.entry? q = if q = real ++ p ++ [name] then some .directory else v.entry? q := by
  have hresolve : v.resolve true (root ++ p ++ [name]) = .ok (real ++ p ++ [name]) := by
    rw [List.append_assoc] at hfit ⊢
    rw [h.resolve_eq hfit hshort (by simp) (by simpa using hdir), List.append_assoc]
  rw [makeDirectory, hresolve, ok_bind]
  rcases hfree with hnone | hthere
  · rw [hnone]
    exact ⟨_, rfl, h.set hdir (by simp) (by simp), fun q => entry?_set v append_singleton_ne_nil⟩
  · rw [hthere]
    refine ⟨v, rfl, h, fun q => ?_⟩
    split
    · rename_i heq
      rw [heq, hthere]
    · rfl

theorem makeDirectoriesFrom_below (h : Rooted v root real) (names : Path)
    (hfit : pathSize (root ++ p ++ names) ≤ maxPath) (hshort : ∀ n ∈ p ++ names, n.size ≤ maxName)
    (hdir : v.entry? (real ++ p) = some .directory)
    (hfree : ∀ a, a <+: names → v.entry? (real ++ p ++ a) = none ∨ v.entry? (real ++ p ++ a) = some .directory) :
    ∃ w, v.makeDirectoriesFrom (root ++ p) names = (.ok (), w) ∧ Rooted w root real ∧
      Extended v w (real ++ p) names := by
  induction names generalizing v p with
  | nil =>
    refine ⟨v, rfl, h, fun a ha => ?_, fun _ _ => rfl⟩
    rw [List.prefix_nil.mp ha, List.append_nil]
    exact hdir
  | cons name names ih =>
    have hfitFirst : pathSize (root ++ p ++ [name]) ≤ maxPath := by
      have hsize := pathSize_append (root ++ p ++ [name]) names
      rw [List.append_assoc, List.singleton_append] at hsize
      omega
    obtain ⟨u, hmake, hu, hentry⟩ := h.makeDirectory_below hfitFirst
      (fun n hn => hshort n (by grind)) hdir (hfree [name] ⟨names, rfl⟩)
    have hself : u.entry? (real ++ (p ++ [name])) = some .directory := by
      rw [hentry, if_pos (by simp)]
    obtain ⟨w, hrest, hw, hmade, hkept⟩ := @ih u (p ++ [name]) hu (by simpa using hfit) (by simpa using hshort) hself
      fun a ha => by
        rw [hentry]
        split
        · exact .inr rfl
        · have hold := hfree (name :: a) (List.cons_prefix_cons.mpr ⟨rfl, ha⟩)
          simpa using hold
    refine ⟨w, ?_, hw, fun a ha => ?_, fun q hq => ?_⟩
    · rw [makeDirectoriesFrom, hmake]
      simpa using hrest
    · rcases List.prefix_cons_iff.mp ha with rfl | ⟨b, rfl, hb⟩
      · have hnext := hmade [] (List.nil_prefix)
        rw [List.append_nil, ← List.append_assoc] at hnext
        rw [List.append_nil]
        exact hw.directory_of_append hnext
      · have hold := hmade b hb
        simpa using hold
    · rw [hkept q fun a ha hne heq => ?_, hentry, if_neg ?_]
      · exact hq [name] ⟨names, rfl⟩ (by simp)
      · exact hq (name :: a) (List.cons_prefix_cons.mpr ⟨rfl, ha⟩) (by simp) (by rw [heq]; simp)

theorem makeDirectories_below (h : Rooted v root real) (names : Path) (hfit : pathSize (root ++ names) ≤ maxPath)
    (hshort : ∀ n ∈ names, n.size ≤ maxName)
    (hfree : ∀ a, a <+: names → v.entry? (real ++ a) = none ∨ v.entry? (real ++ a) = some .directory) :
    ∃ w, v.makeDirectories (root ++ names) = (.ok (), w) ∧ Rooted w root real ∧ Extended v w real names := by
  have hsize := pathSize_append root names
  have hroot : v.makeDirectoriesFrom [] (root ++ names) = v.makeDirectoriesFrom root names :=
    makeDirectoriesFrom_append (q := []) (fun a ha => (h.linkFree (by omega)).makeDirectory_leading ha) names
  have hmake := h.makeDirectoriesFrom_below (p := []) names (by simpa using hfit) hshort
    (by simpa using h.directory) (by simpa using hfree)
  rw [List.append_nil, List.append_nil] at hmake
  rw [makeDirectories, hroot]
  exact hmake

/-! ### Files behind the root -/

theorem write_below (h : Rooted v root real) (data : List UInt8) (hfit : pathSize (root ++ p ++ [name]) ≤ maxPath)
    (hshort : ∀ n ∈ p ++ [name], n.size ≤ maxName) (hdir : v.entry? (real ++ p) = some .directory)
    (hfree : v.entry? (real ++ p ++ [name]) ≠ some .directory) :
    v.write (root ++ p ++ [name]) data = .ok (v.set (real ++ p ++ [name]) (.file data)) ∧
      Rooted (v.set (real ++ p ++ [name]) (.file data)) root real := by
  have hresolve : v.resolve true (root ++ p ++ [name]) = .ok (real ++ p ++ [name]) := by
    rw [List.append_assoc] at hfit ⊢
    rw [h.resolve_eq hfit hshort (by simp) (by simpa using hdir), List.append_assoc]
  refine ⟨?_, h.set hdir (by simp) fun heq => absurd heq hfree⟩
  rw [write, hresolve, ok_bind]
  split
  · exact absurd ‹_› hfree
  · rfl

theorem rename_below (h : Rooted v root real) {other : Name} {data : List UInt8}
    (hfit : pathSize (root ++ p ++ [name]) ≤ maxPath) (hfitOther : pathSize (root ++ p ++ [other]) ≤ maxPath)
    (hshort : ∀ n ∈ p ++ [name, other], n.size ≤ maxName) (hdir : v.entry? (real ++ p) = some .directory)
    (hthere : v.entry? (real ++ p ++ [name]) = some (.file data))
    (hfree : v.entry? (real ++ p ++ [other]) ≠ some .directory) :
    v.rename (root ++ p ++ [name]) ⟨root ++ p ++ [other], false⟩ =
        .ok ((v.erase (real ++ p ++ [name])).set (real ++ p ++ [other]) (.file data)) ∧
      Rooted ((v.erase (real ++ p ++ [name])).set (real ++ p ++ [other]) (.file data)) root real := by
  have hold : v.resolve false (root ++ p ++ [name]) = .ok (real ++ p ++ [name]) := by
    rw [List.append_assoc] at hfit ⊢
    rw [h.resolve_eq hfit (fun n hn => hshort n (by grind)) (by simp) (by simpa using hdir), List.append_assoc]
  have hnew : v.resolve false (root ++ p ++ [other]) = .ok (real ++ p ++ [other]) := by
    rw [List.append_assoc] at hfitOther ⊢
    rw [h.resolve_eq hfitOther (fun n hn => hshort n (by grind)) (by simp) (by simpa using hdir), List.append_assoc]
  have hkept : ∀ q, q ≠ real ++ p ++ [name] → entry? (v.erase (real ++ p ++ [name])) q = v.entry? q := by
    intro q hq
    rw [entry?_erase v append_singleton_ne_nil, if_neg hq]
  refine ⟨?_, (h.erase (by rw [hthere]; simp)).set ?_ (by simp) fun hother => ?_⟩
  · rw [rename, hold, ok_bind, hnew, ok_bind, hthere]
    dsimp only
    rw [if_neg (by simp), if_neg hfree]
    rfl
  · rw [hkept _ fun heq => by simpa using congrArg List.length heq]
    exact hdir
  · rw [entry?_erase v append_singleton_ne_nil] at hother
    split at hother
    · cases hother
    · exact absurd hother hfree

theorem unlink_below (h : Rooted v root real) {data : List UInt8} (hfit : pathSize (root ++ p ++ [name]) ≤ maxPath)
    (hshort : ∀ n ∈ p ++ [name], n.size ≤ maxName) (hthere : v.entry? (real ++ p ++ [name]) = some (.file data)) :
    v.unlink ⟨root ++ p ++ [name], false⟩ = .ok (v.erase (real ++ p ++ [name])) ∧
      Rooted (v.erase (real ++ p ++ [name])) root real := by
  have hdir : v.entry? (real ++ p) = some .directory := h.parents p name (by rw [hthere]; simp)
  have hresolve : v.resolve false (root ++ p ++ [name]) = .ok (real ++ p ++ [name]) := by
    rw [List.append_assoc] at hfit ⊢
    rw [h.resolve_eq hfit hshort (by simp) (by simpa using hdir), List.append_assoc]
  refine ⟨?_, h.erase (by rw [hthere]; simp)⟩
  rw [unlink, stat, Bool.or_false, hresolve, ok_bind, hthere]
  simp [pure, Except.pure]

end Rooted

end Depot.Objects.Volume
