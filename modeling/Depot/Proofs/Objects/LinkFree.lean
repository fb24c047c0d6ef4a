import Depot.Proofs.Objects.Walk

/-!
# A root without links below it

- `LinkFree`: a root leads to a directory below which there are no links. Paths behind the root then lead below the
  directory, or nowhere (`LinkFree.eq_of_resolve`).
- `Changed`: what is done there leaves the root free of links, and everything else as it was.
-/

namespace Depot.Objects.Volume

variable {v w u : Volume} {root real p q r : Path} {name : Name} {e : Entry} {follow : Bool}

/-- The path `root` leads to the directory `real`, below which there are no links. -/
structure LinkFree (v : Volume) (root real : Path) : Prop where
  led : ∃ left, Leads v real maxLinks [] root left
  directory : v.entry? real = some .directory
  fits : pathSize root ≤ maxPath
  noLinks : NoLinksBelow v real

theorem linkFree_of_stat (hroot : v.stat true ⟨root, false⟩ = .ok (real, .directory)) (hlinks : NoLinksBelow v real) :
    LinkFree v root real := by
  obtain ⟨hresolve, hthere⟩ := stat_eq_ok hroot
  obtain ⟨hfits, hwalk⟩ := resolve_eq_ok hresolve
  exact ⟨exists_leads hlinks hthere hwalk, hthere, hfits, hlinks⟩

namespace LinkFree

/-! ### Where paths behind the root lead -/

theorem stat_root (h : LinkFree v root real) : v.stat true ⟨root, false⟩ = .ok (real, .directory) := by
  obtain ⟨left, hled⟩ := h.led
  rw [stat, Bool.or_false, resolve, if_neg (Nat.not_lt.mpr h.fits), hled.walk_eq, ok_bind, h.directory]
  rfl

theorem exists_stat_root (h : LinkFree v root real) : ∃ q e, v.stat false ⟨root, false⟩ = .ok (q, e) := by
  obtain ⟨left, hled⟩ := h.led
  obtain ⟨q, e, hwalk, hthere⟩ := hled.exists_walk h.directory
  refine ⟨q, e, ?_⟩
  rw [stat, Bool.or_false, resolve, if_neg (Nat.not_lt.mpr h.fits), hwalk, ok_bind, hthere]
  simp [pure, Except.pure]

theorem exists_walk (h : LinkFree v root real) (hq : q ≠ []) :
    ∃ links, ∀ follow, v.resolve follow (root ++ q) =
      if maxPath < pathSize (root ++ q) then .error .nameTooLong else v.walk follow links (real ++ []) q := by
  obtain ⟨left, hled⟩ := h.led
  refine ⟨left, fun follow => ?_⟩
  rw [resolve, hled.walk_append (.inr hq), List.append_nil]

theorem eq_of_resolve (h : LinkFree v root real) (hq : q ≠ []) (hr : v.resolve follow (root ++ q) = .ok r) :
    r = real ++ q := by
  obtain ⟨links, hwalk⟩ := h.exists_walk hq
  rw [hwalk] at hr
  split at hr
  · cases hr
  · exact eq_of_walk h.noLinks hr

theorem resolve_follow_eq (h : LinkFree v root real) (hq : q ≠ []) (follow : Bool) :
    v.resolve follow (root ++ q) = v.resolve true (root ++ q) := by
  obtain ⟨links, hwalk⟩ := h.exists_walk hq
  rw [hwalk, hwalk, walk_follow_eq h.noLinks true links]

theorem stat_follow_eq (h : LinkFree v root real) (hq : q ≠ []) (follow asDirectory : Bool) :
    v.stat follow ⟨root ++ q, asDirectory⟩ = v.stat true ⟨root ++ q, asDirectory⟩ := by
  rw [stat, stat, h.resolve_follow_eq hq, Bool.true_or]

theorem of_stat (h : LinkFree v root real) (hq : q ≠ []) {asDirectory : Bool}
    (hstat : v.stat follow ⟨root ++ q, asDirectory⟩ = .ok (r, e)) :
    r = real ++ q ∧ v.entry? (real ++ q) = some e := by
  obtain ⟨hresolve, hthere⟩ := stat_eq_ok hstat
  obtain rfl := h.eq_of_resolve hq hresolve
  exact ⟨rfl, hthere⟩

/-- Where nothing is found, something on the way to it is missing below the directory, or it itself is. -/
theorem missing_of_stat (h : LinkFree v root real) (hq : q ≠ []) {asDirectory : Bool}
    (hstat : v.stat follow ⟨root ++ q, asDirectory⟩ = .error .missing) :
    ∃ a, a ≠ [] ∧ a <+: q ∧ v.entry? (real ++ a) = none := by
  rw [stat] at hstat
  cases hresolve : v.resolve (follow || asDirectory) (root ++ q) with
  | error fault =>
    rw [hresolve] at hstat
    obtain rfl : fault = .missing := Except.error.inj hstat
    obtain ⟨links, hwalk⟩ := h.exists_walk hq
    rw [hwalk] at hresolve
    split at hresolve
    · cases hresolve
    · exact exists_missing h.noLinks hresolve
  | ok r =>
    obtain rfl := h.eq_of_resolve hq hresolve
    rw [hresolve, ok_bind] at hstat
    cases hthere : v.entry? (real ++ q) with
    | none => exact ⟨q, hq, List.prefix_refl q, hthere⟩
    | some found =>
      rw [hthere] at hstat
      dsimp only at hstat
      split at hstat <;> cases hstat

end LinkFree

/-! ### Changes below the directory -/

/-- A volume becomes another one by changes below the directory `real` alone. The root stays free of links, and only
some paths get or lose a file. -/
structure Changed (root real : Path) (touched : Path → Prop) (v w : Volume) : Prop where
  linkFree : LinkFree w root real
  outside : SameOutside real v w
  files : ∀ p data, ¬touched p → (w.entry? p = some (.file data) ↔ v.entry? p = some (.file data))

namespace Changed

variable {touched more : Path → Prop}

theorem refl (h : LinkFree v root real) : Changed root real touched v v := ⟨h, fun _ _ => rfl, fun _ _ _ => Iff.rfl⟩

theorem trans (h : Changed root real touched v u) (hnext : Changed root real touched u w) :
    Changed root real touched v w :=
  ⟨hnext.linkFree, h.outside.trans hnext.outside, fun p data hp => (hnext.files p data hp).trans (h.files p data hp)⟩

theorem mono (h : Changed root real touched v w) (hmore : ∀ p, touched p → more p) : Changed root real more v w :=
  ⟨h.linkFree, h.outside, fun p data hp => h.files p data fun htouched => hp (hmore p htouched)⟩

end Changed

theorem makeDirectoriesFrom_append (h : ∀ a, a <+: p → v.makeDirectory (q ++ a) = .ok v) (names : Path) :
    v.makeDirectoriesFrom q (p ++ names) = v.makeDirectoriesFrom (q ++ p) names := by
  induction p generalizing q with
  | nil => rw [List.nil_append, List.append_nil]
  | cons name p ih =>
    rw [List.cons_append, makeDirectoriesFrom, h [name] ⟨p, rfl⟩]
    dsimp only
    rw [ih fun a ha => ?_, List.append_assoc, List.singleton_append]
    have hstep := h (name :: a) (List.cons_prefix_cons.mpr ⟨rfl, ha⟩)
    simpa using hstep

namespace LinkFree

variable {touched : Path → Prop}

theorem congr (h : LinkFree v root real) (hsame : SameOutside real v w) (hlinks : NoLinksBelow w real) :
    LinkFree w root real := by
  obtain ⟨left, hled⟩ := h.led
  exact ⟨⟨left, hled.congr hsame⟩, (hsame real not_below_self).trans h.directory, h.fits, hlinks⟩

theorem set (h : LinkFree v root real) (hp : Below real p) (hlink : ∀ target, e ≠ .link target)
    (htouched : touched p ∨ (∀ data, e ≠ .file data) ∧ ∀ data, v.entry? p ≠ some (.file data)) :
    Changed root real touched v (v.set p e) := by
  refine ⟨h.congr (sameOutside_set hp) fun q target hq => ?_, sameOutside_set hp, fun q data hq => ?_⟩
  · rw [entry?_set v hp.ne_nil]
    split
    · exact fun heq => hlink target (Option.some.inj heq)
    · exact h.noLinks q target hq
  · rw [entry?_set v hp.ne_nil]
    split
    · rename_i heq
      rcases htouched with htouched | ⟨hnew, hold⟩
      · exact absurd (heq ▸ htouched) hq
      · exact iff_of_false (fun hfile => hnew data (Option.some.inj hfile)) (heq ▸ hold data)
    · exact Iff.rfl

theorem erase (h : LinkFree v root real) (hp : Below real p) (htouched : touched p) :
    Changed root real touched v (v.erase p) := by
  refine ⟨h.congr (sameOutside_erase hp) fun q target hq => ?_, sameOutside_erase hp, fun q data hq => ?_⟩
  · rw [entry?_erase v hp.ne_nil]
    split
    · exact nofun
    · exact h.noLinks q target hq
  · have hne : q ≠ p := fun heq => hq (heq ▸ htouched)
    rw [entry?_erase v hp.ne_nil, if_neg hne]

/-! ### What the volume is asked for -/

theorem makeDirectory (h : LinkFree v root real) (hq : q ≠ []) (hmake : v.makeDirectory (root ++ q) = .ok w) :
    Changed root real touched v w := by
  obtain ⟨r, hresolve, hmade⟩ := bind_eq_ok.mp hmake
  obtain rfl := h.eq_of_resolve hq hresolve
  cases hthere : v.entry? (real ++ q) with
  | none =>
    rw [hthere] at hmade
    cases hmade
    exact h.set (below_append hq) nofun (.inr ⟨nofun, fun data => by rw [hthere]; exact nofun⟩)
  | some e =>
    rw [hthere] at hmade
    cases e with
    | directory =>
      cases hmade
      exact .refl h
    | file data => cases hmade
    | link target => cases hmade

theorem makeDirectoriesFrom (h : LinkFree v root real) (p names : Path) :
    Changed root real touched v (v.makeDirectoriesFrom (root ++ p) names).2 := by
  induction names generalizing v p with
  | nil => exact .refl h
  | cons name names ih =>
    rw [Volume.makeDirectoriesFrom, List.append_assoc]
    cases hmake : v.makeDirectory (root ++ (p ++ [name])) with
    | error fault => exact .refl h
    | ok next =>
      have hnext : Changed root real touched v next := h.makeDirectory (List.concat_ne_nil name p) hmake
      exact hnext.trans (ih hnext.linkFree (p ++ [name]))

theorem makeDirectory_leading (h : LinkFree v root real) (hp : p <+: root) : v.makeDirectory p = .ok v := by
  obtain ⟨left, hled⟩ := h.led
  obtain ⟨rest, rfl⟩ := hp
  obtain ⟨q, hwalk, hthere⟩ := hled.walk_take h.directory
  have hfits := h.fits
  have hsize := pathSize_append p rest
  rw [Volume.makeDirectory, resolve, if_neg (by omega), hwalk, ok_bind, hthere]
  rfl

theorem makeDirectories (h : LinkFree v root real) (names : Path) :
    Changed root real touched v (v.makeDirectories (root ++ names)).2 := by
  have hroot : v.makeDirectoriesFrom [] (root ++ names) = v.makeDirectoriesFrom root names :=
    makeDirectoriesFrom_append (q := []) (fun a ha => h.makeDirectory_leading ha) names
  have hmade : Changed root real touched v (v.makeDirectoriesFrom (root ++ []) names).2 :=
    h.makeDirectoriesFrom [] names
  rw [List.append_nil] at hmade
  rwa [Volume.makeDirectories, hroot]

theorem write (h : LinkFree v root real) (hq : q ≠ []) {data : List UInt8} (hwrite : v.write (root ++ q) data = .ok w)
    (htouched : touched (real ++ q)) : Changed root real touched v w := by
  obtain ⟨r, hresolve, hwritten⟩ := bind_eq_ok.mp hwrite
  obtain rfl := h.eq_of_resolve hq hresolve
  split at hwritten
  · cases hwritten
  · cases hwritten
    exact h.set (below_append hq) nofun (.inl htouched)

theorem stat_set (h : LinkFree v root real) (hq : q ≠ []) (hresolve : v.resolve follow (root ++ q) = .ok r)
    (data : List UInt8) (follow' : Bool) :
    (v.set (real ++ q) (.file data)).stat follow' ⟨root ++ q, false⟩ = .ok (real ++ q, .file data) := by
  have hset : Changed root real (fun _ => True) v (v.set (real ++ q) (.file data)) :=
    h.set (below_append hq) nofun (.inl trivial)
  have hthere : entry? (v.set (real ++ q) (.file data)) (real ++ q) = some (.file data) := by
    rw [entry?_set v (below_append hq).ne_nil, if_pos rfl]
  obtain ⟨links, hwalk⟩ := h.exists_walk hq
  obtain ⟨links', hwalk'⟩ := hset.linkFree.exists_walk hq
  rw [hwalk] at hresolve
  rw [stat, Bool.or_false, hwalk']
  split at hresolve
  · cases hresolve
  · obtain rfl := eq_of_walk h.noLinks hresolve
    rw [walk_follow_eq h.noLinks follow' links'] at hresolve
    have hsame := walk_congr h.noLinks hset.linkFree.noLinks (fun a _ hne => ?_) hresolve
    · rw [if_neg ‹_›, hsame, ok_bind, List.nil_append, hthere]
      rfl
    · rw [List.nil_append, entry?_set v (below_append hq).ne_nil, if_neg fun heq => hne (List.append_cancel_left heq)]

theorem rename (h : LinkFree v root real) (hp : p ≠ []) (hq : q ≠ []) {asDirectory : Bool}
    (hrename : v.rename (root ++ p) ⟨root ++ q, asDirectory⟩ = .ok w) (hfrom : touched (real ++ p))
    (hto : touched (real ++ q)) : Changed root real touched v w := by
  obtain ⟨r, hold, hrename⟩ := bind_eq_ok.mp hrename
  obtain rfl := h.eq_of_resolve hp hold
  obtain ⟨r, hnew, hrename⟩ := bind_eq_ok.mp hrename
  obtain rfl := h.eq_of_resolve hq hnew
  cases hthere : v.entry? (real ++ p) with
  | none =>
    rw [hthere] at hrename
    cases hrename
  | some e =>
    rw [hthere] at hrename
    dsimp only at hrename
    split at hrename
    · cases hrename
    · split at hrename
      · cases hrename
      · cases hrename
        have hlink : ∀ target, e ≠ .link target := fun target heq =>
          h.noLinks _ target (below_append hp) (heq ▸ hthere)
        have herased : Changed root real touched v (v.erase (real ++ p)) := h.erase (below_append hp) hfrom
        exact herased.trans (herased.linkFree.set (below_append hq) hlink (.inl hto))

theorem unlink (h : LinkFree v root real) (hq : q ≠ []) {asDirectory : Bool}
    (hunlink : v.unlink ⟨root ++ q, asDirectory⟩ = .ok w) (htouched : touched (real ++ q)) :
    Changed root real touched v w ∧ w.entry? (real ++ q) = none := by
  obtain ⟨⟨r, e⟩, hstat, hunlink⟩ := bind_eq_ok.mp hunlink
  obtain ⟨rfl, _⟩ := h.of_stat hq hstat
  dsimp only at hunlink
  split at hunlink
  · cases hunlink
  · cases hunlink
    refine ⟨h.erase (below_append hq) htouched, ?_⟩
    rw [entry?_erase v (below_append hq).ne_nil, if_pos rfl]

end LinkFree

end Depot.Objects.Volume
