import Depot.Proofs.Objects.BlockStore
import Depot.Proofs.Objects.Refusals

/-!
# A store below its root

Whatever keys a store is asked for, it works below its root alone if there are no links.

- `Housed`: the root is a directory without links below it, and all uploads are for keys.
- `Within`: what a call changes. `Housed.put` and its like say it of each call, and what the call does there.
- `Housed.answer`: no request touches an object that it does not concern.
-/

namespace Depot.Objects

open Content Volume

variable {s t : FileStore} {real root p q scratch : Path} {e : Entry} {key other : String} {r : Request} {l : Location}

/-! ### Changes -/

/-- The place of a scratch file behind a root. -/
def IsScratch (root p : Path) : Prop := ∃ between text serial, p = root ++ (between ++ [.scratch text serial])

theorem IsScratch.behind (h : IsScratch root p) (real : Path) :
    ∃ q, q ≠ [] ∧ p = root ++ q ∧ IsScratch real (real ++ q) := by
  obtain ⟨between, text, serial, rfl⟩ := h
  exact ⟨_, List.concat_ne_nil _ _, rfl, between, text, serial, rfl⟩

theorem not_isScratch_objectPath (hin : ¬Key.LeadsOut key) : ¬IsScratch real (objectPath real key) := by
  rintro ⟨between, text, serial, heq⟩
  rw [objectPath, ← List.dropLast_concat_getLast (Key.components_ne_nil hin), List.map_append,
    List.map_singleton] at heq
  have hname := (List.append_inj' (List.append_cancel_left heq) rfl).2
  cases List.singleton_inj.mp hname

theorem isScratch_scratchFor (s : FileStore) (hq : q ≠ []) (hl : l.path = root ++ q) :
    IsScratch root (s.scratchFor l) := by
  obtain ⟨init, last, rfl⟩ : ∃ init last, q = init ++ [last] := ⟨_, _, (List.dropLast_concat_getLast hq).symm⟩
  rw [FileStore.scratchFor, hl, ← List.append_assoc, List.getLast?_concat, List.dropLast_concat]
  cases last with
  | plain text => exact ⟨init, text, s.serial, List.append_assoc ..⟩
  | scratch text serial => exact ⟨init, text, s.serial, List.append_assoc ..⟩

theorem root_prepare (s : FileStore) (l : Location) : (s.prepare l).2.root = s.root := by
  unfold FileStore.prepare
  split
  · rfl
  · split <;> rfl

theorem root_publish (s : FileStore) (scratch : Path) (l : Location) (data : List UInt8) :
    (s.publish scratch l data).2.root = s.root := by
  unfold FileStore.publish
  split
  · rfl
  · split <;> rfl

section Changes

variable (h : LinkFree s.volume s.root real) (hq : q ≠ []) (hl : l.path = s.root ++ q)
include h hq hl

theorem prepare_changed :
    Changed s.root real (IsScratch real) s.volume (s.prepare l).2.volume ∧
      ∀ scratch, (s.prepare l).1 = .ok scratch → IsScratch s.root scratch := by
  have hscratch := isScratch_scratchFor s hq hl
  obtain ⟨p, hp, hbehind, htouched⟩ := hscratch.behind real
  have hmade : Changed s.root real (IsScratch real) s.volume (s.volume.makeDirectories (s.root ++ q.dropLast)).2 :=
    h.makeDirectories q.dropLast
  rw [FileStore.prepare, hl, List.dropLast_append_of_ne_nil hq]
  cases hmake : s.volume.makeDirectories (s.root ++ q.dropLast) with
  | mk done v =>
    rw [hmake] at hmade
    cases done with
    | error fault => exact ⟨hmade, fun _ hdone => (error_ne_ok hdone).elim⟩
    | ok _ =>
      dsimp only
      cases hwrite : v.write (s.scratchFor l) [] with
      | error fault => exact ⟨hmade, fun _ hdone => (error_ne_ok hdone).elim⟩
      | ok next =>
        rw [hbehind] at hwrite
        refine ⟨hmade.trans (hmade.linkFree.write hp hwrite htouched), fun scratch hanswer => ?_⟩
        rwa [← Except.ok.inj hanswer]

theorem publish_changed (hscratch : IsScratch s.root scratch) (data : List UInt8) :
    Changed s.root real (fun p => IsScratch real p ∨ p = real ++ q) s.volume (s.publish scratch l data).2.volume ∧
      ((s.publish scratch l data).1 = .ok () → ∀ follow,
        (s.publish scratch l data).2.volume.stat follow ⟨s.root ++ q, false⟩ = .ok (real ++ q, .file data)) := by
  obtain ⟨p, hp, rfl, htouched⟩ := hscratch.behind real
  obtain ⟨path, asDirectory⟩ := l
  obtain rfl : path = s.root ++ q := hl
  rw [FileStore.publish]
  cases hrename : s.volume.rename (s.root ++ p) ⟨s.root ++ q, asDirectory⟩ with
  | error fault => exact ⟨.refl h, fun hdone => (error_ne_ok hdone).elim⟩
  | ok next =>
    have hmoved : Changed s.root real (fun p => IsScratch real p ∨ p = real ++ q) s.volume next :=
      h.rename hp hq hrename (.inl htouched) (.inr rfl)
    dsimp only
    cases hresolve : next.resolve false (s.root ++ q) with
    | error fault => exact ⟨hmoved, fun hdone => (error_ne_ok hdone).elim⟩
    | ok place =>
      obtain rfl := hmoved.linkFree.eq_of_resolve hq hresolve
      have hlink : ∀ target, Entry.file data ≠ .link target := fun _ heq => by cases heq
      exact ⟨hmoved.trans (hmoved.linkFree.set (below_append hq) hlink (.inl (.inr rfl))),
        fun _ => hmoved.linkFree.stat_set hq hresolve data⟩

end Changes

/-! ### A store below its root -/

/-- An upload for a key, in a store with this root. -/
structure FileUpload.Writes (root : Path) (key : String) (u : FileUpload) : Prop where
  accepted : ¬Key.LeadsOut key
  noNul : key.toList.contains (Char.ofNat 0) = false
  place : u.place.path = root ++ (Key.components key).map .plain
  scratch : IsScratch root u.scratch

/-- A store whose root is a directory without links below it, and whose uploads are for keys. -/
structure Housed (s : FileStore) (real : Path) : Prop where
  linkFree : LinkFree s.volume s.root real
  uploads : ∀ entry ∈ s.uploads, ∃ key, entry.2.Writes s.root key

/-- A store becomes another one below its root alone, where only some files are touched. -/
structure Within (real : Path) (touched : Path → Prop) (s t : FileStore) : Prop where
  housed : Housed t real
  root : t.root = s.root
  changed : Changed s.root real touched s.volume t.volume

/-- What is touched on behalf of a key. -/
def Touches (real : Path) (key : String) (p : Path) : Prop := IsScratch real p ∨ p = objectPath real key

/-- The object of a key is there and has this content. -/
def FileStore.Has (s : FileStore) (real : Path) (key : String) (data : List UInt8) : Prop :=
  ∀ follow, s.volume.stat follow ⟨s.root ++ (Key.components key).map .plain, false⟩ =
    .ok (objectPath real key, .file data)

theorem FileStore.Has.entry {data : List UInt8} (h : s.Has real key data) :
    s.volume.entry? (objectPath real key) = some (.file data) := (stat_eq_ok (h true)).2

variable {touched more : Path → Prop} {u : FileStore}

theorem Within.trans (h : Within real touched s t) (hnext : Within real touched t u) : Within real touched s u :=
  ⟨hnext.housed, hnext.root.trans h.root, h.changed.trans (h.root ▸ hnext.changed)⟩

theorem Within.mono (h : Within real touched s t) (hmore : ∀ p, touched p → more p) : Within real more s t :=
  ⟨h.housed, h.root, h.changed.mono hmore⟩

namespace Housed

variable {upload : Nat} {w : FileUpload} {data : List UInt8}

theorem refl (h : Housed s real) : Within real touched s s := ⟨h, rfl, .refl h.linkFree⟩

theorem within (h : Housed s real) (hroot : t.root = s.root) (hchanged : Changed s.root real touched s.volume t.volume)
    (huploads : ∀ entry ∈ t.uploads, entry ∈ s.uploads ∨ ∃ key, entry.2.Writes s.root key) :
    Within real touched s t := by
  refine ⟨⟨hroot ▸ hchanged.linkFree, fun entry hentry => ?_⟩, hroot, hchanged⟩
  rw [hroot]
  rcases huploads entry hentry with hold | hnew
  · exact h.uploads entry hold
  · exact hnew

theorem forget (h : Housed s real) (upload : Nat) : Housed (s.forget upload) real :=
  ⟨h.linkFree, fun entry hentry => h.uploads entry (List.mem_filter.mp hentry).1⟩

theorem of_locate (h : Housed s real) (hlocate : s.locate key = .ok l) :
    ¬Key.LeadsOut key ∧ key.toList.contains (Char.ofNat 0) = false ∧ l = s.locationOf (Key.reading key) := by
  obtain ⟨hin, _, hplace⟩ := FileStore.of_locate h.linkFree.stat_root h.linkFree.noLinks hlocate
  exact ⟨hin, hplace⟩

theorem prepare (h : Housed s real) (hin : ¬Key.LeadsOut key)
    (hpath : l.path = s.root ++ (Key.components key).map .plain) :
    Within real (IsScratch real) s (s.prepare l).2 ∧
      ∀ scratch, (s.prepare l).1 = .ok scratch → IsScratch s.root scratch := by
  obtain ⟨hchanged, hscratch⟩ := prepare_changed h.linkFree (map_plain_ne_nil hin) hpath
  refine ⟨h.within (root_prepare s l) hchanged fun entry hentry => .inl ?_, hscratch⟩
  rwa [(uploads_prepare s l).1] at hentry

theorem publish (h : Housed s real) (hin : ¬Key.LeadsOut key)
    (hpath : l.path = s.root ++ (Key.components key).map .plain) (hscratch : IsScratch s.root scratch)
    (data : List UInt8) :
    Within real (Touches real key) s (s.publish scratch l data).2 ∧
      ((s.publish scratch l data).1 = .ok () → (s.publish scratch l data).2.Has real key data) := by
  obtain ⟨hchanged, hthere⟩ := publish_changed h.linkFree (map_plain_ne_nil hin) hpath hscratch data
  refine ⟨h.within (root_publish s scratch l data) hchanged fun entry hentry => .inl ?_, fun hdone follow => ?_⟩
  · rwa [(uploads_publish s scratch l data).1] at hentry
  · rw [root_publish]
    exact hthere hdone follow

/-! ### What each call does -/

theorem of_find (h : Housed s real) (hfind : s.find key = .ok e) : s.volume.entry? (objectPath real key) = some e := by
  rw [FileStore.find] at hfind
  obtain ⟨l, hlocate, hfind⟩ := bind_eq_ok.mp hfind
  obtain ⟨hin, _, rfl⟩ := h.of_locate hlocate
  split at hfind
  · rename_i r there hstat
    cases hfind
    exact (h.linkFree.of_stat (map_plain_ne_nil hin) hstat).2
  · cases hfind

theorem get_of_has (h : Housed s real) {data : List UInt8} (hhas : s.Has real key data)
    (hnul : key.toList.contains (Char.ofNat 0) = false) (hin : ¬Key.LeadsOut other) (hname : Key.EndsInName other)
    (hsame : Key.components key = Key.components other) : s.get other = .ok data := by
  have hplace : s.locationOf (Key.reading other) = ⟨s.root ++ (Key.components key).map .plain, false⟩ := by
    rw [FileStore.locationOf, Key.reading, hsame, hname]
  have hlocate : s.locate other = .ok (s.locationOf (Key.reading other)) := by
    rw [FileStore.locate_of_not_leadsOut h.linkFree.stat_root h.linkFree.noLinks hin, FileStore.placeOf,
      ← FileStore.contains_nul_congr hsame, hnul, hplace, FileStore.ancestry, FileStore.nearest?, hhas false]
    rfl
  rw [FileStore.get, FileStore.find, hlocate, ok_bind, hplace, hhas true]
  rfl

/-- An object that is there stands below the root, and for one that is not there, something is missing below the
root. -/
theorem of_contains (h : Housed s real) {there : Bool} (hcontains : s.contains key = .ok there) :
    if there then s.volume.entry? (objectPath real key) ≠ none
    else ∃ p, Below real p ∧ p <+: objectPath real key ∧ s.volume.entry? p = none := by
  rw [FileStore.contains] at hcontains
  obtain ⟨l, hlocate, hcontains⟩ := bind_eq_ok.mp hcontains
  obtain ⟨hin, _, rfl⟩ := h.of_locate hlocate
  have hq := map_plain_ne_nil hin
  split at hcontains
  · rename_i found hstat
    cases hcontains
    rw [if_pos rfl, objectPath, (h.linkFree.of_stat hq hstat).2]
    exact Option.some_ne_none _
  · rename_i hstat
    cases hcontains
    obtain ⟨a, ha, hprefix, hnone⟩ := h.linkFree.missing_of_stat hq hstat
    rw [if_neg Bool.false_ne_true]
    exact ⟨real ++ a, below_append ha, (List.prefix_append_right_inj real).mpr hprefix, hnone⟩
  · cases hcontains

theorem put (h : Housed s real) (key : String) (data : List UInt8) :
    Within real (Touches real key) s (s.put key data).2 ∧
      ((s.put key data).1 = .ok () →
        key.toList.contains (Char.ofNat 0) = false ∧ (s.put key data).2.Has real key data) := by
  rw [FileStore.put]
  cases hlocate : s.locate key with
  | error fault => exact ⟨h.refl, fun hdone => (error_ne_ok hdone).elim⟩
  | ok l =>
    obtain ⟨hin, hnul, rfl⟩ := h.of_locate hlocate
    obtain ⟨hprepared, hscratch⟩ := h.prepare (l := s.locationOf (Key.reading key)) hin rfl
    dsimp only
    cases hprepare : s.prepare (s.locationOf (Key.reading key)) with
    | mk result next =>
      rw [hprepare] at hprepared hscratch
      have hfirst : Within real (Touches real key) s next := hprepared.mono fun _ => .inl
      cases result with
      | error fault => exact ⟨hfirst, fun hdone => (error_ne_ok hdone).elim⟩
      | ok scratch =>
        have hpath : (s.locationOf (Key.reading key)).path = next.root ++ (Key.components key).map .plain := by
          rw [hprepared.root]
          rfl
        obtain ⟨hpublished, hthere⟩ := hprepared.housed.publish hin hpath (hprepared.root ▸ hscratch scratch rfl) data
        exact ⟨hfirst.trans hpublished, fun hdone => ⟨hnul, hthere (mapError_eq_ok.mp hdone)⟩⟩

theorem openUpload (h : Housed s real) (key : String) :
    Within real (IsScratch real) s (s.openUpload key).2 ∧
      ∀ upload, (s.openUpload key).1 = .ok upload →
        ∃ w, (s.openUpload key).2.uploads.lookup upload = some w ∧ w.Writes s.root key := by
  rw [FileStore.openUpload]
  cases hlocate : s.locate key with
  | error fault => exact ⟨h.refl, fun _ hdone => (error_ne_ok hdone).elim⟩
  | ok l =>
    obtain ⟨hin, hnul, rfl⟩ := h.of_locate hlocate
    obtain ⟨hprepared, hscratch⟩ := h.prepare (l := s.locationOf (Key.reading key)) hin rfl
    have huploads := (uploads_prepare s (s.locationOf (Key.reading key))).1
    dsimp only
    cases hprepare : s.prepare (s.locationOf (Key.reading key)) with
    | mk result next =>
      rw [hprepare] at hprepared hscratch huploads
      cases result with
      | error fault => exact ⟨hprepared, fun _ hdone => (error_ne_ok hdone).elim⟩
      | ok scratch =>
        have hwrites : FileUpload.Writes s.root key ⟨s.locationOf (Key.reading key), scratch, []⟩ :=
          ⟨hin, hnul, rfl, hscratch scratch rfl⟩
        refine ⟨h.within hprepared.root hprepared.changed fun entry hentry => ?_, fun upload hopen => ⟨_, ?_, hwrites⟩⟩
        · rcases List.mem_cons.mp hentry with rfl | hold
          · exact .inr ⟨key, hwrites⟩
          · exact .inl (huploads ▸ hold)
        · cases hopen
          exact List.lookup_cons_self

theorem writeUpload (h : Housed s real) (upload : Nat) (data : List UInt8) :
    Within real (fun _ => False) s (s.writeUpload upload data).2 := by
  rw [FileStore.writeUpload]
  cases hlookup : s.uploads.lookup upload with
  | none => exact h.refl
  | some w =>
    refine h.within rfl (.refl h.linkFree) fun entry hentry => ?_
    rcases List.mem_cons.mp hentry with rfl | hold
    · obtain ⟨key, hw⟩ := h.uploads _ (mem_of_lookup hlookup)
      exact .inr ⟨key, hw.accepted, hw.noNul, hw.place, hw.scratch⟩
    · exact .inl (List.mem_filter.mp hold).1

theorem finish (h : Housed s real) (hlookup : s.uploads.lookup upload = some w) (hw : w.Writes s.root key) :
    Within real (Touches real key) s (s.finish upload).2 ∧
      ∀ size, (s.finish upload).1 = .ok size → (s.finish upload).2.Has real key w.written := by
  obtain ⟨hpublished, hthere⟩ := (h.forget upload).publish hw.accepted hw.place hw.scratch w.written
  have hforgot : Within real (Touches real key) s (s.forget upload) := ⟨h.forget upload, rfl, .refl h.linkFree⟩
  rw [FileStore.finish, hlookup]
  refine ⟨hforgot.trans hpublished, fun size hdone => ?_⟩
  obtain ⟨_, hpublish, _⟩ := map_eq_ok.mp hdone
  exact hthere (mapError_eq_ok.mp hpublish)

theorem abort (h : Housed s real) (upload : Nat) : Within real (IsScratch real) s (s.abort upload).2 := by
  rw [FileStore.abort]
  cases hlookup : s.uploads.lookup upload with
  | none => exact h.refl
  | some w =>
    obtain ⟨key, hw⟩ := h.uploads _ (mem_of_lookup hlookup)
    obtain ⟨p, hp, hbehind, htouched⟩ := hw.scratch.behind real
    dsimp only
    cases hunlink : s.volume.unlink ⟨w.scratch, false⟩ with
    | error fault => exact ⟨h.forget upload, rfl, .refl h.linkFree⟩
    | ok v =>
      rw [hbehind] at hunlink
      obtain ⟨hchanged, _⟩ := h.linkFree.unlink hp hunlink htouched
      exact h.within rfl hchanged fun entry hentry => .inl (List.mem_filter.mp hentry).1

theorem delete (h : Housed s real) (key : String) :
    Within real (Touches real key) s (s.delete key).2 ∧
      ((s.delete key).1 = .ok () → (s.delete key).2.volume.entry? (objectPath real key) = none) := by
  rw [FileStore.delete]
  cases hlocate : s.locate key with
  | error fault => exact ⟨h.refl, fun hdone => (error_ne_ok hdone).elim⟩
  | ok l =>
    obtain ⟨hin, _, rfl⟩ := h.of_locate hlocate
    dsimp only
    cases hunlink : s.volume.unlink (s.locationOf (Key.reading key)) with
    | error fault => exact ⟨h.refl, fun hdone => (error_ne_ok hdone).elim⟩
    | ok v =>
      have htouched : Touches real key (objectPath real key) := .inr rfl
      obtain ⟨hchanged, hgone⟩ := h.linkFree.unlink (map_plain_ne_nil hin) hunlink htouched
      exact ⟨h.within rfl hchanged fun entry hentry => .inl hentry, fun _ => hgone⟩

end Housed

/-! ### All requests -/

/-- A request that puts or removes the object of a key. -/
def Request.Concerns (s : FileStore) (key : String) : Request → Prop
  | .put k _ | .delete k => Key.components k = Key.components key
  | .finish upload => ∃ w, s.uploads.lookup upload = some w ∧ w.place.path = s.root ++ (Key.components key).map .plain
  | _ => False

theorem Request.Concerns.congr (h : r.Concerns s key) (hsame : Key.components key = Key.components other) :
    r.Concerns s other := by
  cases r with
  | put k data => exact Eq.trans h hsame
  | delete k => exact Eq.trans h hsame
  | finish upload =>
    obtain ⟨w, hlookup, hplace⟩ := h
    exact ⟨w, hlookup, hsame ▸ hplace⟩
  | _ => exact h.elim

/-- What may get or lose a file when a request is carried out. -/
def Request.Touches (s : FileStore) (real : Path) (r : Request) (p : Path) : Prop :=
  IsScratch real p ∨ ∃ key, r.Concerns s key ∧ p = objectPath real key

/-- **One request changes what is below the root alone**, and no files there but the object that it concerns. -/
theorem Housed.answer (h : Housed s real) (r : Request) : Within real (r.Touches s real) s (s.answer r).2 := by
  have hobject : ∀ {key : String}, r.Concerns s key → ∀ p, Touches real key p → r.Touches s real p :=
    fun hconcerns p htouches => htouches.imp_right fun heq => ⟨_, hconcerns, heq⟩
  cases r with
  | put key data => exact (h.put key data).1.mono (hobject rfl)
  | openUpload key => exact (h.openUpload key).1.mono fun _ => .inl
  | write upload data => exact (h.writeUpload upload data).mono fun _ => False.elim
  | finish upload =>
    cases hlookup : s.uploads.lookup upload with
    | none =>
      rw [FileStore.answer, FileStore.finish, hlookup]
      exact h.refl
    | some w =>
      obtain ⟨key, hw⟩ := h.uploads _ (mem_of_lookup hlookup)
      exact (h.finish hlookup hw).1.mono (hobject ⟨w, hlookup, hw.place⟩)
  | abort upload => exact (h.abort upload).mono fun _ => .inl
  | delete key => exact (h.delete key).1.mono (hobject rfl)
  | contains _ | head _ | get _ | stream _ | presign _ _ _ | verify _ _ _ _ | healthCheck => exact h.refl

end Depot.Objects
