import Depot.Proofs.Objects.Housed

/-!
# Keys stay inside the root

What a store does at any time whose root is there and has no links below it.

- `Shut`: a store whose root is no directory, which does nothing.
- `KeepsInside`: what each request does, and where.
- `keys_stay_inside`: that is so after any requests.
-/

namespace Depot.Objects

open Content Volume

variable {s : FileStore} {real : Path} {e : Entry} {key : String} {r : Request}

/-! ### A root that is no directory -/

/-- A store whose root is there, but no directory. -/
structure Shut (s : FileStore) (real : Path) (e : Entry) : Prop where
  root : s.volume.stat true ⟨s.root, false⟩ = .ok (real, e)
  noDirectory : e ≠ .directory
  noLinks : NoLinksBelow s.volume real
  idle : s.uploads = []

namespace Shut

theorem exists_answer_eq_error (h : Shut s real e) (hkey : r.key? = some key) :
    ∃ fault, s.answer r = (.error fault, s) := by
  cases hlocate : s.locate key with
  | error fault => exact ⟨fault, FileStore.answer_of_locate_eq_error hkey hlocate⟩
  | ok l => exact absurd (FileStore.of_locate h.root h.noLinks hlocate).2.1 h.noDirectory

theorem answer_ne_ok (h : Shut s real e) (hkey : r.key? = some key) (x : r.Reply) : (s.answer r).1 ≠ .ok x := by
  obtain ⟨fault, hanswer⟩ := h.exists_answer_eq_error hkey
  rw [hanswer]
  exact error_ne_ok

theorem answer_eq (h : Shut s real e) (r : Request) : (s.answer r).2 = s := by
  cases hkey : r.key? with
  | some key =>
    obtain ⟨fault, hanswer⟩ := h.exists_answer_eq_error hkey
    rw [hanswer]
  | none =>
    cases r with
    | write upload data =>
      rw [FileStore.answer, FileStore.writeUpload, h.idle]
      rfl
    | finish upload =>
      rw [FileStore.answer, FileStore.finish, h.idle]
      rfl
    | abort upload =>
      rw [FileStore.answer, FileStore.abort, h.idle]
      rfl
    | verify _ _ _ _ | healthCheck => rfl
    | contains _ | head _ | get _ | stream _ | put _ _ | openUpload _ | delete _ | presign _ _ _ => cases hkey

end Shut

/-! ### The whole of it -/

/-- How many bytes something is said to have. -/
def Entry.size : Entry → Nat
  | .file data => data.length
  | _ => FileStore.directorySize

/-- The bytes that can be read from something. -/
def Entry.bytes : Entry → List UInt8
  | .file data => data
  | _ => []

/-- The object of a key has this content, and it is what all keys with the same names read that end in a name. -/
structure FileStore.Reads (s : FileStore) (real : Path) (key : String) (data : List UInt8) : Prop where
  there : s.volume.entry? (objectPath real key) = some (.file data)
  read : ∀ other, ¬Key.LeadsOut other → Key.EndsInName other → Key.components key = Key.components other →
    (s.answer (.get other)).1 = .ok data

/-- What a store does that stays below its root, which leads to `real`. -/
structure KeepsInside (s : FileStore) (real : Path) : Prop where
  refused : ∀ r key, r.key? = some key → ((∃ why, (s.answer r).1 = .error (.invalidKey why)) ↔ Key.LeadsOut key)
  unchanged : ∀ r key, r.key? = some key → Key.LeadsOut key → (s.answer r).2 = s
  outside : ∀ r, SameOutside real s.volume (s.answer r).2.volume
  /-- Only what concerns an object changes it. -/
  others : ∀ (r : Request) key data, ¬Key.LeadsOut key → ¬r.Concerns s key →
    ((s.answer r).2.volume.entry? (objectPath real key) = some (.file data) ↔
      s.volume.entry? (objectPath real key) = some (.file data))
  /-- What is not there is missing below the root, or a directory on the way to it is. -/
  contains : ∀ key there, (s.answer (.contains key)).1 = .ok there →
    if there then s.volume.entry? (objectPath real key) ≠ none
    else ∃ p, Below real p ∧ p <+: objectPath real key ∧ s.volume.entry? p = none
  head : ∀ key info, (s.answer (.head key)).1 = .ok info →
    ∃ e, s.volume.entry? (objectPath real key) = some e ∧ info.size = e.size
  get : ∀ key data, (s.answer (.get key)).1 = .ok data →
    s.volume.entry? (objectPath real key) = some (.file data)
  stream : ∀ key bytes, (s.answer (.stream key)).1 = .ok bytes →
    ∃ e, s.volume.entry? (objectPath real key) = some e ∧ bytes.data = e.bytes
  put : ∀ key data, (s.answer (.put key data)).1 = .ok () → (s.answer (.put key data)).2.Reads real key data
  opened : ∀ key upload, (s.answer (.openUpload key)).1 = .ok upload →
    ∃ w, (s.answer (.openUpload key)).2.uploads.lookup upload = some w ∧ w.Writes s.root key
  finished : ∀ upload w key size, s.uploads.lookup upload = some w → w.Writes s.root key →
    (s.answer (.finish upload)).1 = .ok size → (s.answer (.finish upload)).2.Reads real key w.written
  deleted : ∀ key, (s.answer (.delete key)).1 = .ok () →
    (s.answer (.delete key)).2.volume.entry? (objectPath real key) = none
  /-- Keys that end in a name have the same place if they have the same names. -/
  same : ∀ key other, ¬Key.LeadsOut key → ¬Key.LeadsOut other → Key.EndsInName key → Key.EndsInName other →
    Key.components key = Key.components other → s.locate key = s.locate other
  apart : ∀ key other l, s.locate key = .ok l → s.locate other = .ok l → Key.components key = Key.components other

theorem Housed.reads {data : List UInt8} (h : Housed s real) (hhas : s.Has real key data)
    (hnul : key.toList.contains (Char.ofNat 0) = false) : s.Reads real key data :=
  ⟨hhas.entry, fun _ => h.get_of_has hhas hnul⟩

theorem Housed.keepsInside (h : Housed s real) : KeepsInside s real where
  refused r key hkey := FileStore.refused_iff h.linkFree.stat_root h.linkFree.noLinks hkey
  unchanged r key hkey hout := by
    obtain ⟨why, hlocate⟩ := s.locate_of_leadsOut hout
    rw [FileStore.answer_of_locate_eq_error hkey hlocate]
  outside r := (h.answer r).changed.outside
  others r key data hin hconcerns := by
    refine (h.answer r).changed.files _ data fun htouched => ?_
    rcases htouched with hscratch | ⟨k, hk, heq⟩
    · exact not_isScratch_objectPath hin hscratch
    · exact hconcerns (hk.congr (objectPath_eq_iff.mp heq).symm)
  contains key there hanswer := h.of_contains hanswer
  head key info hanswer := by
    obtain ⟨e, hfind, hinfo⟩ := map_eq_ok.mp (show s.head key = .ok info from hanswer)
    exact ⟨e, h.of_find hfind, by cases e <;> exact hinfo ▸ rfl⟩
  get key data hanswer := by
    obtain ⟨e, hfind, hdata⟩ := bind_eq_ok.mp (show s.get key = .ok data from hanswer)
    cases e with
    | file found =>
      cases hdata
      exact h.of_find hfind
    | directory => cases hdata
    | link target => cases hdata
  stream key bytes hanswer := by
    obtain ⟨e, hfind, hbytes⟩ := map_eq_ok.mp (show s.stream key = .ok bytes from hanswer)
    exact ⟨e, h.of_find hfind, by cases e <;> exact hbytes ▸ rfl⟩
  put key data hdone := by
    obtain ⟨hwithin, hhas⟩ := h.put key data
    exact hwithin.housed.reads (hhas hdone).2 (hhas hdone).1
  opened key upload hopen := (h.openUpload key).2 upload hopen
  finished upload w key size hlookup hw hdone := by
    obtain ⟨hwithin, hhas⟩ := h.finish hlookup hw
    exact hwithin.housed.reads (hhas size hdone) hw.noNul
  deleted key hdone := (h.delete key).2 hdone
  same key other := FileStore.locate_congr h.linkFree.stat_root h.linkFree.noLinks
  apart key other l := FileStore.components_eq_of_locate h.linkFree.stat_root h.linkFree.noLinks

theorem Shut.keepsInside (h : Shut s real e) : KeepsInside s real where
  refused r key hkey := FileStore.refused_iff h.root h.noLinks hkey
  unchanged r key _ _ := h.answer_eq r
  outside r := by
    rw [h.answer_eq]
    exact fun _ _ => rfl
  others r key data _ _ := by rw [h.answer_eq]
  contains key there hanswer := absurd hanswer (h.answer_ne_ok rfl there)
  head key info hanswer := absurd hanswer (h.answer_ne_ok rfl info)
  get key data hanswer := absurd hanswer (h.answer_ne_ok rfl data)
  stream key bytes hanswer := absurd hanswer (h.answer_ne_ok rfl bytes)
  put key data hdone := absurd hdone (h.answer_ne_ok (r := .put key data) rfl ())
  opened key upload hopen := absurd hopen (h.answer_ne_ok rfl upload)
  finished upload w key size hlookup _ _ := by
    rw [h.idle] at hlookup
    cases hlookup
  deleted key hdone := absurd hdone (h.answer_ne_ok (r := .delete key) rfl ())
  same key other := FileStore.locate_congr h.root h.noLinks
  apart key other l := FileStore.components_eq_of_locate h.root h.noLinks

/-! ### One request after another -/

/-- The store after some requests. -/
def FileStore.after (s : FileStore) (requests : List Request) : FileStore :=
  requests.foldl (fun s r => (s.answer r).2) s

theorem Housed.after (h : Housed s real) (requests : List Request) :
    Housed (s.after requests) real ∧ SameOutside real s.volume (s.after requests).volume := by
  induction requests generalizing s with
  | nil => exact ⟨h, fun _ _ => rfl⟩
  | cons r requests ih =>
    have hfirst := h.answer r
    obtain ⟨hhoused, hsame⟩ := ih hfirst.housed
    exact ⟨hhoused, hfirst.changed.outside.trans hsame⟩

theorem Shut.after_eq (h : Shut s real e) (requests : List Request) : s.after requests = s := by
  induction requests with
  | nil => rfl
  | cons r requests ih => rwa [FileStore.after, List.foldl_cons, h.answer_eq]

/-- **Keys do not lead out of the root.** After any requests to a store whose root is there and has no links below it,
a request is refused for its key exactly if the key leads out, and every other one works on what its key names below
the root. Keys name the same object exactly if they have the same names, and the keys of blocks are accepted and name
objects of which none is on the way to another. -/
theorem keys_stay_inside (hroot : s.volume.stat true ⟨s.root, false⟩ = .ok (real, e))
    (hlinks : NoLinksBelow s.volume real) (hidle : s.uploads = []) (requests : List Request) :
    KeepsInside (s.after requests) real ∧
      SameOutside real s.volume (s.after requests).volume ∧
      (∀ key, ¬Key.LeadsOut key → Below real (objectPath real key)) ∧
      (∀ key other, objectPath real key = objectPath real other ↔ Key.components key = Key.components other) ∧
      (∀ h : BlockHash, ¬Key.LeadsOut h.objectKey ∧ Key.EndsInName h.objectKey) ∧
      ∀ g h : BlockHash, g ≠ h → ¬objectPath real g.objectKey <+: objectPath real h.objectKey := by
  have hstore : KeepsInside (s.after requests) real ∧ SameOutside real s.volume (s.after requests).volume := by
    by_cases he : e = .directory
    · have hhoused : Housed s real := ⟨linkFree_of_stat (he ▸ hroot) hlinks, by simp [hidle]⟩
      obtain ⟨hafter, hsame⟩ := hhoused.after requests
      exact ⟨hafter.keepsInside, hsame⟩
    · have hshut : Shut s real e := ⟨hroot, he, hlinks, hidle⟩
      rw [hshut.after_eq]
      exact ⟨hshut.keepsInside, fun _ _ => rfl⟩
  exact ⟨hstore.1, hstore.2, fun _ => below_objectPath, fun _ _ => objectPath_eq_iff,
    fun h => ⟨not_leadsOut_objectKey h, endsInName_objectKey h⟩, fun _ _ => not_prefix_of_ne⟩

/-- A store whose root is a link to an empty directory. -/
def linkedStore : FileStore :=
  ⟨⟨[([.plain "srv"], .link [.plain "data"]), ([.plain "data"], .directory)]⟩, [.plain "srv"],
    ⟨[], "http://depot"⟩, [], 0⟩

theorem keys_stay_inside_behind_link :
    linkedStore.volume.stat true ⟨[.plain "srv"], false⟩ = .ok ([.plain "data"], .directory) ∧
      KeepsInside (linkedStore.after [.put "a/b" [1], .get "../data/a/b"]) [.plain "data"] := by
  have hdata : linkedStore.volume.walk true 39 [] [.plain "data"] = .ok [.plain "data"] :=
    (walk_directory rfl (by decide) rfl fun _ heq => by cases heq).trans walk_nil
  have hwalk : linkedStore.volume.walk true maxLinks [] [.plain "srv"] = .ok [.plain "data"] :=
    (walk_link rfl (by decide) rfl (.inr rfl)).trans hdata
  have hroot : linkedStore.volume.stat true ⟨[.plain "srv"], false⟩ = .ok ([.plain "data"], .directory) := by
    rw [stat, Bool.or_false, resolve, if_neg (by decide), hwalk]
    rfl
  have hlinks : NoLinksBelow linkedStore.volume [.plain "data"] := by
    rintro p target ⟨name, rest, rfl⟩
    simp [linkedStore, entry?, List.lookup_cons]
  exact ⟨hroot, (keys_stay_inside hroot hlinks rfl _).1⟩

end Depot.Objects
