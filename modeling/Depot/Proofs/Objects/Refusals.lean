import Depot.Proofs.Objects.Keys

/-!
# Which keys are refused

A store whose root has no links below it refuses keys for what they say, and not for what is there.

- `FileStore.refused_iff`: a request is refused for its key exactly if the key leads out.
- `FileStore.of_locate`, `FileStore.locate_congr`: where the places of all other keys are.
-/

namespace Depot.Objects

open Content Volume

/-- The key of the object that a request works on. -/
def Request.key? : Request → Option String
  | .contains key | .head key | .get key | .stream key | .put key _ | .openUpload key | .delete key
  | .presign key _ _ => some key
  | _ => none

variable {s : FileStore} {real : Path} {e : Entry} {key other : String} {r : Request} {l : Location}

/-! ### What keys alone decide -/

namespace FileStore

theorem locate_of_leadsOut (s : FileStore) (hout : Key.LeadsOut key) :
    ∃ why, s.locate key = .error (.invalidKey why) := by
  obtain ⟨why, hparse⟩ := Key.exists_parse_of_leadsOut hout
  exact ⟨why, by rw [locate, hparse]; rfl⟩

theorem answer_of_locate_eq_error {fault : ObjectError} (hkey : r.key? = some key) (h : s.locate key = .error fault) :
    s.answer r = (.error fault, s) := by
  cases r with
  | contains k =>
    cases hkey
    rw [answer, contains, h]
    rfl
  | head k =>
    cases hkey
    rw [answer, head, find, h]
    rfl
  | get k =>
    cases hkey
    rw [answer, get, find, h]
    rfl
  | stream k =>
    cases hkey
    rw [answer, stream, find, h]
    rfl
  | put k data =>
    cases hkey
    rw [answer, put, h]
  | openUpload k =>
    cases hkey
    rw [answer, openUpload, h]
  | delete k =>
    cases hkey
    rw [answer, delete, h]
  | presign k ttl now =>
    cases hkey
    rw [answer, presign, h]
    rfl
  | write _ _ | finish _ | abort _ | verify _ _ _ _ | healthCheck => cases hkey

theorem io_ne (fault : PathFault) (why : String) : io fault ≠ .invalidKey why := nofun

theorem absentOr_ne (key : String) (fault : PathFault) (why : String) : absentOr key fault ≠ .invalidKey why := by
  cases fault <;> exact nofun

theorem error_ne {α : Type} {fault : ObjectError} {why : String} (h : fault ≠ .invalidKey why) :
    (Except.error fault : Except ObjectError α) ≠ .error (.invalidKey why) := fun heq => h (Except.error.inj heq)

theorem find_ne {fault : ObjectError} (h : s.locate key = .ok l) (hfail : s.find key = .error fault) (why : String) :
    fault ≠ .invalidKey why := by
  rw [find, h, ok_bind] at hfail
  split at hfail
  · cases hfail
  · cases hfail
    exact absentOr_ne key _ why

theorem sign_ne (signer : UrlSigner) (key : String) (ttl : Lifetime) (now : Time.DateTime) (why : String) :
    signer.sign key ttl now ≠ .error (.invalidKey why) := by
  rw [UrlSigner.sign, UrlSigner.expiry]
  split
  · exact error_ne fun heq => by cases heq
  · split
    · exact ok_ne_error
    · exact error_ne fun heq => by cases heq

theorem answer_ne_of_locate (hkey : r.key? = some key) (h : s.locate key = .ok l) (why : String) :
    (s.answer r).1 ≠ .error (.invalidKey why) := by
  cases r with
  | contains k =>
    cases hkey
    rw [answer, contains, h, ok_bind]
    split
    · exact ok_ne_error
    · exact ok_ne_error
    · exact error_ne (io_ne _ why)
  | head k =>
    cases hkey
    rw [answer, head]
    cases hfound : s.find key with
    | ok e => exact ok_ne_error
    | error fault => exact error_ne (find_ne h hfound why)
  | get k =>
    cases hkey
    rw [answer, get]
    cases hfound : s.find key with
    | ok e =>
      cases e with
      | file data => exact ok_ne_error
      | directory => exact error_ne (io_ne .isDirectory why)
      | link target => exact error_ne (io_ne .isDirectory why)
    | error fault => exact error_ne (find_ne h hfound why)
  | stream k =>
    cases hkey
    rw [answer, stream]
    cases hfound : s.find key with
    | ok e => exact ok_ne_error
    | error fault => exact error_ne (find_ne h hfound why)
  | put k data =>
    cases hkey
    rw [answer, put, h]
    dsimp only
    split
    · exact error_ne (io_ne _ why)
    · rename_i scratch next _
      cases (next.publish scratch l data).1 with
      | ok _ => exact ok_ne_error
      | error fault => exact error_ne (io_ne fault why)
  | openUpload k =>
    cases hkey
    rw [answer, openUpload, h]
    dsimp only
    split
    · exact error_ne (io_ne _ why)
    · exact ok_ne_error
  | delete k =>
    cases hkey
    rw [answer, delete, h]
    dsimp only
    split
    · exact ok_ne_error
    · exact error_ne (absentOr_ne key _ why)
  | presign k ttl now =>
    cases hkey
    rw [answer, presign, h]
    exact sign_ne s.signer key ttl now why
  | write _ _ | finish _ | abort _ | verify _ _ _ _ | healthCheck => cases hkey

/-! ### Accepted keys -/

theorem contains_nul_congr (hsame : Key.components key = Key.components other) :
    key.toList.contains (Char.ofNat 0) = other.toList.contains (Char.ofNat 0) := by
  rw [Bool.eq_iff_iff, List.contains_iff_mem, List.contains_iff_mem, Key.mem_toList_iff (by decide) (by decide),
    Key.mem_toList_iff (by decide) (by decide), hsame]

theorem placeOf_ne (s : FileStore) (key : String) (k : Key) (why : String) :
    s.placeOf key k ≠ .error (.invalidKey why) := by
  rw [placeOf]
  split
  · exact error_ne fun heq => by cases heq
  · split
    · exact error_ne (io_ne _ why)
    · exact ok_ne_error

section Accepted

variable (hroot : s.volume.stat true ⟨s.root, false⟩ = .ok (real, e)) (hlinks : NoLinksBelow s.volume real)
include hroot hlinks

theorem locate_of_not_leadsOut (hin : ¬Key.LeadsOut key) : s.locate key = s.placeOf key (Key.reading key) :=
  locate_eq hroot (Key.components_ne_nil hin) hlinks (Key.parse_eq hin)

theorem of_locate (h : s.locate key = .ok l) :
    ¬Key.LeadsOut key ∧ e = .directory ∧ key.toList.contains (Char.ofNat 0) = false ∧
      l = s.locationOf (Key.reading key) := by
  have hin : ¬Key.LeadsOut key := fun hout => by
    obtain ⟨why, hrefused⟩ := s.locate_of_leadsOut hout
    rw [hrefused] at h
    cases h
  rw [locate_of_not_leadsOut hroot hlinks hin] at h
  refine ⟨hin, Decidable.byContradiction fun he => ?_, ?_⟩
  · obtain ⟨detail, hfail⟩ := placeOf_eq_error (k := Key.reading key) hroot (Key.components_ne_nil hin) he
    rw [hfail] at h
    cases h
  · rw [placeOf] at h
    split at h
    · cases h
    · split at h
      · cases h
      · exact ⟨Bool.eq_false_iff.mpr ‹_›, (Except.ok.inj h).symm⟩

/-- **The keys that lead out are refused, and no others.** -/
theorem refused_iff (hkey : r.key? = some key) :
    (∃ why, (s.answer r).1 = .error (.invalidKey why)) ↔ Key.LeadsOut key := by
  constructor
  · rintro ⟨why, hrefused⟩
    refine Decidable.byContradiction fun hin => ?_
    have hplace := locate_of_not_leadsOut hroot hlinks hin
    cases hlocate : s.locate key with
    | error fault =>
      rw [answer_of_locate_eq_error hkey hlocate] at hrefused
      rw [hlocate, Except.error.inj hrefused] at hplace
      exact s.placeOf_ne key _ why hplace.symm
    | ok l => exact answer_ne_of_locate hkey hlocate why hrefused
  · intro hout
    obtain ⟨why, hlocate⟩ := s.locate_of_leadsOut hout
    exact ⟨why, by rw [answer_of_locate_eq_error hkey hlocate]⟩

theorem locate_congr (hkey : ¬Key.LeadsOut key) (hother : ¬Key.LeadsOut other) (hname : Key.EndsInName key)
    (hname' : Key.EndsInName other) (hsame : Key.components key = Key.components other) :
    s.locate key = s.locate other := by
  rw [locate_of_not_leadsOut hroot hlinks hkey, locate_of_not_leadsOut hroot hlinks hother, placeOf, placeOf,
    contains_nul_congr hsame, Key.reading_congr hname hname' hsame]

theorem components_eq_of_locate (hkey : s.locate key = .ok l) (hother : s.locate other = .ok l) :
    Key.components key = Key.components other := by
  obtain ⟨_, _, _, hplace⟩ := of_locate hroot hlinks hkey
  obtain ⟨_, _, _, hplace'⟩ := of_locate hroot hlinks hother
  have hpath : objectPath s.root key = objectPath s.root other := congrArg Location.path (hplace.symm.trans hplace')
  exact objectPath_eq_iff.mp hpath

end Accepted

end FileStore

end Depot.Objects
