import Depot.Objects.Store
import Depot.Proofs.Objects.BlockUploads

/-!
# Blocks in a store of either kind

Any number of uploads can be under way. What each call about an upload does is said of a directory and of a bucket
at once, with what it leaves of all other uploads.

- `ObjectStore.block?`, `ObjectStore.Writes`: what is stored of a block, and what an upload has written of one.
- `ObjectStore.Orderly`: a store that has been asked for nothing but blocks.
- `ObjectStore.Serves`: a store that accepts requests; a directory always does.
- `Besides`: what a call about one upload leaves of the others.
-/

namespace Depot.Objects

open Content

namespace ObjectStore

/-- The content of a block; the root of a directory leads to `real`. -/
def block? (real : Path) : ObjectStore → BlockHash → Option (List UInt8)
  | files f, h => f.object? real h
  | bucket b, h => b.service.objects.lookup (b.objectName h.objectKey)

/-- How many uploads there have been, which is the number of the next. -/
def opened : ObjectStore → Nat
  | files f => f.serial
  | bucket b => b.opened

/-- An upload of a block has written so much. -/
def Writes (real : Path) : ObjectStore → Nat → BlockHash → List UInt8 → Prop
  | files f, n, h, written => Writing f real n h written
  | bucket b, n, h, written => b.uploads.lookup n = some ⟨b.objectName h.objectKey, written⟩

/-- A store of blocks, which may be in the midst of uploads. -/
def Orderly (real : Path) : ObjectStore → Prop
  | files f => BlockFiles f real
  | bucket b => ∀ entry ∈ b.uploads, entry.1 < b.opened

/-- A store that requests reach and that refuses none. -/
def Serves : ObjectStore → Prop
  | files _ => True
  | bucket b => b.service.isReachable ∧ ∀ m, b.service.refusal? b.bucket m = none

end ObjectStore

open ObjectStore

variable {real : Path} {o next : ObjectStore} {n : Nat} {h : BlockHash} {written : List UInt8}

/-- What a call about one upload leaves: a store that is in order, with all other uploads as they were. -/
structure Besides (real : Path) (n : Nat) (o next : ObjectStore) : Prop where
  orderly : next.Orderly real
  others : ∀ m g w, m ≠ n → o.Writes real m g w → next.Writes real m g w
  opened : o.opened ≤ next.opened

theorem mem_of_lookup {β : Type} {entries : List (Nat × β)} {b : β} (hfound : entries.lookup n = some b) :
    (n, b) ∈ entries := by
  obtain ⟨_, _, rfl, _⟩ := List.lookup_eq_some_iff.mp hfound
  exact List.mem_append_right _ List.mem_cons_self

theorem ObjectStore.Orderly.lt_opened (ho : o.Orderly real) (hw : o.Writes real n h written) : n < o.opened := by
  cases o with
  | files f =>
    obtain ⟨u, _, hu, _⟩ := hw
    exact hu.before
  | bucket b => exact ho _ (mem_of_lookup hw)

/-! ### Uploads in a directory -/

theorem writing_congr {s next : FileStore} {m : Nat} {g : BlockHash} (hnext : BlockFiles next real)
    (hroot : next.root = s.root) (hlookup : next.uploads.lookup m = s.uploads.lookup m)
    (hu : Writing s real m g written) : Writing next real m g written := by
  obtain ⟨u, hknown, hupload, rfl⟩ := hu
  rw [← hlookup] at hknown
  obtain ⟨g', hstill⟩ := hnext.uploads _ (mem_of_lookup hknown)
  have hplace : (⟨next.root ++ blockPath g', false⟩ : Location) = ⟨s.root ++ blockPath g, false⟩ :=
    hstill.place.symm.trans hupload.place
  rw [hroot] at hplace
  have hsame : g' = g := blockPath_injective (List.append_cancel_left (Location.mk.inj hplace).1)
  exact ⟨u, hknown, hsame ▸ hstill, rfl⟩

theorem besides_files {s next : FileStore} {ids : List Nat} (hleaves : Leaves s next real ids)
    (hserial : s.serial ≤ next.serial) (hlookup : ∀ m, m ≠ n → next.uploads.lookup m = s.uploads.lookup m) :
    Besides real n (.files s) (.files next) :=
  ⟨hleaves.files, fun m _ _ hne hw => writing_congr hleaves.files hleaves.root (hlookup m hne) hw, hserial⟩

theorem lookup_forget (s : FileStore) {m : Nat} (hne : m ≠ n) :
    (s.forget n).uploads.lookup m = s.uploads.lookup m :=
  Volume.lookup_filter_ne.trans (if_neg hne)

theorem lookup_cons_ne {β : Type} {entries : List (Nat × β)} {m : Nat} (hne : m ≠ n) (b : β) :
    ((n, b) :: entries).lookup m = entries.lookup m := by
  rw [List.lookup_cons, beq_eq_false_iff_ne.mpr hne]

/-- A call that publishes or discards a scratch file leaves the uploads of the store to the caller. -/
theorem uploads_publish (s : FileStore) (scratch : Path) (l : Location) (data : List UInt8) :
    (s.publish scratch l data).2.uploads = s.uploads ∧ (s.publish scratch l data).2.serial = s.serial := by
  unfold FileStore.publish
  split
  · exact ⟨rfl, rfl⟩
  · split <;> exact ⟨rfl, rfl⟩

theorem uploads_prepare (s : FileStore) (l : Location) :
    (s.prepare l).2.uploads = s.uploads ∧ s.serial ≤ (s.prepare l).2.serial := by
  unfold FileStore.prepare
  split
  · exact ⟨rfl, Nat.le_refl _⟩
  · split
    · exact ⟨rfl, Nat.le_refl _⟩
    · exact ⟨rfl, Nat.le_succ _⟩

theorem lookup_openUpload (s : FileStore) (key : String) {m : Nat} (hne : m ≠ s.serial) :
    (s.openUpload key).2.uploads.lookup m = s.uploads.lookup m ∧ s.serial ≤ (s.openUpload key).2.serial := by
  unfold FileStore.openUpload
  split
  · exact ⟨rfl, Nat.le_refl _⟩
  · rename_i l _
    have hprepare := uploads_prepare s l
    split
    · rename_i next hresult
      rw [hresult] at hprepare
      exact ⟨congrArg (List.lookup m) hprepare.1, hprepare.2⟩
    · rename_i scratch next hresult
      rw [hresult] at hprepare
      exact ⟨(lookup_cons_ne hne _).trans (congrArg (List.lookup m) hprepare.1), hprepare.2⟩

theorem lookup_writeUpload (s : FileStore) (data : List UInt8) {m : Nat} (hne : m ≠ n) :
    (s.writeUpload n data).2.uploads.lookup m = s.uploads.lookup m ∧ (s.writeUpload n data).2.serial = s.serial := by
  unfold FileStore.writeUpload
  split
  · exact ⟨rfl, rfl⟩
  · exact ⟨(lookup_cons_ne hne _).trans (lookup_forget s hne), rfl⟩

theorem lookup_finish (s : FileStore) {m : Nat} (hne : m ≠ n) :
    (s.finish n).2.uploads.lookup m = s.uploads.lookup m ∧ (s.finish n).2.serial = s.serial := by
  unfold FileStore.finish
  split
  · exact ⟨rfl, rfl⟩
  · rename_i u _
    have hpublish := uploads_publish (s.forget n) u.scratch u.place u.written
    exact ⟨(congrArg (List.lookup m) hpublish.1).trans (lookup_forget s hne), hpublish.2⟩

theorem lookup_abort (s : FileStore) {m : Nat} (hne : m ≠ n) :
    (s.abort n).2.uploads.lookup m = s.uploads.lookup m ∧ (s.abort n).2.serial = s.serial := by
  unfold FileStore.abort
  split
  · exact ⟨rfl, rfl⟩
  · split <;> exact ⟨lookup_forget s hne, rfl⟩

/-! ### Uploads in a bucket -/

theorem objectKey_injective {g : BlockHash} (heq : g.objectKey = h.objectKey) : g = h := by
  have hparts := congrArg Key.parts heq
  rw [parts_objectKey, parts_objectKey] at hparts
  simp only [List.cons.injEq, and_true] at hparts
  exact BlockHash.hex_injective hparts.2.2.2

theorem objectName_injective (b : BucketStore) {g : BlockHash}
    (heq : b.objectName g.objectKey = b.objectName h.objectKey) : g = h := by
  unfold BucketStore.objectName at heq
  split at heq
  · have hlists := congrArg String.toList heq
    simp only [toString, String.toList_append, List.append_cancel_left_eq] at hlists
    exact objectKey_injective (String.toList_injective hlists)
  · exact objectKey_injective heq

theorem lookup_forgotten (b : BucketStore) {m : Nat} (hne : m ≠ n) :
    (b.forget n).uploads.lookup m = b.uploads.lookup m :=
  Volume.lookup_filter_ne.trans (if_neg hne)

theorem besides_bucket {b next : BucketStore} (ho : Orderly real (.bucket next)) (hopened : b.opened ≤ next.opened)
    (hname : next.objectName = b.objectName)
    (hlookup : ∀ m, m ≠ n → next.uploads.lookup m = b.uploads.lookup m) :
    Besides real n (.bucket b) (.bucket next) := by
  refine ⟨ho, fun m g w hne hw => ?_, hopened⟩
  change next.uploads.lookup m = some ⟨next.objectName g.objectKey, w⟩
  rw [hlookup m hne, hname]
  exact hw

/-- The bucket with an object in place of the one that had its name. -/
def withObject (b : BucketStore) (name : String) (data : List UInt8) : BucketStore :=
  { b with service := { b.service with
    objects := (name, data) :: b.service.objects.filter fun entry => entry.1 ≠ name } }

theorem block?_withObject (b : BucketStore) (h g : BlockHash) (data : List UInt8) :
    ObjectStore.block? real (.bucket (withObject b (b.objectName h.objectKey) data)) g =
      if g = h then some data else ObjectStore.block? real (.bucket b) g := by
  change List.lookup (b.objectName g.objectKey) ((b.objectName h.objectKey, data) ::
    b.service.objects.filter fun entry => entry.1 ≠ b.objectName h.objectKey) = _
  by_cases hgh : g = h
  · rw [if_pos hgh, hgh, List.lookup_cons_self]
  · have hne : b.objectName g.objectKey ≠ b.objectName h.objectKey := fun heq => hgh (objectName_injective b heq)
    rw [if_neg hgh, List.lookup_cons, beq_eq_false_iff_ne.mpr hne]
    exact Volume.lookup_filter_ne.trans (if_neg hne)

theorem send_put (b : BucketStore) (name key : String) (data : List UInt8) :
    (∃ e, b.send .put name key data = (.error e, b) ∧ ¬Serves (.bucket b)) ∨
      b.send .put name key data = (.ok [], withObject b name data) := by
  by_cases hreach : b.service.isReachable
  · cases hrefusal : b.service.refusal? b.bucket .put with
    | some status =>
      have hrespond : b.service.respond b.bucket .put name data = (.refused status, b.service) := by
        simp [BucketService.respond, hreach, hrefusal]
      refine .inl ⟨BucketStore.failure key status, by rw [BucketStore.send, hrespond], fun hserves => ?_⟩
      rw [hserves.2 .put] at hrefusal
      cases hrefusal
    | none =>
      right
      simp [BucketStore.send, BucketService.respond, hreach, hrefusal, withObject]
  · have hrespond : b.service.respond b.bucket .put name data = (.silence, b.service) := by
      simp [BucketService.respond, hreach]
    exact .inl ⟨BucketStore.unreachable, by rw [BucketStore.send, hrespond], fun hserves => hreach hserves.1⟩

theorem contains_bucket (b : BucketStore) (h : BlockHash) :
    (b.contains h.objectKey = .ok true → (ObjectStore.block? real (.bucket b) h).isSome) ∧
      (Serves (.bucket b) → b.contains h.objectKey = .ok (ObjectStore.block? real (.bucket b) h).isSome) := by
  by_cases hreach : b.service.isReachable
  · cases hrefusal : b.service.refusal? b.bucket .head with
    | some status =>
      have hrespond :
          b.service.respond b.bucket .head (b.objectName h.objectKey) [] = (.refused status, b.service) := by
        simp [BucketService.respond, hreach, hrefusal]
      have hcontains : b.contains h.objectKey ≠ .ok true := by
        rw [BucketStore.contains, BucketStore.head, BucketStore.send, hrespond]
        simp only [Except.map, BucketStore.failure]
        split <;> simp_all
      refine ⟨fun htrue => absurd htrue hcontains, fun hserves => ?_⟩
      rw [hserves.2 .head] at hrefusal
      cases hrefusal
    | none =>
      have hcontains : b.contains h.objectKey = .ok (ObjectStore.block? real (.bucket b) h).isSome := by
        rw [BucketStore.contains, BucketStore.head, BucketStore.send, BucketService.respond, ObjectStore.block?]
        simp only [hreach, hrefusal, Bool.not_true, Bool.false_eq_true, if_false]
        cases b.service.objects.lookup (b.objectName h.objectKey) <;> rfl
      exact ⟨fun htrue => Except.ok.inj (hcontains.symm.trans htrue), fun _ => hcontains⟩
  · have hrespond : b.service.respond b.bucket .head (b.objectName h.objectKey) [] = (.silence, b.service) := by
      simp [BucketService.respond, hreach]
    refine ⟨fun htrue => ?_, fun hserves => absurd hserves.1 hreach⟩
    rw [BucketStore.contains, BucketStore.head, BucketStore.send, hrespond] at htrue
    cases htrue

/-! ### Stores that serve -/

theorem respond_service (service : BucketService) (bucket : String) (m : Method) (name : String) (body : List UInt8) :
    ∃ objects, (service.respond bucket m name body).2 = { service with objects } := by
  unfold BucketService.respond
  split
  · exact ⟨_, rfl⟩
  · split
    · exact ⟨_, rfl⟩
    · cases m with
      | get | head =>
        dsimp only
        split <;> exact ⟨_, rfl⟩
      | put | delete => exact ⟨_, rfl⟩

/-- What no request changes of a bucket: which one it is, and all of its service but the objects. -/
def SameService (b next : BucketStore) : Prop :=
  next.bucket = b.bucket ∧ ∃ objects, next.service = { b.service with objects }

theorem SameService.refl (b : BucketStore) : SameService b b := ⟨rfl, _, rfl⟩

theorem sameService_send (b : BucketStore) (m : Method) (name key : String) (body : List UInt8) :
    SameService b (b.send m name key body).2 := by
  obtain ⟨objects, hservice⟩ := respond_service b.service b.bucket m name body
  have hsent : (b.send m name key body).2 = { b with service := { b.service with objects } } := by
    rw [← hservice, BucketStore.send]
    split <;> simp [*]
  rw [hsent]
  exact ⟨rfl, objects, rfl⟩

theorem sameService_answer (b : BucketStore) (r : Request) : SameService b (b.answer r).2 := by
  cases r with
  | put key data => exact sameService_send b _ _ _ _
  | write upload data =>
    change SameService b (b.writeUpload upload data).2
    unfold BucketStore.writeUpload
    split
    · exact .refl b
    · exact ⟨rfl, _, rfl⟩
  | finish upload =>
    change SameService b (b.finish upload).2
    unfold BucketStore.finish
    split
    · exact .refl b
    · exact sameService_send (b.forget upload) _ _ _ _
  | abort upload =>
    change SameService b (b.abort upload).2
    unfold BucketStore.abort
    split
    · exact .refl b
    · exact ⟨rfl, _, rfl⟩
  | delete key =>
    change SameService b (b.delete key).2
    unfold BucketStore.delete
    split
    · exact .refl b
    · exact .refl b
    · exact sameService_send b _ _ _ _
  | openUpload key => exact ⟨rfl, _, rfl⟩
  | _ => exact .refl b

theorem SameService.serves {b next : BucketStore} (hsame : SameService b next) (hb : Serves (.bucket b)) :
    Serves (.bucket next) := by
  obtain ⟨hbucket, objects, hservice⟩ := hsame
  refine ⟨?_, fun m => ?_⟩
  · rw [hservice]
    exact hb.1
  · rw [hservice, hbucket]
    exact hb.2 m

theorem serves_answer (ho : o.Serves) (r : Request) : (o.answer r).2.Serves := by
  cases o with
  | files f => trivial
  | bucket b => exact (sameService_answer b r).serves ho

/-! ### Calls -/

theorem answer_contains_block (ho : o.Orderly real) (h : BlockHash) :
    ∃ reply, o.answer (.contains h.objectKey) = (reply, o) ∧
      (reply = .ok true → (o.block? real h).isSome) ∧ (o.Serves → reply = .ok (o.block? real h).isSome) := by
  cases o with
  | files f =>
    have hcontains : f.contains h.objectKey = .ok (f.object? real h).isSome := BlockFiles.contains_eq ho h
    exact ⟨_, rfl, fun htrue => Except.ok.inj (hcontains.symm.trans htrue), fun _ => hcontains⟩
  | bucket b => exact ⟨_, rfl, contains_bucket b h⟩

theorem answer_openUpload_block (ho : o.Orderly real) (h : BlockHash) :
    ∃ next, o.answer (.openUpload h.objectKey) = (.ok o.opened, next) ∧ Besides real o.opened o next ∧
      next.Writes real o.opened h [] ∧ next.block? real = o.block? real := by
  cases o with
  | files f =>
    obtain ⟨next, hopen, hleaves, hwriting, hsame⟩ := BlockFiles.openUpload_eq ho h
    have hothers := fun m (hne : m ≠ f.serial) => lookup_openUpload f h.objectKey hne
    rw [hopen] at hothers
    have hserial : f.serial ≤ next.serial := (hothers (f.serial + 1) (by omega)).2
    refine ⟨.files next, ?_, besides_files hleaves hserial fun m hne => (hothers m hne).1, hwriting, funext hsame⟩
    rw [ObjectStore.answer, FileStore.answer, hopen]
    rfl
  | bucket b =>
    refine ⟨_, rfl, besides_bucket (fun entry hentry => ?_) (Nat.le_succ _) rfl fun m hne => lookup_cons_ne hne _,
      List.lookup_cons_self, rfl⟩
    rcases List.mem_cons.mp hentry with rfl | hold
    · exact Nat.lt_succ_self _
    · exact Nat.lt_succ_of_lt (ho entry hold)

theorem answer_write_block (ho : o.Orderly real) (hw : o.Writes real n h written) (data : List UInt8) :
    ∃ next, o.answer (.write n data) = (.ok (), next) ∧ Besides real n o next ∧
      next.Writes real n h (written ++ data) ∧ next.block? real = o.block? real := by
  cases o with
  | files f =>
    obtain ⟨next, hwrite, hleaves, hwriting, hsame⟩ := BlockFiles.writeUpload_eq ho hw data
    have hothers := fun m (hne : m ≠ n) => lookup_writeUpload f data hne
    rw [hwrite] at hothers
    have hserial : f.serial ≤ next.serial := Nat.le_of_eq (hothers (n + 1) (by omega)).2.symm
    refine ⟨.files next, ?_, besides_files hleaves hserial fun m hne => (hothers m hne).1, hwriting, funext hsame⟩
    rw [ObjectStore.answer, FileStore.answer, hwrite]
  | bucket b =>
    have hknown : b.uploads.lookup n = some ⟨b.objectName h.objectKey, written⟩ := hw
    have hothers : ∀ m, m ≠ n → ((n, (⟨b.objectName h.objectKey, written ++ data⟩ : BufferedUpload)) ::
        (b.forget n).uploads).lookup m = b.uploads.lookup m := fun m hne =>
      (lookup_cons_ne hne _).trans (lookup_forgotten b hne)
    refine ⟨.bucket { b with uploads := (n, ⟨b.objectName h.objectKey, written ++ data⟩) :: (b.forget n).uploads },
      ?_, besides_bucket (fun entry hentry => ?_) (Nat.le_refl _) rfl hothers, List.lookup_cons_self, rfl⟩
    · rw [ObjectStore.answer, BucketStore.answer, BucketStore.writeUpload, hknown]
    · rcases List.mem_cons.mp hentry with rfl | hold
      · exact ObjectStore.Orderly.lt_opened (o := .bucket b) ho hw
      · exact ho entry (List.mem_filter.mp hold).1

theorem answer_finish_block (ho : o.Orderly real) (hw : o.Writes real n h written) :
    ∃ reply next, o.answer (.finish n) = (reply, next) ∧ Besides real n o next ∧
      ((reply = .ok written.length ∧ ∀ g, next.block? real g = if g = h then some written else o.block? real g) ∨
        ((∃ e, reply = .error e) ∧ ¬o.Serves ∧ next.block? real = o.block? real)) := by
  cases o with
  | files f =>
    obtain ⟨next, hfinish, hleaves, hobjects⟩ := BlockFiles.finish_eq ho hw
    have hothers := fun m (hne : m ≠ n) => lookup_finish f hne
    rw [hfinish] at hothers
    have hserial : f.serial ≤ next.serial := Nat.le_of_eq (hothers (n + 1) (by omega)).2.symm
    refine ⟨_, .files next, ?_, besides_files hleaves hserial fun m hne => (hothers m hne).1, .inl ⟨rfl, hobjects⟩⟩
    rw [ObjectStore.answer, FileStore.answer, hfinish]
  | bucket b =>
    have hknown : b.uploads.lookup n = some ⟨b.objectName h.objectKey, written⟩ := hw
    have horderly : ∀ entry ∈ (b.forget n).uploads, entry.1 < b.opened := fun entry hentry =>
      ho entry (List.mem_filter.mp hentry).1
    have hothers : ∀ m, m ≠ n → (b.forget n).uploads.lookup m = b.uploads.lookup m := fun m hne =>
      lookup_forgotten b hne
    rcases send_put (b.forget n) (b.objectName h.objectKey) (b.objectName h.objectKey) written with
      ⟨e, hsend, hrefused⟩ | hsend
    · refine ⟨.error e, .bucket (b.forget n), ?_, besides_bucket horderly (Nat.le_refl _) rfl hothers,
        .inr ⟨⟨e, rfl⟩, hrefused, rfl⟩⟩
      rw [ObjectStore.answer, BucketStore.answer, BucketStore.finish, hknown]
      dsimp only
      rw [hsend]
      rfl
    · refine ⟨.ok written.length, .bucket (withObject (b.forget n) (b.objectName h.objectKey) written), ?_,
        besides_bucket horderly (Nat.le_refl _) rfl hothers,
        .inl ⟨rfl, fun g => block?_withObject (b.forget n) h g written⟩⟩
      rw [ObjectStore.answer, BucketStore.answer, BucketStore.finish, hknown]
      dsimp only
      rw [hsend]
      rfl

theorem answer_abort_block (ho : o.Orderly real) (hw : o.Writes real n h written) :
    ∃ next, o.answer (.abort n) = (.ok (), next) ∧ Besides real n o next ∧ next.block? real = o.block? real := by
  cases o with
  | files f =>
    obtain ⟨next, habort, hleaves, hsame⟩ := BlockFiles.abort_eq ho hw
    have hothers := fun m (hne : m ≠ n) => lookup_abort f hne
    rw [habort] at hothers
    have hserial : f.serial ≤ next.serial := Nat.le_of_eq (hothers (n + 1) (by omega)).2.symm
    refine ⟨.files next, ?_, besides_files hleaves hserial fun m hne => (hothers m hne).1, funext hsame⟩
    rw [ObjectStore.answer, FileStore.answer, habort]
  | bucket b =>
    have hknown : b.uploads.lookup n = some ⟨b.objectName h.objectKey, written⟩ := hw
    refine ⟨.bucket (b.forget n), ?_, besides_bucket (fun entry hentry => ?_) (Nat.le_refl _) rfl fun m hne =>
      lookup_forgotten b hne, rfl⟩
    · rw [ObjectStore.answer, BucketStore.answer, BucketStore.abort, hknown]
    · exact ho entry (List.mem_filter.mp hentry).1

theorem block?_of_get (ho : o.Orderly real) {data : List UInt8} (hget : (o.answer (.get h.objectKey)).1 = .ok data) :
    o.block? real h = some data := by
  cases o with
  | files f =>
    have hget : f.get h.objectKey = .ok data := hget
    have hfind : f.find h.objectKey = _ := BlockFiles.find_eq ho h
    rw [FileStore.get, hfind] at hget
    rw [ObjectStore.block?]
    cases hobject : f.object? real h with
    | none =>
      rw [hobject] at hget
      cases hget
    | some old =>
      rw [hobject] at hget
      cases hget
      rfl
  | bucket b =>
    have hget : b.get h.objectKey = .ok data := hget
    rw [BucketStore.get] at hget
    obtain ⟨stream, hstream, hwhole⟩ := bind_eq_ok.mp hget
    split at hwhole
    · cases hwhole
    · cases hwhole
      rw [BucketStore.stream, BucketStore.send, BucketService.respond] at hstream
      rw [ObjectStore.block?]
      cases hreach : b.service.isReachable <;> cases hrefusal : b.service.refusal? b.bucket .get <;>
        cases hobject : b.service.objects.lookup (b.objectName h.objectKey) <;>
        simp only [hreach, hrefusal, hobject] at hstream <;> cases hstream
      rfl

theorem answer_presign_block (o : ObjectStore) (key : String) (ttl : Lifetime) (now : Time.DateTime) :
    (o.answer (.presign key ttl now)).2 = o := by
  cases o <;> rfl

/-- When URLs that are signed now end, or why none is signed. A bucket signs any name. -/
def ObjectStore.expiry (ttl : Lifetime) (now : Time.DateTime) : ObjectStore → Except ObjectError Time.DateTime
  | files _ => UrlSigner.expiry ttl now
  | bucket b => (b.presign "" ttl now).map SignedUrl.expiresAt

theorem exists_url (ho : o.Orderly real) (ttl : Lifetime) :
    ∃ url : BlockHash → Time.DateTime → String, ∀ (now : Time.DateTime) (h : BlockHash),
      o.answer (.presign h.objectKey ttl now) = ((o.expiry ttl now).map fun ends => ⟨url h ends, ends⟩, o) := by
  cases o with
  | files f =>
    refine ⟨fun h ends => f.signer.url h.objectKey ends.unixSeconds, fun now h => ?_⟩
    have hsign : f.presign h.objectKey ttl now = f.signer.sign h.objectKey ttl now := BlockFiles.presign_eq ho h ttl now
    rw [ObjectStore.answer, FileStore.answer, hsign]
    rfl
  | bucket b =>
    refine ⟨fun h _ => s!"{b.address h.objectKey}?X-Amz-Expires={ttl.seconds}", fun now h => ?_⟩
    change (b.presign h.objectKey ttl now, ObjectStore.bucket b) = _
    rw [ObjectStore.expiry, BucketStore.presign, BucketStore.presign]
    split
    · rfl
    · cases UrlSigner.expiry ttl now <;> rfl

theorem expiry_eq_error {ttl : Lifetime} {now : Time.DateTime} {e : ObjectError} (h : o.expiry ttl now = .error e) :
    (∃ why, e = .config why) ∨ e = .outOfCalendar := by
  have hsigner : ∀ {e}, UrlSigner.expiry ttl now = .error e → (∃ why, e = .config why) ∨ e = .outOfCalendar := by
    intro e he
    unfold UrlSigner.expiry at he
    split at he
    · cases he
      exact .inl ⟨_, rfl⟩
    · split at he <;> cases he
      exact .inr rfl
  cases o with
  | files f => exact hsigner h
  | bucket b =>
    rw [ObjectStore.expiry, BucketStore.presign] at h
    split at h
    · cases h
      exact .inl ⟨_, rfl⟩
    · cases hexpiry : UrlSigner.expiry ttl now with
      | ok ends =>
        rw [hexpiry] at h
        cases h
      | error failure =>
        rw [hexpiry] at h
        cases h
        exact hsigner hexpiry

theorem expiry_eq_ok (o : ObjectStore) {seconds : Nat} {now ends : Time.DateTime}
    (hshort : seconds ≤ BucketStore.maxLifetime) (hends : now.add? seconds 0 = some ends) :
    o.expiry (.ofSeconds seconds) now = .ok ends := by
  have hmax : (BucketStore.maxLifetime : Int) ≤ Int64.maxValue.toInt := by decide
  have hsigner : UrlSigner.expiry (.ofSeconds seconds) now = .ok ends := by
    rw [UrlSigner.expiry, if_neg (by simp only [Lifetime.ofSeconds]; omega)]
    simp only [Lifetime.ofSeconds, hends]
  cases o with
  | files f => exact hsigner
  | bucket b =>
    have hallowed : ¬(BucketStore.maxLifetime < (Lifetime.ofSeconds seconds).seconds ∨
        BucketStore.maxLifetime = (Lifetime.ofSeconds seconds).seconds ∧ 0 < (Lifetime.ofSeconds seconds).nano) := by
      simp only [Lifetime.ofSeconds]
      omega
    rw [ObjectStore.expiry, BucketStore.presign, if_neg hallowed, hsigner]
    rfl

/-! ### Where it begins -/

/-- A store without blocks and without uploads. -/
def ObjectStore.Blank (real : Path) : ObjectStore → Prop
  | files f => Fresh f real
  | bucket b => b.service.objects = [] ∧ b.uploads = []

theorem ObjectStore.Blank.orderly (ho : o.Blank real) : o.Orderly real := by
  cases o with
  | files f => exact Fresh.blockFiles ho
  | bucket b =>
    intro entry hentry
    rw [ho.2] at hentry
    cases hentry

theorem ObjectStore.Blank.block?_eq (ho : o.Blank real) (h : BlockHash) : o.block? real h = none := by
  cases o with
  | files f => exact Fresh.object?_eq ho h
  | bucket b =>
    rw [ObjectStore.block?, ho.1]
    rfl

end Depot.Objects
