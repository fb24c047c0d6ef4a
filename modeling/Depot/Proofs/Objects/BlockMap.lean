import Depot.Proofs.Objects.BlockRequests

/-!
# A store of blocks is a map

Whoever calls a store about blocks, with any number of uploads under way, cannot tell a directory from a bucket:
both answer as a map does that has an entry for every block.

- `BlockCall`, `BlockReply`: what may be asked about blocks, and what is answered.
- `BlockMap`: the map. Blocks are replaced as a whole, and an upload is seen once it is finished.
- `Session`: a store, with the uploads that a caller has opened.
- `Mirrors`: a session and a map that cannot be told apart. Every call keeps that (`Mirrors.answer`).
- **`stores_agree`**
-/

namespace Depot.Objects

open Content

/-! ### Calls -/

/-- A call about blocks. The caller names the uploads; opening one under a name in use gives up the one before. -/
inductive BlockCall where
  | contains (h : BlockHash)
  | head (h : BlockHash)
  | get (h : BlockHash)
  | stream (h : BlockHash)
  | put (h : BlockHash) (data : List UInt8)
  | delete (h : BlockHash)
  | openUpload (name : Nat) (h : BlockHash)
  | write (name : Nat) (data : List UInt8)
  | finish (name : Nat)
  | abort (name : Nat)

/-- What a call that succeeds answers. -/
inductive BlockReply where
  | done
  | present (isThere : Bool)
  | size (bytes : Nat)
  | content (data : List UInt8)
  deriving DecidableEq

/-- The answers to calls that are made one after another. -/
def answers {σ : Type} (answer : σ → BlockCall → Except ObjectError BlockReply × σ) (s : σ) :
    List BlockCall → List (Except ObjectError BlockReply)
  | [] => []
  | call :: rest => (answer s call).1 :: answers answer (answer s call).2 rest

theorem answers_eq_of_related {σ τ : Type} {f : σ → BlockCall → Except ObjectError BlockReply × σ}
    {g : τ → BlockCall → Except ObjectError BlockReply × τ} {Related : σ → τ → Prop}
    (hstep : ∀ s t call, Related s t → (f s call).1 = (g t call).1 ∧ Related (f s call).2 (g t call).2)
    {s : σ} {t : τ} (hrel : Related s t) (calls : List BlockCall) : answers f s calls = answers g t calls := by
  induction calls generalizing s t with
  | nil => rfl
  | cons call rest ih =>
    obtain ⟨hreply, hnext⟩ := hstep s t call hrel
    rw [answers, answers, hreply, ih hnext]

/-! ### The map -/

/-- A map from blocks to their content, with what is being written of some. -/
structure BlockMap where
  stored : BlockHash → Option (List UInt8)
  uploads : Nat → Option (BlockHash × List UInt8)

namespace BlockMap

/-- The map before any upload. -/
def ofBlocks (stored : BlockHash → Option (List UInt8)) : BlockMap := ⟨stored, fun _ => none⟩

def setBlock (m : BlockMap) (h : BlockHash) (data : Option (List UInt8)) : BlockMap :=
  { m with stored := fun g => if g = h then data else m.stored g }

def setUpload (m : BlockMap) (name : Nat) (u : Option (BlockHash × List UInt8)) : BlockMap :=
  { m with uploads := fun other => if other = name then u else m.uploads other }

/-- What the map answers, and what becomes of it. -/
def answer (m : BlockMap) : BlockCall → Except ObjectError BlockReply × BlockMap
  | .contains h => (.ok (.present (m.stored h).isSome), m)
  | .head h => ((found h.objectKey (m.stored h)).map fun data => .size data.length, m)
  | .get h | .stream h => ((found h.objectKey (m.stored h)).map .content, m)
  | .put h data => (.ok .done, m.setBlock h (some data))
  | .delete h => ((found h.objectKey (m.stored h)).map fun _ => .done, m.setBlock h none)
  | .openUpload name h => (.ok .done, m.setUpload name (some (h, [])))
  | .write name data =>
    match m.uploads name with
    | none => (.error FileStore.noUpload, m)
    | some (h, written) => (.ok .done, m.setUpload name (some (h, written ++ data)))
  | .finish name =>
    match m.uploads name with
    | none => (.error FileStore.noUpload, m)
    | some (h, written) => (.ok (.size written.length), (m.setBlock h (some written)).setUpload name none)
  | .abort name =>
    match m.uploads name with
    | none => (.error FileStore.noUpload, m)
    | some _ => (.ok .done, m.setUpload name none)

end BlockMap

/-! ### Sessions -/

/-- A store, and the numbers that it gave the uploads which a caller has opened and neither finished nor aborted. -/
structure Session where
  store : ObjectStore
  held : Nat → Option Nat

namespace Session

/-- A store without an upload that the caller has opened. -/
def ofStore (o : ObjectStore) : Session := ⟨o, fun _ => none⟩

def setHeld (s : Session) (name : Nat) (n : Option Nat) : Session :=
  { s with held := fun other => if other = name then n else s.held other }

theorem setHeld_held (s : Session) (name : Nat) (n : Option Nat) : (s.setHeld name n).held name = n := if_pos rfl

theorem setHeld_held_of_ne (s : Session) {name other : Nat} (n : Option Nat) (hne : other ≠ name) :
    (s.setHeld name n).held other = s.held other := if_neg hne

/-- One request, with what its reply tells the caller. -/
def ask (s : Session) (r : Request) (tell : r.Reply → Except ObjectError BlockReply) :
    Except ObjectError BlockReply × Session :=
  ((s.store.answer r).1 >>= tell, { s with store := (s.store.answer r).2 })

/-- What the store answers, and what becomes of it. An upload is gone when it is finished or aborted. -/
def answer (s : Session) : BlockCall → Except ObjectError BlockReply × Session
  | .contains h => s.ask (.contains h.objectKey) fun isThere => .ok (.present isThere)
  | .head h => s.ask (.head h.objectKey) fun about => .ok (.size about.size)
  | .get h => s.ask (.get h.objectKey) fun data => .ok (.content data)
  | .stream h => s.ask (.stream h.objectKey) fun stream => stream.collect.map .content
  | .put h data => s.ask (.put h.objectKey data) fun _ => .ok .done
  | .delete h => s.ask (.delete h.objectKey) fun _ => .ok .done
  | .openUpload name h =>
    match s.store.answer (.openUpload h.objectKey) with
    | (.error e, next) => (.error e, { s with store := next })
    | (.ok n, next) => (.ok .done, { s with store := next }.setHeld name (some n))
  | .write name data =>
    match s.held name with
    | none => (.error FileStore.noUpload, s)
    | some n => s.ask (.write n data) fun _ => .ok .done
  | .finish name =>
    match s.held name with
    | none => (.error FileStore.noUpload, s)
    | some n => (s.setHeld name none).ask (.finish n) fun bytes => .ok (.size bytes)
  | .abort name =>
    match s.held name with
    | none => (.error FileStore.noUpload, s)
    | some n => (s.setHeld name none).ask (.abort n) fun _ => .ok .done

end Session

/-! ### A session and a map -/

/-- An upload that a caller holds has written what the map has of it. -/
inductive Holds (real : Path) (o : ObjectStore) : Option Nat → Option (BlockHash × List UInt8) → Prop where
  | nothing : Holds real o none none
  | upload {n : Nat} {h : BlockHash} {written : List UInt8} (writes : o.Writes real n h written) :
    Holds real o (some n) (some (h, written))

/-- A session and a map that cannot be told apart. -/
structure Mirrors (real : Path) (s : Session) (m : BlockMap) : Prop where
  orderly : s.store.Orderly real
  works : s.store.Works
  stored : s.store.block? real = m.stored
  uploads : ∀ name, Holds real s.store (s.held name) (m.uploads name)
  distinct : ∀ name other n, s.held name = some n → s.held other = some n → name = other

variable {real : Path} {o next : ObjectStore} {s : Session} {m : BlockMap} {n : Nat} {h : BlockHash}
  {written : List UInt8} {held : Option Nat} {u : Option (BlockHash × List UInt8)}

theorem Holds.besides (hholds : Holds real o held u) (hbesides : Besides real n o next) (hne : held ≠ some n) :
    Holds real next held u := by
  cases hholds with
  | nothing => exact .nothing
  | upload hw => exact .upload (hbesides.others _ _ _ (fun heq => hne (congrArg some heq)) hw)

theorem Holds.cases (hholds : Holds real o held u) :
    held = none ∧ u = none ∨ ∃ n h written, held = some n ∧ u = some (h, written) ∧ o.Writes real n h written := by
  cases hholds with
  | nothing => exact .inl ⟨rfl, rfl⟩
  | upload hw => exact .inr ⟨_, _, _, rfl, rfl, hw⟩

theorem Session.ask_eq {r : Request} {reply : Except ObjectError r.Reply} (hanswer : s.store.answer r = (reply, next))
    (tell : r.Reply → Except ObjectError BlockReply) :
    s.ask r tell = (reply >>= tell, { s with store := next }) := by
  rw [Session.ask, hanswer]

namespace Mirrors

theorem held_ne_opened (hm : Mirrors real s m) (name : Nat) : s.held name ≠ some s.store.opened := by
  intro heq
  rcases (hm.uploads name).cases with ⟨hnone, _⟩ | ⟨n, h, written, hheld, _, hw⟩
  · rw [hnone] at heq
    cases heq
  · rw [hheld] at heq
    exact Nat.ne_of_lt (hm.orderly.lt_opened hw) (Option.some.inj heq)

theorem held_ne_of_ne (hm : Mirrors real s m) {name other : Nat} (hheld : s.held name = some n)
    (hne : other ≠ name) : s.held other ≠ some n := fun heq => hne (hm.distinct other name n heq hheld)

theorem withStore (hm : Mirrors real s m) (hworks : next.Works) (hbesides : Besides real s.store.opened s.store next)
    {stored : BlockHash → Option (List UInt8)} (hstored : ∀ g, next.block? real g = stored g) :
    Mirrors real { s with store := next } { m with stored } where
  orderly := hbesides.orderly
  works := hworks
  stored := funext hstored
  uploads name := (hm.uploads name).besides hbesides (hm.held_ne_opened name)
  distinct := hm.distinct

theorem withUpload (hm : Mirrors real s m) (hworks : next.Works) (hbesides : Besides real n s.store next)
    {name : Nat} (hothers : ∀ other, other ≠ name → s.held other ≠ some n)
    {stored : BlockHash → Option (List UInt8)} (hstored : ∀ g, next.block? real g = stored g)
    {kept : Nat → Option Nat} (hname : kept name = none ∨ kept name = some n)
    (hkept : ∀ other, other ≠ name → kept other = s.held other) (hholds : Holds real next (kept name) u) :
    Mirrors real ⟨next, kept⟩ ({ m with stored }.setUpload name u) where
  orderly := hbesides.orderly
  works := hworks
  stored := funext hstored
  uploads other := by
    change Holds real next (kept other) (if other = name then u else m.uploads other)
    by_cases hother : other = name
    · rw [if_pos hother, hother]
      exact hholds
    · rw [if_neg hother, hkept other hother]
      exact (hm.uploads other).besides hbesides (hothers other hother)
  distinct first second k hfirst hsecond := by
    -- Only the upload of the name has the number that is called about.
    have hnumber : ∀ other, kept other = some k → (other = name ↔ k = n) := by
      intro other hother
      by_cases hsame : other = name
      · rw [hsame] at hother
        rcases hname with hnone | hsome
        · cases hnone.symm.trans hother
        · exact ⟨fun _ => Option.some.inj (hother.symm.trans hsome), fun _ => hsame⟩
      · rw [hkept other hsame] at hother
        exact ⟨fun h => absurd h hsame, fun h => absurd (h ▸ hother) (hothers other hsame)⟩
    change kept first = some k at hfirst
    change kept second = some k at hsecond
    by_cases hk : k = n
    · rw [(hnumber first hfirst).mpr hk, (hnumber second hsecond).mpr hk]
    · rw [hkept first (fun h => hk ((hnumber first hfirst).mp h))] at hfirst
      rw [hkept second (fun h => hk ((hnumber second hsecond).mp h))] at hsecond
      exact hm.distinct first second k hfirst hsecond

theorem read (hm : Mirrors real s m) {r : Request} {reply : Except ObjectError r.Reply}
    (hanswer : s.store.answer r = (reply, s.store)) {tell : r.Reply → Except ObjectError BlockReply}
    {told : Except ObjectError BlockReply} (htell : reply >>= tell = told) :
    (s.ask r tell).1 = told ∧ Mirrors real (s.ask r tell).2 m := by
  rw [Session.ask_eq hanswer]
  exact ⟨htell, hm⟩

theorem change (hm : Mirrors real s m) {r : Request} {reply : Except ObjectError r.Reply}
    (hanswer : s.store.answer r = (reply, next)) (hbesides : Besides real s.store.opened s.store next)
    {data : Option (List UInt8)} (hblocks : ∀ g, next.block? real g = if g = h then data else s.store.block? real g)
    {tell : r.Reply → Except ObjectError BlockReply} {told : Except ObjectError BlockReply}
    (htell : reply >>= tell = told) :
    (s.ask r tell).1 = told ∧ Mirrors real (s.ask r tell).2 (m.setBlock h data) := by
  have hworks : next.Works := by simpa only [hanswer] using works_answer hm.works r
  rw [Session.ask_eq hanswer]
  exact ⟨htell, hm.withStore hworks hbesides fun g => by rw [hblocks, hm.stored]⟩

theorem ended (hm : Mirrors real s m) {name : Nat} (hheld : s.held name = some n) {r : Request}
    {reply : Except ObjectError r.Reply} (hanswer : s.store.answer r = (reply, next))
    (hbesides : Besides real n s.store next) {stored : BlockHash → Option (List UInt8)}
    (hstored : ∀ g, next.block? real g = stored g) {tell : r.Reply → Except ObjectError BlockReply}
    {told : Except ObjectError BlockReply} (htell : reply >>= tell = told) :
    ((s.setHeld name none).ask r tell).1 = told ∧
      Mirrors real ((s.setHeld name none).ask r tell).2 ({ m with stored }.setUpload name none) := by
  have hworks : next.Works := by simpa only [hanswer] using works_answer hm.works r
  rw [Session.ask_eq (s := s.setHeld name none) hanswer]
  exact ⟨htell, hm.withUpload hworks hbesides (fun other => hm.held_ne_of_ne hheld) hstored
    (.inl (s.setHeld_held name _)) (fun _ => s.setHeld_held_of_ne _) (s.setHeld_held name _ ▸ .nothing)⟩

theorem answer (hm : Mirrors real s m) (call : BlockCall) :
    (s.answer call).1 = (m.answer call).1 ∧ Mirrors real (s.answer call).2 (m.answer call).2 := by
  have hworks : ∀ {r : Request} {reply : Except ObjectError r.Reply} {next : ObjectStore},
      s.store.answer r = (reply, next) → next.Works := fun {r _ _} hanswer => by
    simpa only [hanswer] using works_answer hm.works r
  cases call with
  | contains h =>
    obtain ⟨reply, hanswer, _, hreply⟩ := answer_contains_block hm.orderly h
    rw [hreply hm.works.serves, hm.stored] at hanswer
    exact hm.read hanswer rfl
  | head h =>
    obtain ⟨about, hsize, hanswer⟩ := answer_head_block hm.orderly hm.works h
    refine hm.read hanswer ?_
    simp only [BlockMap.answer, hm.stored]
    cases m.stored h with
    | none => rfl
    | some data => exact congrArg (fun bytes => Except.ok (BlockReply.size bytes)) (hsize data)
  | get h =>
    refine hm.read (answer_get_block hm.orderly hm.works h) ?_
    simp only [BlockMap.answer, hm.stored]
    cases m.stored h <;> rfl
  | stream h =>
    refine hm.read (answer_stream_block hm.orderly hm.works h) ?_
    simp only [BlockMap.answer, hm.stored]
    cases m.stored h <;> rfl
  | put h data =>
    obtain ⟨next, hanswer, hbesides, hblocks⟩ := answer_put_block hm.orderly hm.works h data
    exact hm.change hanswer hbesides hblocks rfl
  | delete h =>
    obtain ⟨next, hanswer, hbesides, hblocks⟩ := answer_delete_block hm.orderly hm.works h
    refine hm.change hanswer hbesides hblocks ?_
    simp only [BlockMap.answer, hm.stored]
    cases m.stored h <;> rfl
  | openUpload name h =>
    obtain ⟨next, hanswer, hbesides, hwrites, hblocks⟩ := answer_openUpload_block hm.orderly h
    rw [Session.answer, hanswer]
    exact ⟨rfl, hm.withUpload (hworks hanswer) hbesides (fun other _ => hm.held_ne_opened other)
      (fun g => by rw [hblocks, hm.stored]) (.inr (if_pos rfl)) (fun _ hne => if_neg hne)
      (by rw [if_pos rfl]; exact .upload hwrites)⟩
  | write name data =>
    rcases (hm.uploads name).cases with ⟨hheld, hupload⟩ | ⟨n, h, written, hheld, hupload, hw⟩
    · rw [Session.answer, BlockMap.answer, hheld, hupload]
      exact ⟨rfl, hm⟩
    · obtain ⟨next, hanswer, hbesides, hwrites, hblocks⟩ := answer_write_block hm.orderly hw data
      rw [Session.answer, BlockMap.answer, hheld, hupload]
      dsimp only
      rw [Session.ask_eq hanswer]
      exact ⟨rfl, hm.withUpload (hworks hanswer) hbesides (fun other => hm.held_ne_of_ne hheld)
        (fun g => by rw [hblocks, hm.stored]) (.inr hheld) (fun _ _ => rfl) (hheld ▸ .upload hwrites)⟩
  | finish name =>
    rcases (hm.uploads name).cases with ⟨hheld, hupload⟩ | ⟨n, h, written, hheld, hupload, hw⟩
    · rw [Session.answer, BlockMap.answer, hheld, hupload]
      exact ⟨rfl, hm⟩
    · obtain ⟨reply, next, hanswer, hbesides, hdone⟩ := answer_finish_block hm.orderly hw
      rcases hdone with ⟨rfl, hblocks⟩ | ⟨_, hrefused, _⟩
      · rw [Session.answer, BlockMap.answer, hheld, hupload]
        exact hm.ended hheld hanswer hbesides (fun g => by rw [hblocks, hm.stored]) rfl
      · exact absurd hm.works.serves hrefused
  | abort name =>
    rcases (hm.uploads name).cases with ⟨hheld, hupload⟩ | ⟨n, h, written, hheld, hupload, hw⟩
    · rw [Session.answer, BlockMap.answer, hheld, hupload]
      exact ⟨rfl, hm⟩
    · obtain ⟨next, hanswer, hbesides, hblocks⟩ := answer_abort_block hm.orderly hw
      rw [Session.answer, BlockMap.answer, hheld, hupload]
      exact hm.ended hheld hanswer hbesides (fun g => by rw [hblocks, hm.stored]) rfl

end Mirrors

/-! ### What a caller sees -/

theorem mirrors_ofStore (ho : o.Orderly real) (hw : o.Works) :
    Mirrors real (.ofStore o) (.ofBlocks (o.block? real)) where
  orderly := ho
  works := hw
  stored := rfl
  uploads _ := .nothing
  distinct _ _ _ hheld := nomatch hheld

theorem answers_ofStore (ho : o.Orderly real) (hw : o.Works) (calls : List BlockCall) :
    answers Session.answer (.ofStore o) calls = answers BlockMap.answer (.ofBlocks (o.block? real)) calls :=
  answers_eq_of_related (fun _ _ call hm => hm.answer call) (mirrors_ofStore ho hw) calls

/-- **A directory and a bucket with the same blocks answer the same.** Whatever is called about blocks, in whatever
order and with whatever uploads under way at once, both answer as the map of the blocks does: a block is replaced as
a whole when it is stored or an upload of it is finished, an upload that is not finished is not seen, and what is not
there is not found, by the key that was asked for. The directory may be reached through links, and the bucket may
have any prefix. -/
theorem stores_agree {f : FileStore} {b : BucketStore} (hf : BlockFiles f real)
    (hb : ObjectStore.Orderly real (.bucket b)) (hworks : ObjectStore.Works (.bucket b))
    (hsame : ∀ h, ObjectStore.block? real (.bucket b) h = f.object? real h) (calls : List BlockCall) :
    answers Session.answer (.ofStore (.files f)) calls = answers BlockMap.answer (.ofBlocks (f.object? real)) calls ∧
      answers Session.answer (.ofStore (.bucket b)) calls =
        answers BlockMap.answer (.ofBlocks (f.object? real)) calls := by
  refine ⟨answers_ofStore (o := .files f) hf trivial calls, ?_⟩
  rw [answers_ofStore hb hworks, funext hsame]

/-- Two uploads of one block under way at once, of which one is finished, in an empty directory and in an empty
bucket with a prefix. -/
theorem stores_agree_interleaved :
    let f : FileStore := ⟨⟨[]⟩, [], ⟨[], ""⟩, [], 0⟩
    let b : BucketStore :=
      ⟨"blocks", some "team", ServiceAddress.ofRegion "here", true, ⟨true, "blocks", "", [], false, true, []⟩, [], 0⟩
    let h : BlockHash := default
    let calls : List BlockCall :=
      [.openUpload 0 h, .write 0 [1], .openUpload 1 h, .write 1 [2, 3], .get h, .finish 1, .head h, .abort 0,
        .stream h, .delete h, .delete h]
    let replies : List (Except ObjectError BlockReply) :=
      [.ok .done, .ok .done, .ok .done, .ok .done, .error (.notFound h.objectKey), .ok (.size 2), .ok (.size 2),
        .ok .done, .ok (.content [2, 3]), .ok .done, .error (.notFound h.objectKey)]
    answers Session.answer (.ofStore (.files f)) calls = replies ∧
      answers Session.answer (.ofStore (.bucket b)) calls = replies := by
  intro f b h calls replies
  have hfresh : Fresh f [] := fresh_root ⟨[], ""⟩
  have hreplies : answers BlockMap.answer (.ofBlocks (f.object? [])) calls = replies := by
    rw [funext hfresh.object?_eq]
    rfl
  have hworks : ObjectStore.Works (.bucket b) := by
    refine ⟨⟨rfl, fun m => ?_⟩, rfl⟩
    simp [b, BucketService.refusal?]
  obtain ⟨hfiles, hbucket⟩ := stores_agree (f := f) (b := b) hfresh.blockFiles (by simp [ObjectStore.Orderly, b]) hworks
    (fun h => (hfresh.object?_eq h).symm ▸ rfl) calls
  exact ⟨hfiles.trans hreplies, hbucket.trans hreplies⟩

end Depot.Objects
