import Depot.Proofs.AdminToken

/-!
# Making sure of the administrator's token survives crashes

- `Task.cutOff`: what a task leaves that is cut short after some of its calls.
- `Throughout`: a fact that holds wherever a step is cut short.
- `Stage`: all that attempts which were cut short can leave of a catalog without the configured token. Every attempt
  leads from stage to stage, and a whole call from every stage to the same ending.
- `interrupted`: so after any attempts a whole call leaves what one that nothing interrupts leaves.
-/

namespace Depot

/-- What a task leaves that is cut short after so many calls. -/
def Task.cutOff {Call : Type} {Reply : Call → Type} {α σ : Type} (handle : (request : Call) → σ → Reply request × σ) :
    Nat → Task Call Reply α → σ → σ
  | 0, _, s => s
  | _ + 1, .done _, s => s
  | n + 1, .call request resume, s => (resume (handle request s).1).cutOff handle n (handle request s).2

namespace AdminToken

open Catalog Time

variable {config : Config.Admin} {now : DateTime} {fresh : Uuid} {c d : Catalog} {hash : String} {α β : Type}

/-! ### Steps that are cut short -/

section Tasks

variable {Call : Type} {Reply : Call → Type} {σ : Type} {handle : (request : Call) → σ → Reply request × σ}

theorem cutOff_bind (task : Task Call Reply α) (next : α → Task Call Reply β) (n : Nat) (s : σ) :
    (∃ m, (task >>= next).cutOff handle n s = task.cutOff handle m s) ∨
      ∃ m, (task >>= next).cutOff handle n s = (next (task.run handle s).1).cutOff handle m (task.run handle s).2 := by
  induction task generalizing n s with
  | done value => exact .inr ⟨n, rfl⟩
  | call request resume ih =>
    cases n with
    | zero => exact .inl ⟨0, rfl⟩
    | succ n =>
      rcases ih (handle request s).1 n (handle request s).2 with ⟨m, hm⟩ | ⟨m, hm⟩
      · exact .inl ⟨m + 1, hm⟩
      · exact .inr ⟨m, hm⟩

theorem exists_cutOff_eq_run (task : Task Call Reply α) (s : σ) :
    ∃ n, task.cutOff handle n s = (task.run handle s).2 := by
  induction task generalizing s with
  | done value => exact ⟨0, rfl⟩
  | call request resume ih =>
    obtain ⟨n, hn⟩ := ih (handle request s).1 (handle request s).2
    exact ⟨n + 1, hn⟩

end Tasks

/-- What a step leaves that is cut short after so many calls. -/
def cutShort (step : Step α) (calls : Nat) (c : Catalog) : Catalog :=
  step.run.cutOff (fun r c => c.answer r) calls c

/-- A fact about the catalog that holds wherever a step is cut short. -/
def Throughout (P : Catalog → Prop) (step : Step α) (c : Catalog) : Prop :=
  ∀ calls, P (cutShort step calls c)

variable {P : Catalog → Prop}

theorem Throughout.ending {step : Step α} (h : Throughout P step c) : P (carryOut step c).2 := by
  obtain ⟨calls, hending⟩ : ∃ calls, cutShort step calls c = (carryOut step c).2 := exists_cutOff_eq_run step.run c
  exact hending ▸ h calls

theorem throughout_ask {r : Catalog.Request} (hbefore : P c) (hafter : P (c.answer r).2) : Throughout P (ask r) c := by
  intro calls
  rw [cutShort, run_ask]
  match calls with
  | 0 => exact hbefore
  | 1 => exact hafter
  | _ + 2 => exact hafter

theorem Throughout.bind {step : Step α} {next : α → Step β} (h : Throughout P step c)
    (hnext : ∀ a d, carryOut step c = (.ok a, d) → Throughout P (next a) d) : Throughout P (step >>= next) c := by
  intro calls
  have hending := h.ending
  rw [cutShort, ExceptT.run_bind]
  rcases cutOff_bind step.run _ calls c with ⟨m, hm⟩ | ⟨m, hm⟩
  · rw [hm]
    exact h m
  · have hrun : Task.run (fun r (c : Catalog) => c.answer r) step.run c = carryOut step c := rfl
    rw [hm, hrun]
    cases hstep : carryOut step c with
    | mk result d =>
      rw [hstep] at hending
      cases result with
      | ok a => exact hnext a d hstep m
      | error e => cases m <;> exact hending

theorem throughout_pure {a : α} (hc : P c) : Throughout P (pure a : Step α) c := by
  intro calls
  cases calls <;> exact hc

theorem throughout_discard {step : Step α} (h : Throughout P step c) : Throughout P (discard step) c := by
  have hbind : discard step = step >>= fun _ => pure () := map_eq_pure_bind (fun _ => ()) step
  have hending := h.ending
  rw [hbind]
  refine h.bind fun a d hstep => throughout_pure ?_
  rwa [hstep] at hending

/-! ### Stages -/

/-- The time of a call, and the identifier that it would give to a new token. -/
structure Attempt where
  now : DateTime
  fresh : Uuid

def Attempt.step (config : Config.Admin) (a : Attempt) : Step Unit := ensure config a.now a.fresh

/-- The catalog when all is done: the token that the marker named was revoked at one time, and the new one was made,
perhaps at another one. -/
def provisioned (config : Config.Admin) (hash : String) (c : Catalog) (previous : Option Uuid)
    (revoking making : Attempt) :
    Catalog :=
  ((retired c revoking.now previous).withToken (madeToken config making.now making.fresh hash)).setAdminMarker
    making.fresh

variable {given : List Attempt} {previous : Option Uuid}

/-- What is left of a catalog when some attempts were cut short. -/
inductive Stage (given : List Attempt) (config : Config.Admin) (hash : String) (c : Catalog) (previous : Option Uuid) :
    Catalog → Prop where
  | untouched : Stage given config hash c previous c
  | retired {a : Attempt} (revoking : a ∈ given) : Stage given config hash c previous (retired c a.now previous)
  | made {a b : Attempt} (revoking : a ∈ given) (making : b ∈ given) :
    Stage given config hash c previous ((retired c a.now previous).withToken (madeToken config b.now b.fresh hash))
  | marked {a b : Attempt} (revoking : a ∈ given) (making : b ∈ given) :
    Stage given config hash c previous (provisioned config hash c previous a b)

/-- A catalog whose marker can be read and that has no token with the configured hash, nor any with an identifier that
one of the calls would give. -/
structure Unprovisioned (given : List Attempt) (config : Config.Admin) (hash : String) (c : Catalog)
    (previous : Option Uuid) : Prop where
  configured : configuredHash? config.tokenHash = some hash
  named : (Text.trim config.userId).isEmpty = false
  marker : c.adminMarker = .ok previous
  new : ∀ t ∈ c.tokens, t.tokenHash ≠ hash
  fresh : ∀ a ∈ given, ∀ t ∈ c.tokens, t.tokenId ≠ a.fresh

/-- What follows when a token has been looked for by the configured hash. -/
def provide (config : Config.Admin) (a : Attempt) (hash : String) : Option Token → Step Unit
  | some token => do
    checkExisting token a.now
    ask (.setAdminMarker token.tokenId)
  | none => replace config a.now a.fresh hash

theorem Unprovisioned.step_eq (hc : Unprovisioned given config hash c previous) (a : Attempt) :
    a.step config = ask (.getTokenByHash hash) >>= provide config a hash := by
  unfold Attempt.step ensure
  rw [hc.configured]
  simp only [hc.named]
  refine bind_congr fun found => ?_
  cases found <;> rfl

section Stages

variable {a b : Attempt}

theorem retired_retired (c : Catalog) (early late : DateTime) (previous : Option Uuid) :
    retired (retired c early previous) late previous = retired c early previous := by
  cases previous with
  | none => rfl
  | some tokenId =>
    simp only [retired, revokeToken, modifyToken, List.map_map]
    congr 1
    refine List.map_congr_left fun t _ => ?_
    simp only [Function.comp_apply]
    split
    · cases t.revokedAt <;> simp [*]
    · simp [*]

theorem adminMarker_retired (c : Catalog) (now : DateTime) (previous : Option Uuid) :
    (retired c now previous).adminMarker = c.adminMarker := by
  cases previous <;> rfl

namespace Unprovisioned

variable (hc : Unprovisioned given config hash c previous)

include hc

theorem tokenByHash?_retired (now : DateTime) : (retired c now previous).tokenByHash? hash = none := by
  refine List.find?_eq_none.mpr fun t ht => ?_
  obtain ⟨u, hu, _, hhash⟩ := exists_of_mem_retired ht
  simpa [← hhash] using hc.new u hu

theorem answer_createToken (now : DateTime) (hb : b ∈ given) :
    (retired c now previous).answer (.createToken (madeToken config b.now b.fresh hash)) =
      (.ok (), (retired c now previous).withToken (madeToken config b.now b.fresh hash)) := by
  obtain ⟨_, hmade⟩ | ⟨⟨t, ht, hsame⟩, _⟩ :=
    createToken_cases (retired c now previous) (madeToken config b.now b.fresh hash)
  · rw [Catalog.answer, hmade]
    rfl
  · obtain ⟨u, hu, hid, hhash⟩ := exists_of_mem_retired ht
    rcases hsame with hsame | hsame
    · exact absurd (hid.trans hsame) (hc.fresh b hb u hu)
    · exact absurd (hhash.trans hsame) (hc.new u hu)

end Unprovisioned

/-- A stage at which the new token is not there yet. -/
structure Pending (given : List Attempt) (config : Config.Admin) (hash : String) (c : Catalog) (previous : Option Uuid)
    (d : Catalog) : Prop where
  stage : Stage given config hash c previous d
  marker : d.adminMarker = .ok previous
  unknown : d.tokenByHash? hash = none
  retires : ∀ b ∈ given, ∃ a ∈ given, retired d b.now previous = retired c a.now previous

theorem throughout_make (hc : Unprovisioned given config hash c previous) (ha : a ∈ given) (hb : b ∈ given) :
    Throughout (Stage given config hash c previous)
      (ask (.createToken (madeToken config b.now b.fresh hash)) >>= fun _ => ask (.setAdminMarker b.fresh))
      (retired c a.now previous) := by
  have hcreate := hc.answer_createToken a.now hb
  refine (throughout_ask (.retired ha) (by rw [hcreate]; exact .made ha hb)).bind fun _ e hstep => ?_
  rw [carryOut_ask_ok hcreate] at hstep
  cases hstep
  exact throughout_ask (.made ha hb) (.marked ha hb)

theorem throughout_replace (hc : Unprovisioned given config hash c previous)
    (hd : Pending given config hash c previous d) (hb : b ∈ given) :
    Throughout (Stage given config hash c previous) (replace config b.now b.fresh hash) d ∧
      ∃ a ∈ given,
        carryOut (replace config b.now b.fresh hash) d = (.ok (), provisioned config hash c previous a b) := by
  obtain ⟨a, ha, hretires⟩ := hd.retires b hb
  have hask : carryOut (ask .adminMarker) d = (.ok previous, d) := by
    rw [carryOut_ask]
    exact congrArg (fun reply => (Except.mapError Failure.store reply, d)) hd.marker
  refine ⟨?_, a, ha, ?_⟩
  · refine (throughout_ask (r := .adminMarker) hd.stage hd.stage).bind fun found e hstep => ?_
    rw [hask] at hstep
    cases hstep
    cases previous with
    | none =>
      have hsame : d = retired c a.now none := hretires
      rw [hsame]
      exact throughout_make hc ha hb
    | some tokenId =>
      have hrevoke : (d.answer (.revokeToken tokenId b.now)).2 = retired c a.now (some tokenId) := hretires
      have hretire :
          carryOut (discard (ask (.revokeToken tokenId b.now))) d = (.ok (), retired c a.now (some tokenId)) :=
        congrArg (Prod.mk (Except.ok ())) hrevoke
      refine (throughout_discard (throughout_ask hd.stage (hrevoke ▸ .retired ha))).bind fun _ e hstep => ?_
      rw [hretire] at hstep
      cases hstep
      exact throughout_make hc ha hb
  · have hcreate := hc.answer_createToken a.now hb
    rw [carryOut_replace config b.now b.fresh hash hd.marker, hretires, carryOut_bind_ok (carryOut_ask_ok hcreate)]
    rfl

theorem pending_untouched (hc : Unprovisioned given config hash c previous) :
    Pending given config hash c previous c where
  stage := .untouched
  marker := hc.marker
  unknown := List.find?_eq_none.mpr fun t ht => by simpa using hc.new t ht
  retires b hb := ⟨b, hb, rfl⟩

theorem pending_retired (hc : Unprovisioned given config hash c previous) (ha : a ∈ given) :
    Pending given config hash c previous (retired c a.now previous) where
  stage := .retired ha
  marker := (adminMarker_retired c a.now previous).trans hc.marker
  unknown := hc.tokenByHash?_retired a.now
  retires b _ := ⟨a, ha, retired_retired c a.now b.now previous⟩

theorem Unprovisioned.tokenByHash?_made (hc : Unprovisioned given config hash c previous) (a b : Attempt) :
    ((retired c a.now previous).withToken (madeToken config b.now b.fresh hash)).tokenByHash? hash =
      some (madeToken config b.now b.fresh hash) := by
  have hold := hc.tokenByHash?_retired a.now
  rw [tokenByHash?] at hold
  rw [tokenByHash?, tokens_withToken, List.find?_append, hold]
  simp [madeToken]

theorem provide_some {token : Token} (hfit : checkExisting token b.now = .ok ()) :
    provide config b hash (some token) = ask (.setAdminMarker token.tokenId) := by
  rw [provide, hfit]
  rfl

/-- What follows the look-up leaves a stage wherever it is cut short, and ends with the new token in its place. -/
theorem Stage.provide (hc : Unprovisioned given config hash c previous) (hd : Stage given config hash c previous d)
    (hb : b ∈ given) :
    Throughout (Stage given config hash c previous) (provide config b hash (d.tokenByHash? hash)) d ∧
      ∃ first ∈ given, ∃ second ∈ given, carryOut (AdminToken.provide config b hash (d.tokenByHash? hash)) d =
        (.ok (), provisioned config hash c previous first second) := by
  have hreplace {e : Catalog} (he : Pending given config hash c previous e) :
      Throughout (Stage given config hash c previous) (AdminToken.provide config b hash (e.tokenByHash? hash)) e ∧
        ∃ first ∈ given, ∃ second ∈ given, carryOut (AdminToken.provide config b hash (e.tokenByHash? hash)) e =
          (.ok (), provisioned config hash c previous first second) := by
    rw [he.unknown]
    obtain ⟨hthroughout, first, hfirst, hrun⟩ := throughout_replace hc he hb
    exact ⟨hthroughout, first, hfirst, b, hb, hrun⟩
  cases hd with
  | untouched => exact hreplace (pending_untouched hc)
  | retired ha => exact hreplace (pending_retired hc ha)
  | @made first second hfirst hsecond =>
    rw [hc.tokenByHash?_made first second, provide_some rfl]
    exact ⟨throughout_ask (.made hfirst hsecond) (.marked hfirst hsecond), first, hfirst, second, hsecond, rfl⟩
  | @marked first second hfirst hsecond =>
    have hfound : (provisioned config hash c previous first second).tokenByHash? hash = _ :=
      hc.tokenByHash?_made first second
    rw [hfound, provide_some rfl]
    exact ⟨throughout_ask (.marked hfirst hsecond) (.marked hfirst hsecond), first, hfirst, second, hsecond, rfl⟩

/-- Wherever a call is cut short that begins at a stage, it leaves a stage. A whole call ends with the new token in its
place. -/
theorem Stage.step (hc : Unprovisioned given config hash c previous) (hd : Stage given config hash c previous d)
    (hb : b ∈ given) :
    Throughout (Stage given config hash c previous) (b.step config) d ∧
      ∃ first ∈ given, ∃ second ∈ given,
        carryOut (b.step config) d = (.ok (), provisioned config hash c previous first second) := by
  have hlook : carryOut (ask (.getTokenByHash hash)) d = (.ok (d.tokenByHash? hash), d) := carryOut_ask_ok rfl
  obtain ⟨hthroughout, first, hfirst, second, hsecond, hrun⟩ := hd.provide hc hb
  rw [hc.step_eq b]
  refine ⟨(throughout_ask (r := .getTokenByHash hash) hd hd).bind fun found e hstep => ?_, first, hfirst, second,
    hsecond, ?_⟩
  · rw [hlook] at hstep
    cases hstep
    exact hthroughout
  · rw [carryOut_bind_ok hlook, hrun]

theorem Unprovisioned.carryOut_again (hc : Unprovisioned given config hash c previous) (a b again : Attempt) :
    carryOut (again.step config) (provisioned config hash c previous a b) =
      (.ok (), provisioned config hash c previous a b) := by
  have hfound : (provisioned config hash c previous a b).tokenByHash? hash = _ := hc.tokenByHash?_made a b
  rw [hc.step_eq again, carryOut_bind_ok (carryOut_ask_ok rfl), hfound, provide_some rfl]
  rfl

theorem Stage.attempts (hc : Unprovisioned given config hash c previous) {attempts : List (Attempt × Nat)}
    (hattempts : ∀ a ∈ attempts, a.1 ∈ given) (hd : Stage given config hash c previous d) :
    Stage given config hash c previous (attempts.foldl (fun d a => cutShort (a.1.step config) a.2 d) d) := by
  induction attempts generalizing d with
  | nil => exact hd
  | cons a attempts ih =>
    exact ih (fun b hb => hattempts b (List.mem_cons_of_mem _ hb)) ((hd.step hc (hattempts a List.mem_cons_self)).1 a.2)

end Stages

/-! ### The same ending -/

theorem exists_adminMarker_answer (h : ∃ previous, c.adminMarker = .ok previous) (r : Catalog.Request) :
    ∃ previous, (c.answer r).2.adminMarker = .ok previous := by
  have hframe := framed c r
  generalize hnext : (c.answer r).2 = next at hframe ⊢
  cases hframe with
  | @marked tokenId => exact hnext ▸ ⟨some tokenId, adminMarker_setAdminMarker c tokenId⟩
  | migrated => exact hnext ▸ h
  | _ => exact h

theorem exists_adminMarker (requests : List Catalog.Request) :
    ∃ previous, (Catalog.empty.after requests).adminMarker = .ok previous := by
  have hall : ∀ c : Catalog, (∃ previous, c.adminMarker = .ok previous) →
      ∃ previous, (c.after requests).adminMarker = .ok previous := by
    induction requests with
    | nil => exact fun _ h => h
    | cons r rest ih => exact fun c h => ih _ (exists_adminMarker_answer h r)
  exact hall _ ⟨none, rfl⟩

/-- The token `token` takes the place of the one that the marker named, and nothing else changes. -/
structure Replaced (config : Config.Admin) (c : Catalog) (previous : Option Uuid) (next : Catalog) (token : Token) :
    Prop where
  installed : ∀ now, Installed config now next token
  only : next.tokens.filter (fun t => t.tokenHash == token.tokenHash) = [token]
  revoked : ∀ t ∈ c.tokens, previous = some t.tokenId → ∃ later ∈ next.tokens, t.Ages later ∧ later.revokedAt.isSome
  tokens : ∃ revokedAt, next.tokens = (c.tokens.map fun t =>
    if previous = some t.tokenId then { t with revokedAt := t.revokedAt <|> some revokedAt } else t) ++ [token]
  rest : next = { c with tokens := next.tokens, marker := next.marker }

theorem Unprovisioned.replaced (hc : Unprovisioned given config hash c previous) (a b : Attempt) :
    Replaced config c previous (provisioned config hash c previous a b) (madeToken config b.now b.fresh hash) where
  installed now := ⟨List.mem_append_right _ List.mem_cons_self, adminMarker_setAdminMarker _ b.fresh, rfl, rfl,
    hc.configured⟩
  only := by
    have hold : (retired c a.now previous).tokens.filter (fun t => t.tokenHash == hash) = [] := by
      simpa [tokenByHash?, List.filter_eq_nil_iff] using hc.tokenByHash?_retired a.now
    change ((retired c a.now previous).tokens ++ [madeToken config b.now b.fresh hash]).filter
      (fun t => t.tokenHash == hash) = _
    rw [List.filter_append, hold]
    simp [madeToken]
  revoked t ht hmarked := by
    obtain ⟨later, hlater, hages, hrevoked⟩ := exists_revoked_of_mem a.now ht
    exact ⟨later, List.mem_append_left _ (hmarked ▸ hlater), hages, hrevoked⟩
  tokens := by
    refine ⟨a.now, ?_⟩
    cases previous with
    | none => simp [provisioned, retired, setAdminMarker]
    | some tokenId => simp [provisioned, retired, setAdminMarker, revokeToken, modifyToken, eq_comm]
  rest := by cases previous <;> rfl

/-- **Whatever attempts at making sure of the administrator's token were cut short, and wherever, a whole call succeeds
and leaves what it would have left without them, but for the times and the identifier of the new token, which may be
those of an attempt: the only token with the configured hash is an active administrator's, the marker names it, the
token that the marker named before is revoked, and everything else is as it was. A further call changes nothing.** -/
theorem interrupted (requests : List Catalog.Request) (config : Config.Admin) (attempts : List (Attempt × Nat))
    (last : Attempt) (hconfigured : configuredHash? config.tokenHash = some hash)
    (hnamed : (Text.trim config.userId).isEmpty = false)
    (hnew : ∀ t ∈ (Catalog.empty.after requests).tokens, t.tokenHash ≠ hash)
    (hfresh : ∀ a ∈ last :: attempts.map Prod.fst, ∀ t ∈ (Catalog.empty.after requests).tokens, t.tokenId ≠ a.fresh) :
    let c := Catalog.empty.after requests
    let left := attempts.foldl (fun d a => cutShort (a.1.step config) a.2 d) c
    ∃ previous, c.adminMarker = .ok previous ∧
      carryOut (last.step config) c = (.ok (), provisioned config hash c previous last last) ∧
      ∃ revoking ∈ last :: attempts.map Prod.fst, ∃ making ∈ last :: attempts.map Prod.fst,
        let next := provisioned config hash c previous revoking making
        carryOut (last.step config) left = (.ok (), next) ∧
          Replaced config c previous next (madeToken config making.now making.fresh hash) ∧
          ∀ again : Attempt, carryOut (again.step config) next = (.ok (), next) := by
  intro c left
  obtain ⟨previous, hmarker⟩ := exists_adminMarker requests
  have halone : Unprovisioned [last] config hash c previous := ⟨hconfigured, hnamed, hmarker, hnew, fun a ha =>
    hfresh a (List.mem_singleton.mp ha ▸ List.mem_cons_self)⟩
  have hc : Unprovisioned (last :: attempts.map Prod.fst) config hash c previous :=
    ⟨hconfigured, hnamed, hmarker, hnew, hfresh⟩
  have hleft : Stage (last :: attempts.map Prod.fst) config hash c previous left :=
    Stage.attempts hc (fun a ha => List.mem_cons_of_mem _ (List.mem_map_of_mem ha)) .untouched
  obtain ⟨first, hfirst, second, hsecond, hrun⟩ := (Stage.untouched.step halone List.mem_cons_self).2
  obtain ⟨revoking, hrevoking, making, hmaking, hlast⟩ := (hleft.step hc List.mem_cons_self).2
  rw [List.mem_singleton.mp hfirst, List.mem_singleton.mp hsecond] at hrun
  refine ⟨previous, hmarker, hrun, revoking, hrevoking, making, hmaking, hlast, hc.replaced revoking making,
    hc.carryOut_again revoking making⟩

/-- One attempt is cut short when the token before is revoked, and the next one before the new token is marked. -/
theorem interrupted_twice :
    let digits (c : Char) : String := String.ofList (List.replicate 64 c)
    let config : Config.Admin := ⟨digits 'b', "admin", none⟩
    let old : Token := ⟨.ofNat 1, "admin", digits 'a', true, none, none, .epoch, none, none⟩
    let requests : List Catalog.Request := [.createToken old, .setAdminMarker (.ofNat 1)]
    let attempt (n : Nat) : Attempt := ⟨.epoch, .ofNat n⟩
    let left := [(attempt 2, 3), (attempt 3, 4)].foldl (fun d a => cutShort (a.1.step config) a.2 d)
      (Catalog.empty.after requests)
    let next := (carryOut ((attempt 4).step config) left).2
    left.marker.join = some (Uuid.ofNat 1).text ∧ next.marker.join = some (Uuid.ofNat 3).text ∧
      ∀ again : Attempt, carryOut (again.step config) next = (.ok (), next) := by
  intro digits config old requests attempt left next
  have hconfigured : configuredHash? config.tokenHash = some (digits 'b') := by decide +kernel
  obtain ⟨_, _, _, _, _, _, _, hlast, _, hagain⟩ := interrupted requests config [(attempt 2, 3), (attempt 3, 4)]
    (attempt 4) hconfigured (by decide +kernel) (by decide +kernel) (by decide +kernel)
  refine ⟨by decide +kernel, by decide +kernel, ?_⟩
  have hnext : next = _ := congrArg Prod.snd hlast
  rw [hnext]
  exact hagain

end AdminToken

end Depot
