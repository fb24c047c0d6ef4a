import Depot.AdminToken
import Depot.Proofs.Catalog.Tokens
import Depot.Proofs.Service.Run
import Depot.Proofs.Uuid

/-!
# The administrator's token changes hands

- `Ensured`: all that making sure of the administrator's token can end with, and leave (`ensured`).
- `rotated`: afterwards the marker names an active administrator's token with the configured hash. The token that it
  named before is revoked where a new one is made. Where a token already has the hash, that token is taken over, and
  the one before stays as it was.
-/

namespace Depot.AdminToken

open Catalog Time

variable {config : Config.Admin} {now : DateTime} {fresh : Uuid} {c : Catalog} {hash : String} {token : Token}

/-! ### The configured hash -/

theorem configuredHash?_eq_some {given : String} (h : configuredHash? given = some hash) :
    ∃ digits : List Char, (given.toList = digits ∨ given.toList = "sha256:".toList ++ digits) ∧ digits.length = 64 ∧
      hash = String.ofList (digits.map Char.toLower) := by
  unfold configuredHash? at h
  dsimp only at h
  split at h
  · rename_i hprefix
    obtain ⟨rest, hrest⟩ := List.isPrefixOf_iff_prefix.mp hprefix
    rw [← hrest, List.drop_left] at h
    split at h <;> cases h
    exact ⟨rest, .inr hrest.symm, (‹_ ∧ _› : _ ∧ _).1, rfl⟩
  · split at h <;> cases h
    exact ⟨given.toList, .inl rfl, (‹_ ∧ _› : _ ∧ _).1, rfl⟩

/-! ### Running alone -/

section Running

variable {α β : Type}

/-- What steps end with when they run alone, and the catalog that they leave. -/
def carryOut (step : Step α) (c : Catalog) : Except Failure α × Catalog :=
  Task.run (fun r c => c.answer r) step.run c

theorem carryOut_bind (step : Step α) (next : α → Step β) (c : Catalog) :
    carryOut (step >>= next) c =
      match carryOut step c with
      | (.ok a, d) => carryOut (next a) d
      | (.error e, d) => (.error e, d) := by
  rw [carryOut, ExceptT.run_bind, Service.run_bind]
  unfold carryOut
  cases Task.run (fun r c => c.answer r) step.run c with
  | mk result d => cases result <;> rfl

theorem run_ask (r : Catalog.Request) : (ask r).run = .call r fun reply => .done (reply.mapError .store) :=
  congrArg (Task.call r) (funext fun reply => by cases reply <;> rfl)

theorem carryOut_ask (r : Catalog.Request) (c : Catalog) :
    carryOut (ask r) c = ((c.answer r).1.mapError .store, (c.answer r).2) := by
  rw [carryOut, run_ask]
  rfl

theorem carryOut_ask_ok {r : Catalog.Request} {reply : r.Reply} {next : Catalog} (h : c.answer r = (.ok reply, next)) :
    carryOut (ask r) c = (.ok reply, next) := by
  rw [carryOut_ask, h]
  rfl

theorem carryOut_bind_ok {step : Step α} {next : α → Step β} {a : α} {d : Catalog} (h : carryOut step c = (.ok a, d)) :
    carryOut (step >>= next) c = carryOut (next a) d := by
  rw [carryOut_bind, h]

end Running

/-! ### Endings -/

/-- The token that is made for a configuration. -/
def madeToken (config : Config.Admin) (now : DateTime) (fresh : Uuid) (hash : String) : Token where
  tokenId := fresh
  userId := config.userId
  tokenHash := hash
  isAdmin := true
  expiresAt := none
  revokedAt := none
  createdAt := now
  lastUsedAt := none
  description := config.tokenDescription

/-- The catalog in which the token that the marker names is revoked. -/
def retired (c : Catalog) (now : DateTime) (previous : Option Uuid) : Catalog :=
  match previous with
  | some tokenId => (c.revokeToken tokenId now).2
  | none => c

/-- What making sure of the administrator's token ends with, and what it leaves. -/
inductive Ensured (config : Config.Admin) (now : DateTime) (fresh : Uuid) (c : Catalog) :
    Except Failure Unit × Catalog → Prop where
  | malformed (refused : configuredHash? config.tokenHash = none) :
    Ensured config now fresh c (.error .malformedHash, c)
  | nameless : Ensured config now fresh c (.error .emptyUser, c)
  | unfit {hash : String} {token : Token} {e : Failure} (configured : configuredHash? config.tokenHash = some hash)
    (known : c.tokenByHash? hash = some token) (refused : checkExisting token now = .error e) :
    Ensured config now fresh c (.error e, c)
  | adopted {hash : String} {token : Token} (configured : configuredHash? config.tokenHash = some hash)
    (known : c.tokenByHash? hash = some token) (fit : checkExisting token now = .ok ()) :
    Ensured config now fresh c (.ok (), c.setAdminMarker token.tokenId)
  | unreadable {e : StoreError} (marker : c.adminMarker = .error e) :
    Ensured config now fresh c (.error (.store e), c)
  | clash {hash : String} {previous : Option Uuid} {e : StoreError} (new : c.tokenByHash? hash = none)
    (refused : (retired c now previous).createToken (madeToken config now fresh hash) = .error e) :
    Ensured config now fresh c (.error (.store e), retired c now previous)
  | made {hash : String} {previous : Option Uuid} (configured : configuredHash? config.tokenHash = some hash)
    (new : c.tokenByHash? hash = none) (marker : c.adminMarker = .ok previous) :
    Ensured config now fresh c
      (.ok (), ((retired c now previous).withToken (madeToken config now fresh hash)).setAdminMarker fresh)

/-- The steps by which a new token takes the place of the one that the marker names. -/
def replace (config : Config.Admin) (now : DateTime) (fresh : Uuid) (hash : String) : Step Unit := do
  if let some previous ← ask .adminMarker then
    discard (ask (.revokeToken previous now))
  ask (.createToken (madeToken config now fresh hash))
  ask (.setAdminMarker fresh)

theorem carryOut_replace (config : Config.Admin) (now : DateTime) (fresh : Uuid) (hash : String)
    {previous : Option Uuid} (hmarker : c.adminMarker = .ok previous) :
    carryOut (replace config now fresh hash) c =
      carryOut (ask (.createToken (madeToken config now fresh hash)) >>= fun _ => ask (.setAdminMarker fresh))
        (retired c now previous) := by
  have hask : carryOut (ask .adminMarker) c = (.ok previous, c) := by
    rw [carryOut_ask]
    exact congrArg (fun reply => (Except.mapError Failure.store reply, c)) hmarker
  rw [replace, carryOut_bind_ok hask]
  cases previous with
  | none => rfl
  | some tokenId => rfl

theorem ensured_replace {hash : String} (hconfigured : configuredHash? config.tokenHash = some hash)
    (hnew : c.tokenByHash? hash = none) :
    Ensured config now fresh c (carryOut (replace config now fresh hash) c) := by
  cases hmarker : c.adminMarker with
  | error e =>
    have hask : carryOut (ask .adminMarker) c = (.error (.store e), c) := by
      rw [carryOut_ask]
      exact congrArg (fun reply => (Except.mapError Failure.store reply, c)) hmarker
    rw [replace, carryOut_bind, hask]
    exact .unreadable hmarker
  | ok previous =>
    rw [carryOut_replace config now fresh hash hmarker, carryOut_bind, carryOut_ask]
    obtain ⟨_, hmade⟩ | ⟨_, e, hrefused⟩ := createToken_cases (retired c now previous) (madeToken config now fresh hash)
    · rw [Catalog.answer, hmade]
      exact .made hconfigured hnew hmarker
    · rw [Catalog.answer, hrefused]
      exact .clash hnew hrefused

/-- **Making sure of the administrator's token does nothing else.** -/
theorem ensured (config : Config.Admin) (now : DateTime) (fresh : Uuid) (c : Catalog) :
    Ensured config now fresh c (carryOut (ensure config now fresh) c) := by
  unfold ensure
  cases hconfigured : configuredHash? config.tokenHash with
  | none => exact .malformed hconfigured
  | some hash =>
    dsimp only
    split
    · exact .nameless
    · rw [carryOut_bind_ok (carryOut_ask_ok rfl)]
      cases hknown : c.tokenByHash? hash with
      | none => exact ensured_replace hconfigured hknown
      | some token =>
        dsimp only
        cases hfit : checkExisting token now with
        | error e => exact .unfit hconfigured hknown hfit
        | ok => exact .adopted hconfigured hknown hfit

/-! ### Rotation -/

theorem active_of_checkExisting (h : checkExisting token now = .ok ()) :
    token.isAdmin = true ∧ token.isActive now = true := by
  obtain ⟨tokenId, userId, tokenHash, isAdmin, expiresAt, revokedAt, createdAt, lastUsedAt, description⟩ := token
  cases revokedAt with
  | some time => cases h
  | none =>
    cases expiresAt with
    | none =>
      cases isAdmin with
      | true => exact ⟨rfl, rfl⟩
      | false => cases h
    | some e =>
      by_cases hpast : e.instant ≤ now.instant
      · simp [checkExisting, hpast, throw, throwThe, MonadExceptOf.throw] at h
      · cases isAdmin with
        | true => exact ⟨rfl, by simpa [Token.isActive] using hpast⟩
        | false => simp [checkExisting, hpast, throw, throwThe, MonadExceptOf.throw] at h

@[simp] theorem adminMarker_setAdminMarker (c : Catalog) (tokenId : Uuid) :
    (c.setAdminMarker tokenId).adminMarker = .ok (some tokenId) := by
  simp [setAdminMarker, adminMarker, Uuid.isEmpty_text, Uuid.parse?_text]

theorem exists_of_mem_retired {previous : Option Uuid} {t : Token} (ht : t ∈ (retired c now previous).tokens) :
    ∃ u ∈ c.tokens, u.tokenId = t.tokenId ∧ u.tokenHash = t.tokenHash := by
  cases previous with
  | none => exact ⟨t, ht, rfl, rfl⟩
  | some tokenId =>
    obtain ⟨u, hu, rfl⟩ := List.mem_map.mp ht
    refine ⟨u, hu, ?_⟩
    split <;> exact ⟨rfl, rfl⟩

theorem exists_revoked_of_mem (now : DateTime) {t : Token} (ht : t ∈ c.tokens) :
    ∃ later ∈ (retired c now (some t.tokenId)).tokens, t.Ages later ∧ later.revokedAt.isSome := by
  refine ⟨{ t with revokedAt := t.revokedAt <|> some now }, List.mem_map.mpr ⟨t, ht, if_pos rfl⟩,
    ages_revoked now t, ?_⟩
  cases h : t.revokedAt <;> rfl

/-- The marker names a token, which is an administrator's, active, and has the configured hash. -/
structure Installed (config : Config.Admin) (now : DateTime) (c : Catalog) (t : Token) : Prop where
  stored : t ∈ c.tokens
  marked : c.adminMarker = .ok (some t.tokenId)
  admin : t.isAdmin = true
  active : t.isActive now = true
  configured : configuredHash? config.tokenHash = some t.tokenHash

section Endings

variable {next : Catalog}

theorem Ensured.exists_installed (h : Ensured config now fresh c (.ok (), next)) :
    ∃ t, Installed config now next t := by
  cases h with
  | @adopted hash token hconfigured hknown hfit =>
    obtain ⟨hadmin, hactive⟩ := active_of_checkExisting hfit
    have hhash : token.tokenHash = hash := by simpa using List.find?_some hknown
    exact ⟨token, List.mem_of_find?_eq_some hknown, adminMarker_setAdminMarker c token.tokenId, hadmin, hactive,
      hhash ▸ hconfigured⟩
  | @made hash previous hconfigured hnew hmarker =>
    exact ⟨madeToken config now fresh hash, List.mem_append_right _ List.mem_cons_self,
      adminMarker_setAdminMarker _ fresh, rfl, rfl, hconfigured⟩

theorem Ensured.exists_revoked (h : Ensured config now fresh c (.ok (), next))
    (hnew : ∀ t ∈ c.tokens, configuredHash? config.tokenHash ≠ some t.tokenHash) {previous : Token}
    (hprevious : previous ∈ c.tokens) (hmarked : c.adminMarker = .ok (some previous.tokenId)) :
    ∃ later ∈ next.tokens, previous.Ages later ∧ later.revokedAt.isSome := by
  cases h with
  | @adopted hash token hconfigured hknown _ =>
    have hhash : token.tokenHash = hash := by simpa using List.find?_some hknown
    exact absurd (hhash ▸ hconfigured) (hnew token (List.mem_of_find?_eq_some hknown))
  | made _ _ hmarker =>
    rw [hmarker] at hmarked
    cases hmarked
    obtain ⟨later, hlater, hages, hrevoked⟩ := exists_revoked_of_mem now hprevious
    exact ⟨later, List.mem_append_left _ hlater, hages, hrevoked⟩

theorem Ensured.tokens_eq (h : Ensured config now fresh c (.ok (), next))
    (hknown : ∃ t ∈ c.tokens, configuredHash? config.tokenHash = some t.tokenHash) : next.tokens = c.tokens := by
  obtain ⟨t, ht, hhash⟩ := hknown
  cases h with
  | adopted _ _ _ => rfl
  | made hconfigured hnew _ =>
    rw [hconfigured] at hhash
    exact absurd (Option.some.inj hhash).symm (by simpa using List.find?_eq_none.mp hnew t ht)

theorem Ensured.refused {e : Failure} (h : Ensured config now fresh c (.error e, next)) :
    next = c ∨ (∃ cause, e = .store cause) ∧ ∃ t ∈ c.tokens, t.tokenId = fresh := by
  cases h with
  | @clash hash previous e hnew hrefused =>
    refine .inr ⟨⟨e, rfl⟩, ?_⟩
    obtain ⟨_, hmade⟩ | ⟨⟨t, ht, hsame⟩, _⟩ :=
      createToken_cases (retired c now previous) (madeToken config now fresh hash)
    · rw [hmade] at hrefused
      cases hrefused
    · obtain ⟨u, hu, hid, hhash⟩ := exists_of_mem_retired ht
      rcases hsame with hsame | hsame
      · exact ⟨u, hu, hid.trans hsame⟩
      · have hother : u.tokenHash ≠ hash := by simpa using List.find?_eq_none.mp hnew u hu
        exact absurd (hhash.trans hsame) hother
  | _ => exact .inl rfl

end Endings

/-- **When the administrator's token has been made sure of, the marker names an active administrator's token with the
configured hash, in lower case and without `sha256:`. If no token had that hash, the token that the marker named
before is revoked; if one had it, all tokens are as they were. A configuration that is refused changes
nothing.** -/
theorem rotated (config : Config.Admin) (now : DateTime) (fresh : Uuid) (c : Catalog) :
    let result := (ensure config now fresh).run.run (fun r c => c.answer r) c
    (result.1 = .ok () →
        (∃ t, Installed config now result.2 t ∧
          ∃ digits : List Char,
            (config.tokenHash.toList = digits ∨ config.tokenHash.toList = "sha256:".toList ++ digits) ∧
              digits.length = 64 ∧ t.tokenHash = String.ofList (digits.map Char.toLower)) ∧
        ((∀ t ∈ c.tokens, configuredHash? config.tokenHash ≠ some t.tokenHash) →
          ∀ previous ∈ c.tokens, c.adminMarker = .ok (some previous.tokenId) →
            ∃ later ∈ result.2.tokens, previous.Ages later ∧ later.revokedAt.isSome) ∧
        ((∃ t ∈ c.tokens, configuredHash? config.tokenHash = some t.tokenHash) → result.2.tokens = c.tokens)) ∧
      ∀ e, result.1 = .error e →
        result.2 = c ∨ (∃ cause, e = .store cause) ∧ ∃ t ∈ c.tokens, t.tokenId = fresh := by
  intro result
  have h : Ensured config now fresh c (result.1, result.2) := ensured config now fresh c
  refine ⟨fun hok => ?_, fun e herror => Ensured.refused (herror ▸ h)⟩
  rw [hok] at h
  obtain ⟨t, ht⟩ := h.exists_installed
  exact ⟨⟨t, ht, configuredHash?_eq_some ht.configured⟩,
    fun hnew previous hprevious hmarked => h.exists_revoked hnew hprevious hmarked, h.tokens_eq⟩

/-- A token whose hash comes back takes the marker from the one that had taken its place, which stays active. -/
theorem rotated_back_leaves_active :
    let hash (digit : Char) : String := String.ofList (List.replicate 64 digit)
    let ensured (digit : Char) (fresh : Nat) :=
      (ensure ⟨hash digit, "admin", none⟩ .epoch (.ofNat fresh)).run.run fun r (c : Catalog) => c.answer r
    let minted : Token := ⟨.ofNat 1, "admin", hash 'a', true, none, none, .epoch, none, none⟩
    let before := (ensured 'b' 2 (Catalog.empty.after [.createToken minted])).2
    let result := ensured 'a' 3 before
    before.marker.join = some (Uuid.ofNat 2).text ∧ result.1.isOk ∧
      result.2.marker.join = some (Uuid.ofNat 1).text ∧
      ∃ t ∈ result.2.tokens, t.tokenId = .ofNat 2 ∧ t.isAdmin = true ∧ t.isActive .epoch = true := by
  intro hash ensured minted before result
  decide +kernel

end Depot.AdminToken
