import Depot.Proofs.Time.DayNumbers
import Depot.Proofs.Web.Unchanged

/-!
# Tokens that are made

Who makes a token says for how many seconds it is to be good. Seconds that 64 bits do not hold are refused, but nothing
refuses those that lead behind the last moment of the calendar: such a request ends without a response.

- `Expiry`: what comes of a lifetime (`expiry_tokenExpiry`).
- `Minted`: how a request for a token ends, and what it leaves of the catalog.
- `minted_or_refused`: every request for a token ends so, and which way it goes.
- `lifetime_breaks_off`: the longest lifetime that 64 bits hold.
-/

namespace Depot.Web

open Catalog Service Time

variable {c next : Catalog} {s : Stores} {r : Request} {now : DateTime} {fresh : Fresh} {order : TokenOrder}
  {lifetime : Option Nat} {server : Server} {a : Arrival}

/-! ### Lifetimes -/

/-- A token that is made now has its end exactly as many seconds later, or no end. -/
def EndsAfter (now : DateTime) : Option Nat → Option DateTime → Prop
  | none, ends => ends = none
  | some seconds, ends => ∃ e, ends = some e ∧ e.offset = 0 ∧ e.instant = now.instant + 1000000000 * seconds

/-- The end of a lifetime is in the calendar. -/
def IsWithin (now : DateTime) (lifetime : Option Nat) : Prop :=
  ∀ seconds, lifetime = some seconds → now.instant + 1000000000 * seconds ≤ DateTime.last.instant

/-- The end of a lifetime lies behind the calendar, but 64 bits hold its seconds. -/
def IsBeyond (now : DateTime) (lifetime : Option Nat) : Prop :=
  ∃ seconds : Nat, lifetime = some seconds ∧ seconds ≤ Int64.maxValue.toInt ∧
    DateTime.last.instant < now.instant + 1000000000 * seconds

theorem EndsAfter.isWithin {ends : Option DateTime} (h : EndsAfter now lifetime ends) : IsWithin now lifetime := by
  rintro seconds rfl
  obtain ⟨e, _, hutc, hinstant⟩ := h
  exact hinstant ▸ DateTime.instant_le_last hutc

/-- What comes of a lifetime. -/
inductive Expiry (now : DateTime) (lifetime : Option Nat) : Except Failure (Option DateTime) → Prop where
  | found {ends : Option DateTime} (after : EndsAfter now lifetime ends) : Expiry now lifetime (.ok ends)
  | uncounted {seconds : Nat} (asked : lifetime = some seconds) (long : Int64.maxValue.toInt < seconds) (why : String) :
    Expiry now lifetime (.error (.badRequest why))
  | beyond (late : IsBeyond now lifetime) : Expiry now lifetime (.error (.service .outOfCalendar))

theorem expiry_tokenExpiry (hutc : now.offset = 0) (lifetime : Option Nat) :
    Expiry now lifetime (Action.tokenExpiry now lifetime) := by
  cases lifetime with
  | none => exact .found rfl
  | some seconds =>
    rw [Action.tokenExpiry]
    split
    · rename_i hlong
      exact .uncounted rfl hlong _
    · rename_i hcounted
      split
      · rename_i e hadd
        have hoffset : e.offset = 0 := (DateTime.offset_of_add? hadd).trans hutc
        have hinstant : e.instant = now.instant + 1000000000 * seconds := by
          simpa using DateTime.instant_of_add? hadd
        exact .found ⟨e, rfl, hoffset, hinstant⟩
      · rename_i hadd
        have hlate := (DateTime.add?_eq_none_iff hutc (Int.natCast_nonneg seconds)).mp hadd
        exact .beyond ⟨seconds, rfl, Int.not_lt.mp hcounted, by omega⟩

theorem IsWithin.counted (h : IsWithin now lifetime) (hutc : now.offset = 0) {seconds : Nat}
    (hasked : lifetime = some seconds) : seconds ≤ Int64.maxValue.toInt := by
  have hend := h seconds hasked
  have hday := now.date.dayNumber_bounds.1
  have hlast : DateTime.last.instant = 253402300799999999999 := by decide
  have hmax : Int64.maxValue.toInt = 9223372036854775807 := by decide
  rw [DateTime.instant, DateTime.unixSeconds, DateTime.localSeconds, hutc, hlast] at hend
  omega

theorem IsWithin.tokenExpiry (h : IsWithin now lifetime) (hutc : now.offset = 0) :
    ∃ ends, Action.tokenExpiry now lifetime = .ok ends := by
  have hexpiry := expiry_tokenExpiry hutc lifetime
  generalize Action.tokenExpiry now lifetime = result at hexpiry
  cases hexpiry with
  | @found ends after => exact ⟨ends, rfl⟩
  | uncounted asked long why => exact absurd (h.counted hutc asked) (Int.not_le.mpr long)
  | beyond late =>
    obtain ⟨seconds, hasked, _, hlate⟩ := late
    exact absurd (h seconds hasked) (Int.not_le.mpr hlate)

theorem IsBeyond.tokenExpiry (h : IsBeyond now lifetime) (hutc : now.offset = 0) :
    Action.tokenExpiry now lifetime = .error (.service .outOfCalendar) := by
  obtain ⟨seconds, rfl, hcounted, hlate⟩ := h
  have hexpiry := expiry_tokenExpiry hutc (some seconds)
  generalize Action.tokenExpiry now (some seconds) = result at hexpiry
  cases hexpiry with
  | found after => exact absurd (after.isWithin seconds rfl) (Int.not_le.mpr hlate)
  | uncounted asked long why =>
    cases asked
    exact absurd hcounted (Int.not_le.mpr long)
  | beyond late => rfl

/-! ### Orders -/

/-- A request asks for a token, for a user whose name is not blank. -/
structure Orders (r : Request) (order : TokenOrder) : Prop where
  read : readJson r TokenOrder.ofJson? = .ok order
  named : (Text.trim order.userId).isEmpty = false

/-- The secret of a token that is made. -/
def Fresh.secretText (fresh : Fresh) : String := Text.Base64.encode fresh.secret.toList

/-- The token that an order asks for. -/
def TokenOrder.token (order : TokenOrder) (now : DateTime) (fresh : Fresh) (ends : Option DateTime) : Token where
  tokenId := fresh.tokenId
  userId := order.userId
  tokenHash := tokenHash fresh.secretText
  isAdmin := order.isAdmin
  expiresAt := ends
  revokedAt := none
  createdAt := now
  lastUsedAt := none
  description := order.description

/-- No token has the identifier or the secret that was made by chance. -/
def Fresh.IsUnused (fresh : Fresh) (c : Catalog) : Prop :=
  ∀ t ∈ c.tokens, t.tokenId ≠ fresh.tokenId ∧ t.tokenHash ≠ tokenHash fresh.secretText

theorem exists_why_readJson {α : Type} {read : Json → Option α} {e : Failure} (h : readJson r read = .error e) :
    ∃ why, e = .badRequest why := by
  unfold readJson at h
  split at h
  · cases h
    exact ⟨_, rfl⟩
  · split at h <;> cases h
    exact ⟨_, rfl⟩

/-- What is done with an order. -/
def placeOrder (now : DateTime) (fresh : Fresh) (order : TokenOrder) : Action Reply := do
  let ends ← Action.ofExcept (Action.tokenExpiry now order.lifetime)
  Action.catalog (.createToken (order.token now fresh ends))
  return .tokenMade fresh.tokenId fresh.secretText ends

theorem requireAdmin_some (caller : Caller) : Action.requireAdmin (some caller) =
    if caller.isAdmin = true then .ok () else .error (.forbidden "admin token required") := by
  cases hadmin : caller.isAdmin <;> simp [Action.requireAdmin, requireCaller, Caller.requireAdmin, hadmin]

theorem createToken_of_orders {caller : Caller} (hadmin : caller.isAdmin = true) (h : Orders r order) (now : DateTime)
    (fresh : Fresh) : Action.createToken (some caller) now r fresh = placeOrder now fresh order := by
  rw [Action.createToken, requireAdmin_some, if_pos hadmin, h.read]
  simp only [Action.ofExcept, pure_bind, h.named]
  rfl

/-! ### Endings -/

/-- The end of a token as a response tells it: no end, or a text that spells it. -/
def IsWritten : Option DateTime → Json → Prop
  | none, json => json = .null
  | some e, json => ∃ text, json = .str text ∧ Rfc3339.parse? text = some e

/-- A response tells of a token that was made. -/
structure Response.TellsToken (response : Response) (fresh : Fresh) (ends : Option DateTime) : Prop where
  status : response.status = 201
  body : ∃ expiry, response.body = .json (.obj [("response", .str "success"), ("body",
    .obj [("token_id", .str fresh.tokenId.text), ("token_secret", .str fresh.secretText), ("expires_at", expiry)])]) ∧
      IsWritten ends expiry

/-- A response tells of a failure. -/
structure Response.TellsFailure (response : Response) : Prop where
  status : 400 ≤ response.status
  body : ∃ failure : Failure, response.body = .json failure.toJson

/-- How a request for a token ends, and what it leaves of a catalog: the token that was ordered is made, or the request
fails and no token is made, or it has no response, for an end behind the calendar. -/
inductive Minted (a : Arrival) (c : Catalog) : Outcome → Catalog → Prop where
  | made {response : Response} {order : TokenOrder} {ends : Option DateTime} {used : Catalog}
    (ordered : Orders a.request order) (after : EndsAfter (a.clock 1) order.lifetime ends)
    (tells : response.TellsToken a.fresh ends) (same : SameHistory c used)
    (new : used.IsNew (order.token (a.clock 1) a.fresh ends)) :
    Minted a c (.answered response) (used.withToken (order.token (a.clock 1) a.fresh ends))
  | refused {response : Response} {next : Catalog} (tells : response.TellsFailure) (same : SameHistory c next) :
    Minted a c (.answered response) next
  | brokenOff {order : TokenOrder} {next : Catalog} (ordered : Orders a.request order)
    (late : IsBeyond (a.clock 1) order.lifetime) (same : SameHistory c next) : Minted a c .brokenOff next

/-- How a request ends whose action ends so. -/
def Server.outcome (server : Server) (r : Request) : Except Failure Reply → Outcome
  | .error (.service .outOfCalendar) => .brokenOff
  | result => .answered (server.finish r (respondTo result))

theorem outcome_of_ne {result : Except Failure Reply} (h : result ≠ .error (.service .outOfCalendar)) :
    server.outcome r result = .answered (server.finish r (respondTo result)) := by
  unfold Server.outcome
  split
  · exact absurd rfl h
  · rfl

theorem le_statusOf (code : String) : 400 ≤ Failure.statusOf code := by
  unfold Failure.statusOf
  repeat' split
  all_goals decide

/-- A request to make a token. -/
structure AsksForToken (r : Request) : Prop where
  method : r.method = .post
  path : r.path = "/v1/admin/tokens"

theorem AsksForToken.resource?_eq (h : AsksForToken r) (server : Server) : server.resource? r.path = some .tokens := by
  rw [h.path]
  exact resource?_of_isAdmin server (by decide) trivial

theorem AsksForToken.tellsFailure (h : AsksForToken r) (server : Server) (failure : Failure) :
    (server.finish r (respondTo (.error failure))).TellsFailure :=
  ⟨le_statusOf failure.code, failure, if_neg (by simp [h.method])⟩

theorem isWritten_toJson (hnow : now.HasUtcText) {lifetime : Option Nat} {ends : Option DateTime}
    (h : EndsAfter now lifetime ends) : IsWritten ends (.ofOption DateTime.toJson ends) := by
  cases lifetime with
  | none =>
    cases h
    rfl
  | some seconds =>
    obtain ⟨e, rfl, hutc, hinstant⟩ := h
    have htext := hnow.of_instant_le hutc (by omega)
    obtain ⟨text, hrender, hparse⟩ := Rfc3339.parse?_of_printable (t := e) ⟨htext.year, by simp [hutc]⟩
    refine ⟨text, ?_, hparse⟩
    rw [Json.ofOption, DateTime.toJson, hrender]

theorem AsksForToken.tellsToken (h : AsksForToken r) (hnow : now.HasUtcText) {ends : Option DateTime}
    (hends : EndsAfter now lifetime ends) (server : Server) (fresh : Fresh) :
    (server.finish r (respondTo (.ok (.tokenMade fresh.tokenId fresh.secretText ends)))).TellsToken fresh ends :=
  ⟨rfl, _, if_neg (by simp [h.method]), isWritten_toJson hnow hends⟩

/-! ### What is done whichever calls fail -/

theorem minted_of_error (h : AsksForToken a.request) {failure : Failure} (hfailure : failure ≠ .service .outOfCalendar)
    (hsame : SameHistory c next) : Minted a c (server.outcome a.request (.error failure)) next := by
  rw [outcome_of_ne (by simpa using hfailure)]
  exact .refused (h.tellsFailure server failure) hsame

theorem answer_createToken (s : Stores) (token : Token) :
    (s.catalog.IsNew token ∧
      s.answer (.catalog (.createToken token)) = (.ok (), { s with catalog := s.catalog.withToken token })) ∨
    (∃ t ∈ s.catalog.tokens, t.tokenId = token.tokenId ∨ t.tokenHash = token.tokenHash) ∧
      ∃ e, s.answer (.catalog (.createToken token)) = (.error e, s) := by
  have hanswer : s.answer (.catalog (.createToken token)) = ((s.catalog.commitOr (s.catalog.createToken token)).1,
      { s with catalog := (s.catalog.commitOr (s.catalog.createToken token)).2 }) := rfl
  rw [hanswer]
  rcases createToken_cases s.catalog token with ⟨hnew, hmade⟩ | ⟨hused, e, hrefused⟩
  · rw [hmade]
    exact .inl ⟨hnew, rfl⟩
  · rw [hrefused]
    exact .inr ⟨hused, e, rfl⟩

theorem ensures_placeOrder (h : AsksForToken a.request) (hnow : (a.clock 1).HasUtcText)
    (hordered : Orders a.request order) (hs : SameHistory c s.catalog) :
    Ensures Faulty (fun result t => Minted a c (server.outcome a.request result) t.catalog)
      (placeOrder (a.clock 1) a.fresh order).run s := by
  have hexpiry := expiry_tokenExpiry hnow.utc order.lifetime
  rw [placeOrder]
  generalize Action.tokenExpiry (a.clock 1) order.lifetime = result at hexpiry ⊢
  cases hexpiry with
  | uncounted asked long why => exact minted_of_error h nofun hs
  | beyond late => exact .brokenOff hordered late hs
  | @found ends after =>
    intro reply t hanswered
    cases hanswered with
    | catalogFails e => exact minted_of_error h nofun hs
    | works done =>
      rcases answer_createToken s (order.token (a.clock 1) a.fresh ends) with ⟨hnew, hmade⟩ | ⟨_, e, hrefused⟩
      · rw [hmade] at done
        cases done
        exact .made hordered after (h.tellsToken hnow after server a.fresh) hs hnew
      · rw [hrefused] at done
        cases done
        exact minted_of_error h nofun hs

theorem ensures_createToken (h : AsksForToken a.request) (hnow : (a.clock 1).HasUtcText) (hs : SameHistory c s.catalog)
    (caller? : Option Caller) :
    Ensures Faulty (fun result t => Minted a c (server.outcome a.request result) t.catalog)
      (Action.createToken caller? (a.clock 1) a.request a.fresh).run s := by
  cases caller? with
  | none => exact minted_of_error h nofun hs
  | some caller =>
    cases hadmin : caller.isAdmin with
    | false =>
      rw [Action.createToken, requireAdmin_some, if_neg (by simp [hadmin])]
      exact minted_of_error h nofun hs
    | true =>
      cases hread : readJson a.request TokenOrder.ofJson? with
      | error e =>
        obtain ⟨why, rfl⟩ := exists_why_readJson hread
        rw [Action.createToken, requireAdmin_some, if_pos hadmin, hread]
        exact minted_of_error h nofun hs
      | ok order =>
        cases hnamed : (Text.trim order.userId).isEmpty with
        | false =>
          rw [createToken_of_orders hadmin ⟨hread, hnamed⟩]
          exact ensures_placeOrder h hnow ⟨hread, hnamed⟩ hs
        | true =>
          rw [Action.createToken, requireAdmin_some, if_pos hadmin, hread]
          simp only [Action.ofExcept, pure_bind, hnamed]
          exact minted_of_error h nofun hs

theorem sameHistory_of_idle {request : Catalog.Request} {reply : (Call.catalog request).Reply} {t : Stores}
    (h : Faulty (.catalog request) s reply t) (hidle : ∀ value, ¬request.Changes value) :
    SameHistory s.catalog t.catalog := by
  rcases faulty_cases h with hsame | ⟨value, _, hchanges⟩
  · exact hsame
  · exact absurd hchanges (hidle value)

theorem ensures_authenticate (hs : SameHistory c s.catalog) (r : Request) (now : DateTime) :
    Ensures Faulty (fun result t => SameHistory c t.catalog ∧ result ≠ .error (.service .outOfCalendar))
      (authenticate r now).run s := by
  cases hsecret : bearer? r with
  | none =>
    rw [authenticate, hsecret]
    exact ⟨hs, by simp⟩
  | some secret =>
    rw [run_authenticate hsecret]
    intro reply t hread
    have ht := hs.trans (sameHistory_of_idle hread fun _ => id)
    rcases reply with e | _ | token
    · exact ⟨ht, by simp⟩
    · exact ⟨ht, by simp⟩
    · cases hactive : token.isActive now with
      | false =>
        simp only [letIn, hactive]
        exact ⟨ht, by simp⟩
      | true =>
        simp only [letIn, hactive]
        intro _ next htouched
        exact ⟨ht.trans (sameHistory_of_idle htouched fun _ => id), by simp⟩

theorem ensures_handle (h : AsksForToken a.request) (hnow : (a.clock 1).HasUtcText) (s : Stores) (server : Server) :
    Ensures Faulty (fun result t => Minted a s.catalog (server.outcome a.request result) t.catalog)
      (server.handle a.tally a.clock a.fresh a.request).run s := by
  rw [Server.handle, ExceptT.run_bind]
  refine (ensures_authenticate (.refl _) a.request (a.clock 0)).bind fun result t hresult => ?_
  obtain ⟨hsame, hends⟩ := hresult
  cases result with
  | error e => exact minted_of_error h (by simpa using hends) hsame
  | ok caller? =>
    rw [h.resource?_eq server, h.method]
    exact ensures_createToken h hnow hsame caller?

theorem ensures_minted (h : AsksForToken a.request) (hnow : (a.clock 1).HasUtcText) (s : Stores) (server : Server) :
    Ensures Faulty (fun ending t => Minted a s.catalog ending.1 t.catalog) (a.answer server) s := by
  refine (ensures_handle h hnow s server).bind fun result t hminted => ?_
  split
  · exact hminted
  · rename_i hends
    rw [outcome_of_ne hends] at hminted
    exact hminted

/-! ### What is done when no call fails -/

theorem exists_runs_answer (server : Server) (a : Arrival) (s : Stores) :
    ∃ calls, Runs Faulty (a.answer server) s calls (Task.run Stores.answer (a.answer server) s).1
      (Task.run Stores.answer (a.answer server) s).2 :=
  exists_runs (fun _ _ => .works rfl) (a.answer server) s

theorem run_respond (server : Server) (a : Arrival) (s : Stores) :
    ∃ tally, Task.run Stores.answer (a.answer server) s =
      ((server.outcome a.request (perform (server.handle a.tally a.clock a.fresh a.request) s).1, tally),
        (perform (server.handle a.tally a.clock a.fresh a.request) s).2) := by
  rw [Arrival.answer, Server.respond, run_bind, perform]
  generalize Task.run Stores.answer (server.handle a.tally a.clock a.fresh a.request).run s = ending
  obtain ⟨result, t⟩ := ending
  dsimp only
  split
  · exact ⟨_, rfl⟩
  · rename_i hends
    rw [outcome_of_ne hends]
    exact ⟨_, rfl⟩

theorem perform_authenticate {t : Token} (hpresented : presented? s.catalog r = some t)
    (hactive : t.isActive now = true) : perform (authenticate r now) s =
      (.ok (some ⟨t.tokenId, t.userId, t.isAdmin⟩), { s with catalog := s.catalog.touchToken t.tokenId now }) := by
  obtain ⟨secret, hsecret, hfound⟩ := Option.bind_eq_some_iff.mp hpresented
  rw [perform, run_authenticate hsecret]
  change Task.run Stores.answer (letIn now (.ok (s.catalog.tokenByHash? (tokenHash secret)))).run s = _
  rw [hfound]
  simp only [letIn, hactive]
  rfl

theorem perform_handle_orders (h : AsksForToken a.request) {t : Token}
    (hpresented : presented? s.catalog a.request = some t) (hactive : t.isActive (a.clock 0) = true)
    (hadmin : t.isAdmin = true) (hordered : Orders a.request order) (server : Server) :
    perform (server.handle a.tally a.clock a.fresh a.request) s =
      perform (placeOrder (a.clock 1) a.fresh order)
        { s with catalog := s.catalog.touchToken t.tokenId (a.clock 0) } := by
  rw [Server.handle, perform_bind_ok (perform_authenticate hpresented hactive), h.resource?_eq server, h.method]
  exact congrArg (perform · _) (createToken_of_orders hadmin hordered (a.clock 1) a.fresh)

theorem perform_placeOrder_beyond (hutc : now.offset = 0) (hlate : IsBeyond now order.lifetime) (fresh : Fresh)
    (s : Stores) : perform (placeOrder now fresh order) s = (.error (.service .outOfCalendar), s) := by
  rw [placeOrder, hlate.tokenExpiry hutc]
  rfl

theorem isUnused_iff (hsame : SameHistory c next) : fresh.IsUnused c ↔ fresh.IsUnused next := by
  have happart (d : Catalog) : fresh.IsUnused d ↔
      ∀ t ∈ d.tokens.map Token.apartFromUse, t.tokenId ≠ fresh.tokenId ∧ t.tokenHash ≠ tokenHash fresh.secretText := by
    rw [List.forall_mem_map]
    rfl
  rw [happart c, happart next, hsame.tokens]

theorem Minted.exists_order {response : Response} (h : Minted a c (.answered response) next)
    (hstatus : response.status = 201) :
    ∃ order, Orders a.request order ∧ IsWithin (a.clock 1) order.lifetime ∧ a.fresh.IsUnused c := by
  cases h with
  | made ordered after tells same new => exact ⟨_, ordered, after.isWithin, (isUnused_iff same).mpr new⟩
  | refused tells same => exact absurd tells.status (by omega)

theorem perform_catalog {request : Catalog.Request} {reply : request.Reply} {t : Stores}
    (h : s.answer (.catalog request) = (.ok reply, t)) : perform (Action.catalog request) s = (.ok reply, t) := by
  have hattempt : perform (Action.attempt (.catalog request)) s =
      (.ok (s.answer (.catalog request)).1, (s.answer (.catalog request)).2) := rfl
  rw [h] at hattempt
  rw [Action.catalog, perform_bind_ok hattempt]
  rfl

theorem perform_placeOrder_within (hutc : now.offset = 0) (hwithin : IsWithin now order.lifetime)
    (hunused : fresh.IsUnused s.catalog) :
    ∃ ends t, perform (placeOrder now fresh order) s = (.ok (.tokenMade fresh.tokenId fresh.secretText ends), t) := by
  obtain ⟨ends, hends⟩ := hwithin.tokenExpiry hutc
  rcases answer_createToken s (order.token now fresh ends) with ⟨_, hmade⟩ | ⟨⟨t, ht, hused⟩, _⟩
  · refine ⟨ends, { s with catalog := s.catalog.withToken (order.token now fresh ends) }, ?_⟩
    rw [placeOrder, hends]
    exact perform_bind_ok (perform_catalog hmade)
  · obtain ⟨hid, hhash⟩ := hunused t ht
    exact absurd hused (not_or.mpr ⟨hid, hhash⟩)

/-! ### Every request for a token -/

/-- **A request for a token is answered unless the end of the token lies behind the calendar.** Whatever its body is,
whatever the stores hold and whichever calls fail, whoever sends it: either the token is made whose end is exactly as
many seconds ahead as were ordered, and the response tells of it, or the response tells of a failure and no token is
made, or there is no response and no token, and the order led behind the last moment of the calendar. If an
administrator sends it and no call fails, then every order that leads there has no response, and exactly those orders
are answered with a token that stay in the calendar, unless chance made what is in use. -/
theorem minted_or_refused (server : Server) (a : Arrival) (s : Stores) (h : AsksForToken a.request)
    (hnow : (a.clock 1).HasUtcText) :
    (∀ {calls outcome tally t}, Runs Faulty (a.answer server) s calls (outcome, tally) t →
      Minted a s.catalog outcome t.catalog) ∧
    (Accompanied s.catalog a → ∃ outcome tally t, Task.run Stores.answer (a.answer server) s = ((outcome, tally), t) ∧
      (outcome = .brokenOff ↔ ∃ order, Orders a.request order ∧ IsBeyond (a.clock 1) order.lifetime) ∧
      ((∃ response, outcome = .answered response ∧ response.status = 201) ↔
        ∃ order, Orders a.request order ∧ IsWithin (a.clock 1) order.lifetime ∧ a.fresh.IsUnused s.catalog)) := by
  have hminted {calls : List Call} {outcome : Outcome} {tally : Tally} {t : Stores}
      (hrun : Runs Faulty (a.answer server) s calls (outcome, tally) t) : Minted a s.catalog outcome t.catalog :=
    hrun.ensures (ensures_minted h hnow s server)
  refine ⟨hminted, fun ⟨token, hpresented, hactive, hadmin⟩ => ?_⟩
  obtain ⟨tally, hrun⟩ := run_respond server a s
  obtain ⟨calls, hruns⟩ := exists_runs_answer server a s
  rw [hrun] at hruns
  have hhandle {order : TokenOrder} (hordered : Orders a.request order) :=
    perform_handle_orders h hpresented hactive hadmin hordered server
  refine ⟨_, tally, _, hrun, ⟨fun hbroken => ?_, ?_⟩, ⟨?_, ?_⟩⟩
  · have hending := hminted hruns
    rw [hbroken] at hending
    cases hending with
    | brokenOff ordered late same => exact ⟨_, ordered, late⟩
  · rintro ⟨order, hordered, hlate⟩
    rw [hhandle hordered, perform_placeOrder_beyond hnow.utc hlate]
    rfl
  · rintro ⟨response, hanswered, hstatus⟩
    have hending := hminted hruns
    rw [hanswered] at hending
    exact hending.exists_order hstatus
  · rintro ⟨order, hordered, hwithin, hunused⟩
    have htouched := (isUnused_iff (sameHistory_touchToken s.catalog token.tokenId (a.clock 0))).mp hunused
    let used : Stores := { s with catalog := s.catalog.touchToken token.tokenId (a.clock 0) }
    obtain ⟨ends, t, hmade⟩ := perform_placeOrder_within (s := used) hnow.utc hwithin htouched
    rw [hhandle hordered, hmade]
    exact ⟨_, rfl, rfl⟩

/-- Stores that know one token, which is an administrator's. -/
def storesWithAdmin : Stores :=
  ⟨Catalog.empty.after [.createToken ⟨.ofNat 1, "root", tokenHash "key", true, none, none, .epoch, none, none⟩],
    .files ⟨⟨[]⟩, [], ⟨[], ""⟩, [], 0⟩⟩

/-- At the beginning of 1970 the administrator asks for a token that is good for so many seconds. -/
def arrivalFor (seconds : String) : Arrival :=
  ⟨.zero, fun _ => .epoch, ⟨.ofNat 2, .replicate 32 0⟩,
    ⟨.post, "/v1/admin/tokens", "", [("authorization", Text.utf8 "Bearer key")],
      [.data (Text.utf8 ("\x7b\"user_id\":\"ann\",\"expires_in_secs\":" ++ seconds ++ "\x7d"))]⟩⟩

theorem asksForToken_arrivalFor (seconds : String) : AsksForToken (arrivalFor seconds).request := ⟨rfl, rfl⟩

theorem accompanied_arrivalFor (seconds : String) : Accompanied storesWithAdmin.catalog (arrivalFor seconds) := by
  have hpresents : Presents (arrivalFor seconds).request "key" :=
    ⟨printable_of_all (by decide), "Bearer".toList, by decide, rfl⟩
  refine ⟨⟨.ofNat 1, "root", tokenHash "key", true, none, none, .epoch, none, none⟩, ?_, rfl, rfl⟩
  rw [presented?, hpresents.bearer?_eq, Option.bind_some]
  exact List.find?_cons_of_pos (beq_self_eq_true _)

theorem exists_orders {seconds : Nat}
    (hread : (match readJson r TokenOrder.ofJson? with
      | .ok order => order.lifetime == some seconds && !(Text.trim order.userId).isEmpty
      | .error _ => false) = true) : ∃ order, Orders r order ∧ order.lifetime = some seconds := by
  cases hresult : readJson r TokenOrder.ofJson? with
  | error e =>
    rw [hresult] at hread
    cases hread
  | ok order =>
    rw [hresult] at hread
    obtain ⟨hlifetime, hnamed⟩ : order.lifetime = some seconds ∧ (Text.trim order.userId).isEmpty = false := by
      simpa using hread
    exact ⟨order, ⟨hresult, hnamed⟩, hlifetime⟩

/-- A token for an hour is made. -/
theorem minted_or_refused_hour :
    let server : Server := ⟨⟨2, 60, 1⟩, false⟩
    let a := arrivalFor "3600"
    AsksForToken a.request ∧ (a.clock 1).HasUtcText ∧ Accompanied storesWithAdmin.catalog a ∧
      ∃ response tally t, Task.run Stores.answer (a.answer server) storesWithAdmin = ((.answered response, tally), t) ∧
        response.status = 201 ∧ Minted a storesWithAdmin.catalog (.answered response) t.catalog := by
  intro server a
  have hasks : AsksForToken a.request := asksForToken_arrivalFor _
  have hnow : (a.clock 1).HasUtcText := ⟨rfl, Int.natCast_nonneg 1970⟩
  have hadmin : Accompanied storesWithAdmin.catalog a := accompanied_arrivalFor _
  obtain ⟨hminted, hexact⟩ := minted_or_refused server a storesWithAdmin hasks hnow
  obtain ⟨outcome, tally, t, hrun, _, hmade⟩ := hexact hadmin
  obtain ⟨order, hordered, hlifetime⟩ : ∃ order, Orders a.request order ∧ order.lifetime = some 3600 :=
    exists_orders (by decide +kernel)
  have hwithin : IsWithin (a.clock 1) order.lifetime := by
    intro seconds hseconds
    rw [hlifetime] at hseconds
    cases hseconds
    decide
  have hunused : a.fresh.IsUnused storesWithAdmin.catalog := by
    have hhash : tokenHash "key" ≠ tokenHash a.fresh.secretText := by decide +kernel
    exact List.forall_mem_singleton.mpr ⟨by decide, hhash⟩
  obtain ⟨response, rfl, hstatus⟩ := hmade.mpr ⟨order, hordered, hwithin, hunused⟩
  obtain ⟨calls, hruns⟩ := exists_runs_answer server a storesWithAdmin
  rw [hrun] at hruns
  exact ⟨hasks, hnow, hadmin, response, tally, t, hrun, hstatus, hminted hruns⟩

/-- Nothing refuses the longest lifetime that 64 bits hold, and an order for it has no response. -/
theorem lifetime_breaks_off :
    let server : Server := ⟨⟨2, 60, 1⟩, false⟩
    let a := arrivalFor "9223372036854775807"
    AsksForToken a.request ∧ (1970 ≤ (a.clock 1).date.year ∧ (a.clock 1).date.year ≤ 9000) ∧
      Accompanied storesWithAdmin.catalog a ∧
      ∃ tally t, Task.run Stores.answer (a.answer server) storesWithAdmin = ((.brokenOff, tally), t) := by
  intro server a
  have hasks : AsksForToken a.request := asksForToken_arrivalFor _
  have hadmin : Accompanied storesWithAdmin.catalog a := accompanied_arrivalFor _
  obtain ⟨order, hordered, hlifetime⟩ : ∃ order, Orders a.request order ∧
      order.lifetime = some 9223372036854775807 := exists_orders (by decide +kernel)
  have hlate : IsBeyond (a.clock 1) order.lifetime := ⟨_, hlifetime, by decide, by decide⟩
  refine ⟨hasks, by decide, hadmin, ?_⟩
  obtain ⟨token, hpresented, hactive, htoken⟩ := hadmin
  obtain ⟨tally, hrun⟩ := run_respond server a storesWithAdmin
  rw [perform_handle_orders hasks hpresented hactive htoken hordered, perform_placeOrder_beyond rfl hlate] at hrun
  exact ⟨tally, _, hrun⟩

end Depot.Web
