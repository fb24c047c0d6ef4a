import Depot.Proofs.Catalog.Refusals
import Depot.Proofs.Service.Boundary

/-!
# How operations end

`Ends E s op post`: run alone on stores `s`, an operation ends in a value and stores of which `post` holds, or with a
failure that `E` allows. There is a rule for each way in which operations are put together, and for the calls and checks
that they share; calls to a sound catalog fail only for what they ask (`ends_askCatalog`).
-/

namespace Depot.Service

open Content Time

variable {α β ε : Type} {E E' : ServiceError → Prop} {s : Stores} {op : Op α} {post : α → Stores → Prop}

/-! ### Failures -/

/-- A failure that is not one of the service itself. -/
def ServiceError.IsPlain : ServiceError → Prop
  | .internal _ | .outOfCalendar => False
  | _ => True

theorem isPlain_ofContent (e : Content.Error) : (ServiceError.ofContent e).IsPlain := by
  cases e <;> exact trivial

theorem isPlain_ofStore {e : Catalog.StoreError} (h : e.IsRefusal) : (ServiceError.ofStore e).IsPlain := by
  cases e with
  | notFound what => exact trivial
  | alreadyExists what => exact trivial
  | constraint detail => exact trivial
  | _ => cases h

/-! ### Rules -/

/-- An operation ends in a value and stores as it should, or with a failure that it may have. -/
structure Ends (E : ServiceError → Prop) (s : Stores) (op : Op α) (post : α → Stores → Prop) : Prop where
  value : ∀ a t, perform op s = (.ok a, t) → post a t
  error : ∀ e t, perform op s = (.error e, t) → E e

theorem Ends.mono (h : Ends E s op post) (hE : ∀ e, E e → E' e) : Ends E' s op post :=
  ⟨h.value, fun e t he => hE e (h.error e t he)⟩

theorem Ends.any (h : Ends E s op post) : Ends E s op fun _ _ => True := ⟨fun _ _ _ => trivial, h.error⟩

theorem ends_of_ok {a : α} {t : Stores} (h : perform op s = (.ok a, t)) (hpost : post a t) : Ends E s op post := by
  refine ⟨fun b u hb => ?_, fun e u he => ?_⟩
  · cases h.symm.trans hb
    exact hpost
  · cases h.symm.trans he

theorem ends_of_error {e : ServiceError} {t : Stores} (h : perform op s = (.error e, t)) (hE : E e) :
    Ends E s op post := by
  refine ⟨fun b u hb => ?_, fun failure u he => ?_⟩
  · cases h.symm.trans hb
  · cases h.symm.trans he
    exact hE

theorem ends_bind_ok {next : α → Op β} {a : α} {t : Stores} {post : β → Stores → Prop}
    (h : perform op s = (.ok a, t)) (hnext : Ends E t (next a) post) : Ends E s (op >>= next) post := by
  have hbind : perform (op >>= next) s = perform (next a) t := perform_bind_ok h
  exact ⟨fun b u hb => hnext.value b u (hbind ▸ hb), fun e u he => hnext.error e u (hbind ▸ he)⟩

theorem Ends.bind {mid : α → Stores → Prop} {next : α → Op β} {post : β → Stores → Prop} (h : Ends E s op mid)
    (hnext : ∀ a t, mid a t → Ends E t (next a) post) : Ends E s (op >>= next) post := by
  cases hop : perform op s with
  | mk result t =>
    cases result with
    | ok a => exact ends_bind_ok hop (hnext a t (h.value a t hop))
    | error e =>
      have hbind : perform (op >>= next) s = (.error e, t) := by rw [perform_bind, hop]
      exact ends_of_error hbind (h.error e t hop)

theorem ends_pure {a : α} (h : post a s) : Ends E s (pure a) post := ends_of_ok rfl h

theorem ends_throw {e : ServiceError} (h : E e) : Ends E s (throw e : Op α) post := ends_of_error rfl h

theorem ends_check {p : Prop} [Decidable p] {e : ServiceError} (hE : E e) (h : ¬p → Ends E s op post) :
    Ends E s (if p then (throw e : Op PUnit) >>= fun _ => op else op) post := by
  split
  · exact ends_of_error rfl hE
  · exact h ‹_›

theorem ends_lift {fail : ε → ServiceError} {x : Except ε α} (hE : ∀ e, x = .error e → E (fail e)) :
    Ends E s (lift fail x) fun a t => s = t ∧ x = .ok a := by
  cases x with
  | ok a => exact ends_pure ⟨rfl, rfl⟩
  | error e => exact ends_throw (hE e rfl)

theorem ends_discard (h : Ends E s op post) : Ends E s (discard op) fun _ _ => True := by
  refine ⟨fun _ _ _ => trivial, fun e t he => ?_⟩
  rw [perform_discard] at he
  cases hop : perform op s with
  | mk result u =>
    rw [hop] at he
    cases result with
    | ok a => cases he
    | error failure =>
      cases he
      exact h.error e u hop

theorem ends_mapM {xs : List α} {f : α → Op β} {R : α → β → Prop}
    (h : ∀ x ∈ xs, Ends E s (f x) fun y t => s = t ∧ R x y) :
    Ends E s (xs.mapM f) fun ys t => s = t ∧ List.Forall₂ R xs ys := by
  induction xs with
  | nil => exact ends_pure ⟨rfl, .nil⟩
  | cons x rest ih =>
    rw [List.mapM_cons]
    apply (h x List.mem_cons_self).bind
    rintro y _ ⟨rfl, hy⟩
    apply (ih fun z hz => h z (List.mem_cons_of_mem x hz)).bind
    rintro ys _ ⟨rfl, hys⟩
    exact ends_pure ⟨rfl, .cons hy hys⟩

/-! ### Calls -/

theorem ends_query {r : Catalog.Request} {reply : r.Reply} {next : r.Reply → Op α}
    (h : s.catalog.answer r = (.ok reply, s.catalog)) (hnext : Ends E s (next reply) post) :
    Ends E s (askCatalog r >>= next) post :=
  ends_bind_ok (perform_askCatalog_ok h) hnext

/-- The catalog is in order. -/
structure InOrder (s : Stores) : Prop where
  history : Catalog.HistorySound s.catalog
  content : Catalog.ContentSound s.catalog

theorem InOrder.answer (hs : InOrder s) (r : Catalog.Request) : InOrder (s.answer (.catalog r)).2 :=
  ⟨Catalog.historySound_step (Catalog.answer_step s.catalog r) hs.history,
    Catalog.contentSound_step (Catalog.answer_step s.catalog r) hs.content⟩

theorem ends_attempt (s : Stores) (r : Catalog.Request) :
    Ends E s (attempt (.catalog r)) fun reply t => (s.answer (.catalog r)).2 = t ∧ (s.catalog.answer r).1 = reply :=
  ends_of_ok (perform_attempt _ s) ⟨rfl, rfl⟩

theorem ends_askCatalog (hs : InOrder s) {r : Catalog.Request} (hr : r ≠ .adminMarker) :
    Ends ServiceError.IsPlain s (askCatalog r) fun reply _ => (s.catalog.answer r).1 = .ok reply := by
  apply (ends_attempt s r).bind
  rintro reply _ ⟨rfl, hreply⟩
  cases reply with
  | ok reply => exact ends_pure hreply
  | error e => exact ends_throw (isPlain_ofStore (Catalog.isRefusal_answer hs.history hs.content hr hreply))

theorem ends_persist (hs : InOrder s) {r : Nat → Catalog.Request} (hr : ∀ i, r i ≠ .adminMarker) (number more : Nat) :
    Ends ServiceError.IsPlain s (persist r number more) fun answered _ =>
      ∃ u, InOrder u ∧ (u.catalog.answer (r answered.1)).1 = .ok answered.2 := by
  induction more generalizing s number with
  | zero =>
    apply (ends_askCatalog hs (hr number)).bind
    rintro reply _ hreply
    exact ends_pure ⟨s, hs, hreply⟩
  | succ more ih =>
    -- A failed attempt leaves stores of its own, so the answer is one to them and not to `s`.
    apply (ends_attempt s (r number)).bind
    rintro reply _ ⟨rfl, hreply⟩
    split
    · exact ends_pure ⟨s, hs, hreply⟩
    · exact ih (hs.answer (r number)) (number + 1)
    · exact ends_throw (isPlain_ofStore (Catalog.isRefusal_answer hs.history hs.content (hr number) hreply))

/-! ### Checks that operations share -/

theorem ends_requireAccess (user : String) (projectId : Int) (required : AccessLevel) (s : Stores) :
    Ends ServiceError.IsPlain s (requireAccess user projectId required) fun _ t =>
      s = t ∧ required ≤ s.catalog.projectAccess user projectId := by
  by_cases hlevel : required ≤ s.catalog.projectAccess user projectId
  · exact ends_of_ok (perform_requireAccess_ok hlevel) ⟨rfl, hlevel⟩
  · have hrefused := perform_requireAccess user projectId required s
    rw [if_neg hlevel] at hrefused
    exact ends_of_error hrefused trivial

theorem ends_resolveBoundary (projectId : Int) (boundary : CommitBoundary) (s : Stores) :
    Ends ServiceError.IsPlain s (resolveBoundary projectId boundary) fun k t =>
      s = t ∧ boundaryCommit? s.catalog projectId boundary = some k := by
  cases hfound : boundaryCommit? s.catalog projectId boundary with
  | some k => exact ends_of_ok (perform_resolveBoundary_some hfound) ⟨rfl, rfl⟩
  | none =>
    have hrefused := perform_resolveBoundary_eq s projectId boundary
    rw [hfound] at hrefused
    exact ends_of_error hrefused trivial

theorem ends_filesOf (hs : InOrder s) {revisions : List Catalog.Revision}
    (hrows : ∀ r ∈ revisions, r ∈ s.catalog.revisions) :
    Ends ServiceError.IsPlain s (filesOf revisions) fun _ t => s = t := by
  obtain ⟨files, hfiles⟩ := perform_filesOf s fun r hr => hs.history.exists_fileState hs.content (hrows r hr)
  exact ends_of_ok hfiles rfl

end Depot.Service
