import Depot.Proofs.Outcome
import Depot.Service.Call

/-!
# Operations run alone

- `perform`: what an operation ends with when it runs alone, and the stores that it leaves.
- `Only`: an operation makes no calls but some. Whatever these calls keep, the operation keeps.
-/

namespace Depot.Service

open Content Time

/-! ### Tasks as a monad -/

theorem bind_done {Call : Type} {Reply : Call → Type} {α : Type} (task : Task Call Reply α) :
    task.bind .done = task := by
  induction task with
  | done value => rfl
  | call request resume ih => exact congrArg (Task.call request) (funext ih)

theorem bind_assoc_task {Call : Type} {Reply : Call → Type} {α β γ : Type} (task : Task Call Reply α)
    (f : α → Task Call Reply β) (g : β → Task Call Reply γ) :
    (task.bind f).bind g = task.bind fun a => (f a).bind g := by
  induction task with
  | done value => rfl
  | call request resume ih => exact congrArg (Task.call request) (funext ih)

instance {Call : Type} {Reply : Call → Type} : LawfulMonad (Task Call Reply) :=
  LawfulMonad.mk' (Task Call Reply) bind_done (fun _ _ => rfl) bind_assoc_task

/-! ### Running an operation -/

variable {α β ε : Type} {s : Stores}

/-- What an operation ends with when it runs alone, and the stores after it. -/
def perform (op : ExceptT ε CallTask α) (s : Stores) : Except ε α × Stores := Task.run Stores.answer op.run s

theorem run_bind {Call : Type} {Reply : Call → Type} {γ σ : Type} {handle : (c : Call) → σ → Reply c × σ}
    (task : Task Call Reply β) (next : β → Task Call Reply γ) (s : σ) :
    Task.run handle (task >>= next) s =
      Task.run handle (next (Task.run handle task s).1) (Task.run handle task s).2 := by
  induction task generalizing s with
  | done value => rfl
  | call request resume ih => exact ih _ _

@[simp] theorem perform_pure (a : α) (s : Stores) : perform (pure a : ExceptT ε CallTask α) s = (.ok a, s) := rfl

@[simp] theorem perform_throw (e : ε) (s : Stores) : perform (throw e : ExceptT ε CallTask α) s = (.error e, s) := rfl

theorem perform_bind (op : ExceptT ε CallTask α) (next : α → ExceptT ε CallTask β) (s : Stores) :
    perform (op >>= next) s =
      match perform op s with
      | (.ok a, t) => perform (next a) t
      | (.error e, t) => (.error e, t) := by
  rw [perform, ExceptT.run_bind, run_bind]
  unfold perform
  cases Task.run Stores.answer op.run s with
  | mk result t => cases result <;> rfl

theorem perform_bind_ok {op : ExceptT ε CallTask α} {next : α → ExceptT ε CallTask β} {a : α} {t : Stores}
    (h : perform op s = (.ok a, t)) : perform (op >>= next) s = perform (next a) t := by
  rw [perform_bind, h]

theorem perform_bind_eq_ok {op : ExceptT ε CallTask α} {next : α → ExceptT ε CallTask β} {b : β}
    (h : (perform (op >>= next) s).1 = .ok b) :
    ∃ a u, perform op s = (.ok a, u) ∧ (perform (next a) u).1 = .ok b := by
  rw [perform_bind] at h
  cases hop : perform op s with
  | mk result u =>
    rw [hop] at h
    cases result with
    | ok a => exact ⟨a, u, rfl, h⟩
    | error e => cases h

@[simp] theorem perform_map (f : α → β) (op : ExceptT ε CallTask α) (s : Stores) :
    perform (f <$> op) s = ((perform op s).1.map f, (perform op s).2) := by
  rw [map_eq_pure_bind, perform_bind]
  cases perform op s with
  | mk result t => cases result <;> rfl

@[simp] theorem perform_discard (op : ExceptT ε CallTask α) (s : Stores) :
    perform (discard op) s = ((perform op s).1.map fun _ => (), (perform op s).2) :=
  perform_map (fun _ => ()) op s

theorem perform_discard_error {op : ExceptT ε CallTask α} {e : ε} {t : Stores} (h : perform op s = (.error e, t)) :
    perform (discard op) s = (.error e, t) := by
  rw [perform_discard, h]
  rfl

@[simp] theorem perform_attempt (c : Call) (s : Stores) :
    perform (attempt c) s = (.ok (s.answer c).1, (s.answer c).2) :=
  rfl

@[simp] theorem perform_lift_run {δ : Type} (op : ExceptT δ CallTask α) (s : Stores) :
    perform (ExceptT.lift op.run : ExceptT ε CallTask (Except δ α)) s = (.ok (perform op s).1, (perform op s).2) := by
  rw [perform, ExceptT.run_lift, map_eq_pure_bind, run_bind]
  rfl

@[simp] theorem perform_lift (fail : ε → ServiceError) (x : Except ε α) (s : Stores) :
    perform (lift fail x) s = (x.mapError fail, s) := by
  cases x <;> rfl

theorem perform_lift_ok {fail : ε → ServiceError} {x : Except ε α} {a : α} (h : x = .ok a) (s : Stores) :
    perform (lift fail x) s = (.ok a, s) := by
  rw [perform_lift, h]
  rfl

theorem perform_askCatalog (r : Catalog.Request) (s : Stores) :
    perform (askCatalog r) s =
      ((s.catalog.answer r).1.mapError .ofStore, { s with catalog := (s.catalog.answer r).2 }) := by
  rw [askCatalog, perform_bind, perform_attempt]
  dsimp only [Stores.answer]
  cases (s.catalog.answer r).1 <;> rfl

theorem perform_askCatalog_ok {r : Catalog.Request} {reply : r.Reply} {next : Catalog}
    (h : s.catalog.answer r = (.ok reply, next)) :
    perform (askCatalog r) s = (.ok reply, { s with catalog := next }) := by
  rw [perform_askCatalog, h]
  rfl

theorem perform_askObjects (r : Objects.Request) (s : Stores) :
    perform (askObjects r) s =
      ((s.objects.answer r).1.mapError .ofObjects, { s with objects := (s.objects.answer r).2 }) := by
  rw [askObjects, perform_bind, perform_attempt]
  dsimp only [Stores.answer]
  cases (s.objects.answer r).1 <;> rfl

theorem perform_mapM_eq {xs : List α} {f : α → Op β} {g : α → Except ServiceError β}
    (h : ∀ x ∈ xs, perform (f x) s = (g x, s)) : perform (xs.mapM f) s = (xs.mapM g, s) := by
  induction xs with
  | nil => rfl
  | cons x rest ih =>
    obtain ⟨hx, hrest⟩ := List.forall_mem_cons.mp h
    rw [List.mapM_cons, List.mapM_cons, perform_bind, hx]
    cases g x with
    | error e => rfl
    | ok y =>
      dsimp only
      rw [perform_bind, ih hrest]
      cases rest.mapM g <;> rfl

theorem perform_mapM {xs : List α} {f : α → Op β} {g : α → β} (h : ∀ x ∈ xs, perform (f x) s = (.ok (g x), s)) :
    perform (xs.mapM f) s = (.ok (xs.map g), s) := by
  rw [perform_mapM_eq h, mapM_eq_ok fun _ _ => rfl]

theorem perform_check {p : Prop} [Decidable p] {e : ServiceError} {op : Op α} :
    perform (if p then (throw e : Op PUnit) >>= fun _ => op else op) s =
      if p then (.error e, s) else perform op s := by
  split <;> rfl

/-! ### Calls that an operation makes -/

/-- A task makes only calls of some kind, whatever it is replied. -/
def Only (P : Call → Prop) : CallTask α → Prop
  | .done _ => True
  | .call request resume => P request ∧ ∀ reply, Only P (resume reply)

variable {P : Call → Prop}

theorem Only.mono {Q : Call → Prop} {task : CallTask α} (h : Only P task) (hcall : ∀ request, P request → Q request) :
    Only Q task := by
  induction task with
  | done value => exact trivial
  | call request resume ih => exact ⟨hcall request h.1, fun reply => ih reply (h.2 reply)⟩

theorem Only.bind {task : CallTask α} {next : α → CallTask β} (h : Only P task) (hnext : ∀ a, Only P (next a)) :
    Only P (task >>= next) := by
  induction task with
  | done value => exact hnext value
  | call request resume ih => exact ⟨h.1, fun reply => ih reply (h.2 reply)⟩

/-- What calls of some kind keep, a task keeps that makes no others, whoever carries its calls out. -/
theorem Only.run_induction {σ : Type} {handle : (c : Call) → σ → c.Reply × σ} {I : σ → Prop} {task : CallTask α} {t : σ}
    (h : Only P task) (hcall : ∀ request u, P request → I u → I (handle request u).2) (ht : I t) :
    I (Task.run handle task t).2 := by
  induction task generalizing t with
  | done value => exact ht
  | call request resume ih => exact ih _ (h.2 _) (hcall request t h.1 ht)

/-- An operation makes only calls of some kind. -/
structure Makes (P : Call → Prop) (op : Op α) : Prop where
  only : Only P op.run

theorem Makes.mono {Q : Call → Prop} {op : Op α} (h : Makes P op) (hcall : ∀ request, P request → Q request) :
    Makes Q op :=
  ⟨h.only.mono hcall⟩

theorem makes_pure (a : α) : Makes P (pure a) := ⟨trivial⟩

theorem makes_throw (e : ServiceError) : Makes P (throw e : Op α) := ⟨trivial⟩

theorem Makes.bind {op : Op α} {next : α → Op β} (h : Makes P op) (hnext : ∀ a, Makes P (next a)) :
    Makes P (op >>= next) := by
  constructor
  rw [ExceptT.run_bind]
  apply Only.bind h.only
  intro result
  cases result with
  | ok a => exact (hnext a).only
  | error e => exact trivial

theorem makes_attempt {c : Call} (h : P c) : Makes P (attempt c) := ⟨h, fun _ => trivial⟩

theorem Makes.perform_induction {I : Stores → Prop} {op : Op α} (h : Makes P op)
    (hcall : ∀ request s, P request → I s → I (s.answer request).2) (hs : I s) : I (perform op s).2 :=
  h.only.run_induction hcall hs

theorem makes_askCatalog {r : Catalog.Request} (h : P (.catalog r)) : Makes P (askCatalog r) := by
  apply (makes_attempt h).bind
  intro reply
  cases reply with
  | ok reply => exact makes_pure reply
  | error e => exact makes_throw _

theorem makes_askObjects {r : Objects.Request} (h : P (.objects r)) : Makes P (askObjects r) := by
  apply (makes_attempt h).bind
  intro reply
  cases reply with
  | ok reply => exact makes_pure reply
  | error e => exact makes_throw _

theorem makes_lift (fail : ε → ServiceError) (x : Except ε α) : Makes P (lift fail x) := by
  cases x with
  | ok a => exact makes_pure a
  | error e => exact makes_throw _

theorem makes_lift_run {δ : Type} {op : ExceptT δ CallTask α} (h : Only P op.run) :
    Makes P (ExceptT.lift op.run : Op (Except δ α)) := by
  constructor
  rw [ExceptT.run_lift, map_eq_pure_bind]
  exact h.bind fun _ => trivial

theorem makes_map (f : α → β) {op : Op α} (h : Makes P op) : Makes P (f <$> op) := by
  rw [map_eq_pure_bind]
  exact h.bind fun a => makes_pure (f a)

theorem makes_discard {op : Op α} (h : Makes P op) : Makes P (discard op) := makes_map (fun _ => ()) h

theorem makes_mapM {xs : List α} {f : α → Op β} (h : ∀ x, Makes P (f x)) : Makes P (xs.mapM f) := by
  induction xs with
  | nil => exact makes_pure []
  | cons x rest ih =>
    rw [List.mapM_cons]
    exact (h x).bind fun y => ih.bind fun ys => makes_pure (y :: ys)

theorem makes_check {p : Prop} [Decidable p] {e : ServiceError} {op : Op α} (h : Makes P op) :
    Makes P (if p then (throw e : Op PUnit) >>= fun _ => op else op) := by
  split
  · exact (makes_throw e).bind fun _ => h
  · exact h

end Depot.Service
