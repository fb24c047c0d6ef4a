import Depot.Proofs.Catalog.Quiet
import Depot.Proofs.Service.Crowd

/-!
# What a task can do

Others change the stores between the calls of a task. What the task itself does is which calls it makes, and what it
ends with, whatever it is replied.

- `Confined`: a task makes no calls but some, and ends with no value but some.
- `Fares`: so does a task after a first reading, which the catalog that it finds answers.
-/

namespace Depot.Service

variable {α β : Type} {P P' : Call → Prop} {Q : α → Prop} {R : β → Prop} {c : Catalog}

/-- A task makes only calls of some kind, and ends with a value of some kind, whatever it is replied. -/
def Confined (P : Call → Prop) (Q : α → Prop) : CallTask α → Prop
  | .done value => Q value
  | .call request resume => P request ∧ ∀ reply, Confined P Q (resume reply)

theorem Confined.bind {task : CallTask α} {next : α → CallTask β} (h : Confined P Q task)
    (hnext : ∀ a, Q a → Confined P R (next a)) : Confined P R (task >>= next) := by
  induction task with
  | done value => exact hnext value h
  | call request resume ih => exact ⟨h.1, fun reply => ih reply (h.2 reply)⟩

theorem Confined.mono {task : CallTask α} (h : Confined P Q task) (hcall : ∀ request, P request → P' request) :
    Confined P' Q task := by
  induction task with
  | done value => exact h
  | call request resume ih => exact ⟨hcall request h.1, fun reply => ih reply (h.2 reply)⟩

/-- What a task does that starts on a catalog. It may read the catalog once, and makes only calls of some kind
then. -/
inductive Fares (P : Call → Prop) (Q : α → Prop) (c : Catalog) : CallTask α → Prop where
  | confined {task : CallTask α} (rest : Confined P Q task) : Fares P Q c task
  | reads {r : Catalog.Request} {resume : (Call.catalog r).Reply → CallTask α} (read : r.IsRead)
    (rest : Confined P Q (resume (c.answer r).1)) : Fares P Q c (.call (.catalog r) resume)

theorem Fares.bind {task : CallTask α} {next : α → CallTask β} (h : Fares P Q c task)
    (hnext : ∀ a, Q a → Confined P R (next a)) : Fares P R c (task >>= next) := by
  cases h with
  | confined rest => exact .confined (rest.bind hnext)
  | reads read rest => exact .reads read (rest.bind hnext)

theorem Fares.mono {task : CallTask α} (h : Fares P Q c task) (hcall : ∀ request, P request → P' request) :
    Fares P' Q c task := by
  cases h with
  | confined rest => exact .confined (rest.mono hcall)
  | reads read rest => exact .reads read (rest.mono hcall)

theorem Confined.exists_done {task : CallTask α} (h : Confined (fun _ => False) Q task) :
    ∃ value, Q value ∧ task = .done value := by
  cases task with
  | done value => exact ⟨value, h, rfl⟩
  | call request resume => exact h.1.elim

theorem Fares.run_eq {s : Stores} {task : CallTask α} (h : Fares (fun _ => False) Q s.catalog task) :
    ∃ value, Q value ∧ Task.run Stores.answer task s = (value, s) := by
  cases h with
  | confined rest =>
    obtain ⟨value, hvalue, rfl⟩ := rest.exists_done
    exact ⟨value, hvalue, rfl⟩
  | @reads r resume read rest =>
    obtain ⟨value, hvalue, hdone⟩ := rest.exists_done
    refine ⟨value, hvalue, ?_⟩
    have hsame : (Stores.answer (.catalog r) s).2 = s :=
      congrArg (fun c => { s with catalog := c }) (Catalog.answer_of_isRead read)
    rw [Task.run]
    dsimp only
    rw [hsame]
    exact congrArg (fun task => Task.run Stores.answer task s) hdone

end Depot.Service
