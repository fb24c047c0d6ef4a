import Depot.Proofs.Service.Crowd

/-!
# One task over stores that may fail

A task that runs alone is answered call by call, and stores that may fail can answer a call in several ways.

- `Runs`: a task runs to its end, with the calls that it makes on the way.
- `Ensures`: a task ends so in whatever ways its calls are answered, which is said call by call (`Runs.ensures`).
-/

namespace Depot.Service

variable {α β : Type} {answers : Answers} {s t : Stores} {calls : List Call} {value : α} {task : CallTask α}

/-- A task runs to its end, and makes these calls one after another. -/
inductive Runs (answers : Answers) : CallTask α → Stores → List Call → α → Stores → Prop where
  | done (value : α) (s : Stores) : Runs answers (.done value) s [] value s
  | call {c : Call} {resume : c.Reply → CallTask α} {s next t : Stores} {reply : c.Reply} {calls : List Call}
    {value : α} (answered : answers c s reply next) (rest : Runs answers (resume reply) next calls value t) :
    Runs answers (.call c resume) s (c :: calls) value t

theorem exists_runs (hworks : ∀ c s, answers c s (s.answer c).1 (s.answer c).2) (task : CallTask α) (s : Stores) :
    ∃ calls, Runs answers task s calls (Task.run Stores.answer task s).1 (Task.run Stores.answer task s).2 := by
  induction task generalizing s with
  | done value => exact ⟨[], .done value s⟩
  | call c resume ih =>
    obtain ⟨calls, hrest⟩ := ih (s.answer c).1 (s.answer c).2
    exact ⟨c :: calls, .call (hworks c s) hrest⟩

theorem Runs.run_eq (h : Runs Healthy task s calls value t) : Task.run Stores.answer task s = (value, t) := by
  induction h with
  | done value s => rfl
  | call answered _ ih =>
    rw [Task.run, answered]
    exact ih

/-- In whatever ways its calls are answered, a task ends with a value and stores that go together. -/
def Ensures (answers : Answers) (Q : α → Stores → Prop) : CallTask α → Stores → Prop
  | .done value, s => Q value s
  | .call c resume, s => ∀ reply next, answers c s reply next → Ensures answers Q (resume reply) next

variable {Q : α → Stores → Prop} {R : β → Stores → Prop}

theorem Runs.ensures (h : Runs answers task s calls value t) (hensures : Ensures answers Q task s) : Q value t := by
  induction h with
  | done value s => exact hensures
  | call answered _ ih => exact ih (hensures _ _ answered)

theorem Ensures.mono {R : α → Stores → Prop} (h : Ensures answers Q task s) (hQ : ∀ value t, Q value t → R value t) :
    Ensures answers R task s := by
  induction task generalizing s with
  | done value => exact hQ value s h
  | call c resume ih => exact fun reply next hanswered => ih reply (h reply next hanswered)

theorem Ensures.bind {next : α → CallTask β} (h : Ensures answers Q task s)
    (hnext : ∀ value t, Q value t → Ensures answers R (next value) t) : Ensures answers R (task >>= next) s := by
  induction task generalizing s with
  | done value => exact hnext value s h
  | call c resume ih => exact fun reply u hanswered => ih reply (h reply u hanswered)

theorem Only.ensures {P : Call → Prop} {I : Stores → Prop} (h : Only P task)
    (hcall : ∀ c s reply next, P c → answers c s reply next → I s → I next) (hs : I s) :
    Ensures answers (fun _ t => I t) task s := by
  induction task generalizing s with
  | done value => exact hs
  | call c resume ih =>
    exact fun reply next hanswered => ih reply (h.2 reply) (hcall c s reply next h.1 hanswered hs)

end Depot.Service
