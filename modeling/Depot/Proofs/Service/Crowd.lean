import Depot.Proofs.Service.Run
import Mathlib.Logic.Function.Basic
import Mathlib.Logic.Relation

/-!
# Operations run at once

- `Answers`: what each call can be replied, and what it can leave. `Healthy` stores carry every call out; calls to
  `Faulty` ones can also fail.
- `Crowd`: stores, and the tasks that call them. A step answers one call of one task, so a run is an interleaving of
  the calls of all tasks. A task need not go on, and one that waits for ever is one that was given up.
- `Crowd.alone`: a task that is run to its end while all others wait.
-/

namespace Depot.Service

open Objects

/-- What the stores can reply to a call, and be left as by it. -/
abbrev Answers := (c : Call) → Stores → c.Reply → Stores → Prop

/-- Every call is carried out. -/
def Healthy : Answers := fun c s reply next => s.answer c = (reply, next)

/-- What a call that fails can leave of an object store: nothing is done or all of it, the end of what was to be
written is missing, or an upload whose end fails is dropped. -/
inductive Remains (o : ObjectStore) : Request → ObjectStore → Prop where
  | nothing {r : Request} : Remains o r o
  | all {r : Request} : Remains o r (o.answer r).2
  | part {n : Nat} {data more : List UInt8} : Remains o (.write n (data ++ more)) (o.answer (.write n data)).2
  | dropped {n : Nat} : Remains o (.finish n) (o.answer (.abort n)).2

/-- Every call is carried out or fails. A call to the catalog that fails changes nothing. -/
inductive Faulty : Answers where
  | works {c : Call} {s next : Stores} {reply : c.Reply} (done : s.answer c = (reply, next)) : Faulty c s reply next
  | catalogFails {r : Catalog.Request} {s : Stores} (e : Catalog.StoreError) : Faulty (.catalog r) s (.error e) s
  | objectsFail {r : Request} {s : Stores} {next : ObjectStore} (e : ObjectError) (left : Remains s.objects r next) :
    Faulty (.objects r) s (.error e) { s with objects := next }

/-- The value that a task has ended with. -/
def ending? {α : Type} : CallTask α → Option α
  | .done value => some value
  | .call _ _ => none

theorem ending?_eq_some_iff {α : Type} {task : CallTask α} {value : α} :
    ending? task = some value ↔ task = .done value := by
  cases task <;> simp [ending?]

/-- Stores, and tasks that call them. -/
structure Crowd (ι α : Type) where
  stores : Stores
  tasks : ι → CallTask α

namespace Crowd

variable {ι α : Type} [DecidableEq ι] {answers : Answers} {w v : Crowd ι α}

/-- One task has a call answered and goes on. -/
inductive Step (answers : Answers) (w : Crowd ι α) : Crowd ι α → Prop where
  | call {i : ι} {c : Call} {resume : c.Reply → CallTask α} {reply : c.Reply} {next : Stores}
    (waits : w.tasks i = .call c resume) (answered : answers c w.stores reply next) :
    Step answers w ⟨next, Function.update w.tasks i (resume reply)⟩

/-- Any number of steps, of any tasks. -/
abbrev Steps (answers : Answers) : Crowd ι α → Crowd ι α → Prop := Relation.ReflTransGen (Step answers)

theorem steps_induction {P : Crowd ι α → Prop} (hstep : ∀ w v, Step answers w v → P w → P v) (hw : P w)
    (h : Steps answers w v) : P v := by
  induction h with
  | refl => exact hw
  | tail _ hlast ih => exact hstep _ _ hlast ih

theorem steps_mono {more : Answers}
    (hmore : ∀ c s reply next, answers c s reply next → more c s reply next) (h : Steps answers w v) :
    Steps more w v := by
  induction h with
  | refl => exact .refl
  | tail _ hlast ih =>
    cases hlast with
    | call waits answered => exact ih.tail (.call waits (hmore _ _ _ _ answered))

/-- One task has run to its end while all others have waited. -/
def alone (w : Crowd ι α) (i : ι) : Crowd ι α :=
  ⟨((w.tasks i).run Stores.answer w.stores).2,
    Function.update w.tasks i (.done ((w.tasks i).run Stores.answer w.stores).1)⟩

theorem stores_alone (w : Crowd ι α) (i : ι) :
    (w.alone i).stores = ((w.tasks i).run Stores.answer w.stores).2 := rfl

theorem tasks_alone_of_ne (w : Crowd ι α) {i j : ι} (hne : j ≠ i) : (w.alone i).tasks j = w.tasks j :=
  Function.update_of_ne hne _ _

theorem steps_alone (w : Crowd ι α) (i : ι) : Steps Healthy w (w.alone i) := by
  obtain ⟨s, tasks⟩ := w
  generalize htask : tasks i = task
  induction task generalizing s tasks with
  | done value =>
    have hsame : Function.update tasks i (.done value) = tasks := by rw [← htask, Function.update_eq_self]
    simp only [alone, htask, Task.run, hsame]
    exact .refl
  | call request resume ih =>
    have hfirst : Step Healthy ⟨s, tasks⟩ ⟨(s.answer request).2,
        Function.update tasks i (resume (s.answer request).1)⟩ := .call htask rfl
    have hrest := ih (s.answer request).1 (s.answer request).2
      (Function.update tasks i (resume (s.answer request).1)) (Function.update_self i _ tasks)
    simp only [alone, Function.update_self, Function.update_idem] at hrest
    simp only [alone, htask, Task.run]
    exact .head hfirst hrest

end Crowd

end Depot.Service
