import Depot.Proofs.Service.Operation

/-!
# Stores that are watched

Operations can be run on stores with an account of what is written to them. The account is read off calls and their
replies alone, and nothing that operations do depends on it (`run_watched`, `stores_watch`).

- `Watched`: stores and the account; `Watched.note`: what a call adds to it.
- `watch`: operations one after another.
-/

namespace Depot.Service

open Objects

/-- Stores, and what has been written to them. -/
structure Watched where
  stores : Stores
  /-- The keys that uploads were opened for, under the numbers of the uploads. -/
  keys : List (Nat × String)
  /-- The keys of objects, as often as they were written, in the order of time. -/
  written : List String

namespace Watched

/-- The account after a call that was replied so. Objects are written by uploads that are finished, or at once. -/
def note (w : Watched) : (c : Call) → c.Reply → Watched
  | .objects (.openUpload key), .ok n => { w with keys := (n, key) :: w.keys }
  | .objects (.finish n), .ok _ => { w with written := w.written ++ (w.keys.lookup n).toList }
  | .objects (.put key _), .ok _ => { w with written := w.written ++ [key] }
  | _, _ => w

/-- Carries a call out and takes note of it. -/
def answer (c : Call) (w : Watched) : c.Reply × Watched :=
  let (reply, next) := w.stores.answer c
  (reply, { w.note c reply with stores := next })

/-- Stores to which nothing has been written yet. -/
def start (s : Stores) : Watched := ⟨s, [], []⟩

end Watched

/-- Operations that are run one after another on stores that are watched. -/
def watch (settings : Settings) : List Operation → Watched → Watched
  | [], w => w
  | op :: rest, w => watch settings rest (Task.run Watched.answer (op.act settings).run w).2

variable {α : Type} {w : Watched}

theorem run_watched (task : CallTask α) (w : Watched) :
    (Task.run Watched.answer task w).1 = (Task.run Stores.answer task w.stores).1 ∧
      (Task.run Watched.answer task w).2.stores = (Task.run Stores.answer task w.stores).2 := by
  induction task generalizing w with
  | done value => exact ⟨rfl, rfl⟩
  | call request resume ih => exact ih _ _

theorem stores_watch (settings : Settings) (ops : List Operation) (w : Watched) :
    (watch settings ops w).stores = after settings ops w.stores := by
  induction ops generalizing w with
  | nil => rfl
  | cons op rest ih => rw [watch, ih, (run_watched _ w).2]; rfl

theorem Watched.answer_catalog (w : Watched) (r : Catalog.Request) :
    w.answer (.catalog r) = ((w.stores.catalog.answer r).1,
      { w with stores := { w.stores with catalog := (w.stores.catalog.answer r).2 } }) := by
  unfold Watched.answer Watched.note
  rfl

theorem Watched.answer_objects {r : Request} {reply : Except ObjectError r.Reply} {next : ObjectStore}
    (hanswer : w.stores.objects.answer r = (reply, next)) :
    w.answer (.objects r) =
      (reply, { w.note (.objects r) reply with stores := { w.stores with objects := next } }) := by
  rw [Watched.answer, Stores.answer]
  dsimp only
  rw [hanswer]

end Depot.Service
