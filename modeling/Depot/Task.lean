/-!
# Tasks

A task is a computation that asks its surroundings for things, one call at a time, and goes on with each
reply.

- `Task.run`: a task alone with a handler that carries calls out on a state.
- `Task.mapCalls`: a task whose calls are part of a larger set of calls.
-/

namespace Depot

inductive Task (Call : Type) (Reply : Call → Type) (α : Type) where
  | done (value : α)
  | call (request : Call) (resume : Reply request → Task Call Reply α)

namespace Task

variable {Call : Type} {Reply : Call → Type} {α β σ : Type}

/-- The second task goes on with the value of the first. -/
def bind : Task Call Reply α → (α → Task Call Reply β) → Task Call Reply β
  | done value, next => next value
  | call request resume, next => call request fun reply => (resume reply).bind next

instance : Monad (Task Call Reply) where
  pure := done
  bind := bind

/-- Makes one call and answers its reply. -/
def ask (request : Call) : Task Call Reply (Reply request) := call request done

/-- The task alone: every call is carried out on the state at once. -/
def run (handle : (request : Call) → σ → Reply request × σ) : Task Call Reply α → σ → α × σ
  | done value, s => (value, s)
  | call request resume, s =>
    let (reply, next) := handle request s
    (resume reply).run handle next

/-- The task with each call made as a call of another set, with the same replies. -/
def mapCalls {Call' : Type} {Reply' : Call' → Type} (rename : Call → Call')
    (same : (request : Call) → Reply' (rename request) → Reply request) :
    Task Call Reply α → Task Call' Reply' α
  | done value => done value
  | call request resume => call (rename request) fun reply => (resume (same request reply)).mapCalls rename same

end Task

end Depot
