import Depot.Proofs.Catalog.Failure
import Depot.Proofs.Service.Boundary
import Depot.Proofs.Service.Crowd
import Depot.Proofs.Service.Failures
import Depot.Proofs.Service.Operation

/-!
# Attempts at a commit

A commit whose number another one takes is attempted again, and so is a restore. Each of these calls makes one commit
or none, whatever becomes of its attempts and whatever others do to the stores between them.

- `Logs`: a task runs to its end beside others, with a log of its own calls and of how each was answered.
- `Fitful`: stores whose attempts at a commit can fail, with any failure, and then write nothing.
- `Tries`: all attempts but the last find the number taken, and the last one is what counts (`logs_persist`).
-/

namespace Depot.Catalog

open Time

variable {c next : Catalog}

/-! ### Answers that make a commit -/

theorem commitOr_eq_ok {α : Type} {result : Except StoreError (α × Catalog)} {value : α}
    (h : c.commitOr result = (.ok value, next)) : result = .ok (value, next) := by
  match result with
  | .ok (written, left) =>
    cases h
    rfl
  | .error e => cases h

theorem answer_createCommit_eq_ok {draft : CommitDraft} {write : CommitWrite}
    (h : c.answer (.createCommit draft) = (.ok write, next)) :
    (∃ row, write = .committed row ∧ next.commits = c.commits ++ [row]) ∨
      ∃ hashes, write = .missingContent hashes ∧ next = c := by
  have hmade : c.createCommit draft = .ok (write, next) := commitOr_eq_ok h
  cases hproject : c.project? draft.projectId with
  | none =>
    obtain ⟨e, he⟩ := insertCommit_error draft.authorId draft.comment draft.revisions.length draft.createdAt hproject
    rw [createCommit, he] at hmade
    cases hmade
  | some project =>
    rw [createCommit_eq c draft (by simp [hproject])] at hmade
    split at hmade <;> cases hmade
    · exact .inl ⟨_, rfl, rfl⟩
    · exact .inr ⟨_, rfl, rfl⟩

theorem commits_of_restored {projectId target : Int} {authorId comment : String} {createdAt : DateTime}
    {row : CommitSummary} {rows : List Revision}
    (h : c.answer (.restoreCommit projectId target authorId comment createdAt) = (.ok (row, rows), next)) :
    next.commits = c.commits ++ [row] := by
  have hmade : c.restoreCommit projectId target authorId comment createdAt = .ok ((row, rows), next) :=
    commitOr_eq_ok h
  obtain ⟨latest, drafts, hproject, hfound, hlatest, hplan, -⟩ := restoreCommit_eq_ok hmade
  obtain ⟨found, hfound⟩ := Option.isSome_iff_exists.mp hfound
  rw [restoreCommit_eq authorId comment createdAt hproject hfound hlatest hplan] at hmade
  cases hmade
  rfl

end Depot.Catalog

namespace Depot.Service

open Content Time

variable {α β : Type} {others : Stores → Stores → Prop} {answers : Answers} {s t : Stores}

/-! ### Logs -/

/-- A call as it was answered. -/
structure Exchange where
  call : Call
  before : Stores
  reply : call.Reply
  after : Stores

/-- The call has left the stores as they were. -/
def Exchange.Quiet (x : Exchange) : Prop := x.after = x.before

/-- A task runs to its end and logs its calls. Others may change the stores before each of them. -/
inductive Logs (others : Stores → Stores → Prop) (answers : Answers) :
    CallTask α → Stores → List Exchange → α → Stores → Prop where
  | done (value : α) (s : Stores) : Logs others answers (.done value) s [] value s
  | call {c : Call} {resume : c.Reply → CallTask α} {s u next t : Stores} {reply : c.Reply} {log : List Exchange}
    {value : α} (between : Relation.ReflTransGen others s u) (answered : answers c u reply next)
    (rest : Logs others answers (resume reply) next log value t) :
    Logs others answers (.call c resume) s (⟨c, u, reply, next⟩ :: log) value t

variable {log : List Exchange}

theorem exists_logs (hworks : ∀ c u, answers c u (u.answer c).1 (u.answer c).2) (task : CallTask α) (s : Stores) :
    ∃ log value t, Logs others answers task s log value t := by
  induction task generalizing s with
  | done value => exact ⟨[], value, s, .done value s⟩
  | call c resume ih =>
    obtain ⟨log, value, t, hrest⟩ := ih (s.answer c).1 (s.answer c).2
    exact ⟨_, value, t, .call .refl (hworks c s) hrest⟩

theorem Logs.of_done {value result : α} (h : Logs others answers (.done value) s log result t) :
    log = [] ∧ result = value ∧ t = s := by
  cases h
  exact ⟨rfl, rfl, rfl⟩

theorem Logs.of_call {c : Call} {resume : c.Reply → CallTask α} {value : α}
    (h : Logs others answers (.call c resume) s log value t) :
    ∃ u reply next rest, Relation.ReflTransGen others s u ∧ answers c u reply next ∧
      log = ⟨c, u, reply, next⟩ :: rest ∧ Logs others answers (resume reply) next rest value t := by
  cases h with
  | call between answered rest => exact ⟨_, _, _, _, between, answered, rfl, rest⟩

theorem Logs.of_bind {task : CallTask α} {next : α → CallTask β} {value : β}
    (h : Logs others answers (task >>= next) s log value t) :
    ∃ first rest a u, log = first ++ rest ∧ Logs others answers task s first a u ∧
      Logs others answers (next a) u rest value t := by
  induction task generalizing s log with
  | done a => exact ⟨[], log, a, s, rfl, .done a s, h⟩
  | call c resume ih =>
    obtain ⟨u, reply, left, later, hbetween, hanswered, rfl, hlater⟩ := Logs.of_call h
    obtain ⟨first, rest, a, v, rfl, hfirst, hrest⟩ := ih reply hlater
    exact ⟨_ :: first, rest, a, v, rfl, .call hbetween hanswered hfirst, hrest⟩

theorem Logs.bind {task : CallTask α} {next : α → CallTask β} {a : α} {value : β} {first rest : List Exchange}
    {u : Stores} (hfirst : Logs others answers task s first a u) (hrest : Logs others answers (next a) u rest value t) :
    Logs others answers (task >>= next) s (first ++ rest) value t := by
  induction hfirst with
  | done a s => exact hrest
  | call between answered _ ih => exact .call between answered (ih hrest)

theorem Logs.of_op_bind {op : Op α} {next : α → Op β} {result : Except ServiceError β}
    (h : Logs others answers (op >>= next).run s log result t) :
    ∃ first rest outcome u, log = first ++ rest ∧ Logs others answers op.run s first outcome u ∧
      match outcome with
      | .ok a => Logs others answers (next a).run u rest result t
      | .error e => rest = [] ∧ result = .error e ∧ t = u := by
  rw [ExceptT.run_bind] at h
  obtain ⟨first, rest, outcome, u, hlog, hfirst, hrest⟩ := h.of_bind
  refine ⟨first, rest, outcome, u, hlog, hfirst, ?_⟩
  cases outcome with
  | ok a => exact hrest
  | error e => exact hrest.of_done

theorem Logs.op_bind {op : Op α} {next : α → Op β} {a : α} {result : Except ServiceError β} {first rest : List Exchange}
    {u : Stores} (hfirst : Logs others answers op.run s first (.ok a) u)
    (hrest : Logs others answers (next a).run u rest result t) :
    Logs others answers (op >>= next).run s (first ++ rest) result t := by
  rw [ExceptT.run_bind]
  exact hfirst.bind hrest

theorem Logs.of_pure {a : α} {result : Except ServiceError α}
    (h : Logs others answers (pure a : Op α).run s log result t) : log = [] ∧ result = .ok a ∧ t = s :=
  Logs.of_done h

theorem Logs.of_askCatalog {r : Catalog.Request} {result : Except ServiceError r.Reply}
    (h : Logs others answers (askCatalog r).run s log result t) :
    ∃ u reply, Relation.ReflTransGen others s u ∧ answers (.catalog r) u reply t ∧
      log = [⟨.catalog r, u, reply, t⟩] ∧ result = reply.mapError .ofStore := by
  obtain ⟨u, reply, next, rest, hbetween, hanswered, rfl, hrest⟩ := Logs.of_call h
  have hend : rest = [] ∧ result = reply.mapError .ofStore ∧ t = next := by
    cases reply <;> exact Logs.of_done hrest
  obtain ⟨rfl, hresult, rfl⟩ := hend
  exact ⟨u, reply, hbetween, hanswered, rfl, hresult⟩

/-- How many commits the calls of a log have made. -/
def made : List Exchange → Int
  | [] => 0
  | x :: rest => (x.after.catalog.commits.length - x.before.catalog.commits.length) + made rest

@[simp] theorem made_nil : made [] = 0 := rfl

@[simp] theorem made_append (first rest : List Exchange) : made (first ++ rest) = made first + made rest := by
  induction first with
  | nil => exact (Int.zero_add _).symm
  | cons x first ih => rw [List.cons_append, made, made, ih, Int.add_assoc]

theorem made_of_quiet (h : ∀ x ∈ log, x.Quiet) : made log = 0 := by
  induction log with
  | nil => rfl
  | cons x rest ih =>
    obtain ⟨hx, hrest⟩ := List.forall_mem_cons.mp h
    rw [made, hx, Int.sub_self, Int.zero_add]
    exact ih hrest

/-! ### Stores whose commits fail -/

/-- Every call is carried out, save that a commit or a restore can fail, with any failure, and then writes nothing. -/
inductive Fitful : Answers where
  | works {c : Call} {s next : Stores} {reply : c.Reply} (done : s.answer c = (reply, next)) : Fitful c s reply next
  | commitFails {draft : Catalog.CommitDraft} {s : Stores} (e : Catalog.StoreError) :
    Fitful (.catalog (.createCommit draft)) s (.error e) s
  | restoreFails {projectId target : Int} {authorId comment : String} {createdAt : DateTime} {s : Stores}
    (e : Catalog.StoreError) :
    Fitful (.catalog (.restoreCommit projectId target authorId comment createdAt)) s (.error e) s

variable {r : Catalog.Request} {next : Stores}

theorem Fitful.of_ok {reply : r.Reply} (h : Fitful (.catalog r) s (.ok reply) next) :
    s.answer (.catalog r) = (.ok reply, next) := by
  cases h with
  | works done => exact done

theorem Fitful.of_error {e : Catalog.StoreError} (hr : ∀ uploader k, r ≠ .registerChunk uploader k)
    (h : Fitful (.catalog r) s (.error e) next) : next = s := by
  cases h with
  | works done =>
    obtain ⟨hreply, rfl⟩ := Prod.mk.inj done
    obtain ⟨hsame, _⟩ | ⟨uploader, k, hregister, _⟩ := Catalog.answer_error (Prod.ext hreply rfl)
    · exact congrArg (fun c => { s with catalog := c }) hsame
    · exact absurd hregister (hr uploader k)
  | commitFails e => rfl
  | restoreFails e => rfl

theorem Logs.of_query {result : Except ServiceError r.Reply} (hread : r.IsRead)
    (h : Logs others Fitful (askCatalog r).run s log result t) :
    ∃ x, log = [x] ∧ x.Quiet ∧ x.before = t ∧ Relation.ReflTransGen others s t ∧
      result = (t.catalog.answer r).1.mapError .ofStore := by
  obtain ⟨u, reply, hbetween, hanswered, rfl, rfl⟩ := h.of_askCatalog
  have hworks : u.answer (.catalog r) = (reply, t) := by
    cases hanswered with
    | works done => exact done
    | commitFails e => cases hread
    | restoreFails e => cases hread
  have hunchanged : (u.answer (.catalog r)).2 = u := answer_of_isRead (show Call.IsRead (.catalog r) from hread) u
  have hsame : t = u := (congrArg Prod.snd hworks).symm.trans hunchanged
  subst hsame
  exact ⟨_, rfl, rfl, rfl, hbetween, congrArg (Except.mapError _) (congrArg Prod.fst hworks).symm⟩

theorem Logs.of_requireAccess {user : String} {projectId : Int} {level : AccessLevel}
    {result : Except ServiceError Unit}
    (hlevel : ∀ u, Relation.ReflTransGen others s u → level ≤ u.catalog.projectAccess user projectId)
    (h : Logs others Fitful (requireAccess user projectId level).run s log result t) :
    ∃ x, log = [x] ∧ x.Quiet ∧ Relation.ReflTransGen others s t ∧ result = .ok () := by
  obtain ⟨first, rest, outcome, u, rfl, hfirst, hrest⟩ := Logs.of_op_bind h
  obtain ⟨x, rfl, hquiet, -, hbetween, rfl⟩ := hfirst.of_query (r := .projectAccess user projectId) trivial
  have hpermitted : ¬¬level ≤ u.catalog.projectAccess user projectId := not_not.mpr (hlevel u hbetween)
  change Logs others Fitful
    (if ¬level ≤ u.catalog.projectAccess user projectId then throw _ else pure () : Op Unit).run
    u rest result t at hrest
  rw [if_neg hpermitted] at hrest
  obtain ⟨rfl, rfl, rfl⟩ := hrest.of_pure
  exact ⟨x, rfl, hquiet, hbetween, rfl⟩

theorem Logs.of_resolveCommit {projectId commitId : Int} {result : Except ServiceError CommitSummary}
    (h : Logs others Fitful (resolveBoundary projectId (.id commitId)).run s log result t) :
    ∃ x, log = [x] ∧ x.Quiet ∧ x.before = t ∧
      result = match x.before.catalog.commit? projectId commitId with
        | some k => .ok k
        | none => .error (unknownBoundary projectId (.id commitId)) := by
  obtain ⟨_, rest, _, u, rfl, hquery, hrest⟩ := Logs.of_op_bind h
  obtain ⟨x, rfl, hquiet, rfl, -, rfl⟩ := hquery.of_query (r := .getCommit projectId commitId) trivial
  have hanswer : (x.before.catalog.answer (.getCommit projectId commitId)).1 =
      .ok (x.before.catalog.commit? projectId commitId) := rfl
  rw [hanswer] at hrest
  have hend : rest = [] ∧ result = (match x.before.catalog.commit? projectId commitId with
      | some k => .ok k
      | none => .error (unknownBoundary projectId (.id commitId))) ∧ t = x.before := by
    cases hfound : x.before.catalog.commit? projectId commitId <;> rw [hfound] at hrest <;> exact Logs.of_done hrest
  obtain ⟨rfl, hresult, rfl⟩ := hend
  exact ⟨x, rfl, hquiet, rfl, hresult⟩

/-! ### Attempts -/

section Tries

variable {r : Nat → Catalog.Request}

/-- An attempt at one of some requests. -/
structure Attempt (r : Nat → Catalog.Request) where
  number : Nat
  before : Stores
  reply : Except Catalog.StoreError (r number).Reply
  after : Stores

def Attempt.exchange (a : Attempt r) : Exchange := ⟨.catalog (r a.number), a.before, a.reply, a.after⟩

/-- The attempt found that something already exists. -/
def Attempt.Taken (a : Attempt r) : Prop := ∃ what, a.reply = .error (.alreadyExists what)

/-- The requests are attempted one after another from a number on. All attempts but the last found something taken and
wrote nothing. The last one is the first that did not, or the last that there may be, and what it says is what the
catalog has done. -/
structure Tries (r : Nat → Catalog.Request) (number most : Nat) (taken : List (Attempt r)) (last : Attempt r) :
    Prop where
  numbered : (taken ++ [last]).map Attempt.number = List.range' number (taken.length + 1)
  bounded : taken.length < most
  earlier : ∀ a ∈ taken, a.Taken ∧ a.exchange.Quiet
  spent : last.Taken → taken.length + 1 = most
  succeeds : ∀ reply, last.reply = .ok reply →
    last.before.answer (.catalog (r last.number)) = (.ok reply, last.after)
  fails : ∀ e, last.reply = .error e → last.exchange.Quiet

variable {taken : List (Attempt r)} {last : Attempt r} {number most : Nat}

theorem tries_last (last : Attempt r) (hr : ∀ i uploader k, r i ≠ .registerChunk uploader k)
    (hanswered : Fitful (.catalog (r last.number)) last.before last.reply last.after) (hmost : 0 < most)
    (hspent : last.Taken → most = 1) : Tries r last.number most [] last where
  numbered := rfl
  bounded := hmost
  earlier := by simp
  spent h := (hspent h).symm
  succeeds reply h := (h ▸ hanswered).of_ok
  fails e h := (h ▸ hanswered).of_error (hr last.number)

theorem Tries.cons (first : Attempt r) (h : Tries r (first.number + 1) most taken last) (hfirst : first.Taken)
    (hquiet : first.exchange.Quiet) : Tries r first.number (most + 1) (first :: taken) last where
  numbered := by rw [List.cons_append, List.map_cons, h.numbered, List.length_cons, ← List.range'_succ]
  bounded := Nat.succ_lt_succ h.bounded
  earlier := List.forall_mem_cons.mpr ⟨⟨hfirst, hquiet⟩, h.earlier⟩
  spent hlast := congrArg (· + 1) (h.spent hlast)
  succeeds := h.succeeds
  fails := h.fails

/-- **Calls that are made while something already exists end with the last attempt.** -/
theorem logs_persist (hr : ∀ i uploader k, r i ≠ .registerChunk uploader k) {more : Nat}
    {result : Except ServiceError ((i : Nat) × (r i).Reply)}
    (h : Logs others Fitful (persist r number more).run s log result t) :
    ∃ taken last, log = (taken ++ [last]).map Attempt.exchange ∧ Tries r number (more + 1) taken last ∧
      result = (last.reply.mapError .ofStore).map (Sigma.mk last.number) ∧ t = last.after := by
  induction more generalizing number s log with
  | zero =>
    obtain ⟨_, rest, _, left, rfl, hasked, hrest⟩ := Logs.of_op_bind h
    obtain ⟨u, reply, -, hanswered, rfl, rfl⟩ := hasked.of_askCatalog
    have hend : rest = [] ∧ result = (reply.mapError .ofStore).map (Sigma.mk number) ∧ t = left := by
      cases reply with
      | ok value => exact Logs.of_pure hrest
      | error e => exact hrest
    obtain ⟨rfl, rfl, rfl⟩ := hend
    let last : Attempt r := ⟨number, u, reply, t⟩
    have htries : Tries r number 1 [] last := tries_last last hr hanswered Nat.one_pos fun _ => rfl
    exact ⟨[], last, rfl, htries, rfl, rfl⟩
  | succ more ih =>
    obtain ⟨u, reply, left, rest, -, hanswered, rfl, hrest⟩ := Logs.of_call h
    by_cases htaken : ∃ what, reply = .error (.alreadyExists what)
    · obtain ⟨what, rfl⟩ := htaken
      obtain ⟨taken, last, rfl, htries, hresult, hend⟩ := ih hrest
      let first : Attempt r := ⟨number, u, .error (.alreadyExists what), left⟩
      exact ⟨first :: taken, last, rfl, htries.cons first ⟨what, rfl⟩
        (hanswered.of_error (hr number)), hresult, hend⟩
    · have hend : rest = [] ∧ result = (reply.mapError .ofStore).map (Sigma.mk number) ∧ t = left := by
        match reply, hrest with
        | .ok value, hrest => exact Logs.of_done hrest
        | .error e, hrest =>
          cases e with
          | alreadyExists what => exact absurd ⟨what, rfl⟩ htaken
          | _ => exact Logs.of_done hrest
      obtain ⟨rfl, rfl, rfl⟩ := hend
      let last : Attempt r := ⟨number, u, reply, t⟩
      have hfree : ¬last.Taken := htaken
      have htries : Tries r number (more + 2) [] last :=
        tries_last last hr hanswered (Nat.succ_pos _) fun h => absurd h hfree
      exact ⟨[], last, rfl, htries, rfl, rfl⟩

theorem made_tries (reads : List Exchange) (hreads : ∀ x ∈ reads, x.Quiet) (h : Tries r number most taken last) :
    made (reads ++ (taken ++ [last]).map Attempt.exchange) =
      (last.after.catalog.commits.length : Int) - last.before.catalog.commits.length := by
  have htaken : ∀ x ∈ taken.map Attempt.exchange, x.Quiet := by
    simpa only [List.forall_mem_map] using fun a ha => (h.earlier a ha).2
  rw [made_append, made_of_quiet hreads, List.map_append, made_append, made_of_quiet htaken, Int.zero_add, Int.zero_add]
  simp [made, Attempt.exchange]

end Tries

/-! ### Commits and restores -/

/-- What a commit ends with and how many commits it has made, by what its last attempt was replied. -/
inductive CommitEnds {draft : Catalog.CommitDraft} (last : Attempt fun _ => .createCommit draft) :
    Except ServiceError CommitOutcome → Int → Prop where
  | committed {row : CommitSummary} (replied : last.reply = .ok (.committed row))
    (added : last.after.catalog.commits = last.before.catalog.commits ++ [row]) :
    CommitEnds last (.ok (.committed row.commitId row.sequenceNumber)) 1
  | needsBlocks {missing : List FileHash} (replied : last.reply = .ok (.missingContent (missing.map FileHash.hex)))
    (quiet : last.exchange.Quiet) : CommitEnds last (.ok (.needsBlocks missing)) 0
  | failed {e : Catalog.StoreError} (replied : last.reply = .error e) (quiet : last.exchange.Quiet) :
    CommitEnds last (.error (.ofStore e)) 0

theorem CommitEnds.conflict {draft : Catalog.CommitDraft} {last : Attempt fun _ => .createCommit draft}
    {result : Except ServiceError CommitOutcome} {count : Int} (h : CommitEnds last result count)
    (htaken : last.Taken) : ∃ what, result = .error (.conflict what) := by
  obtain ⟨what, htaken⟩ := htaken
  cases h with
  | committed replied added => cases replied.symm.trans htaken
  | needsBlocks replied quiet => cases replied.symm.trans htaken
  | failed replied quiet =>
    cases replied.symm.trans htaken
    exact ⟨_, rfl⟩

theorem CommitEnds.eq_one {draft : Catalog.CommitDraft} {last : Attempt fun _ => .createCommit draft}
    {commitId number count : Int} (h : CommitEnds last (.ok (.committed commitId number)) count) : count = 1 := by
  cases h
  rfl

/-- What a restore ends with and how many commits it has made, by what its last attempt was replied. -/
inductive RestoreEnds {projectId target : Int} {authorId comment : String} {clock : Clock}
    (last : Attempt fun i => .restoreCommit projectId target authorId comment (clock i)) :
    Except ServiceError CommitSummary → Int → Prop where
  | restored {row : CommitSummary} {rows : List Catalog.Revision} (replied : last.reply = .ok (row, rows))
    (added : last.after.catalog.commits = last.before.catalog.commits ++ [row]) : RestoreEnds last (.ok row) 1
  | failed {e : Catalog.StoreError} (replied : last.reply = .error e) (quiet : last.exchange.Quiet) :
    RestoreEnds last (.error (.ofStore e)) 0

theorem RestoreEnds.conflict {projectId target : Int} {authorId comment : String} {clock : Clock}
    {last : Attempt fun i => .restoreCommit projectId target authorId comment (clock i)}
    {result : Except ServiceError CommitSummary} {count : Int} (h : RestoreEnds last result count)
    (htaken : last.Taken) : ∃ what, result = .error (.conflict what) := by
  obtain ⟨what, htaken⟩ := htaken
  cases h with
  | restored replied added => cases replied.symm.trans htaken
  | failed replied quiet =>
    cases replied.symm.trans htaken
    exact ⟨_, rfl⟩

theorem RestoreEnds.eq_one {projectId target : Int} {authorId comment : String} {clock : Clock}
    {last : Attempt fun i => .restoreCommit projectId target authorId comment (clock i)} {row : CommitSummary}
    {count : Int} (h : RestoreEnds last (.ok row) count) : count = 1 := by
  cases h
  rfl

theorem answer_catalog_eq {reply : Except Catalog.StoreError r.Reply} (h : s.answer (.catalog r) = (reply, t)) :
    s.catalog.answer r = (reply, t.catalog) ∧ t = { s with catalog := t.catalog } := by
  obtain ⟨hreply, rfl⟩ := Prod.mk.inj h
  exact ⟨Prod.ext hreply rfl, rfl⟩

theorem length_added {before after : List CommitSummary} {row : CommitSummary} (h : after = before ++ [row]) :
    (after.length : Int) - before.length = 1 := by
  rw [h, List.length_append, List.length_singleton]
  omega

/-- What a commit reports of the answer to its last attempt. -/
def reportOf : Catalog.CommitWrite → Op CommitOutcome
  | .committed row => pure (.committed row.commitId row.sequenceNumber)
  | .missingContent hashes => do
    let missing ← lift (fun e => .internal e.message) (hashes.mapM FileHash.parse)
    pure (.needsBlocks missing)

theorem commit_eq (request : CommitRequest) (now : DateTime) :
    commit request now = (do
      requireAccess request.authorId request.projectId .write
      lift id (validateChanges [] request.changes)
      persist (fun _ => .createCommit (draftOf request now)) 0 2 >>= fun answered => reportOf answered.2) := by
  refine congrArg _ (funext fun _ => congrArg _ (funext fun _ => congrArg _ (funext fun answered => ?_)))
  obtain ⟨_, write⟩ := answered
  cases write <;> rfl

theorem logs_report {request : CommitRequest} {now : DateTime} {result : Except ServiceError CommitOutcome}
    (h : Logs others Fitful
      (persist (fun _ => .createCommit (draftOf request now)) 0 2 >>= fun answered => reportOf answered.2).run
      s log result t) :
    ∃ taken last, log = (taken ++ [last]).map Attempt.exchange ∧
      Tries (fun _ => .createCommit (draftOf request now)) 0 3 taken last ∧
      CommitEnds last result ((last.after.catalog.commits.length : Int) - last.before.catalog.commits.length) := by
  obtain ⟨_, rest, _, u, rfl, hpersist, hreport⟩ := Logs.of_op_bind h
  obtain ⟨taken, last, rfl, htries, rfl, -⟩ := logs_persist (by simp) hpersist
  cases hreply : last.reply with
  | error e =>
    rw [hreply] at hreport
    obtain ⟨rfl, rfl, -⟩ := hreport
    have hsame : last.after = last.before := htries.fails e hreply
    refine ⟨taken, last, List.append_nil _, htries, ?_⟩
    rw [hsame, Int.sub_self]
    exact .failed hreply hsame
  | ok write =>
    rw [hreply] at hreport
    obtain ⟨hanswer, hafter⟩ := answer_catalog_eq (htries.succeeds write hreply)
    obtain ⟨row, rfl, hadded⟩ | ⟨hashes, rfl, hsame⟩ := Catalog.answer_createCommit_eq_ok hanswer
    · obtain ⟨rfl, rfl, -⟩ := Logs.of_pure hreport
      exact ⟨taken, last, List.append_nil _, htries, length_added hadded ▸ .committed hreply hadded⟩
    · have hunchanged : last.after = last.before := by rw [hafter, hsame]
      have hhashes := missingContent_of_answer (congrArg Prod.fst hanswer)
      obtain ⟨_, _, _, _, rfl, hparsed, hreported⟩ := Logs.of_op_bind hreport
      rw [hhashes, mapM_map_eq_ok fun f _ => FileHash.parse_hex f] at hparsed
      obtain ⟨rfl, rfl, rfl⟩ := hparsed.of_pure
      obtain ⟨rfl, rfl, -⟩ := Logs.of_pure hreported
      refine ⟨taken, last, List.append_nil _, htries, ?_⟩
      rw [hunchanged, Int.sub_self]
      exact .needsBlocks (hhashes ▸ hreply) hunchanged

theorem restoreEnds {projectId target : Int} {authorId comment : String} {clock : Clock} {most : Nat}
    {taken : List (Attempt fun i => .restoreCommit projectId target authorId comment (clock i))}
    {last : Attempt fun i => .restoreCommit projectId target authorId comment (clock i)}
    (htries : Tries _ 0 most taken last) :
    RestoreEnds last ((last.reply.map Prod.fst).mapError .ofStore)
      ((last.after.catalog.commits.length : Int) - last.before.catalog.commits.length) := by
  cases hreply : last.reply with
  | error e =>
    have hquiet := htries.fails e hreply
    rw [show last.after = last.before from hquiet, Int.sub_self]
    exact .failed hreply hquiet
  | ok written =>
    have hadded := Catalog.commits_of_restored (answer_catalog_eq (htries.succeeds written hreply)).1
    exact length_added hadded ▸ .restored hreply hadded

/-- A commit has made a check and some attempts, and has ended as the last of these did. -/
def CommitLogged (request : CommitRequest) (now : DateTime) (log : List Exchange)
    (result : Except ServiceError CommitOutcome) : Prop :=
  ∃ check taken last, log = check :: (taken ++ [last]).map Attempt.exchange ∧ check.Quiet ∧
    Tries (fun _ => .createCommit (draftOf request now)) 0 3 taken last ∧ CommitEnds last result (made log) ∧
    (last.Taken → ∃ what, result = .error (.conflict what))

/-- A restore has made a check, looked for the commit, and made some attempts if it is there. -/
def RestoreLogged (user : String) (projectId commitId : Int) (clock : Clock) (log : List Exchange)
    (result : Except ServiceError CommitSummary) : Prop :=
  ∃ check find rest, log = check :: find :: rest ∧ check.Quiet ∧ find.Quiet ∧
    match find.before.catalog.commit? projectId commitId with
    | none => rest = [] ∧ result = .error (unknownBoundary projectId (.id commitId)) ∧ made log = 0
    | some target => ∃ taken last, rest = (taken ++ [last]).map Attempt.exchange ∧
        Tries (fun i => .restoreCommit projectId commitId user s!"Restore to commit #{target.sequenceNumber}" (clock i))
          0 3 taken last ∧
        RestoreEnds last result (made log) ∧ (last.Taken → ∃ what, result = .error (.conflict what))

theorem logs_commit {request : CommitRequest} {now : DateTime} {result : Except ServiceError CommitOutcome}
    (hvalid : ∀ change ∈ request.changes, validatePath change.path = .ok ())
    (hdistinct : (request.changes.map ProposedChange.path).Nodup)
    (hwrite : ∀ u, Relation.ReflTransGen others s u →
      AccessLevel.write ≤ u.catalog.projectAccess request.authorId request.projectId)
    (h : Logs others Fitful (commit request now).run s log result t) : CommitLogged request now log result := by
  rw [commit_eq] at h
  obtain ⟨_, _, _, u, rfl, hcheck, hpermitted⟩ := Logs.of_op_bind h
  obtain ⟨check, rfl, hquiet, -, rfl⟩ := hcheck.of_requireAccess hwrite
  obtain ⟨_, _, _, v, rfl, hvalidated, haccepted⟩ := Logs.of_op_bind hpermitted
  rw [validateChanges_eq_ok hvalid hdistinct (by simp)] at hvalidated
  obtain ⟨rfl, rfl, rfl⟩ := hvalidated.of_pure
  obtain ⟨taken, last, rfl, htries, hends⟩ := logs_report haccepted
  have hmade := made_tries [check] (List.forall_mem_singleton.mpr hquiet) htries
  exact ⟨check, taken, last, rfl, hquiet, htries, hmade ▸ hends, hends.conflict⟩

theorem logs_restore {user : String} {projectId commitId : Int} {clock : Clock}
    {result : Except ServiceError CommitSummary}
    (hmanage : ∀ u, Relation.ReflTransGen others s u → AccessLevel.manage ≤ u.catalog.projectAccess user projectId)
    (h : Logs others Fitful (restore user projectId commitId clock).run s log result t) :
    RestoreLogged user projectId commitId clock log result := by
  obtain ⟨_, _, _, u, rfl, hcheck, hpermitted⟩ := Logs.of_op_bind h
  obtain ⟨check, rfl, hquiet, -, rfl⟩ := hcheck.of_requireAccess hmanage
  obtain ⟨_, rest, _, v, rfl, hresolved, hrest⟩ := Logs.of_op_bind hpermitted
  obtain ⟨find, rfl, hunchanged, rfl, hresult⟩ := hresolved.of_resolveCommit
  refine ⟨check, find, rest, rfl, hquiet, hunchanged, ?_⟩
  cases hfound : find.before.catalog.commit? projectId commitId with
  | none =>
    rw [hresult, hfound] at hrest
    obtain ⟨rfl, hrefused, -⟩ := hrest
    exact ⟨rfl, hrefused, made_of_quiet (by simp [hquiet, hunchanged])⟩
  | some target =>
    have hid : target.commitId = commitId := by
      have hsame := List.find?_some hfound
      simp only [Bool.and_eq_true, beq_iff_eq] at hsame
      exact hsame.2
    rw [hresult, hfound] at hrest
    obtain ⟨_, rest, _, w, rfl, hpersist, hreported⟩ := Logs.of_op_bind hrest
    rw [hid] at hpersist
    obtain ⟨taken, last, rfl, htries, rfl, -⟩ := logs_persist (by simp) hpersist
    have hend : rest = [] ∧ result = (last.reply.map Prod.fst).mapError .ofStore := by
      cases hreply : last.reply with
      | error e =>
        rw [hreply] at hreported
        exact ⟨hreported.1, hreported.2.1⟩
      | ok written =>
        rw [hreply] at hreported
        obtain ⟨row, rows⟩ := written
        obtain ⟨rfl, rfl, -⟩ := Logs.of_pure hreported
        exact ⟨rfl, rfl⟩
    obtain ⟨rfl, rfl⟩ := hend
    have hmade := made_tries [check, find] (by simp [hquiet, hunchanged]) htries
    have hends := restoreEnds htries
    rw [List.append_nil]
    exact ⟨taken, last, rfl, htries, hmade ▸ hends, hends.conflict⟩

/-- **A commit of distinct valid paths by someone who may write, and a restore by someone who may manage the project,
make at most three attempts, whatever others do meanwhile, and stop at the first that does not find the number taken.
They end as their last attempt did, with a conflict if all three found it taken. They have made the one commit that they
name, which the catalog has answered as it was at that attempt, or they do not succeed and have made none.** -/
theorem one_commit_or_none (others : Stores → Stores → Prop) (s : Stores) :
    (∀ (request : CommitRequest) (now : DateTime),
      (∀ change ∈ request.changes, validatePath change.path = .ok ()) →
      (request.changes.map ProposedChange.path).Nodup →
      (∀ u, Relation.ReflTransGen others s u →
        AccessLevel.write ≤ u.catalog.projectAccess request.authorId request.projectId) →
      (∃ log result t, Logs others Fitful (commit request now).run s log result t) ∧
        ∀ log result t, Logs others Fitful (commit request now).run s log result t →
          CommitLogged request now log result) ∧
      ∀ (user : String) (projectId commitId : Int) (clock : Clock),
        (∀ u, Relation.ReflTransGen others s u → AccessLevel.manage ≤ u.catalog.projectAccess user projectId) →
        (∃ log result t, Logs others Fitful (restore user projectId commitId clock).run s log result t) ∧
          ∀ log result t, Logs others Fitful (restore user projectId commitId clock).run s log result t →
            RestoreLogged user projectId commitId clock log result := by
  have hworks : ∀ c u, Fitful c u (u.answer c).1 (u.answer c).2 := fun _ _ => .works rfl
  refine ⟨fun request now hvalid hdistinct hwrite => ⟨exists_logs hworks _ s, fun log result t h => ?_⟩,
    fun user projectId commitId clock hmanage => ⟨exists_logs hworks _ s, fun log result t h => ?_⟩⟩
  · exact logs_commit hvalid hdistinct hwrite h
  · exact logs_restore hmanage h

/-! ### A commit that is overtaken -/

/-- Somebody commits. -/
def Committing (s t : Stores) : Prop := ∃ draft, t = (s.answer (.catalog (.createCommit draft))).2

theorem projectAccess_of_committing (h : Relation.ReflTransGen Committing s t) (user : String) (projectId : Int) :
    t.catalog.projectAccess user projectId = s.catalog.projectAccess user projectId := by
  induction h with
  | refl => rfl
  | @tail u _ _ hlast ih =>
    obtain ⟨draft, rfl⟩ := hlast
    refine Eq.trans ?_ ih
    refine Catalog.commitOr_next (P := fun c => c.projectAccess user projectId = u.catalog.projectAccess user projectId)
      rfl fun write next hmade => ?_
    obtain rfl | ⟨-, -, rfl⟩ := Catalog.createCommit_eq_ok hmade <;> rfl

theorem logs_requireAccess {user : String} {projectId : Int} {level : AccessLevel}
    (h : level ≤ s.catalog.projectAccess user projectId) :
    Logs others Fitful (requireAccess user projectId level).run s
      [⟨.catalog (.projectAccess user projectId), s, .ok (s.catalog.projectAccess user projectId), s⟩] (.ok ()) s := by
  refine .call .refl (.works rfl) ?_
  change Logs others Fitful
    (if ¬level ≤ s.catalog.projectAccess user projectId then throw _ else pure () : Op Unit).run s [] (.ok ()) s
  rw [if_neg (not_not.mpr h)]
  exact .done _ s

theorem logs_resolveCommit {projectId commitId : Int} {k : CommitSummary}
    (h : s.catalog.commit? projectId commitId = some k) :
    Logs others Fitful (resolveBoundary projectId (.id commitId)).run s
      [⟨.catalog (.getCommit projectId commitId), s, .ok (s.catalog.commit? projectId commitId), s⟩] (.ok k) s := by
  refine .call .refl (.works rfl) ?_
  rw [h]
  exact .done _ s

theorem logs_persist_overtaken {r : Nat → Catalog.Request} {reply : (r 1).Reply} {u next : Stores} {what : String}
    (more : Nat) (hfails : Fitful (.catalog (r 0)) s (.error (.alreadyExists what)) s)
    (hbetween : Relation.ReflTransGen others s u) (hanswer : u.answer (.catalog (r 1)) = (.ok reply, next)) :
    ∃ log, Logs others Fitful (persist r 0 (more + 1)).run s log (.ok ⟨1, reply⟩) next := by
  refine ⟨[⟨.catalog (r 0), s, .error (.alreadyExists what), s⟩, ⟨.catalog (r 1), u, .ok reply, next⟩], ?_⟩
  refine .call .refl hfails ?_
  cases more <;> exact .call hbetween (.works hanswer) (.done _ next)

/-- What is changed in a project in which nobody has changed anything. -/
def changeNothing : Catalog.CommitDraft := ⟨1, "bob", "theirs", [], .epoch⟩

theorem answer_restore_third (createdAt : DateTime) :
    let c := Catalog.empty.after [.createProject "team" "title" "ann" .epoch, .createCommit changeNothing]
    (c.answer (.restoreCommit 1 1 "ann" "Restore to commit #1" createdAt)).1 =
      .ok (⟨3, 1, 3, "ann", "Restore to commit #1", 0, createdAt⟩, []) := by
  intro c
  have hlatest : c.latestCommit? 1 = some ⟨2, 1, 2, "bob", "theirs", 0, .epoch⟩ := by
    rw [(Catalog.historySound_after _).latestCommit?_eq]
    decide +kernel
  have hplan : Catalog.planRestore (c.stateAt 1 2) (c.stateAt 1 1) = .ok [] := by
    have hempty (boundary : Int) : c.stateAt 1 boundary = [] := rfl
    have hpaths : sortedDistinct [] = [] := by simp [sortedDistinct]
    rw [hempty, hempty, Catalog.planRestore, List.append_nil, List.map_nil, hpaths]
    rfl
  have hfound : c.commit? 1 1 = some ⟨1, 1, 1, "ann", initialCommitMessage, 0, .epoch⟩ := by decide +kernel
  have hmade := Catalog.restoreCommit_eq "ann" "Restore to commit #1" createdAt (by decide +kernel) hfound hlatest hplan
  have hsequence : c.nextSequence 1 = 3 := by decide +kernel
  rw [Catalog.nextCommit, hsequence] at hmade
  exact congrArg (fun made => (c.commitOr made).1) hmade

/-- A commit and a restore that another commit overtakes. Each of them makes one commit, the third, which the restore
dates by its second attempt. -/
theorem one_commit_or_none_overtaken :
    let s : Stores :=
      ⟨Catalog.empty.after [.createProject "team" "title" "ann" .epoch], .files ⟨⟨[]⟩, [], ⟨[], ""⟩, [], 0⟩⟩
    let request : CommitRequest := ⟨1, "ann", "mine", []⟩
    let clock : Clock := fun i => { DateTime.epoch with time := .ofSeconds i 0 }
    (∃ log t, Logs Committing Fitful (commit request .epoch).run s log (.ok (.committed 3 3)) t ∧ made log = 1) ∧
      ∃ log t, Logs Committing Fitful (restore "ann" 1 1 clock).run s log
        (.ok ⟨3, 1, 3, "ann", "Restore to commit #1", 0, clock 1⟩) t ∧ made log = 1 := by
  intro s request clock
  let u : Stores := (s.answer (.catalog (.createCommit changeNothing))).2
  have howner : AccessLevel.owner ≤ s.catalog.projectAccess "ann" 1 := by decide +kernel
  have hpermitted (v : Stores) (hv : Relation.ReflTransGen Committing s v) :
      AccessLevel.owner ≤ v.catalog.projectAccess "ann" 1 := projectAccess_of_committing hv "ann" 1 ▸ howner
  have hother : Relation.ReflTransGen Committing s u := .single ⟨changeNothing, rfl⟩
  obtain ⟨hcommits, hrestores⟩ := one_commit_or_none Committing s
  refine ⟨?_, ?_⟩
  · have hwrite (v : Stores) (hv : Relation.ReflTransGen Committing s v) :
        AccessLevel.write ≤ v.catalog.projectAccess "ann" 1 :=
      Nat.le_trans (by decide : AccessLevel.write.code ≤ AccessLevel.owner.code) (hpermitted v hv)
    have hanswer : (u.answer (.catalog (.createCommit (draftOf request .epoch)))).1 =
        .ok (.committed ⟨3, 1, 3, "ann", "mine", 0, .epoch⟩) := by decide +kernel
    obtain ⟨tries, hpersist⟩ := logs_persist_overtaken (r := fun _ => .createCommit (draftOf request .epoch)) 1
      (.commitFails (.alreadyExists "commit #2")) hother (Prod.ext hanswer rfl)
    have hlogs : Logs Committing Fitful (commit request .epoch).run s _ (.ok (.committed 3 3)) _ :=
      (logs_requireAccess (hwrite s .refl)).op_bind (Logs.op_bind (.done _ s) (hpersist.op_bind (.done _ _)))
    obtain ⟨_, _, last, -, -, -, hends, -⟩ :=
      (hcommits request .epoch (by simp [request]) (by simp [request]) hwrite).2 _ _ _ hlogs
    exact ⟨_, _, hlogs, hends.eq_one⟩
  · have hmanage (v : Stores) (hv : Relation.ReflTransGen Committing s v) :
        AccessLevel.manage ≤ v.catalog.projectAccess "ann" 1 :=
      Nat.le_trans (by decide : AccessLevel.manage.code ≤ AccessLevel.owner.code) (hpermitted v hv)
    have hfound : s.catalog.commit? 1 1 = some ⟨1, 1, 1, "ann", initialCommitMessage, 0, .epoch⟩ := by decide +kernel
    have hanswer : (u.answer (.catalog (.restoreCommit 1 1 "ann" "Restore to commit #1" (clock 1)))).1 =
        .ok (⟨3, 1, 3, "ann", "Restore to commit #1", 0, clock 1⟩, []) := answer_restore_third (clock 1)
    obtain ⟨tries, hpersist⟩ := logs_persist_overtaken
      (r := fun i => .restoreCommit 1 1 "ann" "Restore to commit #1" (clock i)) 1
      (.restoreFails (.alreadyExists "commit #2")) hother (Prod.ext hanswer rfl)
    have hlogs : Logs Committing Fitful (restore "ann" 1 1 clock).run s _
        (.ok ⟨3, 1, 3, "ann", "Restore to commit #1", 0, clock 1⟩) _ :=
      (logs_requireAccess (hmanage s .refl)).op_bind
        ((logs_resolveCommit hfound).op_bind (hpersist.op_bind (.done _ _)))
    obtain ⟨_, _, _, -, -, -, hends⟩ := (hrestores "ann" 1 1 clock hmanage).2 _ _ _ hlogs
    split at hends
    · cases hends.2.1
    · obtain ⟨_, _, -, -, hends, -⟩ := hends
      exact ⟨_, _, hlogs, hends.eq_one⟩

end Depot.Service
