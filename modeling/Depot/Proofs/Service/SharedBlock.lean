import Depot.Proofs.Catalog.Quiet
import Depot.Proofs.Catalog.Registration
import Depot.Proofs.Service.UploadCrowd

/-!
# Uploads that share a block

An upload that finds no row of its block records one, and removes it again if its body is not what it declares.
Other uploads of the block may rely on the row meanwhile.

- `Honest`: a body is what the upload declares. Such an upload is not refused over its body (`Stage.Reads`).
- `Stage.Owns`: an upload has recorded the row and may remove it.
- `Ledger`: the row stays if it was there, with the right size. `Harmless`: an upload that keeps it so.
-/

namespace Depot.Service

open Content Time Objects

/-! ### Honest bodies -/

/-- The body of a delivery is all there, and is what the delivery declares. -/
def Honest (d : Delivery) : Prop :=
  ∃ pieces : List (List UInt8), d.body = pieces.map .data ∧ pieces.flatten.length = d.request.size ∧
    BlockHash.compute pieces.flatten = d.request.blockHash

theorem exists_pieces {request : UploadRequest} {before data : List UInt8} {body : List Frame}
    (hread : readBody request before body = .ok data) :
    ∃ pieces : List (List UInt8), body = pieces.map .data ∧ data = before ++ pieces.flatten := by
  induction body generalizing before with
  | nil =>
    rw [readBody] at hread
    cases hcheck : checkBody request before.length (.compute before) with
    | error e =>
      rw [hcheck] at hread
      cases hread
    | ok =>
      rw [hcheck] at hread
      cases hread
      exact ⟨[], rfl, (List.append_nil _).symm⟩
  | cons frame rest ih =>
    cases frame with
    | fault reason => cases hread
    | data bytes =>
      rw [readBody] at hread
      split at hread
      · cases hread
      · obtain ⟨pieces, rfl, rfl⟩ := ih hread
        exact ⟨bytes :: pieces, rfl, by rw [List.flatten_cons, List.append_assoc]⟩

theorem honest_iff (d : Delivery) : Honest d ↔ ∃ data, readBody d.request [] d.body = .ok data := by
  constructor
  · rintro ⟨pieces, hbody, hsize, hhash⟩
    have hread : readBody d.request [] (pieces.map .data) = .ok ([] ++ pieces.flatten) :=
      readBody_data pieces hsize hhash
    exact ⟨_, hbody ▸ hread⟩
  · rintro ⟨data, hread⟩
    obtain ⟨pieces, hbody, rfl⟩ := exists_pieces hread
    exact ⟨pieces, hbody, readBody_eq_ok hread⟩

variable {real : Path} {settings : Settings} {d : Delivery} {s t : Stores} {p : Phase} {c : Catalog} {b : BlockHash}
  {size : Int} {stage : Stage}

/-! ### Bodies that are read to their end -/

/-- What an upload has yet to read is what it should be. -/
def Stage.Reads (request : UploadRequest) : Stage → Prop
  | .waits (.writing _ _ before bytes rest) => ∃ data, readBody request (before ++ bytes) rest = .ok data
  | .waits (.dropping _ _ _) | .waits (.removing _) => False
  | _ => True

theorem reads_start (request : UploadRequest) (settings : Settings) : (Stage.start request settings).Reads request := by
  unfold Stage.start
  cases request.validate settings.maxBlockSize <;> trivial

theorem reads_copying {request : UploadRequest} {before : List UInt8} {frames : List Frame}
    (hread : ∃ data, readBody request before frames = .ok data) (recorded : InsertOutcome) (n : Nat) :
    (Stage.copying request recorded n before frames).Reads request := by
  obtain ⟨data, hread⟩ := hread
  have h := copies_copying request recorded n before frames
  generalize Stage.copying request recorded n before frames = stage at h ⊢
  cases h with
  | refused read => cases hread.symm.trans read
  | complete => trivial
  | more read => exact ⟨data, read.symm.trans hread⟩

theorem reads_leads (hbody : Honest d) (ho : s.objects.Orderly real) (hserves : s.objects.Serves)
    (hknows : Knows real d.request s.objects (.waits p)) (h : Stage.Reads d.request (.waits p)) :
    (d.leads s p).Reads d.request := by
  cases p with
  | rights =>
    cases hcan : s.catalog.canUpload d.request.uploaderId with
    | true =>
      rw [leads_rights hcan]
      trivial
    | false =>
      obtain ⟨e, hends⟩ := leads_rights_refused hcan
      rw [hends]
      trivial
  | recording =>
    cases hrow : s.catalog.block? d.request.blockHash.hex with
    | none =>
      rw [leads_recording_new hrow]
      trivial
    | some row =>
      rw [leads_recording_known (by rw [hrow]; rfl)]
      trivial
  | looking =>
    rw [leads_looking]
    split
    · split <;> trivial
    · trivial
  | probing =>
    rw [leads_probing ho hserves]
    split <;> trivial
  | opening recorded =>
    rw [leads_opening ho]
    exact reads_copying ((honest_iff d).mp hbody) _ _
  | writing recorded n before bytes rest =>
    rw [leads_writing ho hknows]
    exact reads_copying h _ _
  | finishing recorded n data =>
    rw [leads_finishing ho hserves hknows.1]
    trivial
  | dropping recorded n why => cases h
  | removing why => cases h
  | linking outcome =>
    unfold Delivery.leads
    generalize (s.answer _).1 = reply
    match reply with
    | .ok _ | .error _ => trivial

/-! ### Uploads that own the row of their block -/

/-- An upload has recorded its block, and removes the row if it fails. -/
def Stage.Owns : Stage → Prop
  | .waits (.opening recorded) | .waits (.writing recorded _ _ _ _) | .waits (.finishing recorded _ _)
  | .waits (.dropping recorded _ _) => recorded.isInserted
  | .waits (.removing _) => True
  | _ => False

theorem owns_start (request : UploadRequest) (settings : Settings) : ¬(Stage.start request settings).Owns := by
  unfold Stage.start
  cases request.validate settings.maxBlockSize <;> exact id

theorem owns_failed {recorded : InsertOutcome} (h : ¬recorded.isInserted) (why : ServiceError) :
    ¬(Stage.failed recorded why).Owns := by
  rw [Stage.failed, if_neg h]
  exact id

theorem owns_copying {recorded : InsertOutcome} (h : ¬recorded.isInserted) (request : UploadRequest) (n : Nat)
    (before : List UInt8) (frames : List Frame) : ¬(Stage.copying request recorded n before frames).Owns := by
  have hcopies := copies_copying request recorded n before frames
  generalize Stage.copying request recorded n before frames = stage at hcopies ⊢
  cases hcopies <;> exact h

theorem owns_next {request : UploadRequest} {body : List Frame} {now : DateTime}
    (reply : (p.call request now).Reply) (hother : p ≠ .recording) (h : ¬(Stage.waits p).Owns) :
    ¬(p.next request body now reply).Owns := by
  cases p with
  | rights =>
    match reply with
    | .ok true | .ok false | .error _ => exact id
  | recording => exact absurd rfl hother
  | looking =>
    match reply with
    | .ok (some row) =>
      change ¬(if row.size ≠ recordedSize request.size then _ else _ : Stage).Owns
      split <;> exact id
    | .ok none | .error _ => exact id
  | probing =>
    match reply with
    | .ok true | .error _ => exact id
    | .ok false => exact Bool.false_ne_true
  | opening recorded =>
    match reply with
    | .ok upload => exact owns_copying h _ _ _ _
    | .error e => exact owns_failed h _
  | writing recorded n before bytes rest =>
    match reply with
    | .ok _ => exact owns_copying h _ _ _ _
    | .error e => exact h
  | finishing recorded n data =>
    match reply with
    | .ok _ => exact id
    | .error e => exact owns_failed h _
  | dropping recorded n why => exact owns_failed h _
  | removing why => exact absurd trivial h
  | linking outcome =>
    match reply with
    | .ok _ | .error _ => exact id

theorem owns_leads (hknown : (s.catalog.block? d.request.blockHash.hex).isSome) (h : ¬(Stage.waits p).Owns) :
    ¬(d.leads s p).Owns := by
  by_cases hrecording : p = .recording
  · subst hrecording
    rw [leads_recording_known hknown]
    exact id
  · exact owns_next _ hrecording h

/-! ### The row of a block -/

/-- What stays of a catalog while uploads run: users' rights, and the row of a block if it was there, with its size. -/
structure Ledger (c : Catalog) (b : BlockHash) (size : Int) (next : Catalog) : Prop where
  known : (c.block? b.hex).isSome → (next.block? b.hex).isSome
  sized : ∀ row, next.block? b.hex = some row → row.size = size
  rights : ∀ user, next.canUpload user = c.canUpload user

/-- An upload that leaves the row of a block to others. -/
inductive Harmless (c : Catalog) (b : BlockHash) (size : Int) (d : Delivery) (stage : Stage) : Prop where
  /-- It is of another block. -/
  | other (block : d.request.blockHash ≠ b)
  /-- The row was there before it. -/
  | late (known : (c.block? b.hex).isSome) (owns : ¬stage.Owns)
  /-- It is right about the block. -/
  | right (body : Honest d) (same : recordedSize d.request.size = size) (reads : stage.Reads d.request)
  /-- It does not get as far as the row. -/
  | refused (waits : stage = .waits .rights) (forbidden : c.canUpload d.request.uploaderId = false)
  | finished (result : Except ServiceError UploadOutcome) (ended : stage = .ended result)

theorem Harmless.leads (h : Harmless c b size d (.waits p)) (hledger : Ledger c b size s.catalog)
    (ho : s.objects.Orderly real) (hserves : s.objects.Serves) (hknows : Knows real d.request s.objects (.waits p)) :
    Harmless c b size d (d.leads s p) := by
  by_cases hblock : d.request.blockHash = b
  · subst hblock
    cases h with
    | other block => exact .other block
    | late known owns => exact .late known (owns_leads (hledger.known known) owns)
    | right body same reads => exact .right body same (reads_leads body ho hserves hknows reads)
    | refused waits forbidden =>
      cases waits
      obtain ⟨e, hends⟩ := leads_rights_refused (d := d) ((hledger.rights _).trans forbidden)
      exact .finished _ hends
    | finished _ ended => cases ended
  · exact .other hblock

theorem canUpload_left (d : Delivery) (s : Stores) (p : Phase) (user : String) :
    (d.left s p).catalog.canUpload user = s.catalog.canUpload user := by
  cases p with
  | recording =>
    obtain ⟨_, h⟩ := Catalog.putBlock_eq s.catalog (rowOf d.request d.now)
    exact congrArg (fun c => c.canUpload user) h
  | removing why =>
    obtain ⟨_, h⟩ := Catalog.deleteBlock_eq s.catalog d.request.blockHash.hex
    exact congrArg (fun c => c.canUpload user) h
  | linking outcome => exact (Catalog.sameRights_registerChunk _ _ _ user).canUpload_eq
  | _ => rfl

theorem Harmless.block?_left (h : Harmless c b size d (.waits p)) (hknown : (c.block? b.hex).isSome →
      (s.catalog.block? b.hex).isSome) :
    (d.left s p).catalog.block? b.hex = s.catalog.block? b.hex ∨
      s.catalog.block? b.hex = none ∧ ∃ row, (d.left s p).catalog.block? b.hex = some row ∧ row.size = size := by
  cases p with
  | recording =>
    have hput : (d.left s .recording).catalog.block? b.hex = (s.catalog.block? b.hex).or
        (if d.request.blockHash.hex = b.hex then some (rowOf d.request d.now) else none) :=
      Catalog.block?_putBlock s.catalog (rowOf d.request d.now) b.hex
    rw [hput]
    cases hrow : s.catalog.block? b.hex with
    | some row => exact .inl rfl
    | none =>
      split
      · refine .inr ⟨rfl, _, rfl, ?_⟩
        have hblock := BlockHash.hex_injective ‹d.request.blockHash.hex = b.hex›
        cases h with
        | other block => exact absurd hblock block
        | late known _ =>
          rw [hrow] at hknown
          exact absurd (hknown known) Bool.false_ne_true
        | right _ same _ =>
          dsimp only
          exact same
        | refused waits _ => cases waits
        | finished _ ended => cases ended
      · exact .inl rfl
  | removing why =>
    refine .inl (Catalog.block?_deleteBlock_of_ne fun heq => ?_)
    cases h with
    | other block => exact block (BlockHash.hex_injective heq)
    | late _ owns => exact owns trivial
    | right _ _ reads => exact reads
    | refused waits _ => cases waits
    | finished _ ended => cases ended
  | linking outcome => exact .inl (Catalog.block?_registerChunk _ _ _ _)
  | _ => exact .inl rfl

theorem Harmless.isSome_left (h : Harmless c b size d (.waits p))
    (hknown : (c.block? b.hex).isSome → (s.catalog.block? b.hex).isSome) (hsome : (s.catalog.block? b.hex).isSome) :
    ((d.left s p).catalog.block? b.hex).isSome := by
  rcases h.block?_left hknown with hsame | ⟨_, row, hrow, _⟩
  · rwa [hsame]
  · rw [hrow]
    rfl

theorem Harmless.ledger (h : Harmless c b size d (.waits p)) (hledger : Ledger c b size s.catalog) :
    Ledger c b size (d.left s p).catalog where
  known hknown := h.isSome_left hledger.known (hledger.known hknown)
  sized row hrow := by
    rcases h.block?_left hledger.known with hsame | ⟨_, row', hrow', hsize⟩
    · exact hledger.sized row (hsame ▸ hrow)
    · cases hrow'.symm.trans hrow
      exact hsize
  rights user := (canUpload_left d s p user).trans (hledger.rights user)

end Depot.Service
