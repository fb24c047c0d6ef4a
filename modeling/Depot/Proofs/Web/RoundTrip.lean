import Depot.Proofs.Service.Download
import Depot.Proofs.Service.Provenance
import Depot.Proofs.Time.Calendar
import Depot.Proofs.Web.SignedBlob

/-!
# A file comes back as it was uploaded

A user cuts a file into blocks, uploads them among what others do, and commits the file's hash under a path. The
download of that path then leads to the same bytes.

The uploads succeed and leave the file in the stores (`holds_after`). The commit adds one revision of it, which no
later operation changes (`Holds.commit`, `committedAs_step`). Its plan lists the blocks in their order
(`perform_resolveDownload`), and each URL of the plan answers its block until it expires (`serves_piece`).
-/

namespace Depot.Web

open Content Objects Service Time

variable {settings : Settings} {real : Path} {s t : Stores} {f : FileStore} {user path message : String}
  {projectId : Int} {kind : ChangeKind} {pieces : List (List UInt8)} {now expiresAt made : DateTime}

/-- The request that commits a file under a path. -/
def commitRequest (user : String) (projectId : Int) (message path : String) (content : FileHash) (kind : ChangeKind) :
    CommitRequest := ⟨projectId, user, message, [⟨path, content, kind⟩]⟩

/-! ### The URLs -/

/-- Whatever is done from now on, who asks for a target of the server is answered these bytes until a moment, by the
reading of the clock at which the request is looked at. -/
def Serves (settings : Settings) (s : Stores) (ends : DateTime) (target : String) (bytes : List UInt8) : Prop :=
  ∀ (since : List Operation) (server : Server) (tally : Tally) (clock : Clock) (fresh : Fresh)
    (headers : List (String × List UInt8)) (body : List Frame),
    (clock 1).instant ≤ ends.instant → headers.lookup "authorization" = none →
    ∃ counts, Task.run Stores.answer (server.respond tally clock fresh (.ofTarget .get target headers body))
        (after settings since s) =
      ((.answered ⟨200, some "application/octet-stream", some bytes.length, [], .stream ⟨bytes, none⟩⟩, counts),
        after settings since s)

theorem serves_piece (hs : Sound real s) (hfiles : s.objects = .files f) {piece : List UInt8}
    (hobject : s.object? real (.compute piece) = some piece) {ends : DateTime} (hutc : ends.offset = 0) :
    Serves settings s ends (blobTarget f.signer (BlockHash.compute piece).objectKey ends.unixSeconds) piece := by
  intro since server tally clock fresh headers body hclock hanonymous
  have hsound := sound_after settings since hs
  have hextends := extends_after settings since hs
  obtain ⟨g, hg, hsigner⟩ := hextends.signer f hfiles
  have hstill := hextends.objects _ _ hobject
  generalize after settings since s = later at hsound hg hstill
  obtain ⟨c, objects⟩ := later
  obtain rfl : objects = .files g := hg
  rw [← hsigner]
  exact respond_blob hsound.blockFiles.1 hstill (DateTime.unixSeconds_range hutc)
    (DateTime.unixSeconds_le_of_instant_le hclock) hanonymous body server tally fresh

theorem offset_of_expiry {ttl : Lifetime} (h : UrlSigner.expiry ttl now = .ok expiresAt) :
    expiresAt.offset = now.offset := by
  rw [UrlSigner.expiry] at h
  split at h
  · cases h
  · split at h
    · rename_i later hadd
      cases h
      exact DateTime.offset_of_add? hadd
    · cases h

/-! ### From the upload to the download -/

/-- A plan leads to bytes: it expires when the first of its URLs ends, and until its own end each URL answers its part
of the bytes. -/
structure LeadsTo (settings : Settings) (signer : UrlSigner) (ends : Clock) (s : Stores) (plan : DownloadPlan)
    (data : List UInt8) : Prop where
  total : plan.totalSize = data.length
  expires : IsFirstEnd ends plan.chunks.length plan.expiresAt
  served : ∃ bodies : List (List UInt8), bodies.flatten = data ∧ bodies.length = plan.chunks.length ∧
    ∀ i chunk body, plan.chunks[i]? = some chunk → bodies[i]? = some body →
      chunk.url = signer.baseUrl ++ blobTarget signer chunk.blockHash.objectKey (ends i).unixSeconds ∧
        plan.expiresAt.instant ≤ (ends i).instant ∧
        Serves settings s (ends i) (blobTarget signer chunk.blockHash.objectKey (ends i).unixSeconds) body

/-- Content of so many blocks is committed under a path, and unless that deletes the path, a download of the path at
that commit leads to these bytes, also after others did what they like. The clock is one at UTC, and the calendar
reaches the end of each URL's lifetime. -/
def ComesBack (settings : Settings) (signer : UrlSigner) (s : Stores) (request : CommitRequest) (path : String)
    (kind : ChangeKind) (blocks : Nat) (data : List UInt8) : Prop :=
  ∀ made, ∃ commitId number t, perform (commit request made) s = (.ok (.committed commitId number), t) ∧
    (kind ≠ .delete → ∀ (later : List Operation) (clock ends : Clock), (∀ op ∈ later, request.authorId ≠ op.user) →
      (∀ i < blocks, (clock i).offset = 0) →
      (∀ i < blocks, UrlSigner.expiry (.ofSeconds settings.urlLifetime) (clock i) = .ok (ends i)) →
      ∃ plan, perform (resolveDownload settings request.authorId request.projectId path (.id commitId) clock)
          (after settings later t) = (.ok plan, after settings later t) ∧
        plan.chunks.length = blocks ∧ LeadsTo settings signer ends (after settings later t) plan data)

theorem leadsTo_planOf {clock ends : Clock} {commitId : Int} (hs : Sound real s) (hfiles : s.objects = .files f)
    (h : Holds real pieces s) (hutc : ∀ i < pieces.length, (clock i).offset = 0)
    (hexpiry : ∀ i < pieces.length, UrlSigner.expiry (.ofSeconds settings.urlLifetime) (clock i) = .ok (ends i))
    (hfirst : IsFirstEnd ends pieces.length expiresAt) :
    LeadsTo settings f.signer ends s (planOf f.signer pieces commitId path ends expiresAt) pieces.flatten := by
  have hlength : (planOf f.signer pieces commitId path ends expiresAt).chunks.length = pieces.length :=
    List.length_mapIdx
  refine ⟨totalSize_planOf _ _ _ _ _ _, hlength ▸ hfirst, pieces, rfl, hlength.symm, ?_⟩
  intro i chunk piece hchunk hpiece
  obtain ⟨hi, hat⟩ := List.getElem?_eq_some_iff.mp hpiece
  obtain rfl : chunkFor f.signer (ends i) i piece = chunk := by
    rw [planOf, List.getElem?_mapIdx, hpiece] at hchunk
    exact Option.some.inj hchunk
  have hend : (ends i).offset = 0 := (offset_of_expiry (hexpiry i hi)).trans (hutc i hi)
  exact ⟨url_eq _ _ _, hfirst.first i hi, serves_piece hs hfiles (h.objects piece (hat ▸ List.getElem_mem hi)) hend⟩

theorem comesBack_of_holds (hs : Sound real s) (hfiles : s.objects = .files f) (h : Holds real pieces s)
    (hne : pieces ≠ []) (hsizes : ∀ piece ∈ pieces, piece.length ≤ Int64.maxValue.toInt)
    (hwrite : AccessLevel.write ≤ s.catalog.projectAccess user projectId) (hpath : validatePath path = .ok ())
    (message : String) (kind : ChangeKind) :
    ComesBack settings f.signer s (commitRequest user projectId message path (fileOf pieces) kind) path kind
      pieces.length pieces.flatten := by
  intro made
  obtain ⟨t, _, row, hmade⟩ := h.commit hs hne (commitRequest user projectId message path (fileOf pieces) kind)
    hwrite (by simpa [commitRequest] using hpath) (by simp [commitRequest]) (by simp [commitRequest]) made
  refine ⟨row.commitId, row.sequenceNumber, t, hmade.answer, fun hkind later clock ends hothers hutc hexpiry => ?_⟩
  obtain ⟨r, hcommitted⟩ := hmade.written _ (List.mem_singleton_self _) hkind
  have hrights := (hmade.rights user).trans (sameRights_after settings hothers hmade.sound)
  have hstill := after_induction (fun _ _ => committedAs_step) settings later (s := t) ⟨hmade.sound.history, hcommitted⟩
  have hlast := sound_after settings later hmade.sound
  have hlater := extends_after settings later hmade.sound
  have hreaches := hmade.reaches.trans hlater
  have hholds := hmade.holds.extends hne hlater
  have hread : AccessLevel.read ≤ (after settings later t).catalog.projectAccess user projectId := by
    rw [hrights.projectAccess_eq (hs.history.project_of_access (Nat.le_trans (by decide) hwrite))]
    exact Nat.le_trans (by decide) hwrite
  obtain ⟨g, hg, hsigner⟩ := hreaches.signer f hfiles
  generalize after settings later t = u at hstill hlast hholds hread hg
  obtain ⟨c, objects⟩ := u
  obtain rfl : objects = .files g := hg
  obtain ⟨expiresAt, hfirst, hdownload⟩ := perform_resolveDownload hlast hholds hne hsizes hread hpath hstill.2.commit
    hstill.2.file hstill.2.content hexpiry
  exact ⟨_, hdownload, List.length_mapIdx, hsigner ▸ leadsTo_planOf hlast rfl hholds hutc hexpiry hfirst⟩

/-- **A file that a user uploads block by block, in any order and among whatever others do, is accepted, can be
committed, and is downloaded as it was.** The file is as long as a buffer can be, and nothing that is stored at the
end collides with it. -/
theorem file_comes_back (hfresh : Objects.Fresh f real) (settings : Settings) (history : List Operation)
    (user : String) (projectId : Int) (data : List UInt8) (blockSize : Nat)
    (hblock : 1 ≤ blockSize ∧ blockSize ≤ settings.maxBlockSize) (hdata : data.length ≤ Int64.maxValue.toInt)
    (hupload : (after settings history ⟨.empty, .files f⟩).catalog.canUpload user)
    (hwrite : AccessLevel.write ≤ (after settings history ⟨.empty, .files f⟩).catalog.projectAccess user projectId)
    (hnone : (after settings history ⟨.empty, .files f⟩).catalog.stagedFor user
      (fileOf (splitBlocks data blockSize)).hex = [])
    (turns : List (Turn user (splitBlocks data blockSize))) (hall : ∀ i, Turn.Uploads turns i)
    (hfree : Collisionless real (splitBlocks data blockSize)
      (afterTurns settings turns (after settings history ⟨.empty, .files f⟩)))
    (hpath : validatePath path = .ok ()) (message : String) (kind : ChangeKind) :
    AllAccepted settings turns (after settings history ⟨.empty, .files f⟩) ∧
      ComesBack settings f.signer (afterTurns settings turns (after settings history ⟨.empty, .files f⟩))
        (commitRequest user projectId message path (fileOf (splitBlocks data blockSize)) kind) path kind
        (splitBlocks data blockSize).length data := by
  have hs := sound_after settings history (sound_fresh hfresh)
  have hbegun := extends_after settings history (sound_fresh hfresh)
  have hne := splitBlocks_ne_nil data blockSize
  have hsizes : ∀ piece ∈ splitBlocks data blockSize, piece.length ≤ settings.maxBlockSize := fun piece hpiece =>
    Nat.le_trans (length_le_of_mem_splitBlocks hblock.1 hpiece) hblock.2
  have hshort : ∀ piece ∈ splitBlocks data blockSize, piece.length ≤ Int64.maxValue.toInt := by
    intro piece hpiece
    have hle := (List.sublist_flatten_of_mem hpiece).length_le
    rw [flatten_splitBlocks] at hle
    omega
  obtain ⟨haccepted, hholds⟩ := holds_after hs hsizes hupload hnone turns hfree hne hall
  refine ⟨haccepted, ?_⟩
  have hlast := sound_afterTurns settings turns hs
  have hread := (sameRights_afterTurns settings turns hs).projectAccess_eq
    (hs.history.project_of_access (Nat.le_trans (by decide) hwrite))
  obtain ⟨g, hg, hsigner⟩ := (hbegun.trans (extends_afterTurns settings turns hs)).signer f rfl
  have hback := @comesBack_of_holds settings real _ g user path projectId _ hlast hg hholds hne hshort
    (hread ▸ hwrite) hpath message kind
  rwa [flatten_splitBlocks, hsigner] at hback

/-- Three bytes in blocks of two, the second block first and once more behind another user's upload of the first one.
The clock is set back between the two URLs of the plan, which expires with the second. -/
theorem file_comes_back_first :
    let f : FileStore := ⟨⟨[]⟩, [], ⟨[], "http://localhost"⟩, [], 0⟩
    let settings : Settings := ⟨2, 60, 1⟩
    let data : List UInt8 := [104, 105, 106]
    let pieces : List (List UInt8) := [[104, 105], [106]]
    let history : List Operation := [.grantOnTeam "ann" "team" .write .epoch, .grantOnTeam "bob" "team" .write .epoch,
      .createProject "ann" "team" "title" .epoch]
    let uploads : List Operation := [.upload (pieceRequest "ann" pieces 1) [.data [106]] .epoch,
      .upload (pieceRequest "bob" pieces 0) [.data [104, 105]] .epoch,
      .upload (pieceRequest "ann" pieces 1) [.data [106]] .epoch,
      .upload (pieceRequest "ann" pieces 0) [.data [104], .data [105]] .epoch]
    let s := after settings history ⟨.empty, .files f⟩
    let clock : Clock := fun i => { DateTime.epoch with time := .ofSeconds (1 - i) 0 }
    let ends : Clock := fun i => { DateTime.epoch with time := .ofSeconds (61 - i) 0 }
    (Objects.Fresh f [] ∧ s.catalog.canUpload "ann" ∧ AccessLevel.write ≤ s.catalog.projectAccess "ann" 1 ∧
        s.catalog.stagedFor "ann" (fileOf (splitBlocks data 2)).hex = [] ∧ validatePath "a" = .ok ()) ∧
      ∃ turns : List (Turn "ann" (splitBlocks data 2)), turns.map Turn.operation = uploads ∧
        (∀ i, Turn.Uploads turns i) ∧ Collisionless [] (splitBlocks data 2) (afterTurns settings turns s) ∧
        AllAccepted settings turns s ∧
        ComesBack settings f.signer (afterTurns settings turns s)
          (commitRequest "ann" 1 "first" "a" (fileOf (splitBlocks data 2)) .add) "a" .add (splitBlocks data 2).length
          data ∧
        ∃ commitId t plan, perform (resolveDownload settings "ann" 1 "a" (.id commitId) clock) t = (.ok plan, t) ∧
          LeadsTo settings f.signer ends t plan data ∧ plan.chunks.length = 2 ∧
          (ends 1).instant < (ends 0).instant ∧ plan.expiresAt = ends 1 := by
  intro f settings data pieces history uploads s clock ends
  have hfresh : Objects.Fresh f [] := fresh_root _
  have hs : Sound [] s := sound_after settings history (sound_fresh hfresh)
  have hupload : s.catalog.canUpload "ann" := by decide +kernel
  have hwrite : AccessLevel.write ≤ s.catalog.projectAccess "ann" 1 := by decide +kernel
  have hstaged : s.catalog.staged = [] := by decide +kernel
  have hpath : validatePath "a" = .ok () := by decide +kernel
  have hnone : s.catalog.stagedFor "ann" (fileOf (splitBlocks data 2)).hex = [] := by
    simp [Catalog.stagedFor, hstaged]
  have hnothing : ComesFrom [] (fun _ => False) (fun _ => False) s :=
    comesFrom_nothing hfresh settings (by simp [history])
  have hsplit : splitBlocks data 2 = pieces := by
    rw [splitBlocks, Content.pieces, if_neg (by decide), Content.pieces]
    rfl
  have hapart : HashedApart pieces := by decide +kernel
  obtain ⟨turns, hturns, hall, hfree⟩ : ∃ turns : List (Turn "ann" (splitBlocks data 2)),
      turns.map Turn.operation = uploads ∧ (∀ i, Turn.Uploads turns i) ∧
        Collisionless [] (splitBlocks data 2) (afterTurns settings turns s) := by
    rw [hsplit]
    let bob : Operation := .upload (pieceRequest "bob" pieces 0) [.data [104, 105]] .epoch
    let turns : List (Turn "ann" pieces) := [.piece 1 [[106]] rfl .epoch, .other bob (by decide),
      .piece 1 [[106]] rfl .epoch, .piece 0 [[104], [105]] rfl .epoch]
    refine ⟨turns, rfl, Fin.forall_fin_two.mpr ⟨?_, ?_⟩,
      collisionless_afterTurns hs ?_ settings (fun op someone hop => ?_) hapart⟩
    · exact ⟨[[104], [105]], rfl, .epoch, by simp [turns]⟩
    · exact ⟨[[106]], rfl, .epoch, by simp [turns]⟩
    · exact hnothing.mono (fun _ => False.elim) fun _ => False.elim
    · obtain rfl : op = bob := by simpa [turns] using hop
      exact @brings_piece pieces "bob" 0 [[104, 105]] rfl .epoch
  obtain ⟨haccepted, hback⟩ := file_comes_back hfresh settings history "ann" 1 data 2 ⟨by decide, by decide⟩ (by decide)
    hupload hwrite hnone turns hall hfree hpath "first" .add
  refine ⟨⟨hfresh, hupload, hwrite, hnone, hpath⟩, turns, hturns, hall, hfree, haccepted, hback, ?_⟩
  obtain ⟨commitId, number, t, -, hdownload⟩ := hback .epoch
  have hexpiry : ∀ i < (splitBlocks data 2).length, UrlSigner.expiry (.ofSeconds 60) (clock i) = .ok (ends i) := by
    rw [hsplit]
    decide +kernel
  have hothers : ∀ op ∈ [Operation.listProjects "bob"], "ann" ≠ op.user := List.forall_mem_singleton.mpr (by decide)
  obtain ⟨plan, hplan, hlength, hleads⟩ := hdownload (by decide) _ clock ends hothers (fun _ _ => rfl) hexpiry
  have hlater : (ends 1).instant < (ends 0).instant := by decide +kernel
  have hexpires : plan.expiresAt = ends 1 := by
    obtain ⟨i, hi, hattained⟩ := hleads.expires.attained
    have hfirst := hleads.expires.first 1 (by rw [hlength, hsplit]; decide)
    rw [hlength, hsplit] at hi
    obtain rfl | rfl : i = 0 ∨ i = 1 := by
      have htwo : pieces.length = 2 := rfl
      omega
    · exact absurd (hattained ▸ hfirst) (Int.not_le.mpr hlater)
    · exact hattained.symm
  exact ⟨commitId, t, plan, hplan, hleads, hlength.trans (congrArg List.length hsplit), hlater, hexpires⟩

end Depot.Web
