import Depot.Config.Server
import Depot.Proofs.Service.Failures
import Depot.Proofs.Service.Provenance

/-!
# A service that never fails by itself

- `Legible`: all that is recorded can be read back, and what it refers to is there. Operations keep it, since rows come
  from uploads and name files whose hashes they spell (`brings_namesFile`).
- Blocks that are recorded stay recorded (`recorded_act`).
- No operation on stores that began empty fails by a failure of the service itself (`never_internal`).
-/

namespace Depot.Service

open Content Time Objects

variable {s : Stores} {real : Path} {settings : Settings}

/-! ### What uploads leave in the catalog -/

theorem recorded_act (hs : Sound real s) (settings : Settings) (op : Operation) {blockHash : String}
    (h : (s.catalog.block? blockHash).isSome) :
    ((perform (op.act settings) s).2.catalog.block? blockHash).isSome := by
  rcases upload_or_quiet op with ⟨request, body, now, rfl⟩ | hquiet
  · rw [perform_upload]
    obtain hsame | ⟨d, hd, hcatalog⟩ := catalog_uploadChunk hs settings request body now
    · rwa [hsame]
    · rw [hcatalog, Catalog.block?_registerChunk]
      rcases hd with rfl | rfl
      · exact h
      · rw [Catalog.block?] at h
        rw [Catalog.block?, withBlock, List.find?_append, Option.isSome_or, h, Bool.true_or]
  · rwa [Catalog.block?, (untouched_act settings op hquiet s).content.blocks]

/-- A row is of a file whose hash it spells. -/
def NamesFile (k : Catalog.Chunk) : Prop := ∃ file : FileHash, k.fileHash = file.hex

theorem brings_namesFile (op : Operation) : op.Brings (fun _ => True) NamesFile :=
  fun request _ _ _ => ⟨fun _ _ => trivial, request.fileHash, rfl⟩

/-! ### Reading back -/

/-- All that is recorded can be read back, and what it refers to is there. -/
structure Legible (c : Catalog) : Prop where
  blocks : ∀ row ∈ c.blocks, ∃ h, BlockHash.parse row.blockHash = .ok h
  files : ∀ k, (k ∈ c.chunks ∨ ∃ u, ⟨u, k⟩ ∈ c.staged) → ∃ f, FileHash.parse k.fileHash = .ok f
  chunks : ∀ k, (k ∈ c.chunks ∨ ∃ u, ⟨u, k⟩ ∈ c.staged) →
    ∃ h, BlockHash.parse k.blockHash = .ok h ∧ (c.block? k.blockHash).isSome
  /-- The content hash and the kind of a revision are one. -/
  revisions : ∀ r ∈ c.revisions, ∃ file, r.fileState = .ok file
  /-- All chunks of a revision's file are there, in their order. -/
  whole : ∀ r ∈ c.revisions,
    ((c.listChunks r.contentHash).length : Int) = r.chunkCount ∧ isContiguous (c.listChunks r.contentHash)

theorem Sound.legible (hs : Sound real s) (hfrom : ComesFrom real (fun _ => True) NamesFile s) : Legible s.catalog where
  blocks row hrow := by
    obtain ⟨h, _, hhash, _⟩ := hs.blocks row hrow
    exact ⟨h, by rw [hhash, BlockHash.parse_hex]⟩
  files k hk := by
    rcases hk with hk | ⟨u, hk⟩
    · have hmem := Catalog.mem_listChunks.mpr ⟨hk, rfl⟩
      obtain ⟨n, hfile⟩ := hs.content.files k.fileHash (List.ne_nil_of_mem hmem)
      exact exists_parse_of_blocksCompose hfile.composes
    · obtain ⟨file, hfile⟩ := hfrom.staged _ hk
      exact ⟨file, by rw [hfile, FileHash.parse_hex]⟩
  chunks k hk := by
    have hheld : Held (s.object? real) k.blockHash k.blockSize := by
      rcases hk with hk | ⟨u, hk⟩
      · exact hs.chunks k hk
      · exact hs.staged _ hk
    obtain ⟨h, _, hhash, _⟩ := hheld
    exact ⟨h, by rw [hhash, BlockHash.parse_hex], hs.content.recorded hk⟩
  revisions r hr := hs.history.exists_fileState hs.content hr
  whole r hr := hs.inOrder.whole hr

theorem urlLifetime_le {config : Config.Server} (h : config.validate = .ok ()) :
    ((Settings.ofConfig config).urlLifetime : Int) ≤ Int64.maxValue.toInt := by
  have hmax : Int64.maxValue.toInt = 9223372036854775807 := by decide
  have hlifetime : config.downloadUrlTtl ≤ Config.Server.longestTtl := by
    unfold Config.Server.validate at h
    grind
  simp only [Config.Server.longestTtl] at hlifetime
  simp only [Settings.ofConfig]
  omega

/-- **On stores that began empty, under settings that the server accepts, no operation ever fails by a failure of the
service itself: all that is recorded can be read back, no recorded block is removed, and a file that is there is planned
with exactly the chunks that its revision counts. The one thing left is that the lifetime of a download URL may end on
no day of the calendar.** -/
theorem never_internal (config : Config.Server) (f : FileStore) (real : Path) (ops : List Operation)
    (hconfig : config.validate = .ok ()) (hfresh : Fresh f real) :
    let settings := Settings.ofConfig config
    let s := after settings ops ⟨.empty, .files f⟩
    Legible s.catalog ∧
      (∀ (op : Operation) (e : ServiceError), (perform (op.act settings) s).1 = .error e →
        (∀ why, e ≠ .internal why) ∧
          (e = .outOfCalendar → ∃ user projectId path boundary clock i,
            op = .resolveDownload user projectId path boundary clock ∧
              (clock i).add? settings.urlLifetime 0 = none)) ∧
      (∀ (op : Operation) (blockHash : String), (s.catalog.block? blockHash).isSome →
        ((perform (op.act settings) s).2.catalog.block? blockHash).isSome) ∧
      ∀ (user : String) (projectId : Int) (path : String) (boundary : CommitBoundary) (clock : Clock)
        (r : Catalog.Revision), Live s.catalog user projectId path boundary r →
        (∀ i : Nat, i < r.chunkCount → ((clock i).add? settings.urlLifetime 0).isSome) →
        ∃ plan, perform (resolveDownload settings user projectId path boundary clock) s = (.ok plan, s) ∧
          Plans r plan := by
  intro settings s
  have hs : Sound real s := sound_after settings ops (sound_fresh hfresh)
  have hlifetime : (settings.urlLifetime : Int) ≤ Int64.maxValue.toInt := urlLifetime_le hconfig
  have hfrom : ComesFrom real (fun _ => True) NamesFile s :=
    comesFrom_after (sound_fresh hfresh) settings (fun op _ => brings_namesFile op) (comesFrom_fresh hfresh)
  refine ⟨hs.legible hfrom, fun op e he => ?_, fun op blockHash => recorded_act hs settings op, ?_⟩
  · have hfail := (ends_act hs hlifetime op).error e _ (Prod.ext he rfl)
    exact ⟨hfail.ne_internal, hfail.outside⟩
  · intro user projectId path boundary clock r hlive hend
    have hends := ends_resolveDownload_live hs hlifetime hlive clock
    cases hperform : perform (resolveDownload settings user projectId path boundary clock) s with
    | mk result t =>
      cases result with
      | ok plan =>
        obtain ⟨rfl, hplan⟩ := hends.value plan t hperform
        exact ⟨plan, rfl, hplan⟩
      | error e =>
        obtain ⟨i, hi, _, hnone⟩ := hends.error e t hperform
        exact absurd (hend i hi) (by simp [hnone])

/-- A project of its own in an empty store, under the settings that the server has by default: a commit of content
that nobody has uploaded is answered, and not by a failure of the service. -/
theorem never_internal_first :
    let f : FileStore := ⟨⟨[]⟩, [], ⟨[], "http://localhost"⟩, [], 0⟩
    let settings := Settings.ofConfig .default
    let ops : List Operation := [.grantOnTeam "ann" "team" .write .epoch, .createProject "ann" "team" "title" .epoch]
    let s := after settings ops ⟨.empty, .files f⟩
    let next : Operation := .commit ⟨1, "ann", "first", [⟨"a", default, .add⟩]⟩ .epoch
    (Config.Server.default.validate = .ok () ∧ Fresh f []) ∧ s.catalog.revisions = [] ∧ Legible s.catalog ∧
      ∀ why, (perform (next.act settings) s).1 ≠ .error (.internal why) := by
  intro f settings ops s next
  have hconfig : Config.Server.default.validate = .ok () := by decide
  have hfresh : Fresh f [] := fresh_root _
  have hnone : s.catalog.revisions = [] := by decide +kernel
  have h := never_internal .default f [] ops hconfig hfresh
  exact ⟨⟨hconfig, hfresh⟩, hnone, h.1, fun why he => (h.2.1 next _ he).1 why rfl⟩

end Depot.Service
