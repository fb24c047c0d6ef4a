import Depot.Proofs.Content.Spelling
import Depot.Proofs.Json.Text
import Depot.Proofs.Time.Rfc3339
import Depot.WireTypes

/-!
# What goes over the wire reads back

A value may be given in more than one form: with digits of a hash in upper case, with fields that are missing, as an
array, with a time on any clock. What is read of it is written in one form, which reads back as the same value.

- Each type that is sent, and each that is part of one, is `Json.Stable`.
- **`wire_stable`**: so are all types that are sent, and the texts of what is written read back.
-/

namespace Depot

open Content Json Time

/-! ### Hashes, names and times -/

theorem Content.Hash.stable : Stable Hash.toJson Hash.ofJson? := by
  intro json hash _
  refine ⟨.str _, ?_⟩
  change (Hash.parse hash.hex).toOption = some hash
  rw [Hash.parse_hex]
  rfl

theorem Content.BlockHash.stable : Stable BlockHash.toJson BlockHash.ofJson? :=
  Stable.map Hash.stable fun _ => rfl

theorem Content.FileHash.stable : Stable FileHash.toJson FileHash.ofJson? :=
  Stable.map Hash.stable fun _ => rfl

theorem AccessLevel.stable : Stable AccessLevel.toJson AccessLevel.ofJson? :=
  stable_unitVariant fun level => by cases level <;> rfl

theorem ChangeKind.stable : Stable ChangeKind.toJson ChangeKind.ofJson? :=
  stable_unitVariant fun kind => by cases kind <;> rfl

theorem UploadOutcome.stable : Stable UploadOutcome.toJson UploadOutcome.ofJson? :=
  stable_unitVariant fun outcome => by cases outcome <;> rfl

theorem Time.DateTime.stable : Stable DateTime.toJson DateTime.ofJson? := by
  intro json t h
  obtain ⟨text, _, hparse⟩ := Option.bind_eq_some_iff.mp h
  obtain ⟨again, hrender, hback⟩ := Rfc3339.parse?_again hparse
  have hwritten : t.toJson = .str again := by rw [DateTime.toJson, hrender]
  exact ⟨hwritten ▸ .str again, hwritten ▸ hback⟩

/-! ### Projects and their history -/

theorem Project.stable : Stable Project.toJson Project.ofJson? := by
  intro json p h
  simp only [Project.ofJson?, Option.bind_eq_bind, Option.bind_eq_some_iff, Option.some.injEq] at h
  obtain ⟨m, -, _, hid, _, hteam, _, htitle, _, hcreator, _, htime, rfl⟩ := h
  have hid := stable_int64.required hid
  have hteam := stable_str.required hteam
  have htitle := stable_str.required htitle
  have hcreator := stable_str.required hcreator
  have htime := Stable.required DateTime.stable htime
  constructor
  · simp [Project.toJson, plain_obj, hid.plain, hteam.plain, htitle.plain, hcreator.plain, htime.plain]
  · rw [Project.ofJson?, Project.toJson, of?_obj (by simp), hid.required, hteam.required, htitle.required,
      hcreator.required, htime.required] <;> rfl

theorem ProposedChange.stable : Stable ProposedChange.toJson ProposedChange.ofJson? := by
  intro json c h
  simp only [ProposedChange.ofJson?, Option.bind_eq_bind, Option.bind_eq_some_iff, Option.some.injEq] at h
  obtain ⟨m, -, _, hpath, _, hcontent, _, hkind, rfl⟩ := h
  have hpath := stable_str.required hpath
  have hcontent := Stable.required FileHash.stable hcontent
  have hkind := Stable.required ChangeKind.stable hkind
  constructor
  · simp [ProposedChange.toJson, plain_obj, hpath.plain, hcontent.plain, hkind.plain]
  · rw [ProposedChange.ofJson?, ProposedChange.toJson, of?_obj (by simp), hpath.required, hcontent.required,
      hkind.required] <;> rfl

theorem CommitRequest.stable : Stable CommitRequest.toJson CommitRequest.ofJson? := by
  intro json r h
  simp only [CommitRequest.ofJson?, Option.bind_eq_bind, Option.bind_eq_some_iff, Option.some.injEq] at h
  obtain ⟨m, -, _, hproject, _, hauthor, _, hmessage, _, hchanges, rfl⟩ := h
  have hproject := stable_int64.required hproject
  have hauthor := stable_str.required hauthor
  have hmessage := stable_str.required hmessage
  have hchanges := Stable.required (Stable.list ProposedChange.stable) hchanges
  constructor
  · simp [CommitRequest.toJson, plain_obj, hproject.plain, hauthor.plain, hmessage.plain, hchanges.plain]
  · rw [CommitRequest.ofJson?, CommitRequest.toJson, of?_obj (by simp), hproject.required, hauthor.required,
      hmessage.required, hchanges.required] <;> rfl

theorem CommitOutcome.stable : Stable CommitOutcome.toJson CommitOutcome.ofJson? := by
  intro json o h
  simp only [CommitOutcome.ofJson?, Option.bind_eq_bind, Option.bind_eq_some_iff] at h
  obtain ⟨⟨form, fields⟩, -, h⟩ := h
  dsimp only at h
  split at h
  · simp only [Option.bind_eq_some_iff, Option.some.injEq] at h
    obtain ⟨m, -, _, hid, _, hsequence, rfl⟩ := h
    have hid := stable_int64.required hid
    have hsequence := stable_int64.required hsequence
    constructor
    · simp [CommitOutcome.toJson, plain_obj, Plain.str, hid.plain, hsequence.plain]
    · rw [CommitOutcome.ofJson?, CommitOutcome.toJson, tagged?_obj (by simp)]
      dsimp only
      rw [if_pos rfl, of?_obj (by simp), hid.required, hsequence.required] <;> rfl
  · split at h
    · simp only [Option.bind_eq_some_iff, Option.some.injEq] at h
      obtain ⟨m, -, _, hmissing, rfl⟩ := h
      have hmissing := Stable.required (Stable.list FileHash.stable) hmissing
      constructor
      · simp [CommitOutcome.toJson, plain_obj, Plain.str, hmissing.plain]
      · rw [CommitOutcome.ofJson?, CommitOutcome.toJson, tagged?_obj (by simp)]
        dsimp only
        rw [if_neg (by decide), if_pos rfl, of?_obj (by simp), hmissing.required]
        rfl
    · cases h

theorem CommitSummary.stable : Stable CommitSummary.toJson CommitSummary.ofJson? := by
  intro json c h
  simp only [CommitSummary.ofJson?, Option.bind_eq_bind, Option.bind_eq_some_iff, Option.some.injEq] at h
  obtain ⟨m, -, _, hid, _, hproject, _, hsequence, _, hauthor, _, hcomment, _, hcount, _, htime, rfl⟩ := h
  have hid := stable_int64.required hid
  have hproject := stable_int64.required hproject
  have hsequence := stable_int64.required hsequence
  have hauthor := stable_str.required hauthor
  have hcomment := stable_str.required hcomment
  have hcount := stable_int64.required hcount
  have htime := Stable.required DateTime.stable htime
  constructor
  · simp [CommitSummary.toJson, plain_obj, hid.plain, hproject.plain, hsequence.plain, hauthor.plain,
      hcomment.plain, hcount.plain, htime.plain]
  · rw [CommitSummary.ofJson?, CommitSummary.toJson, of?_obj (by simp), hid.required, hproject.required,
      hsequence.required, hauthor.required, hcomment.required, hcount.required, htime.required] <;> rfl

theorem HistoryPage.stable : Stable HistoryPage.toJson HistoryPage.ofJson? := by
  intro json p h
  simp only [HistoryPage.ofJson?, Option.bind_eq_bind, Option.bind_eq_some_iff, Option.some.injEq] at h
  obtain ⟨m, -, _, htotal, _, hoffset, _, hcommits, rfl⟩ := h
  have htotal := stable_int64.required htotal
  have hoffset := stable_int64.required hoffset
  have hcommits := Stable.required (Stable.list CommitSummary.stable) hcommits
  constructor
  · simp [HistoryPage.toJson, plain_obj, htotal.plain, hoffset.plain, hcommits.plain]
  · rw [HistoryPage.ofJson?, HistoryPage.toJson, of?_obj (by simp), htotal.required, hoffset.required,
      hcommits.required] <;> rfl

/-! ### States -/

theorem FileState.stable : Stable FileState.toJson FileState.ofJson? := by
  intro json f h
  simp only [FileState.ofJson?, Option.bind_eq_bind, Option.bind_eq_some_iff, Option.some.injEq] at h
  obtain ⟨m, -, _, hpath, _, hcontent, _, hkind, _, hcommit, _, hrevision, _, hchunks, rfl⟩ := h
  have hpath := stable_str.required hpath
  have hcontent := Stable.required FileHash.stable hcontent
  have hkind := Stable.required ChangeKind.stable hkind
  have hcommit := stable_int64.required hcommit
  have hrevision := stable_int64.required hrevision
  have hchunks := stable_int64.required hchunks
  constructor
  · simp [FileState.toJson, plain_obj, hpath.plain, hcontent.plain, hkind.plain, hcommit.plain, hrevision.plain,
      hchunks.plain]
  · rw [FileState.ofJson?, FileState.toJson, of?_obj (by simp), hpath.required, hcontent.required, hkind.required,
      hcommit.required, hrevision.required, hchunks.required] <;> rfl

theorem ProjectState.stable : Stable ProjectState.toJson ProjectState.ofJson? := by
  intro json s h
  simp only [ProjectState.ofJson?, Option.bind_eq_bind, Option.bind_eq_some_iff, Option.some.injEq] at h
  obtain ⟨m, -, _, hproject, _, hcommit, _, hsequence, _, hfiles, rfl⟩ := h
  have hproject := stable_int64.required hproject
  have hcommit := stable_int64.required hcommit
  have hsequence := stable_int64.required hsequence
  have hfiles := Stable.required (Stable.list FileState.stable) hfiles
  constructor
  · simp [ProjectState.toJson, plain_obj, hproject.plain, hcommit.plain, hsequence.plain, hfiles.plain]
  · rw [ProjectState.ofJson?, ProjectState.toJson, of?_obj (by simp), hproject.required, hcommit.required,
      hsequence.required, hfiles.required] <;> rfl

theorem ChangedPath.stable : Stable ChangedPath.toJson ChangedPath.ofJson? := by
  intro json c h
  simp only [ChangedPath.ofJson?, Option.bind_eq_bind, Option.bind_eq_some_iff, Option.some.injEq] at h
  obtain ⟨m, -, _, hpath, _, hbefore, _, hafter, rfl⟩ := h
  have hpath := stable_str.required hpath
  have hbefore := Stable.optional FileState.stable rfl hbefore
  have hafter := Stable.optional FileState.stable rfl hafter
  constructor
  · simp [ChangedPath.toJson, plain_obj, hpath.plain, hbefore.plain, hafter.plain]
  · rw [ChangedPath.ofJson?, ChangedPath.toJson, of?_obj (by simp), hpath.required, hbefore.optional,
      hafter.optional] <;> rfl

theorem StateDiff.stable : Stable StateDiff.toJson StateDiff.ofJson? := by
  intro json d h
  simp only [StateDiff.ofJson?, Option.bind_eq_bind, Option.bind_eq_some_iff, Option.some.injEq] at h
  obtain ⟨m, -, _, hfrom, _, hto, _, hunchanged, _, hchanged, rfl⟩ := h
  have hfrom := stable_int64.required hfrom
  have hto := stable_int64.required hto
  have hunchanged := Stable.required (Stable.list FileState.stable) hunchanged
  have hchanged := Stable.required (Stable.list ChangedPath.stable) hchanged
  constructor
  · simp [StateDiff.toJson, plain_obj, hfrom.plain, hto.plain, hunchanged.plain, hchanged.plain]
  · rw [StateDiff.ofJson?, StateDiff.toJson, of?_obj (by simp), hfrom.required, hto.required, hunchanged.required,
      hchanged.required] <;> rfl

theorem CommitDetail.stable : Stable CommitDetail.toJson CommitDetail.ofJson? := by
  intro json d h
  simp only [CommitDetail.ofJson?, Option.bind_eq_bind, Option.bind_eq_some_iff, Option.some.injEq] at h
  obtain ⟨m, -, _, hcommit, _, hrevisions, rfl⟩ := h
  have hcommit := Stable.required CommitSummary.stable hcommit
  have hrevisions := Stable.required (Stable.list FileState.stable) hrevisions
  constructor
  · simp [CommitDetail.toJson, plain_obj, hcommit.plain, hrevisions.plain]
  · rw [CommitDetail.ofJson?, CommitDetail.toJson, of?_obj (by simp), hcommit.required, hrevisions.required] <;> rfl

/-! ### Uploads and downloads -/

theorem UploadRequest.stable : Stable UploadRequest.toJson UploadRequest.ofJson? := by
  intro json r h
  simp only [UploadRequest.ofJson?, Option.bind_eq_bind, Option.bind_eq_some_iff, Option.some.injEq] at h
  obtain ⟨m, -, _, huploader, _, hfile, _, hindex, _, htotal, _, hblock, _, hsize, rfl⟩ := h
  have huploader := stable_str.required huploader
  have hfile := Stable.required FileHash.stable hfile
  have hindex := (stable_word (by decide)).required hindex
  have htotal := (stable_word (by decide)).required htotal
  have hblock := Stable.required BlockHash.stable hblock
  have hsize := (stable_word (by decide)).required hsize
  constructor
  · simp [UploadRequest.toJson, plain_obj, huploader.plain, hfile.plain, hindex.plain, htotal.plain, hblock.plain,
      hsize.plain]
  · rw [UploadRequest.ofJson?, UploadRequest.toJson, of?_obj (by simp), huploader.required, hfile.required,
      hindex.required, htotal.required, hblock.required, hsize.required] <;> rfl

theorem DownloadChunk.stable : Stable DownloadChunk.toJson DownloadChunk.ofJson? := by
  intro json c h
  simp only [DownloadChunk.ofJson?, Option.bind_eq_bind, Option.bind_eq_some_iff, Option.some.injEq] at h
  obtain ⟨m, -, _, hindex, _, hblock, _, hsize, _, hurl, rfl⟩ := h
  have hindex := stable_int64.required hindex
  have hblock := Stable.required BlockHash.stable hblock
  have hsize := stable_int64.required hsize
  have hurl := stable_str.required hurl
  constructor
  · simp [DownloadChunk.toJson, plain_obj, hindex.plain, hblock.plain, hsize.plain, hurl.plain]
  · rw [DownloadChunk.ofJson?, DownloadChunk.toJson, of?_obj (by simp), hindex.required, hblock.required,
      hsize.required, hurl.required] <;> rfl

theorem DownloadPlan.stable : Stable DownloadPlan.toJson DownloadPlan.ofJson? := by
  intro json p h
  simp only [DownloadPlan.ofJson?, Option.bind_eq_bind, Option.bind_eq_some_iff, Option.some.injEq] at h
  obtain ⟨m, -, _, hcontent, _, hcommit, _, hpath, _, hchunks, _, htime, rfl⟩ := h
  have hcontent := Stable.required FileHash.stable hcontent
  have hcommit := stable_int64.required hcommit
  have hpath := stable_str.required hpath
  have hchunks := Stable.required (Stable.list DownloadChunk.stable) hchunks
  have htime := Stable.required DateTime.stable htime
  constructor
  · simp [DownloadPlan.toJson, plain_obj, hcontent.plain, hcommit.plain, hpath.plain, hchunks.plain, htime.plain]
  · rw [DownloadPlan.ofJson?, DownloadPlan.toJson, of?_obj (by simp), hcontent.required, hcommit.required,
      hpath.required, hchunks.required, htime.required] <;> rfl

/-! ### Settings -/

namespace Config

theorem Server.stable : Stable Server.toJson Server.ofJson? := by
  intro json s h
  simp only [Server.ofJson?, Option.bind_eq_bind, Option.bind_eq_some_iff, Option.some.injEq] at h
  obtain ⟨m, -, _, hbind, _, hsize, _, httl, _, hpage, _, hmetrics, rfl⟩ := h
  have hbind := stable_str.defaulted (survives_str _) hbind
  have hsize := (stable_word (by decide)).defaulted (survives_word (by decide) (by decide)) hsize
  have httl := (stable_word (by decide)).defaulted (survives_word (by decide) (by decide)) httl
  have hpage := (stable_word (by decide)).defaulted (survives_word (by decide) (by decide)) hpage
  have hmetrics := stable_bool.defaulted (survives_bool _) hmetrics
  constructor
  · simp [Server.toJson, plain_obj, hbind.plain, hsize.plain, httl.plain, hpage.plain, hmetrics.plain]
  · rw [Server.ofJson?, Server.toJson, of?_obj (by simp), hbind.defaulted, hsize.defaulted, httl.defaulted,
      hpage.defaulted, hmetrics.defaulted] <;> rfl

theorem Admin.stable : Stable Admin.toJson Admin.ofJson? := by
  intro json a h
  simp only [Admin.ofJson?, Option.bind_eq_bind, Option.bind_eq_some_iff, Option.some.injEq] at h
  obtain ⟨m, -, _, hhash, _, huser, _, hdescription, rfl⟩ := h
  have hhash := stable_str.required hhash
  have huser := stable_str.defaulted (survives_str _) huser
  have hdescription := stable_str.optional rfl hdescription
  constructor
  · simp [Admin.toJson, plain_obj, hhash.plain, huser.plain, hdescription.plain]
  · rw [Admin.ofJson?, Admin.toJson, of?_obj (by simp), hhash.required, huser.defaulted,
      hdescription.optional] <;> rfl

theorem Storage.survives_filesystem {fields : Json} {s : FilesystemSettings}
    (h : Storage.filesystemOfJson? fields = some s) :
    Survives Storage.toJson Storage.ofJson? (.filesystem s) := by
  simp only [Storage.filesystemOfJson?, Option.bind_eq_bind, Option.bind_eq_some_iff, Option.some.injEq] at h
  obtain ⟨m, -, _, hpath, _, hbase, _, hkey, rfl⟩ := h
  have hpath := stable_str.required hpath
  have hbase := stable_str.defaulted (survives_str _) hbase
  have hkey := stable_str.optional rfl hkey
  constructor
  · simp [Storage.toJson, plain_obj, Plain.str, hpath.plain, hbase.plain, hkey.plain]
  · rw [Storage.ofJson?, Storage.toJson, tagged?_obj (by simp)]
    dsimp only
    rw [if_pos rfl, Storage.filesystemOfJson?, of?_obj (by simp), hpath.required, hbase.defaulted,
      hkey.optional] <;> rfl

theorem Storage.survives_s3 {fields : Json} {s : BucketSettings} (h : Storage.bucketOfJson? fields = some s) :
    Survives Storage.toJson Storage.ofJson? (.s3 s) := by
  simp only [Storage.bucketOfJson?, Option.bind_eq_bind, Option.bind_eq_some_iff, Option.some.injEq] at h
  obtain ⟨m, -, _, hbucket, _, hendpoint, _, hregion, _, hprefix, _, haccess, _, hsecret, _, hstyle, rfl⟩ := h
  have hbucket := stable_str.required hbucket
  have hendpoint := stable_str.optional rfl hendpoint
  have hregion := stable_str.optional rfl hregion
  have hprefix := stable_str.optional rfl hprefix
  have haccess := stable_str.optional rfl haccess
  have hsecret := stable_str.optional rfl hsecret
  have hstyle := stable_bool.defaulted (survives_bool _) hstyle
  constructor
  · simp [Storage.toJson, plain_obj, Plain.str, hbucket.plain, hendpoint.plain, hregion.plain, hprefix.plain,
      haccess.plain, hsecret.plain, hstyle.plain]
  · rw [Storage.ofJson?, Storage.toJson, tagged?_obj (by simp)]
    dsimp only
    rw [if_neg (by decide), if_pos rfl, Storage.bucketOfJson?, of?_obj (by simp), hbucket.required,
      hendpoint.optional, hregion.optional, hprefix.optional, haccess.optional, hsecret.optional,
      hstyle.defaulted] <;> rfl

theorem Storage.stable : Stable Storage.toJson Storage.ofJson? := by
  intro json s h
  simp only [Storage.ofJson?, Option.bind_eq_bind, Option.bind_eq_some_iff] at h
  obtain ⟨⟨form, fields⟩, -, h⟩ := h
  dsimp only at h
  split at h
  · obtain ⟨settings, hsettings, rfl⟩ := Option.map_eq_some_iff.mp h
    exact survives_filesystem hsettings
  · split at h
    · obtain ⟨settings, hsettings, rfl⟩ := Option.map_eq_some_iff.mp h
      exact survives_s3 hsettings
    · cases h

theorem SslMode.stable : Stable SslMode.toJson SslMode.ofJson? := fun _ mode _ => ⟨.str _, by cases mode <;> rfl⟩

theorem Metadata.survives_sqlite (path : String) : Survives Metadata.toJson Metadata.ofJson? (.sqlite path) := by
  constructor
  · simp [Metadata.toJson, plain_obj, Plain.str]
  · rw [Metadata.ofJson?, Metadata.toJson, tagged?_obj (by simp)]
    dsimp only
    rw [if_pos rfl, of?_obj (by simp)]
    rfl

theorem Metadata.survives_postgres {fields : Json} {s : DatabaseSettings}
    (h : Metadata.databaseOfJson? fields = some s) : Survives Metadata.toJson Metadata.ofJson? (.postgres s) := by
  simp only [Metadata.databaseOfJson?, Option.bind_eq_bind, Option.bind_eq_some_iff, Option.some.injEq] at h
  obtain ⟨m, -, _, hurl, _, hhost, _, hport, _, huser, _, hpassword, _, hdatabase, _, hssl, _, hconnections, _,
    htimeout, rfl⟩ := h
  have hurl := stable_str.optional rfl hurl
  have hhost := stable_str.optional rfl hhost
  have hport := ((stable_word (by decide)).nullable rfl).defaulted
    ((survives_word (by decide) (by decide)).some rfl) hport
  have huser := stable_str.optional rfl huser
  have hpassword := stable_str.optional rfl hpassword
  have hdatabase := stable_str.optional rfl hdatabase
  have hssl := Stable.optional SslMode.stable rfl hssl
  have hconnections := (stable_word (by decide)).defaulted (survives_word (by decide) (by decide)) hconnections
  have htimeout := ((stable_word (by decide)).nullable rfl).defaulted
    ((survives_word (by decide) (by decide)).some rfl) htimeout
  constructor
  · simp [Metadata.toJson, plain_obj, Plain.str, hurl.plain, hhost.plain, hport.plain, huser.plain, hpassword.plain,
      hdatabase.plain, hssl.plain, hconnections.plain, htimeout.plain]
  · rw [Metadata.ofJson?, Metadata.toJson, tagged?_obj (by simp)]
    dsimp only
    rw [if_neg (by decide), if_pos rfl, Metadata.databaseOfJson?, of?_obj (by simp), hurl.optional, hhost.optional,
      hport.defaulted, huser.optional, hpassword.optional, hdatabase.optional, hssl.optional, hconnections.defaulted,
      htimeout.defaulted] <;> rfl

theorem Metadata.stable : Stable Metadata.toJson Metadata.ofJson? := by
  intro json s h
  simp only [Metadata.ofJson?, Option.bind_eq_bind, Option.bind_eq_some_iff] at h
  obtain ⟨⟨form, fields⟩, -, h⟩ := h
  dsimp only at h
  split at h
  · obtain ⟨m, -, h⟩ := Option.bind_eq_some_iff.mp h
    obtain ⟨path, -, rfl⟩ := Option.map_eq_some_iff.mp h
    exact survives_sqlite path
  · split at h
    · obtain ⟨settings, hsettings, rfl⟩ := Option.map_eq_some_iff.mp h
      exact survives_postgres hsettings
    · cases h

theorem App.stable : Stable App.toJson App.ofJson? := by
  intro json a h
  simp only [App.ofJson?, Option.bind_eq_bind, Option.bind_eq_some_iff, Option.some.injEq] at h
  obtain ⟨m, -, _, hserver, _, hstorage, _, hmetadata, _, hadmin, rfl⟩ := h
  have hdefault : Storage.filesystemOfJson? (.obj [("path", .str "./data/storage")]) =
      some ⟨"./data/storage", Storage.defaultBaseUrl, none⟩ := rfl
  have hserver := Stable.defaulted Server.stable (Server.stable (.obj []) _ rfl) hserver
  have hstorage := Stable.defaulted Storage.stable (Storage.survives_filesystem hdefault) hstorage
  have hmetadata := Stable.defaulted Metadata.stable (Metadata.survives_sqlite _) hmetadata
  have hadmin := Stable.required Admin.stable hadmin
  constructor
  · simp [App.toJson, plain_obj, hserver.plain, hstorage.plain, hmetadata.plain, hadmin.plain]
  · rw [App.ofJson?, App.toJson, of?_obj (by simp), hserver.defaulted, hstorage.defaulted, hmetadata.defaulted,
      hadmin.required] <;> rfl

end Config

/-! ### All types -/

/-- What is read as a value of a type is written as JSON that reads back as the value, and the text of that reads back
as that JSON. Writing what was read back changes nothing more. -/
def StableWire (α : Type) [Wire α] : Prop :=
  ∀ (json : Json) (x : α), Wire.ofJson? json = some x →
    Wire.ofJson? (Wire.toJson x) = some x ∧ parse? (Text.utf8 (Wire.toJson x : Json).render) = some (Wire.toJson x)

theorem stableWire_of_stable {α : Type} [Wire α] (h : Stable (Wire.toJson (α := α)) Wire.ofJson?) : StableWire α :=
  fun json x hread => ⟨(h json x hread).again, parse?_render (h json x hread).plain⟩

/-- **All that goes over the wire reads back**, in whatever form it was given. -/
theorem wire_stable :
    StableWire Content.Hash ∧ StableWire AccessLevel ∧ StableWire ChangeKind ∧ StableWire Project ∧
      StableWire ProposedChange ∧ StableWire CommitRequest ∧ StableWire CommitOutcome ∧ StableWire CommitSummary ∧
      StableWire HistoryPage ∧ StableWire FileState ∧ StableWire ProjectState ∧ StableWire StateDiff ∧
      StableWire CommitDetail ∧ StableWire UploadRequest ∧ StableWire UploadOutcome ∧ StableWire DownloadPlan ∧
      StableWire Config.Server ∧ StableWire Config.Storage ∧ StableWire Config.Metadata ∧ StableWire Config.Admin ∧
      StableWire Config.App :=
  ⟨stableWire_of_stable Hash.stable, stableWire_of_stable AccessLevel.stable, stableWire_of_stable ChangeKind.stable,
    stableWire_of_stable Project.stable, stableWire_of_stable ProposedChange.stable,
    stableWire_of_stable CommitRequest.stable, stableWire_of_stable CommitOutcome.stable,
    stableWire_of_stable CommitSummary.stable, stableWire_of_stable HistoryPage.stable,
    stableWire_of_stable FileState.stable, stableWire_of_stable ProjectState.stable,
    stableWire_of_stable StateDiff.stable, stableWire_of_stable CommitDetail.stable,
    stableWire_of_stable UploadRequest.stable, stableWire_of_stable UploadOutcome.stable,
    stableWire_of_stable DownloadPlan.stable, stableWire_of_stable Config.Server.stable,
    stableWire_of_stable Config.Storage.stable, stableWire_of_stable Config.Metadata.stable,
    stableWire_of_stable Config.Admin.stable, stableWire_of_stable Config.App.stable⟩

/-- A project that is given as an array, with half a second on a clock in India. -/
theorem wire_stable_array :
    let json : Json :=
      .arr [.int 7, .str "crew", .str "Harbour", .str "ada", .str "2024-02-29t23:59:59.500+05:30"]
    ∃ p : Project, Project.ofJson? json = some p ∧ Project.ofJson? p.toJson = some p ∧
      parse? (Text.utf8 p.toJson.render) = some p.toJson := by
  intro json
  have hread : (Project.ofJson? json).isSome := by decide
  obtain ⟨p, hp⟩ := Option.isSome_iff_exists.mp hread
  exact ⟨p, hp, wire_stable.2.2.2.1 json p hp⟩

end Depot
