import Depot.Proofs.Objects.BlockFiles

/-!
# Writing blocks in a directory

What each step of an upload changes: the block that is finished is there, whole, and no other step changes a
block.
-/

namespace Depot.Objects

open Content Volume

variable {s : FileStore} {real : Path} {h g : BlockHash} {n : Nat}

theorem ids_forget (s : FileStore) (n : Nat) :
    (s.forget n).uploads.map Prod.fst = (s.uploads.map Prod.fst).filter (· ≠ n) := by
  rw [FileStore.forget, List.filter_map]
  rfl

theorem not_mem_forget (s : FileStore) (n : Nat) : n ∉ (s.forget n).uploads.map Prod.fst := by
  intro hmem
  rw [ids_forget] at hmem
  simpa using (List.mem_filter.mp hmem).2

/-- An upload of a block has written so much. -/
def Writing (s : FileStore) (real : Path) (n : Nat) (h : BlockHash) (written : List UInt8) : Prop :=
  ∃ u, s.uploads.lookup n = some u ∧ IsUpload s real n u h ∧ u.written = written

/-- What a step of writing leaves: a store of blocks with the same root and signer, and these uploads. -/
structure Leaves (s next : FileStore) (real : Path) (uploads : List Nat) : Prop where
  files : BlockFiles next real
  root : next.root = s.root
  signer : next.signer = s.signer
  uploads : next.uploads.map Prod.fst = uploads

theorem Leaves.trans {next last : FileStore} {ids later : List Nat} (h : Leaves s next real ids)
    (hlater : Leaves next last real later) : Leaves s last real later where
  files := hlater.files
  root := hlater.root.trans h.root
  signer := hlater.signer.trans h.signer
  uploads := hlater.uploads

namespace BlockFiles

/-! ### Changes of the volume -/

theorem object?_congr {t : FileStore}
    (hentry : t.volume.entry? (real ++ blockPath g) = s.volume.entry? (real ++ blockPath g)) :
    t.object? real g = s.object? real g := by
  rw [FileStore.object?, FileStore.object?, hentry]

theorem before_of_mem (hs : BlockFiles s real) (hn : n ∈ s.uploads.map Prod.fst) : n < s.serial := by
  obtain ⟨entry, hentry, rfl⟩ := List.mem_map.mp hn
  obtain ⟨_, hupload⟩ := hs.uploads entry hentry
  exact hupload.before

/-- Another volume will do if what is new in it may stand there, and the uploads have their scratch files. -/
theorem withVolume (hs : BlockFiles s real) {w : Volume} {serial : Nat} (hw : Rooted w s.root real)
    (hserial : s.serial ≤ serial)
    (hshape : ∀ p e, w.entry? (real ++ p) = some e → s.volume.entry? (real ++ p) = some e ∨ Kept serial p e)
    (hsame : ∀ g, ∀ m ∈ s.uploads.map Prod.fst,
      w.entry? (real ++ scratchPath g m) = s.volume.entry? (real ++ scratchPath g m)) :
    BlockFiles { s with volume := w, serial } real where
  rooted := hw
  fits := hs.fits
  shape p e hp hthere := by
    rcases hshape p e hthere with hold | hnew
    · exact (hs.shape p e hp hold).mono hserial
    · exact hnew
  uploads entry hmem := by
    obtain ⟨g, hu⟩ := hs.uploads entry hmem
    obtain ⟨data, hthere⟩ := hu.there
    exact ⟨g, hu.place, hu.scratch, Nat.lt_of_lt_of_le hu.before hserial, data,
      (hsame g _ (List.mem_map_of_mem hmem)).trans hthere⟩
  distinct := hs.distinct

theorem prepare_below (hs : BlockFiles s real) (h : BlockHash) :
    ∃ w, s.prepare ⟨s.root ++ blockPath h, false⟩ =
        (.ok (s.root ++ scratchPath h s.serial), { s with volume := w, serial := s.serial + 1 }) ∧
      Rooted w s.root real ∧
      ∀ q, w.entry? (real ++ q) =
        if q = scratchPath h s.serial then some (.file [])
        else if q <+: blockDirectory h then some .directory else s.volume.entry? (real ++ q) := by
  have hfitsDirectory := hs.fits_blockDirectory h
  have hfitsScratch := hs.fits_scratchPath h s.serial
  obtain ⟨u, hmake, hu, hmade, hkept⟩ := hs.rooted.makeDirectories_below (blockDirectory h) hfitsDirectory
    (fun _ hname => short_blockDirectory hname) fun a ha => hs.entry?_leading ha
  have hentry : ∀ q, u.entry? (real ++ q) =
      if q <+: blockDirectory h then some .directory else s.volume.entry? (real ++ q) := by
    intro q
    split
    · exact hmade q ‹_›
    · exact hkept _ fun a ha _ heq => ‹¬_› (List.append_cancel_left heq ▸ ha)
  have hfree : u.entry? (real ++ scratchPath h s.serial) = none := by
    rw [hentry, if_neg fun hlead => scratchPath_ne_of_leading hlead rfl]
    cases hthere : s.volume.entry? (real ++ scratchPath h s.serial) with
    | none => rfl
    | some e => exact absurd ((hs.shape _ _ (by simp [scratchPath]) hthere).of_scratchPath rfl).2 (Nat.lt_irrefl _)
  rw [append_scratchPath] at hfitsScratch hfree
  obtain ⟨hwrite, hw⟩ := hu.write_below [] hfitsScratch
    (fun _ hname => short_scratchPath (h := h) (n := s.serial) hname) (hmade _ (List.prefix_refl _))
    (by rw [hfree]; simp)
  rw [← append_scratchPath, ← append_scratchPath] at hwrite
  rw [← append_scratchPath] at hw
  refine ⟨_, ?_, hw, fun q => by rw [entry?_set_below u (by simp [scratchPath]), hentry]⟩
  have hparent : (s.root ++ blockPath h).dropLast = s.root ++ blockDirectory h := by
    rw [append_blockPath, List.dropLast_concat]
  have hfor : s.scratchFor ⟨s.root ++ blockPath h, false⟩ = s.root ++ scratchPath h s.serial := by
    simp [FileStore.scratchFor, append_blockPath, append_scratchPath, blockName, scratchName]
  rw [FileStore.prepare, hparent, hmake]
  dsimp only
  rw [hfor, hwrite]

theorem prepare_eq (hs : BlockFiles s real) (h : BlockHash) :
    ∃ w, s.prepare ⟨s.root ++ blockPath h, false⟩ =
        (.ok (s.root ++ scratchPath h s.serial), { s with volume := w, serial := s.serial + 1 }) ∧
      BlockFiles { s with volume := w, serial := s.serial + 1 } real ∧
      w.entry? (real ++ scratchPath h s.serial) = some (.file []) ∧
      ∀ g, FileStore.object? { s with volume := w, serial := s.serial + 1 } real g = s.object? real g := by
  obtain ⟨w, hprepare, hw, hentry⟩ := hs.prepare_below h
  refine ⟨w, hprepare, hs.withVolume hw (Nat.le_succ _) (fun p e hthere => ?_) (fun g m hm => ?_), ?_,
    fun g => object?_congr ?_⟩
  · rw [hentry] at hthere
    split at hthere
    · rename_i heq
      cases hthere
      exact .inr (heq ▸ .scratch (Nat.lt_succ_self _))
    · split at hthere
      · cases hthere
        exact .inr (.directory ‹_›)
      · exact .inl hthere
  · rw [hentry, if_neg (scratchPath_ne_of_ne (Nat.ne_of_lt (hs.before_of_mem hm))),
      if_neg fun hlead => scratchPath_ne_of_leading hlead rfl]
  · rw [hentry, if_pos rfl]
  · dsimp only
    rw [hentry, if_neg blockPath_ne_scratchPath, if_neg fun hlead => blockPath_ne_of_leading hlead rfl]

theorem publish_below (hs : BlockFiles s real) {old : List UInt8}
    (hthere : s.volume.entry? (real ++ scratchPath h n) = some (.file old)) (data : List UInt8) :
    ∃ w, s.publish (s.root ++ scratchPath h n) ⟨s.root ++ blockPath h, false⟩ data =
        (.ok (), { s with volume := w }) ∧
      Rooted w s.root real ∧
      ∀ q, w.entry? (real ++ q) =
        if q = blockPath h then some (.file data)
        else if q = scratchPath h n then none else s.volume.entry? (real ++ q) := by
  have hfitsScratch := hs.fits_scratchPath h n
  have hfitsBlock := hs.fits_blockPath h
  have hplace : s.volume.entry? (real ++ blockPath h) ≠ some .directory := by
    rw [hs.entry?_blockPath]
    cases s.object? real h <;> simp
  have hscratch := append_scratchPath real h n
  have hblock := append_blockPath real h
  have hdir : s.volume.entry? (real ++ blockDirectory h) = some .directory :=
    hs.rooted.parents _ (scratchName h n) (by rw [← hscratch, hthere]; simp)
  have hshort : ∀ name ∈ blockDirectory h ++ [scratchName h n, blockName h], name.size ≤ maxName := by
    intro name hname
    rcases List.mem_append.mp hname with hmem | hmem
    · exact short_blockDirectory hmem
    · obtain rfl | rfl : name = scratchName h n ∨ name = blockName h := by simpa using hmem
      · exact short_scratchPath (h := h) (n := n) (by simp [scratchPath])
      · exact short_blockPath (h := h) (by simp [blockPath])
  obtain ⟨hrename, hmoved⟩ := hs.rooted.rename_below (append_scratchPath s.root h n ▸ hfitsScratch)
    (append_blockPath s.root h ▸ hfitsBlock) hshort hdir (hscratch ▸ hthere) (hblock ▸ hplace)
  rw [← append_scratchPath, ← append_scratchPath, ← append_blockPath, ← append_blockPath] at hrename
  rw [← append_scratchPath, ← append_blockPath] at hmoved
  have hentry : ∀ q,
      entry? ((s.volume.erase (real ++ scratchPath h n)).set (real ++ blockPath h) (.file old)) (real ++ q) =
        if q = blockPath h then some (.file old)
        else if q = scratchPath h n then none else s.volume.entry? (real ++ q) := by
    intro q
    rw [entry?_set_below _ (by simp [blockPath]), entry?_erase_below _ (by simp [scratchPath])]
  generalize (s.volume.erase (real ++ scratchPath h n)).set (real ++ blockPath h) (.file old) = u
    at hrename hmoved hentry
  have hnew : u.entry? (real ++ blockPath h) = some (.file old) := by rw [hentry, if_pos rfl]
  have hstill : u.entry? (real ++ blockDirectory h) = some .directory :=
    hmoved.parents _ (blockName h) (by rw [← hblock, hnew]; simp)
  have hresolve : u.resolve false (s.root ++ blockPath h) = .ok (real ++ blockPath h) :=
    hmoved.resolve_eq hfitsBlock (fun name hname => short_blockPath hname) (by simp [blockPath])
      (by simpa [blockPath] using hstill)
  -- The block is there with what the scratch file had; what was written takes its place.
  have hfilled : Rooted (u.set (real ++ blockPath h) (.file data)) s.root real := by
    rw [hblock] at hnew ⊢
    exact hmoved.set hstill (by simp) fun heq => by cases hnew.symm.trans heq
  refine ⟨_, ?_, hfilled, fun q => ?_⟩
  · rw [FileStore.publish, hrename]
    dsimp only
    rw [hresolve]
  · rw [entry?_set_below u (by simp [blockPath]), hentry]
    split <;> rfl

theorem publish_eq (hs : BlockFiles s real) {old : List UInt8}
    (hthere : s.volume.entry? (real ++ scratchPath h n) = some (.file old)) (hfree : n ∉ s.uploads.map Prod.fst)
    (data : List UInt8) :
    ∃ w, s.publish (s.root ++ scratchPath h n) ⟨s.root ++ blockPath h, false⟩ data =
        (.ok (), { s with volume := w }) ∧
      BlockFiles { s with volume := w } real ∧
      ∀ g, FileStore.object? { s with volume := w } real g = if g = h then some data else s.object? real g := by
  obtain ⟨w, hpublish, hw, hentry⟩ := hs.publish_below hthere data
  refine ⟨w, hpublish, hs.withVolume hw (Nat.le_refl _) (fun p e hthere => ?_) (fun g m hm => ?_), fun g => ?_⟩
  · rw [hentry] at hthere
    split at hthere
    · rename_i heq
      cases hthere
      exact .inr (heq ▸ .block)
    · split at hthere
      · cases hthere
      · exact .inl hthere
  · have hne : m ≠ n := fun heq => hfree (heq ▸ hm)
    rw [hentry, if_neg blockPath_ne_scratchPath.symm, if_neg (scratchPath_ne_of_ne hne)]
  · by_cases hgh : g = h
    · rw [if_pos hgh, FileStore.object?, hgh]
      dsimp only
      rw [hentry, if_pos rfl]
    · rw [if_neg hgh]
      refine object?_congr ?_
      dsimp only
      rw [hentry, if_neg fun heq => hgh (blockPath_injective heq), if_neg blockPath_ne_scratchPath]

theorem discard_below (hs : BlockFiles s real) {old : List UInt8}
    (hthere : s.volume.entry? (real ++ scratchPath h n) = some (.file old)) :
    ∃ w, s.volume.unlink ⟨s.root ++ scratchPath h n, false⟩ = .ok w ∧ Rooted w s.root real ∧
      ∀ q, w.entry? (real ++ q) = if q = scratchPath h n then none else s.volume.entry? (real ++ q) := by
  have hfits := hs.fits_scratchPath h n
  rw [append_scratchPath] at hfits hthere
  obtain ⟨hunlink, hw⟩ := hs.rooted.unlink_below hfits
    (fun _ hname => short_scratchPath (h := h) (n := n) hname) hthere
  rw [← append_scratchPath, ← append_scratchPath] at hunlink
  rw [← append_scratchPath] at hw
  exact ⟨_, hunlink, hw, fun q => entry?_erase_below _ (by simp [scratchPath])⟩

theorem discard_eq (hs : BlockFiles s real) {old : List UInt8}
    (hthere : s.volume.entry? (real ++ scratchPath h n) = some (.file old)) (hfree : n ∉ s.uploads.map Prod.fst) :
    ∃ w, s.volume.unlink ⟨s.root ++ scratchPath h n, false⟩ = .ok w ∧ BlockFiles { s with volume := w } real ∧
      ∀ g, FileStore.object? { s with volume := w } real g = s.object? real g := by
  obtain ⟨w, hunlink, hw, hentry⟩ := hs.discard_below hthere
  refine ⟨w, hunlink, hs.withVolume hw (Nat.le_refl _) (fun p e hthere => ?_) (fun g m hm => ?_),
    fun g => object?_congr ?_⟩
  · rw [hentry] at hthere
    split at hthere
    · cases hthere
    · exact .inl hthere
  · have hne : m ≠ n := fun heq => hfree (heq ▸ hm)
    rw [hentry, if_neg (scratchPath_ne_of_ne hne)]
  · dsimp only
    rw [hentry, if_neg blockPath_ne_scratchPath]

/-! ### Uploads -/

theorem withUploads (hs : BlockFiles s real) {uploads : List (Nat × FileUpload)}
    (hmem : ∀ entry ∈ uploads, ∃ h, IsUpload s real entry.1 entry.2 h) (hdistinct : (uploads.map Prod.fst).Nodup) :
    BlockFiles { s with uploads } real where
  rooted := hs.rooted
  fits := hs.fits
  shape := hs.shape
  uploads entry hentry := by
    obtain ⟨h, hu⟩ := hmem entry hentry
    exact ⟨h, hu.place, hu.scratch, hu.before, hu.there⟩
  distinct := hdistinct

theorem forget (hs : BlockFiles s real) (n : Nat) : BlockFiles (s.forget n) real :=
  hs.withUploads (fun entry hentry => hs.uploads entry (List.mem_filter.mp hentry).1)
    (hs.distinct.sublist (List.filter_sublist.map _))

theorem openUpload_eq (hs : BlockFiles s real) (h : BlockHash) :
    ∃ next, s.openUpload h.objectKey = (.ok s.serial, next) ∧
      Leaves s next real (s.serial :: s.uploads.map Prod.fst) ∧ Writing next real s.serial h [] ∧
      ∀ g, next.object? real g = s.object? real g := by
  obtain ⟨w, hprepare, hnext, hthere, hobjects⟩ := hs.prepare_eq h
  have hupload : IsUpload { s with volume := w, serial := s.serial + 1 } real s.serial
      ⟨⟨s.root ++ blockPath h, false⟩, s.root ++ scratchPath h s.serial, []⟩ h :=
    ⟨rfl, rfl, Nat.lt_succ_self _, [], hthere⟩
  generalize hu : FileUpload.mk ⟨s.root ++ blockPath h, false⟩ (s.root ++ scratchPath h s.serial) [] = u at hupload
  have hall : ∀ entry ∈ (s.serial, u) :: s.uploads,
      ∃ g, IsUpload { s with volume := w, serial := s.serial + 1 } real entry.1 entry.2 g :=
    List.forall_mem_cons.mpr ⟨⟨h, hupload⟩, hnext.uploads⟩
  have hdistinct : (((s.serial, u) :: s.uploads).map Prod.fst).Nodup := by
    exact List.nodup_cons.mpr ⟨fun hmem => Nat.lt_irrefl _ (hs.before_of_mem hmem), hs.distinct⟩
  refine ⟨_, ?_, ⟨hnext.withUploads hall hdistinct, rfl, rfl, rfl⟩, ?_, hobjects⟩
  · rw [FileStore.openUpload, hs.locate_objectKey]
    dsimp only
    rw [hprepare]
    dsimp only
    rw [hu]
  · exact ⟨u, List.lookup_cons_self, ⟨hupload.place, hupload.scratch, hupload.before, hupload.there⟩, by rw [← hu]⟩

theorem writeUpload_eq (hs : BlockFiles s real) {written : List UInt8} (hu : Writing s real n h written)
    (data : List UInt8) :
    ∃ next, s.writeUpload n data = (.ok (), next) ∧ Leaves s next real (n :: (s.forget n).uploads.map Prod.fst) ∧
      Writing next real n h (written ++ data) ∧ ∀ g, next.object? real g = s.object? real g := by
  obtain ⟨u, hknown, hupload, rfl⟩ := hu
  have hnext : IsUpload (s.forget n) real n { u with written := u.written ++ data } h :=
    ⟨hupload.place, hupload.scratch, hupload.before, hupload.there⟩
  have hall : ∀ entry ∈ (n, { u with written := u.written ++ data }) :: (s.forget n).uploads,
      ∃ g, IsUpload (s.forget n) real entry.1 entry.2 g :=
    List.forall_mem_cons.mpr ⟨⟨h, hnext⟩, (hs.forget n).uploads⟩
  refine ⟨_, by rw [FileStore.writeUpload, hknown]; rfl, ⟨(hs.forget n).withUploads hall ?_, rfl, rfl, rfl⟩, ?_,
    fun _ => rfl⟩
  · exact List.nodup_cons.mpr ⟨not_mem_forget s n, (hs.forget n).distinct⟩
  · exact ⟨_, List.lookup_cons_self, ⟨hnext.place, hnext.scratch, hnext.before, hnext.there⟩, rfl⟩

theorem finish_eq (hs : BlockFiles s real) {written : List UInt8} (hu : Writing s real n h written) :
    ∃ next, s.finish n = (.ok written.length, next) ∧ Leaves s next real ((s.forget n).uploads.map Prod.fst) ∧
      ∀ g, next.object? real g = if g = h then some written else s.object? real g := by
  obtain ⟨u, hknown, hupload, rfl⟩ := hu
  obtain ⟨data, hthere⟩ := hupload.there
  obtain ⟨w, hpublish, hnext, hobjects⟩ := (hs.forget n).publish_eq hthere (not_mem_forget s n) u.written
  have hpublish : (s.forget n).publish u.scratch u.place u.written = (.ok (), { s.forget n with volume := w }) := by
    rw [hupload.scratch, hupload.place]
    exact hpublish
  refine ⟨_, ?_, ⟨hnext, rfl, rfl, rfl⟩, hobjects⟩
  rw [FileStore.finish, hknown]
  dsimp only
  rw [hpublish]
  rfl

theorem abort_eq (hs : BlockFiles s real) {written : List UInt8} (hu : Writing s real n h written) :
    ∃ next, s.abort n = (.ok (), next) ∧ Leaves s next real ((s.forget n).uploads.map Prod.fst) ∧
      ∀ g, next.object? real g = s.object? real g := by
  obtain ⟨u, hknown, hupload, rfl⟩ := hu
  obtain ⟨data, hthere⟩ := hupload.there
  obtain ⟨w, hunlink, hnext, hobjects⟩ := (hs.forget n).discard_eq hthere (not_mem_forget s n)
  refine ⟨_, ?_, ⟨hnext, rfl, rfl, rfl⟩, hobjects⟩
  have hunlink : s.volume.unlink ⟨u.scratch, false⟩ = .ok w := by
    rw [hupload.scratch]
    exact hunlink
  rw [FileStore.abort, hknown]
  dsimp only
  rw [hunlink]

end BlockFiles

end Depot.Objects
