import PointNetwork.Uploader.ChunkTheorems
import PointNetwork.Uploader.ProgressTheorems

/-!
# The tables and the maps together

What every run keeps of the upload tables and the maps of the progress updates:

* the rows that file maps, parents and cached files name exist, and a running update counts the
  chunks of its file (`Sane`);
* a file whose cache entry says that it is uploaded or failed has this status in its row, or the
  running update writes it (`Flagged`).
-/

namespace PointNetwork.Uploader

open Js Storage Machine

/-! ## Parents -/

/-- The file is a parent of the chunk. -/
def Memory.Parent (m : Memory) (F c : JsString) : Prop := F ∈ (m.chunkParents c).getD []

section

variable {m : Memory} {F G c d : JsString}

/-- The file becomes a parent of the chunk. -/
theorem parent_addFileAsChunkParent :
    (m.addFileAsChunkParent F c).Parent G d ↔ m.Parent G d ∨ (G = F ∧ d = c) := by
  unfold Memory.Parent Memory.addFileAsChunkParent
  by_cases hd : d = c
  · subst hd
    simp only [Function.update_self, Option.getD_some]
    split
    · rename_i hmem
      constructor
      · exact Or.inl
      · rintro (h | ⟨rfl, -⟩)
        · exact h
        · exact hmem
    · rw [List.mem_append, List.mem_singleton, and_true]
  · simp [hd]

theorem chunkParents_addFileAsChunkParent :
    (m.addFileAsChunkParent F c).chunkParents d = none ↔ m.chunkParents d = none ∧ d ≠ c := by
  unfold Memory.addFileAsChunkParent
  by_cases hd : d = c
  · subst hd
    simp
  · simp [hd]

/-- The file becomes a parent of the chunks. -/
theorem parent_addParents {chunkIds : List JsString} :
    (m.addParents F chunkIds).Parent G d ↔ m.Parent G d ∨ (G = F ∧ d ∈ chunkIds) := by
  induction chunkIds generalizing m with
  | nil => simp [Memory.addParents]
  | cons c chunkIds ih =>
    show ((m.addFileAsChunkParent F c).addParents F chunkIds).Parent G d ↔ _
    rw [ih, parent_addFileAsChunkParent, List.mem_cons, or_assoc, ← and_or_left]

theorem chunkParents_addParents {chunkIds : List JsString} :
    (m.addParents F chunkIds).chunkParents d = none ↔ m.chunkParents d = none ∧ d ∉ chunkIds := by
  induction chunkIds generalizing m with
  | nil => simp [Memory.addParents]
  | cons c chunkIds ih =>
    show ((m.addFileAsChunkParent F c).addParents F chunkIds).chunkParents d = none ↔ _
    rw [ih, chunkParents_addFileAsChunkParent, List.mem_cons, not_or, and_assoc]

/-- The files become parents of the chunk. -/
theorem parent_addFiles {files : List JsString} :
    (m.addFiles files c).Parent G d ↔ m.Parent G d ∨ (G ∈ files ∧ d = c) := by
  induction files generalizing m with
  | nil => simp [Memory.addFiles]
  | cons F files ih =>
    show ((m.addFileAsChunkParent F c).addFiles files c).Parent G d ↔ _
    rw [ih, parent_addFileAsChunkParent, List.mem_cons, or_assoc, ← or_and_right]

theorem chunkParents_addFiles {files : List JsString} :
    (m.addFiles files c).chunkParents d = none ↔
      m.chunkParents d = none ∧ (d = c → files = []) := by
  induction files generalizing m with
  | nil => simp [Memory.addFiles]
  | cons F files ih =>
    show ((m.addFileAsChunkParent F c).addFiles files c).chunkParents d = none ↔ _
    rw [ih, chunkParents_addFileAsChunkParent]
    constructor
    · rintro ⟨⟨hnone, hne⟩, -⟩
      exact ⟨hnone, fun heq => (hne heq).elim⟩
    · rintro ⟨hnone, hne⟩
      have hdc : d ≠ c := fun heq => List.cons_ne_nil _ _ (hne heq)
      exact ⟨⟨hnone, hdc⟩, fun heq => (hdc heq).elim⟩

@[simp] theorem setFile_self {f : FileUpload} : (m.setFile F f).fileUploadCache F = some f :=
  Function.update_self _ _ _

theorem setFile_ne {f : FileUpload} (h : G ≠ F) :
    (m.setFile F f).fileUploadCache G = m.fileUploadCache G := Function.update_of_ne h _ _

/-- What is cached after a file was put into the cache. -/
theorem cached_setFile {f g : FileUpload} (hf : (m.setFile G g).fileUploadCache F = some f) :
    (F = G ∧ f = g) ∨ m.fileUploadCache F = some f := by
  by_cases hF : F = G
  · subst hF
    rw [setFile_self] at hf
    exact .inl ⟨rfl, (Option.some.inj hf).symm⟩
  · rw [setFile_ne hF] at hf
    exact .inr hf

/-- The flags of a file that is in the cache. -/
theorem setFlags_eq {status : FileStatus} {g : FileUpload} (hfile : m.fileUploadCache G = some g) :
    m.setFlags G status =
      m.setFile G ⟨status = .completed, status = .failed, g.chunk_ids⟩ := by
  unfold Memory.setFlags
  rw [hfile]

/-- What is cached after the flags of a file were set. -/
theorem cached_setFlags {status : FileStatus} {f g : FileUpload}
    (hfile : m.fileUploadCache G = some g)
    (hf : (m.setFlags G status).fileUploadCache F = some f) :
    (F = G ∧ f = ⟨status = .completed, status = .failed, g.chunk_ids⟩) ∨
      m.fileUploadCache F = some f :=
  cached_setFile (setFlags_eq hfile ▸ hf)

@[simp] theorem setChunk_self {status : Option ChunkStatus} :
    (m.setChunk c status).chunkUploadCache c = status := Function.update_self _ _ _

theorem setChunk_ne {status : Option ChunkStatus} (h : d ≠ c) :
    (m.setChunk c status).chunkUploadCache d = m.chunkUploadCache d :=
  Function.update_of_ne h _ _

/-- What is cached after a status was put into the cache or taken out of it. -/
theorem cached_setChunk {status : Option ChunkStatus} {new : ChunkStatus}
    (h : (m.setChunk c status).chunkUploadCache d = some new) :
    (d = c ∧ status = some new) ∨ (d ≠ c ∧ m.chunkUploadCache d = some new) := by
  by_cases hdc : d = c
  · subst hdc
    rw [setChunk_self] at h
    exact .inl ⟨rfl, h⟩
  · rw [setChunk_ne hdc] at h
    exact .inr ⟨hdc, h⟩

/-- Parents leave the other maps alone. -/
theorem addParents_other {chunkIds : List JsString} :
    (m.addParents F chunkIds).fileUploadCache = m.fileUploadCache ∧
      (m.addParents F chunkIds).chunkUploadCache = m.chunkUploadCache ∧
        (m.addParents F chunkIds).queue = m.queue := by
  induction chunkIds generalizing m with
  | nil => exact ⟨rfl, rfl, rfl⟩
  | cons c chunkIds ih => exact ih (m := m.addFileAsChunkParent F c)

/-- New parents leave the other maps alone. -/
theorem addFiles_other {files : List JsString} :
    (m.addFiles files c).fileUploadCache = m.fileUploadCache ∧
      (m.addFiles files c).chunkUploadCache = m.chunkUploadCache ∧
        (m.addFiles files c).queue = m.queue := by
  induction files generalizing m with
  | nil => exact ⟨rfl, rfl, rfl⟩
  | cons F files ih => exact ih (m := m.addFileAsChunkParent F c)

/-- A save leaves all maps but the statuses alone. -/
theorem modificationHook_other {chunk : Database.Instance} :
    (Store.modificationHook chunk m).fileUploadCache = m.fileUploadCache ∧
      (Store.modificationHook chunk m).chunkParents = m.chunkParents ∧
        (Store.modificationHook chunk m).queue = m.queue := by
  unfold Store.modificationHook
  split
  · exact ⟨rfl, rfl, rfl⟩
  · exact ⟨rfl, rfl, rfl⟩

end

/-! ## The effect of a statement -/

namespace Snapshot

/-- The chunk is COMPLETED. -/
def Done (a : Snapshot) (c : JsString) : Prop := a.db.chunkStatus c = some .completed

/-- The file is COMPLETED. -/
def FileDone (a : Snapshot) (F : JsString) : Prop := a.db.fileStatus F = some .completed

/-- COMPLETED or FAILED, the statuses that `waitForFileToUpload` returns. -/
def Final (a : Snapshot) (F : JsString) : Prop :=
  a.db.fileStatus F = some .completed ∨ a.db.fileStatus F = some .failed

instance (a : Snapshot) (c : JsString) : Decidable (a.Done c) := inferInstanceAs (Decidable (_ = _))

instance (a : Snapshot) (F : JsString) : Decidable (a.FileDone F) :=
  inferInstanceAs (Decidable (_ = _))

instance (a : Snapshot) (F : JsString) : Decidable (a.Final F) :=
  inferInstanceAs (Decidable (_ ∨ _))

end Snapshot

section

variable {a b : Snapshot} {st : Statement} {F c : JsString}

/-- The tables after a statement, when no update runs. -/
theorem external_db (a : Snapshot) (st : Statement) :
    (a.external st).db = (⟨a.db, a.memory, none⟩ : Store).dbAfter st := by
  cases st <;> rfl

/-- A COMPLETED chunk stays so. -/
theorem external_done (hst : st.Sound) (h : a.Done c) : (a.external st).Done c := by
  unfold Snapshot.Done
  rw [external_db]
  exact Store.completed_kept hst h

/-- A chunk is COMPLETED because it was, or by the statement. -/
theorem done_of_external (hst : st.Sound) (h : (a.external st).Done c) :
    a.Done c ∨ st.Completes c := by
  unfold Snapshot.Done at h
  rw [external_db] at h
  exact Store.completed_of_dbAfter hst h

/-- The status of a chunk after a statement. -/
theorem external_chunkStatus :
    (a.external st).db.chunkStatus c = st.statusAfter c (a.db.chunkStatus c) := by
  rw [external_db]
  exact Store.chunkStatus_dbAfter

/-- A chunk keeps its row. -/
theorem external_chunkRow (h : a.db.chunkStatus c ≠ none) :
    (a.external st).db.chunkStatus c ≠ none := by
  rw [external_chunkStatus]
  obtain ⟨old, hold⟩ := Option.ne_none_iff_exists'.mp h
  rw [hold]
  cases st with
  | bulkCreateChunks chunkIds => simp [Statement.statusAfter]
  | createChunk chunkId => simp [Statement.statusAfter]
  | _ => exact Option.some_ne_none _

/-- The status of a file after a statement. -/
theorem external_fileStatus :
    (a.external st).db.fileStatus F =
      match st with
      | .createFile fileId =>
        (a.db.fileStatus F).or (if F = fileId then some .notStarted else none)
      | .markFileAsBeingUploaded fileId _ => (a.db.fileStatus F).map fun old =>
          if F = fileId ∧ old = .notStarted then .inProgress else old
      | .markFileAsFailedUpload fileId => (a.db.fileStatus F).map fun old =>
          if F = fileId ∧ old ≠ .completed then .failed else old
      | _ => a.db.fileStatus F := by
  cases st with
  | createFile fileId => exact Database.fileStatus_createFile
  | markFileAsBeingUploaded fileId fileSize =>
    refine (Database.fileStatus_updateFile .inProgress ?_ ?_).trans ?_
    · exact fun _ => rfl
    · exact fun _ => rfl
    · simp
  | markFileAsFailedUpload fileId =>
    refine (Database.fileStatus_updateFile .failed ?_ ?_).trans ?_
    · exact fun _ => rfl
    · exact fun _ => rfl
    · simp
  | _ => rfl

/-- A file keeps its row. -/
theorem external_fileRow (h : a.db.fileStatus F ≠ none) :
    (a.external st).db.fileStatus F ≠ none := by
  rw [external_fileStatus]
  split
  · exact fun hnone => h (Option.or_eq_none_iff.mp hnone).1
  · exact fun hnone => h (Option.map_eq_none_iff.mp hnone)
  · exact fun hnone => h (Option.map_eq_none_iff.mp hnone)
  · exact h

/-- A COMPLETED file stays so. -/
theorem external_fileDone (h : a.FileDone F) : (a.external st).FileDone F := by
  unfold Snapshot.FileDone at *
  rw [external_fileStatus]
  split
  · rw [h, Option.some_or]
  · rw [h]
    simp
  · rw [h]
    simp
  · exact h

theorem external_final (h : a.Final F) : (a.external st).Final F := by
  unfold Snapshot.Final at *
  rw [external_fileStatus]
  split
  · obtain h | h := h
    · exact .inl (by rw [h, Option.some_or])
    · exact .inr (by rw [h, Option.some_or])
  · obtain h | h := h
    · exact .inl (by rw [h]; simp)
    · exact .inr (by rw [h]; simp)
  · obtain h | h := h
    · exact .inl (by rw [h]; simp)
    · refine .inr ?_
      rw [h]
      simp
  · exact h

/-- File maps are only added, by `enqueueChunksForUpload`. -/
theorem external_mapped :
    (a.external st).db.Mapped F c ↔
      a.db.Mapped F c ∨ ∃ chunkIds, st = .createFileMaps F chunkIds ∧ c ∈ chunkIds.map Prod.snd := by
  cases st with
  | createFileMaps fileId chunkIds =>
    refine Database.mapped_bulkCreateFileMaps.trans ?_
    constructor
    · rintro (h | ⟨rfl, h⟩)
      · exact .inl h
      · exact .inr ⟨chunkIds, rfl, h⟩
    · rintro (h | ⟨chunkIds', heq, h⟩)
      · exact .inl h
      · cases heq
        exact .inr ⟨rfl, h⟩
  | _ =>
    constructor
    · exact Or.inl
    · rintro (h | ⟨chunkIds, heq, -⟩)
      · exact h
      · cases heq

/-! ## The effect of a step of a progress update -/

/-- A step of an update leaves the chunks alone. -/
theorem internal_chunkStatus (h : Internal a b) : b.db.chunkStatus c = a.db.chunkStatus c := by
  cases h <;> rfl

/-- A step of an update leaves the file maps alone. -/
theorem internal_mapped (h : Internal a b) : b.db.Mapped F c ↔ a.db.Mapped F c := by
  cases h <;> rfl

/-- The status is written unless a COMPLETED file would fail. -/
theorem fileStatus_write {db : Database} {file : JsString} {status : FileStatus} :
    (db.updateFileUlStatus file status).fileStatus F = (db.fileStatus F).map fun old =>
      if F = file ∧ ¬ (status = .failed ∧ old = .completed) then status else old := by
  refine (Database.fileStatus_updateFile status ?_ ?_).trans ?_
  · exact fun _ => rfl
  · exact fun _ => rfl
  · simp [imp_iff_not_or]

theorem internal_fileRow (h : Internal a b) (hF : a.db.fileStatus F ≠ none) :
    b.db.fileStatus F ≠ none := by
  cases h with
  | write =>
    rw [fileStatus_write]
    exact fun hnone => hF (Option.map_eq_none_iff.mp hnone)
  | _ => exact hF

end

/-! ## The sane snapshots -/

/-- The file has chunks. -/
def Snapshot.HasChunks (a : Snapshot) (F : JsString) : Prop := ∃ c, a.db.Mapped F c

/-- A running update counts the chunks of its file, and its files have chunks. -/
def Snapshot.SanePosition (a : Snapshot) : Position → Prop
  | .idle => True
  | .at _ .findParents => True
  | .at _ (.findMaps F rest) => a.HasChunks F ∧ ∀ G ∈ rest, a.HasChunks G
  | .at _ (.findFile F chunkIds rest) =>
    (chunkIds ≠ [] ∧ ∀ d ∈ chunkIds, a.db.Mapped F d) ∧ ∀ G ∈ rest, a.HasChunks G
  | .at _ (.count F counted d todo rest) =>
    a.memory.fileUploadCache F =
      some ⟨false, false, counted.map Prod.fst ++ d :: todo⟩ ∧ ∀ G ∈ rest, a.HasChunks G
  | .at _ (.write F status rest) =>
    (∃ chunkIds, a.memory.fileUploadCache F =
      some ⟨status = .completed, status = .failed, chunkIds⟩) ∧
      (status = .completed ∨ status = .failed) ∧ a.HasChunks F ∧ ∀ G ∈ rest, a.HasChunks G
  | .files rest => ∀ G ∈ rest, a.HasChunks G
  | .chunks F counted todo rest =>
    a.memory.fileUploadCache F =
      some ⟨false, false, counted.map Prod.fst ++ todo⟩ ∧ ∀ G ∈ rest, a.HasChunks G

/-- The maps know no other files and chunks than the tables. -/
structure Sane (a : Snapshot) : Prop where
  fileRow : ∀ F c, a.db.Mapped F c → a.db.fileStatus F ≠ none
  chunkRow : ∀ F c, a.db.Mapped F c → a.db.chunkStatus c ≠ none
  parents : ∀ F c, a.memory.Parent F c → a.db.Mapped F c
  cached : ∀ F f, a.memory.fileUploadCache F = some f →
    f.chunk_ids ≠ [] ∧ ∀ c ∈ f.chunk_ids, a.db.Mapped F c
  position : a.SanePosition a.position

/-- What `createFileMaps` relies on: the rows are there. -/
def Statement.Prepared (db : Database) : Statement → Prop
  | .createFileMaps fileId chunkIds =>
    db.fileStatus fileId ≠ none ∧ ∀ c ∈ chunkIds.map Prod.snd, db.chunkStatus c ≠ none
  | _ => True

section

variable {a b : Snapshot} {st : Statement} {F c : JsString}

theorem sane_init : Sane Store.init.snapshot where
  fileRow _ _ h := by cases h
  chunkRow _ _ h := by cases h
  parents _ _ h := by cases h
  cached _ _ h := by cases h
  position := trivial

/-- A place stays sane when chunks are added to files. -/
theorem SanePosition.mono {p : Position} (h : a.SanePosition p)
    (hmapped : ∀ F c, a.db.Mapped F c → b.db.Mapped F c)
    (hcache : b.memory.fileUploadCache = a.memory.fileUploadCache) : b.SanePosition p := by
  have hchunks : ∀ F, a.HasChunks F → b.HasChunks F := fun F ⟨c, hc⟩ => ⟨c, hmapped F c hc⟩
  cases p with
  | idle => trivial
  | «at» c stage =>
    cases stage with
    | findParents => trivial
    | findMaps F rest => exact ⟨hchunks F h.1, fun G hG => hchunks G (h.2 G hG)⟩
    | findFile F chunkIds rest =>
      exact ⟨⟨h.1.1, fun d hd => hmapped F d (h.1.2 d hd)⟩, fun G hG => hchunks G (h.2 G hG)⟩
    | count F counted d todo rest =>
      refine ⟨?_, fun G hG => hchunks G (h.2 G hG)⟩
      rw [hcache]
      exact h.1
    | write F status rest =>
      refine ⟨?_, h.2.1, hchunks F h.2.2.1, fun G hG => hchunks G (h.2.2.2 G hG)⟩
      rw [hcache]
      exact h.1
  | files rest => exact fun G hG => hchunks G (h G hG)
  | chunks F counted todo rest =>
    refine ⟨?_, fun G hG => hchunks G (h.2 G hG)⟩
    rw [hcache]
    exact h.1

/-- A prepared statement keeps the invariant. -/
theorem Sane.external (h : Sane a) (hst : st.Prepared a.db) : Sane (a.external st) := by
  have hmapped : ∀ F c, a.db.Mapped F c → (a.external st).db.Mapped F c :=
    fun F c hc => external_mapped.mpr (.inl hc)
  refine ⟨?_, ?_, ?_, ?_, ?_⟩
  · intro F c hc
    obtain hc' | ⟨chunkIds, rfl, -⟩ := external_mapped.mp hc
    · exact external_fileRow (h.fileRow F c hc')
    · exact external_fileRow hst.1
  · intro F c hc
    obtain hc' | ⟨chunkIds, rfl, hc'⟩ := external_mapped.mp hc
    · exact external_chunkRow (h.chunkRow F c hc')
    · exact external_chunkRow (hst.2 c hc')
  -- only `createFileMaps` adds parents, and it has added the rows as well
  · intro F c hc
    cases st with
    | createFileMaps fileId chunkIds =>
      obtain hc' | ⟨rfl, hc'⟩ := parent_addParents.mp hc
      · exact hmapped F c (h.parents F c hc')
      · exact external_mapped.mpr (.inr ⟨chunkIds, rfl, hc'⟩)
    | saveChunk chunk =>
      apply h.parents F c
      unfold Memory.Parent at hc ⊢
      rwa [← modificationHook_other.2.1]
    | exit => cases hc
    | _ => exact h.parents F c hc
  · intro F f hf
    have hold : a.memory.fileUploadCache F = some f := by
      cases st with
      | createFileMaps fileId chunkIds =>
        rw [← hf]
        exact congrFun addParents_other.1.symm F
      | saveChunk chunk =>
        rw [← hf]
        exact congrFun modificationHook_other.1.symm F
      | exit => cases hf
      | _ => exact hf
    exact ⟨(h.cached F f hold).1, fun c hc => hmapped F c ((h.cached F f hold).2 c hc)⟩
  · cases st with
    | createFileMaps fileId chunkIds => exact SanePosition.mono h.position hmapped addParents_other.1
    | saveChunk chunk => exact SanePosition.mono h.position hmapped modificationHook_other.1
    | exit => trivial
    | _ => exact SanePosition.mono h.position hmapped rfl

/-- A running update gives a chunk only files as parents that have the chunk. -/
lemma Sane.internal_parents (h : Sane a) (hab : Internal a b) :
    ∀ G d, b.memory.Parent G d → b.db.Mapped G d := by
  intro G d hG
  refine (internal_mapped hab).mpr ?_
  cases hab with
  | findParents | noParents =>
    obtain hG | ⟨hG, rfl⟩ := parent_addFiles.mp hG
    · exact h.parents G d hG
    · exact Database.mapped_iff_fileIdsOf.mpr hG
  | findFile =>
    obtain hG | ⟨rfl, hd⟩ := parent_addParents.mp hG
    · exact h.parents G d hG
    · exact h.position.1.2 d hd
  | decide =>
    obtain ⟨hfile, -⟩ := h.position
    rw [setFlags_eq hfile] at hG
    exact h.parents G d hG
  | _ => exact h.parents G d hG

/-- It caches files with the chunks that they have. -/
lemma Sane.internal_cached (h : Sane a) (hab : Internal a b) :
    ∀ F f, b.memory.fileUploadCache F = some f →
      f.chunk_ids ≠ [] ∧ ∀ c ∈ f.chunk_ids, b.db.Mapped F c := by
  intro F f hf
  simp only [internal_mapped hab]
  cases hab with
  | findParents | noParents => exact h.cached F f (congrFun addFiles_other.1 F ▸ hf)
  | findFile =>
    obtain ⟨rfl, rfl⟩ | hf := cached_setFile (congrFun addParents_other.1 F ▸ hf)
    · exact h.position.1
    · exact h.cached F f hf
  | decide =>
    obtain ⟨hfile, -⟩ := h.position
    obtain ⟨rfl, rfl⟩ | hf := cached_setFlags hfile hf
    · exact h.cached F ⟨false, false, _⟩ hfile
    · exact h.cached F f hf
  | _ => exact h.cached F f hf

/-- A file whose chunks are counted has chunks, and its flags become those of the status. -/
lemma Sane.position_decide {db : Database} {m : Memory} {c file : JsString} {rest : List JsString}
    {counted : List (JsString × ChunkStatus)} {status : FileStatus}
    (h : Sane ⟨db, m, .chunks file counted [] rest⟩)
    (hstatus : Memory.finalStatus counted = some status) :
    (⟨db, m.setFlags file status, .at c (.write file status rest)⟩ : Snapshot).SanePosition
      (.at c (.write file status rest)) := by
  obtain ⟨hfile, hrest⟩ := h.position
  have hself : (m.setFlags file status).fileUploadCache file =
      some ⟨status = .completed, status = .failed, counted.map Prod.fst ++ []⟩ := by
    rw [setFlags_eq hfile, setFile_self]
  refine ⟨⟨_, hself⟩, ?_, ?_, hrest⟩
  · unfold Memory.finalStatus at hstatus
    split_ifs at hstatus
    · exact .inr (Option.some.inj hstatus).symm
    · exact .inl (Option.some.inj hstatus).symm
  · obtain ⟨hne, hall⟩ := h.cached file _ hfile
    obtain ⟨d, hd⟩ := List.exists_mem_of_ne_nil _ hne
    exact ⟨d, hall d hd⟩

/-- It goes on at a sane place. -/
lemma Sane.internal_position (h : Sane a) (hab : Internal a b) : b.SanePosition b.position := by
  have hpos := h.position
  have hparents' := h.internal_parents hab
  cases hab with
  | @start db m c worker queue files hqueue hparents =>
    intro G hG
    refine ⟨c, h.parents G c ?_⟩
    unfold Memory.Parent
    rw [hparents]
    exact hG
  -- the parents that are looked up are parents of the chunk
  | @findParents db m c files hparents =>
    intro G hG
    refine ⟨c, hparents' G c ?_⟩
    unfold Memory.Parent
    rw [hparents]
    exact hG
  | findMaps =>
    obtain ⟨⟨d, hd⟩, hrest⟩ := hpos
    exact ⟨⟨List.ne_nil_of_mem hd, fun d hd => hd⟩, hrest⟩
  | @findFile db m c file chunkIds rest hfile =>
    refine ⟨?_, hpos.2⟩
    show ((m.setFile file { chunk_ids := chunkIds }).addParents file
      chunkIds).fileUploadCache file = _
    rw [addParents_other.1, setFile_self]
    rfl
  | @count db m c file d todo rest counted status hstatus =>
    refine ⟨?_, hpos.2⟩
    -- the counted chunks and those to come are the chunks of the file
    show m.fileUploadCache file = _
    rw [List.map_append, List.append_assoc]
    exact hpos.1
  | write => exact hpos.2.2.2
  | @fill db m c file rest hfile =>
    exact ⟨hpos file List.mem_cons_self, fun G hG => hpos G (List.mem_cons_of_mem _ hG)⟩
  | skip => exact fun G hG => hpos G (List.mem_cons_of_mem _ hG)
  | @enter db m file rest f hfile huploaded hfailed =>
    refine ⟨?_, fun G hG => hpos G (List.mem_cons_of_mem _ hG)⟩
    show m.fileUploadCache file = _
    obtain ⟨uploaded, failed, chunk_ids⟩ := f
    cases huploaded
    cases hfailed
    exact hfile
  | @cached db m file d todo rest counted status hcache =>
    refine ⟨?_, hpos.2⟩
    show m.fileUploadCache file = _
    rw [List.map_append, List.append_assoc]
    exact hpos.1
  | miss => exact hpos
  | decide hstatus => exact h.position_decide hstatus
  | undecided => exact hpos.2
  | _ => trivial

/-- A step of a progress update keeps the invariant. -/
theorem Sane.internal (h : Sane a) (hab : Internal a b) : Sane b where
  fileRow F c hc := internal_fileRow hab (h.fileRow F c ((internal_mapped hab).mp hc))
  chunkRow F c hc := by
    rw [internal_chunkStatus hab]
    exact h.chunkRow F c ((internal_mapped hab).mp hc)
  parents := h.internal_parents hab
  cached := h.internal_cached hab
  position := h.internal_position hab

end

/-! ## The flags of the cached files -/

/-- The running update writes this status of the file. -/
def Snapshot.Writes (a : Snapshot) (F : JsString) (status : FileStatus) : Prop :=
  match a.position with
  | .at _ (.write G new _) => F = G ∧ new = status
  | _ => False

/-- What the flags of a cached file say is in its row, or about to be. -/
structure Flagged (a : Snapshot) : Prop where
  uploaded : ∀ F f, a.memory.fileUploadCache F = some f → f.uploaded = true →
    a.FileDone F ∨ a.Writes F .completed
  failed : ∀ F f, a.memory.fileUploadCache F = some f → f.failed = true →
    a.Final F ∨ a.Writes F .failed

section

variable {a b : Snapshot} {st : Statement} {F : JsString}

theorem flagged_init : Flagged Store.init.snapshot where
  uploaded _ _ h := by cases h
  failed _ _ h := by cases h

/-- A statement leaves the place alone, unless the process ends. -/
theorem external_position (hst : st ≠ .exit) : (a.external st).position = a.position := by
  cases st with
  | exit => exact (hst rfl).elim
  | _ => rfl

/-- A statement leaves what is about to be written alone. -/
theorem external_writes {status : FileStatus} (hst : st ≠ .exit) :
    (a.external st).Writes F status ↔ a.Writes F status := by
  unfold Snapshot.Writes
  rw [external_position hst]

/-- The cached files after a statement. -/
theorem external_fileUploadCache (hst : st ≠ .exit) :
    (a.external st).memory.fileUploadCache = a.memory.fileUploadCache := by
  cases st with
  | exit => exact (hst rfl).elim
  | createFileMaps fileId chunkIds => exact addParents_other.1
  | saveChunk chunk => exact modificationHook_other.1
  | _ => rfl

/-- A statement keeps the flags right. -/
theorem Flagged.external (h : Flagged a) : Flagged (a.external st) := by
  by_cases hst : st = .exit
  · subst hst
    refine ⟨?_, ?_⟩
    · intro F f hf
      cases hf
    · intro F f hf
      cases hf
  · refine ⟨?_, ?_⟩
    · intro F f hf huploaded
      rw [external_fileUploadCache hst] at hf
      exact (h.uploaded F f hf huploaded).imp external_fileDone (external_writes hst).mpr
    · intro F f hf hfailed
      rw [external_fileUploadCache hst] at hf
      exact (h.failed F f hf hfailed).imp external_final (external_writes hst).mpr

/-- Steps before and after which no status is written, and which raise no flag. -/
theorem Flagged.unwritten (h : Flagged a) (hwrites : ∀ F status, ¬ a.Writes F status)
    (hcache : ∀ F f, b.memory.fileUploadCache F = some f → f.uploaded = true ∨ f.failed = true →
      a.memory.fileUploadCache F = some f)
    (hdb : ∀ F, b.db.fileStatus F = a.db.fileStatus F) : Flagged b := by
  refine ⟨?_, ?_⟩
  · intro F f hf huploaded
    have hdone := (h.uploaded F f (hcache F f hf (.inl huploaded)) huploaded).resolve_right
      (hwrites F .completed)
    left
    exact (hdb F).trans hdone
  · intro F f hf hfailed
    have hfinal := (h.failed F f (hcache F f hf (.inr hfailed)) hfailed).resolve_right
      (hwrites F .failed)
    left
    unfold Snapshot.Final
    rw [hdb F]
    exact hfinal

/-- The status of a file after a write, if the file has a row. -/
theorem written_status {db : Database} (status : FileStatus) (hrow : db.fileStatus F ≠ none) :
    (db.updateFileUlStatus F status).fileStatus F = some status ∨
      status = .failed ∧ (db.updateFileUlStatus F status).fileStatus F = some .completed := by
  obtain ⟨old, hold⟩ := Option.ne_none_iff_exists'.mp hrow
  rw [fileStatus_write, hold, Option.map_some]
  split
  · exact .inl rfl
  · rename_i hkept
    obtain ⟨hfailed, hdone⟩ : status = .failed ∧ old = .completed := by simpa using hkept
    exact .inr ⟨hfailed, by rw [hdone]⟩

/-- A COMPLETED file stays so under the write of a final status. -/
theorem write_fileDone {db : Database} {m : Memory} {p q : Position} {G : JsString}
    {status : FileStatus} (h : (⟨db, m, p⟩ : Snapshot).FileDone F)
    (hstatus : status = .completed ∨ status = .failed) :
    (⟨db.updateFileUlStatus G status, m, q⟩ : Snapshot).FileDone F := by
  unfold Snapshot.FileDone at *
  rw [fileStatus_write, h]
  obtain rfl | rfl := hstatus
  · simp
  · simp

theorem write_final {db : Database} {m : Memory} {p q : Position} {G : JsString}
    {status : FileStatus} (h : (⟨db, m, p⟩ : Snapshot).Final F)
    (hstatus : status = .completed ∨ status = .failed) :
    (⟨db.updateFileUlStatus G status, m, q⟩ : Snapshot).Final F := by
  unfold Snapshot.Final at *
  rw [fileStatus_write]
  obtain h | h := h
  · rw [h]
    obtain rfl | rfl := hstatus
    · simp
    · simp
  · rw [h]
    obtain rfl | rfl := hstatus
    · by_cases hF : F = G
      · simp [hF]
      · simp [hF]
    · simp

/-- A step of a progress update keeps the flags right. -/
theorem Flagged.internal (h : Flagged a) (hsane : Sane a) (hab : Internal a b) : Flagged b := by
  have hpos := hsane.position
  cases hab with
  | @findParents db m c files hparents =>
    apply h.unwritten
    · exact fun _ _ hw => hw
    · intro F f hf _
      rw [← hf]
      exact congrFun addFiles_other.1.symm F
    · exact fun _ => rfl
  | @noParents db m c hparents =>
    apply h.unwritten
    · exact fun _ _ hw => hw
    · intro F f hf _
      rw [← hf]
      exact congrFun addFiles_other.1.symm F
    · exact fun _ => rfl
  | @findFile db m c file chunkIds rest hfile =>
    apply h.unwritten
    · exact fun _ _ hw => hw
    · intro F f hf hflags
      obtain ⟨rfl, rfl⟩ | hf := cached_setFile (congrFun addParents_other.1 F ▸ hf)
      · obtain hflag | hflag := hflags <;> cases hflag
      · exact hf
    · exact fun _ => rfl
  -- the status that the flags announced is in the row from here on
  | @write db m c file status rest =>
    obtain ⟨-, hstatus, ⟨d, hd⟩, -⟩ := hpos
    have hwritten := written_status status (hsane.fileRow file d hd)
    refine ⟨?_, ?_⟩
    · intro F f hf huploaded
      left
      obtain hdone | ⟨rfl, rfl⟩ := h.uploaded F f hf huploaded
      · exact write_fileDone hdone hstatus
      · obtain hwritten | ⟨hcontra, -⟩ := hwritten
        · exact hwritten
        · cases hcontra
    · intro F f hf hfailed
      left
      obtain hfinal | ⟨rfl, rfl⟩ := h.failed F f hf hfailed
      · exact write_final hfinal hstatus
      · obtain hwritten | ⟨-, hwritten⟩ := hwritten
        · exact .inr hwritten
        · exact .inl hwritten
  -- the flags are set here, one step before the row
  | @decide db m c file rest counted status hstatus =>
    have hfile : m.fileUploadCache file = some ⟨false, false, counted.map Prod.fst ++ []⟩ := hpos.1
    refine ⟨?_, ?_⟩
    · intro F f hf huploaded
      obtain ⟨rfl, rfl⟩ | hf := cached_setFlags hfile hf
      · exact .inr ⟨rfl, of_decide_eq_true huploaded⟩
      · exact .inl ((h.uploaded F f hf huploaded).resolve_right id)
    · intro F f hf hfailed
      obtain ⟨rfl, rfl⟩ | hf := cached_setFlags hfile hf
      · exact .inr ⟨rfl, of_decide_eq_true hfailed⟩
      · exact .inl ((h.failed F f hf hfailed).resolve_right id)
  | _ =>
    apply h.unwritten
    · exact fun _ _ hw => hw
    · exact fun _ _ hf _ => hf
    · exact fun _ => rfl

end

end PointNetwork.Uploader
