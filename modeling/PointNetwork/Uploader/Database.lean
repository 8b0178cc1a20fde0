import PointNetwork.Storage.FileRead
import PointNetwork.Tables

/-!
# The upload tables

The tables `Chunk`, `File` and `FileMap` of `db/models`, and the statements that the uploader
sends to them: `UPDATE … WHERE …` with a condition on the row, `INSERT OR IGNORE`, and the saves
of single instances, which write the changed fields only.

* `chunkStatus`, `fileStatus`, `Mapped`: what the tables say of a chunk, a file, and the chunks
  of a file;
* one lemma for each statement and each of these.

The progress number and the transaction id, which nothing here reads, are left out.
-/

namespace PointNetwork.Uploader

open Js Storage

/-- `CHUNK_UPLOAD_STATUS`. -/
inductive ChunkStatus
  | notStarted
  | enqueued
  | inProgress
  | completed
  | validating
  | failed
  deriving DecidableEq, Repr

/-- `CHUNK_DOWNLOAD_STATUS`. -/
inductive DownloadStatus
  | notStarted
  | enqueued
  | inProgress
  | completed
  | failed
  deriving DecidableEq, Repr

/-- The columns of a chunk that the uploader reads. -/
structure Chunk where
  id : JsString
  dl_status : DownloadStatus := .notStarted
  ul_status : ChunkStatus := .notStarted
  retry_count : ℕ := 0
  expires : Option ℕ := none
  deriving DecidableEq

/-- The columns of a file that the uploader reads. -/
structure FileRow where
  id : JsString
  size : Option ℕ := none
  ul_status : FileStatus := .notStarted
  deriving DecidableEq

/-- A chunk of a file, at its offset. -/
structure FileMap where
  file_id : JsString
  chunk_id : JsString
  offset : ℤ
  deriving DecidableEq

/-- The three tables. -/
structure Database where
  chunks : List Chunk
  files : List FileRow
  fileMaps : List FileMap
  deriving DecidableEq

/-- The empty tables. -/
def Database.init : Database := ⟨[], [], []⟩

namespace Database

/-! ## Queries -/

/-- The row of a chunk. -/
def findChunk (db : Database) (id : JsString) : Option Chunk := Table.find Chunk.id id db.chunks

/-- The row of a file. -/
def findFile (db : Database) (id : JsString) : Option FileRow := Table.find FileRow.id id db.files

/-- The upload status of a chunk. -/
def chunkStatus (db : Database) (id : JsString) : Option ChunkStatus :=
  (db.findChunk id).map Chunk.ul_status

/-- The upload status of a file. -/
def fileStatus (db : Database) (id : JsString) : Option FileStatus :=
  (db.findFile id).map FileRow.ul_status

/-- `FileMap.allBy('file_id', fileId)`, with the chunk ids plucked. -/
def chunkIdsOf (db : Database) (fileId : JsString) : List JsString :=
  (db.fileMaps.filter fun m => m.file_id = fileId).map FileMap.chunk_id

/-- The files of a chunk: `FileMap.findAll({where: {chunk_id}})`, with the file ids plucked. -/
def fileIdsOf (db : Database) (chunkId : JsString) : List JsString :=
  (db.fileMaps.filter fun m => m.chunk_id = chunkId).map FileMap.file_id

/-- The chunk belongs to the file. -/
def Mapped (db : Database) (fileId chunkId : JsString) : Prop := chunkId ∈ db.chunkIdsOf fileId

instance (db : Database) (fileId chunkId : JsString) : Decidable (db.Mapped fileId chunkId) :=
  inferInstanceAs (Decidable (_ ∈ _))

/-! ## Statements on chunks -/

/-- `Chunk.update(f, {where: p})`. -/
def updateChunks (p : Chunk → Bool) (f : Chunk → Chunk) (db : Database) : Database :=
  { db with chunks := Table.update p f db.chunks }

/-- `Chunk.bulkCreate(…, {ignoreDuplicates: true})` of `enqueueChunksForUpload`. -/
def bulkCreateChunks (ids : List JsString) (db : Database) : Database :=
  let entries := ids.map fun id =>
    ({ id, ul_status := .enqueued, dl_status := .completed } : Chunk)
  { db with chunks := Table.insertIgnore Chunk.id entries db.chunks }

/-- `Chunk.findByIdOrCreate`, as far as it writes. -/
def createChunk (id : JsString) (db : Database) : Database :=
  { db with chunks := Table.insertIgnore Chunk.id [{ id }] db.chunks }

/-- The statement of `enqueueChunksForUpload` that fixes the statuses of existing entries. Its
`include` does not restrict an update, so that it concerns the chunks of all files. -/
def fixStatuses : Database → Database :=
  updateChunks (fun chunk => chunk.ul_status = .notStarted || chunk.ul_status = .failed)
    fun chunk => { chunk with ul_status := .enqueued, dl_status := .completed }

/-- The statement by which `uploadLoop` claims a chunk. -/
def claimChunk (id : JsString) (expires : ℕ) : Database → Database :=
  updateChunks (fun chunk => chunk.id = id &&
      !(chunk.ul_status = .failed || chunk.ul_status = .completed))
    fun chunk => { chunk with ul_status := .inProgress, expires := some expires }

/-- The statement of `markChunkAsSuccessfulUpload`. -/
def completeChunk (id : JsString) : Database → Database :=
  updateChunks (fun chunk => chunk.id = id && chunk.ul_status = .inProgress)
    fun chunk => { chunk with ul_status := .completed }

/-- The statement of `markAsFailedOrRestart`. -/
def failOrRestartChunk (id : JsString) (ul_status : ChunkStatus) (retry_count : ℕ) :
    Database → Database :=
  updateChunks (fun chunk => chunk.id = id && chunk.ul_status = .inProgress)
    fun chunk => { chunk with ul_status, retry_count }

/-- Either statement of `restartUploadsDownloads`; both name the column `ul_status`, and both
classes of statuses have the same words. -/
def restartUploadsDownloads : Database → Database :=
  updateChunks (fun chunk => chunk.ul_status = .inProgress)
    fun chunk => { chunk with ul_status := .enqueued }

/-- An instance of a chunk in memory: its fields, and which of them `changed()` names. -/
structure Instance where
  id : JsString
  dl_status : DownloadStatus
  ul_status : ChunkStatus
  dlChanged : Bool := false
  ulChanged : Bool := false
  deriving DecidableEq

/-- `chunk.dl_status = …`. -/
def Instance.setDl (chunk : Instance) (dl_status : DownloadStatus) : Instance :=
  { chunk with dl_status, dlChanged := chunk.dlChanged || chunk.dl_status != dl_status }

/-- `chunk.ul_status = …`. -/
def Instance.setUl (chunk : Instance) (ul_status : ChunkStatus) : Instance :=
  { chunk with ul_status, ulChanged := chunk.ulChanged || chunk.ul_status != ul_status }

/-- `chunk.save()`: the changed fields of the instance. -/
def saveChunk (m : Instance) : Database → Database :=
  updateChunks (fun chunk => chunk.id = m.id) fun chunk =>
    { chunk with
      dl_status := if m.dlChanged then m.dl_status else chunk.dl_status
      ul_status := if m.ulChanged then m.ul_status else chunk.ul_status }

/-! ## Statements on files -/

/-- `File.findByIdOrCreate`. -/
def createFile (id : JsString) (db : Database) : Database :=
  { db with files := Table.insertIgnore FileRow.id [{ id }] db.files }

/-- `File.update(f, {where: {id, ul_status}})`. -/
def updateFile (id : JsString) (p : FileStatus → Bool) (f : FileRow → FileRow) (db : Database) :
    Database :=
  { db with files := Table.update (fun file => file.id = id && p file.ul_status) f db.files }

/-- A file that has not been started is IN_PROGRESS, and has its size. -/
def markFileAsBeingUploaded (fileId : JsString) (fileSize : ℕ) : Database → Database :=
  updateFile fileId (· = .notStarted) fun file =>
    { file with size := some fileSize, ul_status := .inProgress }

/-- A file that is not COMPLETED is FAILED. -/
def markFileAsFailedUpload (fileId : JsString) : Database → Database :=
  updateFile fileId (· ≠ .completed) fun file => { file with ul_status := .failed }

/-- `updateFileUlStatus`: a failure does not replace a completion. -/
def updateFileUlStatus (fileId : JsString) (ul_status : FileStatus) : Database → Database :=
  updateFile fileId (fun old => !(ul_status = .failed && old = .completed)) fun file =>
    { file with ul_status }

/-- `FileMap.bulkCreate(…, {ignoreDuplicates: true})`. -/
def bulkCreateFileMaps (fileId : JsString) (chunkIds : List (ℤ × JsString)) (db : Database) :
    Database :=
  let entries := chunkIds.map fun (offset, chunk_id) =>
    ({ file_id := fileId, chunk_id, offset } : FileMap)
  { db with fileMaps := Table.insertIgnore id entries db.fileMaps }

/-! ## What the statements do -/

section

variable {db : Database} {c fileId : JsString}

theorem chunkStatus_updateChunks {p : Chunk → Bool} {f : Chunk → Chunk}
    (hf : ∀ chunk, (f chunk).id = chunk.id) :
    (db.updateChunks p f).chunkStatus c =
      (db.findChunk c).map fun chunk => if p chunk then (f chunk).ul_status else chunk.ul_status := by
  unfold chunkStatus findChunk updateChunks
  rw [Table.find_update hf, Option.map_map]
  congr 1
  funext chunk
  show (if p chunk then f chunk else chunk).ul_status = _
  split <;> rfl

/-- The status of a chunk after an update whose condition is on the id and the status. -/
theorem chunkStatus_update (q : JsString → ChunkStatus → Bool) {f : Chunk → Chunk}
    (st : ChunkStatus) (hid : ∀ chunk, (f chunk).id = chunk.id)
    (hst : ∀ chunk, (f chunk).ul_status = st) :
    (db.updateChunks (fun chunk => q chunk.id chunk.ul_status) f).chunkStatus c =
      (db.chunkStatus c).map fun old => if q c old then st else old := by
  rw [chunkStatus_updateChunks hid]
  unfold chunkStatus
  rw [Option.map_map]
  cases hc : db.findChunk c with
  | none => rfl
  | some chunk =>
    have hkey : chunk.id = c := Table.key_of_find hc
    show some (if q chunk.id chunk.ul_status then (f chunk).ul_status else chunk.ul_status) =
      some (if q c chunk.ul_status then st else chunk.ul_status)
    rw [hst, hkey]

/-- New chunks are ENQUEUED, those that are there stay. -/
theorem chunkStatus_bulkCreateChunks (ids : List JsString) :
    (db.bulkCreateChunks ids).chunkStatus c =
      (db.chunkStatus c).or (if c ∈ ids then some .enqueued else none) := by
  unfold chunkStatus findChunk bulkCreateChunks
  simp only [Table.find_insertIgnore]
  rw [Option.map_or]
  congr 1
  induction ids with
  | nil => rfl
  | cons id ids ih =>
    by_cases hid : id = c
    · subst hid
      simp [Table.find]
    · have hne : c ≠ id := fun h => hid h.symm
      simp only [List.map_cons, List.mem_cons, hne, false_or]
      rw [← ih]
      unfold Table.find
      rw [List.find?_cons_of_neg (by simpa using hid)]

/-- A new chunk is NOT_STARTED, one that is there stays. -/
theorem chunkStatus_createChunk (id : JsString) :
    (db.createChunk id).chunkStatus c =
      (db.chunkStatus c).or (if c = id then some .notStarted else none) := by
  unfold chunkStatus findChunk createChunk
  rw [Table.find_insertIgnore, Option.map_or]
  congr 1
  by_cases hid : id = c
  · subst hid
    simp [Table.find]
  · have hne : c ≠ id := fun h => hid h.symm
    simp [Table.find, hid, hne]

/-- Chunks that have not started or have failed are ENQUEUED. -/
theorem chunkStatus_fixStatuses :
    (db.fixStatuses).chunkStatus c = (db.chunkStatus c).map fun old =>
      if old = .notStarted ∨ old = .failed then .enqueued else old := by
  unfold fixStatuses
  refine (chunkStatus_update (fun _ old => old = .notStarted || old = .failed)
    .enqueued ?_ ?_).trans ?_
  · exact fun _ => rfl
  · exact fun _ => rfl
  · congr 1
    funext old
    simp

/-- A chunk that is claimed is IN_PROGRESS unless it has ended. -/
theorem chunkStatus_claimChunk (id : JsString) (expires : ℕ) :
    (db.claimChunk id expires).chunkStatus c = (db.chunkStatus c).map fun old =>
      if c = id ∧ old ≠ .failed ∧ old ≠ .completed then .inProgress else old := by
  unfold claimChunk
  refine (chunkStatus_update (fun k old => k = id && !(old = .failed || old = .completed))
    .inProgress ?_ ?_).trans ?_
  · exact fun _ => rfl
  · exact fun _ => rfl
  · congr 1
    funext old
    simp

/-- A chunk that is IN_PROGRESS is COMPLETED. -/
theorem chunkStatus_completeChunk (id : JsString) :
    (db.completeChunk id).chunkStatus c = (db.chunkStatus c).map fun old =>
      if c = id ∧ old = .inProgress then .completed else old := by
  unfold completeChunk
  refine (chunkStatus_update (fun k old => k = id && old = .inProgress) .completed ?_ ?_).trans ?_
  · exact fun _ => rfl
  · exact fun _ => rfl
  · congr 1
    funext old
    simp

/-- A chunk that is IN_PROGRESS fails or is ENQUEUED again. -/
theorem chunkStatus_failOrRestartChunk (id : JsString) (st : ChunkStatus) (n : ℕ) :
    (db.failOrRestartChunk id st n).chunkStatus c = (db.chunkStatus c).map fun old =>
      if c = id ∧ old = .inProgress then st else old := by
  unfold failOrRestartChunk
  refine (chunkStatus_update (fun k old => k = id && old = .inProgress) st ?_ ?_).trans ?_
  · exact fun _ => rfl
  · exact fun _ => rfl
  · congr 1
    funext old
    simp

/-- Chunks that are IN_PROGRESS are ENQUEUED again. -/
theorem chunkStatus_restart :
    (db.restartUploadsDownloads).chunkStatus c = (db.chunkStatus c).map fun old =>
      if old = .inProgress then .enqueued else old := by
  unfold restartUploadsDownloads
  refine (chunkStatus_update (fun _ old => old = .inProgress) .enqueued ?_ ?_).trans ?_
  · exact fun _ => rfl
  · exact fun _ => rfl
  · congr 1
    funext old
    simp

/-- A copy whose status has changed is written, whatever the row says. -/
theorem chunkStatus_saveChunk (m : Instance) :
    (db.saveChunk m).chunkStatus c = (db.chunkStatus c).map fun old =>
      if c = m.id ∧ m.ulChanged then m.ul_status else old := by
  unfold saveChunk
  refine (chunkStatus_updateChunks ?_).trans ?_
  · exact fun _ => rfl
  unfold chunkStatus
  rw [Option.map_map]
  cases hc : db.findChunk c with
  | none => rfl
  | some chunk =>
    have hkey : chunk.id = c := Table.key_of_find hc
    show some (if decide (chunk.id = m.id) then
        if m.ulChanged then m.ul_status else chunk.ul_status else chunk.ul_status) =
      some (if c = m.id ∧ m.ulChanged then m.ul_status else chunk.ul_status)
    rw [hkey]
    by_cases hid : c = m.id
    · simp [hid]
    · simp [hid]

/-- A new file is NOT_STARTED, one that is there stays. -/
theorem fileStatus_createFile :
    (db.createFile fileId).fileStatus c =
      (db.fileStatus c).or (if c = fileId then some .notStarted else none) := by
  unfold fileStatus findFile createFile
  rw [Table.find_insertIgnore, Option.map_or]
  congr 1
  by_cases hid : fileId = c
  · subst hid
    simp [Table.find]
  · have hne : c ≠ fileId := fun h => hid h.symm
    simp [Table.find, hid, hne]

/-- The status is written where the condition holds. -/
theorem fileStatus_updateFile {p : FileStatus → Bool} {f : FileRow → FileRow} (st : FileStatus)
    (hid : ∀ file, (f file).id = file.id) (hst : ∀ file, (f file).ul_status = st) :
    (db.updateFile fileId p f).fileStatus c = (db.fileStatus c).map fun old =>
      if c = fileId ∧ p old then st else old := by
  unfold fileStatus findFile updateFile
  rw [Table.find_update hid, Option.map_map, Option.map_map]
  cases hc : Table.find FileRow.id c db.files with
  | none => rfl
  | some file =>
    have hkey : file.id = c := Table.key_of_find hc
    show some (if _ then f file else file).ul_status = some (if _ then st else file.ul_status)
    rw [hkey]
    simp only [Bool.and_eq_true, decide_eq_true_eq]
    split
    · rw [hst]
    · rfl

/-- The chunks of the file are added. -/
theorem mapped_bulkCreateFileMaps {chunkIds : List (ℤ × JsString)} {F : JsString} :
    (db.bulkCreateFileMaps fileId chunkIds).Mapped F c ↔
      db.Mapped F c ∨ F = fileId ∧ c ∈ chunkIds.map Prod.snd := by
  unfold Mapped chunkIdsOf bulkCreateFileMaps
  simp only [List.mem_map, List.mem_filter, Table.mem_insertIgnore_id, decide_eq_true_eq]
  constructor
  · rintro ⟨m, ⟨hm | ⟨entry, hentry, rfl⟩, hfile⟩, rfl⟩
    · exact .inl ⟨m, ⟨hm, hfile⟩, rfl⟩
    · exact .inr ⟨hfile.symm, entry, hentry, rfl⟩
  · rintro (⟨m, ⟨hm, hfile⟩, rfl⟩ | ⟨rfl, entry, hentry, rfl⟩)
    · exact ⟨m, ⟨.inl hm, hfile⟩, rfl⟩
    · exact ⟨_, ⟨.inr ⟨entry, hentry, rfl⟩, rfl⟩, rfl⟩

/-- A chunk is mapped to the files that are listed for it. -/
theorem mapped_iff_fileIdsOf {F : JsString} : db.Mapped F c ↔ F ∈ db.fileIdsOf c := by
  unfold Mapped chunkIdsOf fileIdsOf
  simp only [List.mem_map, List.mem_filter, decide_eq_true_eq]
  constructor
  · rintro ⟨m, ⟨hm, hfile⟩, hchunk⟩
    exact ⟨m, ⟨hm, hchunk⟩, hfile⟩
  · rintro ⟨m, ⟨hm, hchunk⟩, hfile⟩
    exact ⟨m, ⟨hm, hfile⟩, hchunk⟩

end

end Database

end PointNetwork.Uploader
