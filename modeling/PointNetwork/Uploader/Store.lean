import PointNetwork.Uploader.Progress

/-!
# The statements of the uploader

What the uploader's functions share is the store: the tables and the memory of the progress
updates. A function touches it at the statements it awaits; `Statement` lists them, each with
the part of the function that follows it up to the next await, and `perform` carries them out.
-/

namespace PointNetwork.Uploader

open Js Storage

/-- The tables and the progress updates. -/
structure Store where
  db : Database
  progress : Progress

/-- Nothing has been stored. -/
def Store.init : Store := ⟨.init, .init⟩

/-- The statements of the tasks, and the calls that begin an update. -/
inductive Statement
  /-- A query, or a statement that has failed. -/
  | nothing
  | createFile (fileId : JsString)
  | bulkCreateChunks (chunkIds : List JsString)
  | fixStatuses
  /-- The file maps of `enqueueChunksForUpload`, and the file becomes a parent of the chunks. -/
  | createFileMaps (fileId : JsString) (chunkIds : List (ℤ × JsString))
  | markFileAsBeingUploaded (fileId : JsString) (fileSize : ℕ)
  | markFileAsFailedUpload (fileId : JsString)
  | claimChunk (chunkId : JsString) (expires : ℕ)
  /-- The statement of `markChunkAsSuccessfulUpload`, and the progress update is enqueued. -/
  | completeChunk (chunkId : JsString) (worker : ℕ)
  | failOrRestartChunk (chunkId : JsString) (ul_status : ChunkStatus) (retry_count : ℕ)
  | createChunk (chunkId : JsString)
  | saveChunk (chunk : Database.Instance)
  | restartUploadsDownloads
  | processQueue
  /-- The statement that the running progress update awaits. -/
  | advance
  /-- The process ends, and its memory with it. -/
  | exit
  deriving DecidableEq

namespace Store

/-- The statement of the running update, if it writes. -/
def writeFile (s : Store) : Database :=
  match s.progress.active with
  | some ⟨_, _, .write file status _⟩ => s.db.updateFileUlStatus file status
  | _ => s.db

/-- `modificationHook` after a save. `changed()` is an array, and its field `ul_status` undefined,
so that the cached status is not replaced but removed. -/
def modificationHook (chunk : Database.Instance) (m : Memory) : Memory :=
  if chunk.ulChanged then m.setChunk chunk.id none else m

/-- The tables after a statement. -/
def dbAfter (s : Store) : Statement → Database
  | .nothing => s.db
  | .createFile fileId => s.db.createFile fileId
  | .bulkCreateChunks chunkIds => s.db.bulkCreateChunks chunkIds
  | .fixStatuses => s.db.fixStatuses
  | .createFileMaps fileId chunkIds => s.db.bulkCreateFileMaps fileId chunkIds
  | .markFileAsBeingUploaded fileId fileSize => s.db.markFileAsBeingUploaded fileId fileSize
  | .markFileAsFailedUpload fileId => s.db.markFileAsFailedUpload fileId
  | .claimChunk chunkId expires => s.db.claimChunk chunkId expires
  | .completeChunk chunkId _ => s.db.completeChunk chunkId
  | .failOrRestartChunk chunkId ul_status retry_count =>
    s.db.failOrRestartChunk chunkId ul_status retry_count
  | .createChunk chunkId => s.db.createChunk chunkId
  | .saveChunk m => s.db.saveChunk m
  | .restartUploadsDownloads => s.db.restartUploadsDownloads
  | .processQueue => s.db
  | .advance => s.writeFile
  | .exit => s.db

/-- The memory of the progress updates after a statement, and the worker whose promise this
settles. -/
def progressAfter (s : Store) : Statement → Progress × Progress.Settled
  | .createFileMaps fileId chunkIds =>
    ({ s.progress with memory := s.progress.memory.addParents fileId (chunkIds.map Prod.snd) }, none)
  | .completeChunk chunkId worker => s.progress.updateChunkProgressAsCompleted chunkId worker
  | .saveChunk chunk =>
    ({ s.progress with memory := modificationHook chunk s.progress.memory }, none)
  | .processQueue => s.progress.processQueue
  | .advance =>
    match s.progress.active with
    | none => (s.progress, none)
    | some u => Progress.advance s.db u s.progress.memory
  | .exit => (.init, none)
  | _ => (s.progress, none)

/-- Carry out a statement. -/
def perform (s : Store) (statement : Statement) : Store × Progress.Settled :=
  let r := s.progressAfter statement
  (⟨s.dbAfter statement, r.1⟩, r.2)

/-- The file whose waiters a statement wakes: `File.update` processes the queue of the event
`FILE_UPLOAD_STATUS_CHANGED` of the file whose status it names, whether or not a row changes. -/
def wakes (s : Store) : Statement → Option JsString
  | .markFileAsBeingUploaded fileId _ => some fileId
  | .markFileAsFailedUpload fileId => some fileId
  | .advance =>
    match s.progress.active with
    | some ⟨_, _, .write file _ _⟩ => some file
    | _ => none
  | _ => none

end Store

end PointNetwork.Uploader
