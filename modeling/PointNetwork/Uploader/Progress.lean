import PointNetwork.Uploader.Database

/-!
# The progress of uploads

The caches of `client/storage/progress.ts` and the queue of progress updates, for files that no
directory lists. A completed upload of a chunk enqueues an update (`updateChunkProgressAsCompleted`),
`processQueue` starts one at a time, and `realUpdateChunkProgress` counts, for each file of the
chunk, the statuses of its chunks (`updateFileProgress`).

An update is cut where it awaits a statement: `Stage` is the statement awaited, `advance` what
follows it. The size of a file and its progress number are left out.
-/

namespace PointNetwork.Uploader

open Js Storage

/-- `FileUploadStructure`. -/
structure FileUpload where
  uploaded : Bool := false
  failed : Bool := false
  chunk_ids : List JsString
  deriving DecidableEq

/-- The statement that an update awaits. `rest` are the files still to be updated after this one. -/
inductive Stage
  /-- The file maps of the chunk. -/
  | findParents
  /-- The file maps of a file. -/
  | findMaps (file : JsString) (rest : List JsString)
  /-- The row of a file. -/
  | findFile (file : JsString) (chunkIds rest : List JsString)
  /-- The row of a chunk whose status is not cached, after those counted so far. -/
  | count (file : JsString) (counted : List (JsString × ChunkStatus)) (chunkId : JsString)
      (todo rest : List JsString)
  /-- `updateFileUlStatus`. -/
  | write (file : JsString) (status : FileStatus) (rest : List JsString)
  deriving DecidableEq

/-- A progress update that runs: its chunk, the worker that awaits it, and where it stands. -/
structure Update where
  chunk_id : JsString
  worker : ℕ
  stage : Stage
  deriving DecidableEq

/-- The maps of `progress.ts` and its queue: `chunkParents` is `chunkParents_useKeysAsFileIDs`,
`queue` is `progressUpdateQueue`, with the worker that awaits each update. -/
structure Memory where
  fileUploadCache : JsString → Option FileUpload
  chunkUploadCache : JsString → Option ChunkStatus
  chunkParents : JsString → Option (List JsString)
  queue : List (JsString × ℕ)

/-- With the update that runs; there is one if `progressUpdateQueueActive` is set. -/
structure Progress where
  memory : Memory
  active : Option Update

namespace Memory

/-- The empty maps. -/
def init : Memory := ⟨fun _ => none, fun _ => none, fun _ => none, []⟩

/-- Puts the status of a chunk into the cache, or takes it out. -/
def setChunk (c : JsString) (status : Option ChunkStatus) (m : Memory) : Memory :=
  { m with chunkUploadCache := Function.update m.chunkUploadCache c status }

/-- Puts a file into the cache. -/
def setFile (file : JsString) (f : FileUpload) (m : Memory) : Memory :=
  { m with fileUploadCache := Function.update m.fileUploadCache file (some f) }

/-- The file has the chunk. -/
def addFileAsChunkParent (file c : JsString) (m : Memory) : Memory :=
  let files := (m.chunkParents c).getD []
  { m with
    chunkParents := Function.update m.chunkParents c
      (some (if file ∈ files then files else files ++ [file])) }

/-- The file becomes a parent of each of these chunks. -/
def addParents (file : JsString) (chunkIds : List JsString) (m : Memory) : Memory :=
  chunkIds.foldl (fun m c => addFileAsChunkParent file c m) m

/-- Each of these files becomes a parent of the chunk. -/
def addFiles (files : List JsString) (c : JsString) (m : Memory) : Memory :=
  files.foldl (fun m file => addFileAsChunkParent file c m) m

/-- Count cached statuses, up to the first chunk that has none. -/
def countCached (cache : JsString → Option ChunkStatus) :
    List (JsString × ChunkStatus) → List JsString → List (JsString × ChunkStatus) × List JsString
  | counted, [] => (counted, [])
  | counted, c :: todo =>
    match cache c with
    | some status => countCached cache (counted ++ [(c, status)]) todo
    | none => (counted, c :: todo)

/-- `counters[status]`. -/
def counter (counted : List (JsString × ChunkStatus)) (status : ChunkStatus) : ℕ :=
  (counted.map Prod.snd).count status

/-- The new status of a file whose chunks are counted, if any. A counter that was never set is not
equal to a total of 0. -/
def finalStatus (counted : List (JsString × ChunkStatus)) : Option FileStatus :=
  if 0 < counter counted .failed then some .failed
  else if counter counted .completed = counted.length ∧ counted ≠ [] then some .completed
  else none

/-- What `updateFileProgress` notes in its cache before it writes the status. -/
def setFlags (file : JsString) (status : FileStatus) (m : Memory) : Memory :=
  match m.fileUploadCache file with
  | some f => m.setFile file ⟨status = .completed, status = .failed, f.chunk_ids⟩
  | none => m

/-- The loop of `updateFileProgress` over the chunks of the file that are not counted yet, and
what follows it; `next` updates the remaining files. -/
def countChunks (file : JsString) (counted : List (JsString × ChunkStatus))
    (todo rest : List JsString) (next : Memory → Memory × Option Stage) (m : Memory) :
    Memory × Option Stage :=
  match countCached m.chunkUploadCache counted todo with
  | (counted, c :: todo) => (m, some (.count file counted c todo rest))
  | (counted, []) =>
    match finalStatus counted with
    | some status => (m.setFlags file status, some (.write file status rest))
    | none => next m

/-- The loop of `realUpdateChunkProgress` over the files of the chunk, up to the next statement. -/
def updateFiles : List JsString → Memory → Memory × Option Stage
  | [], m => (m, none)
  | file :: rest, m =>
    match m.fileUploadCache file with
    | none => (m, some (.findMaps file rest))
    | some f =>
      if f.uploaded || f.failed then updateFiles rest m
      else countChunks file [] f.chunk_ids rest (updateFiles rest) m

end Memory

namespace Progress

/-- No update has been asked for. -/
def init : Progress := ⟨.init, none⟩

/-- The worker whose promise is settled, and whether it is resolved. -/
abbrev Settled := Option (ℕ × Bool)

/-- Await the next statement; without one the update of the chunk is over. -/
def proceed (chunk_id : JsString) (worker : ℕ) (r : Memory × Option Stage) : Progress × Settled :=
  match r.2 with
  | some stage => (⟨r.1, some ⟨chunk_id, worker, stage⟩⟩, none)
  | none => (⟨r.1, none⟩, some (worker, true))

/-- The update throws, and the call that waits for it fails. -/
def reject (worker : ℕ) (m : Memory) : Progress × Settled := (⟨m, none⟩, some (worker, false))

/-- `realUpdateChunkProgress`, up to its first statement. -/
def realUpdateChunkProgress (chunk_id : JsString) (worker : ℕ) (m : Memory) :
    Progress × Settled :=
  let m := m.setChunk chunk_id (some .completed)
  match m.chunkParents chunk_id with
  | none => (⟨m, some ⟨chunk_id, worker, .findParents⟩⟩, none)
  | some files => proceed chunk_id worker (m.updateFiles files)

/-- Starts the update at the head of the queue, if none runs. -/
def processQueue (p : Progress) : Progress × Settled :=
  match p.active, p.memory.queue with
  | some _, _ => (p, none)
  | none, [] => (p, none)
  | none, (chunk_id, worker) :: queue =>
    realUpdateChunkProgress chunk_id worker { p.memory with queue }

/-- Puts the update of a chunk at the end of the queue. -/
def enqueue (chunk_id : JsString) (worker : ℕ) (p : Progress) : Progress :=
  { p with memory.queue := p.memory.queue ++ [(chunk_id, worker)] }

/-- A chunk has been uploaded. -/
def updateChunkProgressAsCompleted (chunk_id : JsString) (worker : ℕ) (p : Progress) :
    Progress × Settled :=
  (p.enqueue chunk_id worker).processQueue

/-- What follows the statement that the update `u` awaits. -/
def advance (db : Database) (u : Update) (m : Memory) : Progress × Settled :=
  match u.stage with
  | .findParents =>
    let m := m.addFiles (db.fileIdsOf u.chunk_id) u.chunk_id
    match m.chunkParents u.chunk_id with
    -- `Object.keys(undefined)` throws
    | none => reject u.worker m
    | some files => proceed u.chunk_id u.worker (m.updateFiles files)
  | .findMaps file rest =>
    proceed u.chunk_id u.worker (m, some (.findFile file (db.chunkIdsOf file) rest))
  | .findFile file chunkIds rest =>
    match db.findFile file with
    | none => reject u.worker m
    | some _ =>
      let m := (m.setFile file { chunk_ids := chunkIds }).addParents file chunkIds
      proceed u.chunk_id u.worker
        (m.countChunks file [] chunkIds rest (Memory.updateFiles rest))
  | .count file counted c todo rest =>
    match db.chunkStatus c with
    | none => reject u.worker m
    | some status =>
      let m := m.setChunk c (some status)
      proceed u.chunk_id u.worker
        (m.countChunks file (counted ++ [(c, status)]) todo rest (Memory.updateFiles rest))
  | .write _ _ rest => proceed u.chunk_id u.worker (m.updateFiles rest)

end Progress

end PointNetwork.Uploader
