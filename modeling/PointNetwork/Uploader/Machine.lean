import PointNetwork.Machine
import PointNetwork.Uploader.Store

/-!
# The uploader

The functions that read and write the upload tables, as tasks that run side by side:
`uploadData` with `enqueueChunksForUpload` and `waitForFileToUpload`, `uploadLoop`, the upload
workers, `getChunk`, the progress updates, and `restartUploadsDownloads`.

A step completes one awaited operation of one task and runs the task up to its next await; the
answers of disk, network and clock come with the event. A statement of a task may fail, except
those of the progress updates. The loop can be started at any time, which covers every
`setTimeout` and `setSoon` that starts it, and finds a free worker or not.

`acknowledged` and `obtained` record, for the statements, what the network has answered.
-/

namespace PointNetwork.Uploader

open Js Storage

/-- The configuration. `sources` is the number of places `getChunk` tries. -/
structure Config where
  hashFn : HashFn
  CHUNK_SIZE : ℕ
  UPLOAD_RETRY_LIMIT : ℕ
  CONCURRENT_UPLOAD_LIMIT : ℕ
  UPLOAD_EXPIRE : ℕ
  sources : ℕ

/-! ## The tasks -/

/-- What a call of `uploadData` awaits. -/
inductive UploadPhase
  | createFile
  | createChunks
  | fixStatuses
  | createFileMaps
  | markFile
  /-- `waitForFileToUpload` reads the status of the file. -/
  | readStatus
  /-- The event that the status has changed. -/
  | waiting
  /-- `markFileAsFailedUpload` of the catch branch. -/
  | markFailed
  | resolved
  | rejected
  deriving DecidableEq

/-- A call of `uploadData`. -/
structure Upload where
  fileId : JsString
  size : ℕ
  chunkIds : List (ℤ × JsString)
  waitForUpload : Bool
  phase : UploadPhase
  deriving DecidableEq

/-- What an upload worker awaits. -/
inductive WorkerPhase
  | readFile
  /-- `doesChunkExistOnTheNetwork`. -/
  | head
  | post
  /-- The row in `markChunkAsSuccessfulUpload`. -/
  | findForMark
  | mark
  | progress
  | settled (resolved : Bool)
  /-- The row in `markAsFailedOrRestart`. -/
  | findForRestart
  | restart (ul_status : ChunkStatus) (retry_count : ℕ)
  | done
  deriving DecidableEq

/-- A chunk that is being uploaded. -/
structure Worker where
  chunkId : JsString
  phase : WorkerPhase
  deriving DecidableEq

/-- What `uploadLoop` awaits. -/
inductive LoopPhase
  | findAwaiting
  | findStale (awaiting : List JsString)
  /-- The row of the next chunk. -/
  | find (chunksToUpload : List JsString)
  | claim (chunkId : JsString) (chunksToUpload : List JsString)
  deriving DecidableEq

/-- What a call of `getChunk` awaits. -/
inductive DownloadPhase
  | find (useCache : Bool)
  /-- The event that the download status has changed. -/
  | waiting
  | saveInProgress (chunk : Database.Instance)
  | source (chunk : Database.Instance) (remaining : ℕ)
  | saveCompleted (chunk : Database.Instance) (remaining : ℕ)
  | saveFailed (chunk : Database.Instance)
  | done
  deriving DecidableEq

/-- A call of `getChunk`. -/
structure Download where
  chunkId : JsString
  phase : DownloadPhase
  deriving DecidableEq

/-- The store, with all tasks of the process. -/
structure State where
  store : Store
  uploads : List Upload
  loop : Option LoopPhase
  workers : List Worker
  downloads : List Download
  /-- The chunks that the bundler has acknowledged, or whose HEAD request it has answered. -/
  acknowledged : List JsString
  /-- What the sources of `getChunk` have given, with the chunk asked for. -/
  obtained : List (JsString × Bytes)

/-- No task has started. -/
def State.init : State := ⟨.init, [], none, [], [], [], []⟩

/-! ## The events -/

/-- How an awaited operation ends: a refusal is an answer that is not the one hoped for. -/
inductive Answer
  | ok
  | refused
  | throws
  deriving DecidableEq

/-- The calls, and the steps of the tasks. -/
inductive Event
  | uploadData (data : Bytes) (waitForUpload : Bool)
  | upload (i : ℕ) (throws : Bool)
  | uploadLoop
  /-- A step of the loop: the rows that the query gives, the time, whether there is a free worker
  and the node is online, and whether the statement fails. -/
  | loop (rows : List JsString) (now : ℕ) (available throws : Bool)
  | worker (i : ℕ) (answer : Answer)
  | processQueue
  | progress
  | getChunk (chunkId : JsString) (useCache : Bool)
  /-- A step of a download: what the source gives, and whether the file is there, or the disk or
  the statement does its work. -/
  | download (i : ℕ) (bytes : Option Bytes) (ok : Bool)
  | restartUploadsDownloads
  | exit
  deriving DecidableEq

/-- The offsets of `Object.entries(chunks)`: the info chunk has -1 and comes last. -/
def chunkOffsets (n : ℕ) : List ℤ :=
  if n ≤ 1 then (List.range n).map fun (i : ℕ) => (i : ℤ)
  else (List.range (n - 1)).map (fun (i : ℕ) => (i : ℤ)) ++ [-1]

section

variable (cfg : Config)

/-! ## Uploads -/

/-- A call of `uploadData`, at its first statement. -/
def Upload.start (data : Bytes) (waitForUpload : Bool) : Upload :=
  let (fileId, chunks) := fileChunks cfg.hashFn cfg.CHUNK_SIZE data
  { fileId
    size := data.length
    chunkIds := (chunkOffsets chunks.length).zip (chunks.map cfg.hashFn.id)
    waitForUpload
    phase := .createFile }

/-- The next statement of a call, and the phase after it. Before the file is marked, an error is
thrown to the caller; from there on `uploadData` catches it. -/
def Upload.next (u : Upload) (db : Database) (throws : Bool) : Option (Statement × UploadPhase) :=
  match u.phase, throws with
  | .createFile, false => some (.createFile u.fileId, .createChunks)
  | .createChunks, false => some (.bulkCreateChunks (u.chunkIds.map Prod.snd), .fixStatuses)
  | .fixStatuses, false => some (.fixStatuses, .createFileMaps)
  | .createFileMaps, false => some (.createFileMaps u.fileId u.chunkIds, .markFile)
  | .createFile, true => some (.nothing, .rejected)
  | .createChunks, true => some (.nothing, .rejected)
  | .fixStatuses, true => some (.nothing, .rejected)
  | .createFileMaps, true => some (.nothing, .rejected)
  | .markFile, false =>
    some (.markFileAsBeingUploaded u.fileId u.size,
      if u.waitForUpload then .readStatus else .resolved)
  | .markFile, true => some (.nothing, .markFailed)
  | .readStatus, false =>
    match db.fileStatus u.fileId with
    | none => some (.nothing, .markFailed)
    | some status =>
      -- the status is returned, and `uploadData` does not look at it
      if status = .completed ∨ status = .failed then some (.nothing, .resolved)
      else some (.nothing, .waiting)
  | .readStatus, true => some (.nothing, .markFailed)
  | .markFailed, false => some (.markFileAsFailedUpload u.fileId, .rejected)
  | .markFailed, true => some (.nothing, .rejected)
  | .waiting, _ => none
  | .resolved, _ => none
  | .rejected, _ => none

/-- The calls that wait for a file read its status again. -/
def wake (fileId : JsString) (uploads : List Upload) : List Upload :=
  uploads.map fun u =>
    if u.fileId = fileId ∧ u.phase = .waiting then { u with phase := .readStatus } else u

/-! ## The loop and the workers -/

/-- The lease of the chunk is over. -/
def Chunk.isExpired (chunk : Chunk) (now : ℕ) : Bool :=
  match chunk.expires with
  | some expires => expires < now
  | none => false

/-- The rows that `uploadLoop` may find: at most as many as the limit, each meeting the condition. -/
def mayFind (rows : List JsString) (db : Database) (p : Chunk → Bool) : Bool :=
  rows.length ≤ cfg.CONCURRENT_UPLOAD_LIMIT &&
    rows.all fun id => match db.findChunk id with
      | some chunk => p chunk
      | none => false

/-- Go on with the next chunk, if there is one and a worker is free. -/
def LoopPhase.goOn (chunksToUpload : List JsString) (available : Bool) : Option LoopPhase :=
  if chunksToUpload ≠ [] ∧ available then some (.find chunksToUpload) else none

/-- A step of `uploadLoop`: the statement, the loop after it, and the chunk a worker starts on. -/
def LoopPhase.next (phase : LoopPhase) (db : Database) (rows : List JsString) (now : ℕ)
    (available throws : Bool) : Option (Statement × Option LoopPhase × Option JsString) :=
  match throws, phase with
  | true, _ => some (.nothing, none, none)
  | false, .findAwaiting =>
    if mayFind cfg rows db fun chunk => chunk.ul_status = .enqueued then
      some (.nothing, some (.findStale rows), none)
    else none
  | false, .findStale awaiting =>
    if mayFind cfg rows db fun chunk => chunk.ul_status = .inProgress && chunk.isExpired now then
      some (.nothing, goOn (awaiting ++ rows) available, none)
    else none
  | false, .find [] => some (.nothing, none, none)
  | false, .find (chunkId :: rest) =>
    match db.findChunk chunkId with
    | none => some (.nothing, none, none)
    | some chunk =>
      if chunk.ul_status = .enqueued ∨ (chunk.ul_status = .inProgress ∧ chunk.isExpired now) then
        some (.nothing, some (.claim chunkId rest), none)
      else some (.nothing, goOn rest available, none)
  | false, .claim chunkId rest =>
    some (.claimChunk chunkId (now + cfg.UPLOAD_EXPIRE), goOn rest available, some chunkId)

/-- `retry_count` and the status after a failure, from the row that `markAsFailedOrRestart` finds. -/
def afterFailure (chunk : Chunk) : WorkerPhase :=
  if chunk.ul_status = .inProgress then
    .restart (if cfg.UPLOAD_RETRY_LIMIT ≤ chunk.retry_count then .failed else .enqueued)
      (chunk.retry_count + 1)
  else .done

/-- A step of `doChunkUpload` by the worker `i`: the statement, the phase after it, and whether
the bundler has acknowledged the chunk. -/
def Worker.next (w : Worker) (i : ℕ) (db : Database) (answer : Answer) :
    Option (Statement × WorkerPhase × Bool) :=
  match w.phase with
  | .readFile =>
    some (.nothing, if answer = .throws then .findForRestart else .head, false)
  | .head =>
    -- an error of the request counts as a missing chunk
    if answer = .ok then some (.nothing, .findForMark, true) else some (.nothing, .post, false)
  | .post =>
    if answer = .ok then some (.nothing, .findForMark, true)
    else some (.nothing, .findForRestart, false)
  | .findForMark =>
    if answer = .throws then some (.nothing, .findForRestart, false)
    else
      match db.findChunk w.chunkId with
      | none => some (.nothing, .findForRestart, false)
      | some chunk =>
        if chunk.ul_status = .inProgress then some (.nothing, .mark, false)
        else some (.nothing, .done, false)
  | .mark =>
    if answer = .throws then some (.nothing, .findForRestart, false)
    else some (.completeChunk w.chunkId i, .progress, false)
  | .progress => none
  | .settled resolved =>
    some (.nothing, if resolved then .done else .findForRestart, false)
  | .findForRestart =>
    if answer = .throws then some (.nothing, .done, false)
    else
      match db.findChunk w.chunkId with
      | none => some (.nothing, .done, false)
      | some chunk => some (.nothing, afterFailure cfg chunk, false)
  | .restart ul_status retry_count =>
    if answer = .throws then some (.nothing, .done, false)
    else some (.failOrRestartChunk w.chunkId ul_status retry_count, .done, false)
  | .done => none

/-- The worker whose promise is settled goes on. -/
def settle (settled : Progress.Settled) (workers : List Worker) : List Worker :=
  match settled with
  | none => workers
  | some (i, resolved) =>
    match workers[i]? with
    | none => workers
    | some w => workers.set i { w with phase := .settled resolved }

/-! ## Downloads -/

/-- The row in memory after `findByIdOrCreate`. -/
def instanceOf (chunkId : JsString) (db : Database) : Database.Instance :=
  match db.findChunk chunkId with
  | some chunk => { id := chunkId, dl_status := chunk.dl_status, ul_status := chunk.ul_status }
  | none => { id := chunkId, dl_status := .notStarted, ul_status := .notStarted }

/-- A step of `getChunk`: the statement, the phase after it, and the bytes obtained. -/
def Download.next (d : Download) (db : Database) (bytes : Option Bytes) (ok : Bool) :
    Option (Statement × DownloadPhase × Option Bytes) :=
  match d.phase with
  | .find useCache =>
    let chunk := instanceOf d.chunkId db
    let phase :=
      if useCache ∧ chunk.dl_status = .completed ∧ ok then .done
      else if chunk.dl_status = .inProgress then .waiting
      else .saveInProgress (chunk.setDl .inProgress)
    some (.createChunk d.chunkId, phase, none)
  | .waiting => some (.nothing, .find true, none)
  | .saveInProgress chunk =>
    if ok then
      some (.saveChunk chunk,
        .source { chunk with dlChanged := false, ulChanged := false } cfg.sources, none)
    else some (.nothing, .done, none)
  | .source chunk 0 => some (.nothing, .saveFailed (chunk.setDl .failed), none)
  | .source chunk (remaining + 1) =>
    match bytes with
    | none => some (.nothing, .source chunk remaining, none)
    | some b =>
      -- `validateIntegrity`, and the file is written
      if cfg.hashFn.id b = d.chunkId ∧ ok then
        some (.nothing, .saveCompleted ((chunk.setDl .completed).setUl .completed) remaining,
          some b)
      else some (.nothing, .source chunk remaining, some b)
  | .saveCompleted chunk remaining =>
    if ok then some (.saveChunk chunk, .done, none)
    -- the instance keeps its changed fields
    else some (.nothing, .source chunk remaining, none)
  | .saveFailed chunk => some (if ok then .saveChunk chunk else .nothing, .done, none)
  | .done => none

/-! ## The step -/

/-- Carry out a statement: the store, the workers and the waiting calls after it. -/
def State.perform (s : State) (statement : Statement) : State :=
  let r := s.store.perform statement
  { s with
    store := r.1
    workers := settle r.2 s.workers
    uploads := match s.store.wakes statement with
      | some fileId => wake fileId s.uploads
      | none => s.uploads }

/-- What a task does in an event: its statement, and the tasks without what the statement does to
them. -/
def issue (s : State) : Event → Option (Statement × State)
  | .uploadData data waitForUpload =>
    some (.nothing, { s with uploads := s.uploads ++ [.start cfg data waitForUpload] })
  | .upload i throws =>
    (s.uploads[i]?).bind fun u =>
      (u.next s.store.db throws).map fun (statement, phase) =>
        (statement, { s with uploads := s.uploads.set i { u with phase } })
  | .uploadLoop =>
    -- `isUploadLoopActive`
    if s.loop = none then some (.nothing, { s with loop := some .findAwaiting })
    else some (.nothing, s)
  | .loop rows now available throws =>
    s.loop.bind fun phase =>
      (phase.next cfg s.store.db rows now available throws).map fun (statement, loop, start) =>
        (statement, { s with
          loop
          workers := s.workers ++ (start.map fun chunkId => ⟨chunkId, .readFile⟩).toList })
  | .worker i answer =>
    (s.workers[i]?).bind fun w =>
      (w.next cfg i s.store.db answer).map fun (statement, phase, acknowledged) =>
        (statement, { s with
          workers := s.workers.set i { w with phase }
          acknowledged :=
            if acknowledged then w.chunkId :: s.acknowledged else s.acknowledged })
  | .processQueue => some (.processQueue, s)
  | .progress =>
    s.store.progress.active.map fun _ => (.advance, s)
  | .getChunk chunkId useCache =>
    some (.nothing, { s with downloads := s.downloads ++ [⟨chunkId, .find useCache⟩] })
  | .download i bytes ok =>
    (s.downloads[i]?).bind fun d =>
      (d.next cfg s.store.db bytes ok).map fun (statement, phase, obtained) =>
        (statement, { s with
          downloads := s.downloads.set i { d with phase }
          obtained := (obtained.map fun b => (d.chunkId, b)).toList ++ s.obtained })
  | .restartUploadsDownloads => some (.restartUploadsDownloads, s)
  | .exit => some (.exit, { s with uploads := [], loop := none, workers := [], downloads := [] })

/-- The task issues its statement, and the store carries it out. -/
def step (s : State) (e : Event) : Option State :=
  (issue cfg s e).map fun (statement, s') => s'.perform statement

end

end PointNetwork.Uploader
