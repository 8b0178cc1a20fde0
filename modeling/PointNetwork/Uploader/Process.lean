import PointNetwork.Uploader.ChunkTheorems

/-!
# The process of the uploader

What the uploader keeps in the memory of its process beside the tasks themselves: the slots of the
upload workers, the two flags of `uploadLoop`, the calls of it that are scheduled, and the clock. The
events of the tasks that depend on these are no longer free: the loop runs only when it has been
scheduled, and goes on with a chunk only if it gets a slot.

A slot is created when a chunk needs one and the limit allows it; it is taken by the loop, handed
to the upload of the chunk, and free again when this ends. `areWeOnline` is an async function, so that
`! areWeOnline()` is false whether the node is online or not, and the exit behind it is never taken.

The time that a query or a statement names is the one at which the loop begins to await it.
-/

namespace PointNetwork.Uploader

open Js Machine

/-- A call of `startChunkUpload`: its chunk and its slot, the lease that the claim of the chunk has
written, if it has written one, and whether it has not ended yet. -/
structure ChunkUpload where
  chunkId : JsString
  slotIdx : ℕ
  expires : Option ℕ
  running : Bool
  deriving DecidableEq

/-- The tasks, with the slots of the workers and the flags of the loop. -/
structure Process where
  state : State
  now : ℕ
  /-- The time at which the loop has begun to await. -/
  asked : ℕ
  /-- The slots created, and which of them are free. -/
  uploadWorkers : List Bool
  /-- The slot that the loop has taken for its next chunk. -/
  worker : Option ℕ
  /-- The calls of `startChunkUpload`, one for each worker of the state. -/
  chunkUploads : List ChunkUpload
  retryUploadLoop : Bool
  /-- The calls of `uploadLoop` that wait for their time. -/
  scheduled : ℕ
  /-- `init` has not run yet. -/
  starting : Bool

/-- The process has not called `init`. -/
def Process.init : Process := ⟨.init, 0, 0, [], none, [], false, 0, true⟩

/-- What happens in the process. -/
inductive Act
  | tick (ms : ℕ)
  /-- `init` restarts the chunks in progress and calls `uploadLoop`; it issues its statement before
  a request can reach the node. -/
  | init
  /-- A scheduled call of `uploadLoop`. -/
  | uploadLoop
  /-- A step of the loop: the rows that the query gives, and whether the statement fails. -/
  | loop (rows : List JsString) (throws : Bool)
  /-- Another event of the tasks. -/
  | other (e : Event)
  deriving DecidableEq

/-- `tryGettingAvailableUploadWorker`: the slot, and the slots after it is taken. -/
def tryGettingAvailableUploadWorker (limit : ℕ) (uploadWorkers : List Bool) :
    Option (ℕ × List Bool) :=
  if uploadWorkers.length < limit then
    -- Add new slot
    some (uploadWorkers.length, uploadWorkers ++ [false])
  else
    -- Try reusing a slot
    (uploadWorkers.findIdx? id).map fun slotIdx => (slotIdx, uploadWorkers.set slotIdx false)

section

variable (cfg : Config)

/-! ## The loop -/

/-- The loop may start with the chunk on which it stands. -/
def claimable (chunk : Chunk) (now : ℕ) : Bool :=
  chunk.ul_status = .enqueued || (chunk.ul_status = .inProgress && chunk.isExpired now)

/-- What the loop does after a step. -/
inductive LoopMove
  /-- It awaits the next query or statement for the same chunk. -/
  | await
  /-- An exception ends it. -/
  | fail
  /-- It goes on with the first of the chunks that are left. -/
  | goOn (chunksToUpload : List JsString)

/-- How the loop goes on from one of its `await`s. -/
def LoopPhase.move (phase : LoopPhase) (db : Database) (rows : List JsString) (now : ℕ)
    (throws : Bool) : LoopMove :=
  match throws, phase with
  | true, _ => .fail
  | false, .findAwaiting => .await
  | false, .findStale awaiting => .goOn (awaiting ++ rows)
  | false, .find [] => .fail
  | false, .find (chunkId :: rest) =>
    match db.findChunk chunkId with
    | none => .fail
    | some chunk => if claimable chunk now then .await else .goOn rest
  | false, .claim _ rest => .goOn rest

/-- The query of the phase gives distinct rows, and all that meet its condition unless these are as
many as the limit. -/
def LoopPhase.findsAll (phase : LoopPhase) (db : Database) (rows : List JsString) (now : ℕ) : Bool :=
  let all (p : Chunk → Bool) := decide rows.Nodup && (rows.length = cfg.CONCURRENT_UPLOAD_LIMIT ||
    db.chunks.all fun chunk => !p chunk || rows.contains chunk.id)
  match phase with
  | .findAwaiting => all fun chunk => chunk.ul_status = .enqueued
  | .findStale _ => all fun chunk => chunk.ul_status = .inProgress && chunk.isExpired now
  | _ => true

namespace Process

variable (s : Process)

/-- The time that the step of the phase depends on. -/
def time : LoopPhase → ℕ
  | .findStale _ => s.asked
  | .claim _ _ => s.asked
  | _ => s.now

/-- `worker.isFree = true; continue;` -/
def giveBack : Process :=
  match s.worker with
  | none => s
  | some slotIdx =>
    { s with uploadWorkers := s.uploadWorkers.set slotIdx true, worker := none }

/-- The lease that a claim at the time `asked` writes. -/
def leaseOf (chunkId : JsString) : Option ℕ :=
  match s.state.store.db.chunkStatus chunkId with
  | some .failed => none
  | some .completed => none
  | _ => some (s.asked + cfg.UPLOAD_EXPIRE)

/-- `setSoon(worker.startChunkUpload.bind(worker, chunk))`, after the claim of the chunk. -/
def startChunkUpload (chunkId : JsString) : Process :=
  { s with
    worker := none
    chunkUploads :=
      s.chunkUploads ++ [⟨chunkId, s.worker.getD 0, s.leaseOf cfg chunkId, true⟩] }

/-- What the loop does with its slot before it goes on. -/
def handOver : LoopPhase → Process
  | .find _ => s.giveBack
  | .claim chunkId _ => s.startChunkUpload cfg chunkId
  | _ => s

/-- The end of the loop. -/
def finish : Process :=
  if s.retryUploadLoop then { s with retryUploadLoop := false, scheduled := s.scheduled + 1 }
  else s

/-- Take a slot for the first of the chunks that are left. Without chunks at all, and without a
slot, the loop returns before its end. -/
def goOn (phase : LoopPhase) (chunksToUpload : List JsString) : Process :=
  if chunksToUpload = [] then
    match phase with
    | .findStale _ => s
    | _ => s.finish
  else
    match tryGettingAvailableUploadWorker cfg.CONCURRENT_UPLOAD_LIMIT s.uploadWorkers with
    | none => s
    | some (slotIdx, uploadWorkers) =>
      { s with uploadWorkers, worker := some slotIdx, asked := s.now }

/-- The memory after a step of the loop. -/
def afterLoop (phase : LoopPhase) : LoopMove → Process
  | .await => { s with asked := s.now }
  -- the slot stays taken
  | .fail => { s with worker := none }
  | .goOn chunksToUpload => (s.handOver cfg phase).goOn cfg phase chunksToUpload

/-- There is a slot for the next chunk. -/
def available (phase : LoopPhase) : Bool :=
  (tryGettingAvailableUploadWorker cfg.CONCURRENT_UPLOAD_LIMIT
    (s.handOver cfg phase).uploadWorkers).isSome

/-- A step of the loop. -/
def stepLoop (rows : List JsString) (throws : Bool) : Option Process :=
  s.state.loop.bind fun phase =>
    if throws || phase.findsAll cfg s.state.store.db rows (s.time phase) then
      (Uploader.step cfg s.state
        (.loop rows (s.time phase) (s.available cfg phase) throws)).map fun state =>
          { s.afterLoop cfg phase
              (phase.move s.state.store.db rows (s.time phase) throws) with state }
    else none

/-- `uploadLoop`, called. -/
def callLoop : Option Process :=
  if s.state.loop = none then
    (Uploader.step cfg s.state .uploadLoop).map fun state => { s with state, asked := s.now }
  else some { s with retryUploadLoop := true }

/-! ## The other events -/

/-- The upload of a chunk ends: the slot is free, and the loop is called soon. -/
def endChunkUpload (i : ℕ) : Process :=
  match s.chunkUploads[i]? with
  | none => s
  | some upload =>
    { s with
      chunkUploads := s.chunkUploads.set i { upload with running := false }
      uploadWorkers := s.uploadWorkers.set upload.slotIdx true
      scheduled := s.scheduled + 1 }

/-- The worker has ended. -/
def ended (state : State) (i : ℕ) : Bool :=
  match state.workers[i]? with
  | some w => w.phase = .done
  | none => false

/-- The call of `uploadData` is at the statement after which it triggers the loop. -/
def triggers (state : State) (i : ℕ) (throws : Bool) : Bool :=
  match state.uploads[i]? with
  | some u => u.phase = .createFileMaps && !throws
  | none => false

/-- The memory after another event, which leads to a state. -/
def afterOther (state : State) : Event → Option Process
  | .uploadLoop => none
  | .loop _ _ _ _ => none
  | .restartUploadsDownloads => none
  | .worker i _ =>
    some { (if ended state i then s.endChunkUpload i else s) with state }
  | .upload i throws =>
    some { s with
      state
      scheduled := if triggers s.state i throws then s.scheduled + 1 else s.scheduled }
  | .exit => some { Process.init with state, now := s.now }
  | _ => some { s with state }

/-- One act; requests reach the node after `init`. -/
def step : Act → Option Process
  | .tick ms => some { s with now := s.now + ms }
  | .init =>
    if s.starting then
      (Uploader.step cfg s.state .restartUploadsDownloads).bind fun state =>
        callLoop cfg { s with state, starting := false }
    else none
  | .uploadLoop =>
    if s.scheduled = 0 then none else callLoop cfg { s with scheduled := s.scheduled - 1 }
  | .loop rows throws => s.stepLoop cfg rows throws
  | .other e =>
    if s.starting then none
    else (Uploader.step cfg s.state e).bind fun state => s.afterOther state e

end Process

end

end PointNetwork.Uploader
