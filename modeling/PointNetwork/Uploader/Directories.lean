import Mathlib.Logic.Function.Basic
import PointNetwork.Machine
import PointNetwork.Uploader.ProgressTheorems

/-!
# The progress of directories

`updateDirProgress` of `client/storage/progress.ts` keeps an entry for a directory, with the files
and directories that `DirMap` listed when the entry was made, and counts how many of them are
uploaded. It is called for the parents of a file or directory whose progress has changed
(`updateFileProgress`), and by polls (`getDirProgress`); `uploadDir` writes the rows of `DirMap`.

A task is a stack of such calls. A step runs the call on top up to its next `await`, its next call
or a check in between; until the task awaits something no other task runs. The statements of the
uploads, the workers and the downloads are events of their own, as are those of `uploadDir` and the
end of the process.

The sizes and the progress numbers are left out; whether a number has changed comes with the event.
-/

namespace PointNetwork.Directories

open Js Storage Uploader

/-! ## The tables -/

/-- A row of `DirMap`. -/
structure DirMap where
  dir_id : JsString
  file_id : JsString
  is_dir : Bool
  offset : ℤ
  deriving DecidableEq

/-- The tables of the uploader, with those of the directories. -/
structure Tables where
  db : Database
  dirMaps : List DirMap
  /-- The column `dir_ul_status` of the files. -/
  dirStatus : JsString → FileStatus

namespace Tables

/-- The empty tables. -/
def init : Tables := ⟨.init, [], fun _ => .notStarted⟩

/-- `DirMap.allBy('dir_id', id)`. -/
def dirMapsOf (id : JsString) (t : Tables) : List DirMap :=
  t.dirMaps.filter fun row => row.dir_id = id

/-- `DirMap.upsert`; the ids and the offset are unique. -/
def upsert (row : DirMap) (t : Tables) : Tables :=
  { t with dirMaps := Table.upsert (fun r => (r.dir_id, r.file_id, r.offset)) row t.dirMaps }

/-- Writes the status of a file. -/
def updateFileUlStatus (file_id : JsString) (ul_status : FileStatus) (t : Tables) : Tables :=
  { t with db := t.db.updateFileUlStatus file_id ul_status }

/-- `updateFileDirUlStatus`: a failure does not replace a completion. -/
def updateFileDirUlStatus (file_id : JsString) (dir_ul_status : FileStatus) (t : Tables) :
    Tables :=
  if (t.db.findFile file_id).isSome &&
      !(dir_ul_status = .failed && t.dirStatus file_id = .completed) then
    { t with dirStatus := Function.update t.dirStatus file_id dir_ul_status }
  else t

end Tables

/-! ## The caches -/

/-- `DirUploadStructure`. `file_ids` is the place of the array, which a loop over it keeps when the
entry is replaced. -/
structure DirUpload where
  file_ids : ℕ
  is_dir : JsString → Bool := fun _ => false
  uploaded : Bool := false
  failed : Bool := false

/-- The maps of `progress.ts`, with those of the directories, and the arrays of all entries. -/
structure Caches extends Memory where
  dirUploadCache : JsString → Option DirUpload
  fileParents : JsString → Option (List JsString)
  dirParents : JsString → Option (List JsString)
  arrays : List (List JsString)
  /-- The directories whose completion has been noted since the process started. -/
  decided : List JsString

/-- The directory is added to the parents, once. -/
def addParent (parents : JsString → Option (List JsString)) (id dir_id : JsString) :
    JsString → Option (List JsString) :=
  let dirs := (parents id).getD []
  Function.update parents id (some (if dirs.contains dir_id then dirs else dirs ++ [dir_id]))

namespace Caches

/-- The empty maps. -/
def init : Caches := ⟨.init, fun _ => none, fun _ => none, fun _ => none, [], []⟩

/-- The array at a place. -/
def fileIds (place : ℕ) (m : Caches) : List JsString := (m.arrays[place]?).getD []

/-- A change of the maps of the files. -/
def onFiles (f : Memory → Memory) (m : Caches) : Caches := { m with toMemory := f m.toMemory }

/-- The directory has the file. -/
def addDirAsFileParent (file_id dir_id : JsString) (m : Caches) : Caches :=
  { m with fileParents := addParent m.fileParents file_id dir_id }

/-- The directory has the other one. -/
def addDirAsDirParent (dir_id parent_dir_id : JsString) (m : Caches) : Caches :=
  { m with dirParents := addParent m.dirParents dir_id parent_dir_id }

/-- The directory of the row becomes a parent. -/
def addParentOf (row : DirMap) (m : Caches) : Caches :=
  if row.is_dir then m.addDirAsDirParent row.file_id row.dir_id
  else m.addDirAsFileParent row.file_id row.dir_id

/-- `dirUploadCache[dir_id] = {file_ids: [], …}` -/
def newDir (dir_id : JsString) (m : Caches) : Caches :=
  { m with
    arrays := m.arrays ++ [[]]
    dirUploadCache :=
      Function.update m.dirUploadCache dir_id (some { file_ids := m.arrays.length }) }

/-- `dirUploadCache[dir_id].file_ids.push(dm.file_id)`, and the entry of `is_dir`. -/
def push (dir_id : JsString) (row : DirMap) (m : Caches) : Caches :=
  match m.dirUploadCache dir_id with
  | none => m
  | some dir =>
    { m with
      arrays := m.arrays.modify dir.file_ids (· ++ [row.file_id])
      dirUploadCache := Function.update m.dirUploadCache dir_id
        (some { dir with is_dir := Function.update dir.is_dir row.file_id row.is_dir }) }

/-- What `updateDirProgress` notes in the entry before it writes a status. -/
def setDirFlags (dir_id : JsString) (status : FileStatus) (m : Caches) : Caches :=
  { m with
    dirUploadCache := Function.update m.dirUploadCache dir_id
      ((m.dirUploadCache dir_id).map fun dir =>
        { dir with uploaded := status = .completed, failed := status = .failed })
    decided := if status = .completed then dir_id :: m.decided else m.decided }

/-- The flags `uploaded` and `failed` of a file or a directory, if it has an entry. -/
def flags (id : JsString) (is_dir : Bool) (m : Caches) : Option (Bool × Bool) :=
  if is_dir then (m.dirUploadCache id).map fun dir => (dir.uploaded, dir.failed)
  else (m.fileUploadCache id).map fun file => (file.uploaded, file.failed)

end Caches

/-! ## The calls -/

/-- Where a call of `updateFileProgress` stands. -/
inductive FileStage
  | start
  | findMaps
  | findFile (chunkIds : List JsString)
  | check
  /-- The row of a chunk whose status is not cached, after those counted so far. -/
  | count (counted : List (JsString × ChunkStatus)) (chunkId : JsString) (todo : List JsString)
  | write (status : FileStatus)
  deriving DecidableEq

/-- Where a call of `updateDirProgress` stands. -/
inductive DirStage
  | start
  | findMaps
  /-- The rows that are not in the entry yet. -/
  | fill (rows : List DirMap)
  | check
  /-- The place in the array, and how many before it are uploaded and have failed. -/
  | count (file_ids index uploaded failed : ℕ)
  | write (status : FileStatus)
  deriving DecidableEq

/-- What a function goes on with when a call that it awaits has returned. -/
inductive Caller
  /-- The other files of a chunk. -/
  | files (rest : List JsString)
  /-- The other parents. -/
  | parents (rest : List JsString)
  | filled (dir_id : JsString) (updateParents : Bool) (row : DirMap) (rows : List DirMap)
  | counted (dir_id : JsString) (updateParents : Bool) (id : JsString) (is_dir : Bool)
      (file_ids index uploaded failed : ℕ)
  deriving DecidableEq

/-- A call of the progress updates, where it is in its code. -/
inductive Frame
  | realUpdateChunkProgress (chunk_id : JsString)
  /-- The file maps of the chunk. -/
  | findParents (chunk_id : JsString)
  | file (file_id : JsString) (updateParents : Bool) (stage : FileStage)
  | dir (dir_id : JsString) (updateParents : Bool) (stage : DirStage)
  | resumed (caller : Caller)
  deriving DecidableEq

/-- How a step of a call ends. -/
inductive Outcome
  | goOn (frame : Frame)
  | await (frame : Frame)
  | call (caller : Caller) (callee : Frame)
  | returns
  | throws
  deriving DecidableEq

/-- `updateDirProgress(id, false)` or `updateFileProgress(id, false)`. -/
def pull (id : JsString) (is_dir : Bool) : Frame :=
  if is_dir then .dir id false .start else .file id false .start

/-- The end of an update: the parents, if they are to be updated. -/
def toParents (updateParents : Bool) (parents : Option (List JsString)) : Outcome :=
  .goOn (.resumed (.parents (if updateParents then parents.getD [] else [])))

/-- What `updateFileProgress` decides when all chunks are counted. -/
def decideFile (file_id : JsString) (updateParents changed : Bool)
    (counted : List (JsString × ChunkStatus)) (m : Caches) : Caches × Outcome :=
  match m.fileUploadCache file_id, Memory.finalStatus counted with
  | none, _ => (m, .throws)
  | some _, some status =>
    (m.onFiles (Memory.setFlags file_id status),
      .await (.file file_id updateParents (.write status)))
  | some _, none =>
    (m, if changed then toParents updateParents (m.fileParents file_id) else .returns)

/-- The loop of `updateFileProgress` over the chunks. -/
def countChunks (file_id : JsString) (updateParents changed : Bool)
    (counted : List (JsString × ChunkStatus)) (todo : List JsString) (m : Caches) :
    Caches × Outcome :=
  match Memory.countCached m.chunkUploadCache counted todo with
  | (counted, c :: todo) => (m, .await (.file file_id updateParents (.count counted c todo)))
  | (counted, []) => decideFile file_id updateParents changed counted m

/-- A step of `updateFileProgress`. -/
def fileNext (t : Tables) (m : Caches) (changed : Bool) (file_id : JsString)
    (updateParents : Bool) : FileStage → Tables × Caches × Outcome
  | .start =>
    (t, m, if file_id.isEmpty then .throws
      else if (m.fileUploadCache file_id).isSome then .goOn (.file file_id updateParents .check)
      else .await (.file file_id updateParents .findMaps))
  | .findMaps =>
    (t, m, .await (.file file_id updateParents (.findFile (t.db.chunkIdsOf file_id))))
  | .findFile chunkIds =>
    if (t.db.findFile file_id).isSome then
      (t, m.onFiles fun files =>
          (files.setFile file_id { chunk_ids := chunkIds }).addParents file_id chunkIds,
        .goOn (.file file_id updateParents .check))
    else (t, m, .throws)
  | .check =>
    match m.fileUploadCache file_id with
    | none => (t, m, .throws)
    | some file =>
      if file.uploaded || file.failed then (t, m, .returns)
      else (t, countChunks file_id updateParents changed [] file.chunk_ids m)
  | .count counted c todo =>
    match t.db.chunkStatus c with
    | none => (t, m, .throws)
    | some status =>
      (t, countChunks file_id updateParents changed (counted ++ [(c, status)]) todo
        (m.onFiles fun files => files.setChunk c (some status)))
  | .write status =>
    (t.updateFileUlStatus file_id status, m, toParents updateParents (m.fileParents file_id))

/-- What `updateDirProgress` decides when all are counted. -/
def decideDir (dir_id : JsString) (updateParents changed : Bool) (total uploaded failed : ℕ)
    (m : Caches) : Caches × Outcome :=
  if 0 < failed then
    (m.setDirFlags dir_id .failed, .await (.dir dir_id updateParents (.write .failed)))
  else if uploaded = total then
    (m.setDirFlags dir_id .completed, .await (.dir dir_id updateParents (.write .completed)))
  else (m, if changed then toParents updateParents (m.dirParents dir_id) else .returns)

/-- A step of `updateDirProgress`. -/
def dirNext (t : Tables) (m : Caches) (changed : Bool) (dir_id : JsString)
    (updateParents : Bool) : DirStage → Tables × Caches × Outcome
  | .start =>
    (t, m, if dir_id.isEmpty then .throws
      else if (m.dirUploadCache dir_id).isSome then .goOn (.dir dir_id updateParents .check)
      else .await (.dir dir_id updateParents .findMaps))
  | .findMaps =>
    (t, m.newDir dir_id, .goOn (.dir dir_id updateParents (.fill (t.dirMapsOf dir_id))))
  | .fill [] => (t, m, .goOn (.dir dir_id updateParents .check))
  | .fill (row :: rows) =>
    (t, m.push dir_id row,
      if ((m.push dir_id row).flags row.file_id row.is_dir).isSome then
        .goOn (.resumed (.filled dir_id updateParents row rows))
      else .call (.filled dir_id updateParents row rows) (pull row.file_id row.is_dir))
  | .check =>
    match m.dirUploadCache dir_id with
    | none => (t, m, .throws)
    | some dir =>
      if dir.uploaded then (t, m, .returns)
      else (t, m, .goOn (.dir dir_id updateParents (.count dir.file_ids 0 0 0)))
  | .count file_ids index uploaded failed =>
    match m.dirUploadCache dir_id, (m.fileIds file_ids)[index]? with
    | none, _ => (t, m, .throws)
    | some _, none => (t, decideDir dir_id updateParents changed index uploaded failed m)
    | some dir, some id =>
      let caller := Caller.counted dir_id updateParents id (dir.is_dir id) file_ids index uploaded
        failed
      (t, m, if (m.flags id (dir.is_dir id)).isSome then .goOn (.resumed caller)
        else .call caller (pull id (dir.is_dir id)))
  | .write status =>
    (t.updateFileDirUlStatus dir_id status, m, toParents updateParents (m.dirParents dir_id))

/-- What follows a call that has returned. -/
def Caller.next (t : Tables) (m : Caches) : Caller → Tables × Caches × Outcome
  | .files [] => (t, m, .returns)
  | .files (file_id :: rest) => (t, m, .call (.files rest) (.file file_id true .start))
  | .parents [] => (t, m, .returns)
  | .parents (dir_id :: rest) => (t, m, .call (.parents rest) (.dir dir_id true .start))
  | .filled dir_id updateParents row rows =>
    (t, m.addParentOf row, .goOn (.dir dir_id updateParents (.fill rows)))
  | .counted dir_id updateParents id is_dir file_ids index uploaded failed =>
    match m.flags id is_dir with
    | none => (t, m, .throws)
    | some flags =>
      (t, m, .goOn (.dir dir_id updateParents (.count file_ids (index + 1)
        (if flags.1 then uploaded + 1 else uploaded) (if flags.2 then failed + 1 else failed))))

/-- A step of the call on top of a stack. -/
def Frame.next (t : Tables) (m : Caches) (changed : Bool) : Frame → Tables × Caches × Outcome
  | .realUpdateChunkProgress chunk_id =>
    let m := m.onFiles fun files => files.setChunk chunk_id (some .completed)
    match m.chunkParents chunk_id with
    | none => (t, m, .await (.findParents chunk_id))
    | some files => (t, m, .goOn (.resumed (.files files)))
  | .findParents chunk_id =>
    let m := m.onFiles fun files => files.addFiles (t.db.fileIdsOf chunk_id) chunk_id
    match m.chunkParents chunk_id with
    -- `Object.keys(undefined)` throws
    | none => (t, m, .throws)
    | some files => (t, m, .goOn (.resumed (.files files)))
  | .file file_id updateParents stage => fileNext t m changed file_id updateParents stage
  | .dir dir_id updateParents stage => dirNext t m changed dir_id updateParents stage
  | .resumed caller => caller.next t m

/-! ## The tasks -/

/-- A stack of calls. `update` is set for the task that `processQueue` awaits. -/
structure Task where
  update : Bool
  top : Option Frame
  callers : List Caller
  deriving DecidableEq

/-- A call of `uploadDir` whose directory is uploaded, at its upserts: the rows that are not
written, those that are written but whose directory is not a parent yet, and whether the row of the
directory itself is among them. -/
structure Registration where
  dir_id : JsString
  pending : List DirMap
  written : List DirMap
  own : Bool
  deriving DecidableEq

/-- The tables, the maps and the tasks. -/
structure State where
  tables : Tables
  caches : Caches
  tasks : List Task
  /-- The task that has not come to an `await`. -/
  running : Option ℕ
  registrations : List Registration

/-- Nothing has been uploaded. -/
def State.init : State := ⟨.init, .init, [], none, []⟩

/-- What the uploader, the registrations and the progress updates do. -/
inductive Event
  /-- A statement of an upload, a worker or a download. -/
  | statement (st : Statement)
  /-- `uploadDir` has uploaded the directory with these files. -/
  | uploadDir (dir_id : JsString) (files : List (JsString × Bool))
  /-- A registration writes a row. -/
  | upsert (i j : ℕ)
  /-- A registration goes on after a row. -/
  | addParent (i j : ℕ)
  | getDirProgress (dir_id : JsString)
  | processQueue
  | resume (i : ℕ) (changed : Bool)
  | exit
  deriving DecidableEq

/-- The row of the directory itself. -/
def ownRow (dir_id : JsString) : DirMap := ⟨dir_id, dir_id, false, -1⟩

/-- The row of the directory itself comes when the others are done. -/
def Registration.next (r : Registration) : Registration :=
  if r.pending.isEmpty && r.written.isEmpty && !r.own then
    { r with pending := [ownRow r.dir_id], own := true }
  else r

/-- The upserts of `dirInfo.files`, which are sent all at once. -/
def Registration.start (dir_id : JsString) (files : List (JsString × Bool)) : Registration :=
  let rows : List DirMap :=
    files.zipIdx.map fun ((file_id, is_dir), idx) => ⟨dir_id, file_id, is_dir, idx⟩
  Registration.next ⟨dir_id, rows, [], false⟩

/-- The stack of a task after its next step. -/
def Task.after (task : Task) : Outcome → Task
  | .goOn frame => { task with top := some frame }
  | .await frame => { task with top := some frame }
  | .call caller callee => { task with top := some callee, callers := caller :: task.callers }
  | .returns =>
    { task with top := task.callers.head?.map Frame.resumed, callers := task.callers.tail }
  | .throws => { task with top := none, callers := [] }

/-- The task goes on without an `await`. A return is awaited. -/
def Outcome.isSync : Outcome → Bool
  | .goOn _ => true
  | .call _ _ => true
  | _ => false

/-- What a statement does to the tables and the caches; a completed chunk is put in the queue. -/
def State.statement (s : State) (st : Statement) : State :=
  let after := (⟨s.tables.db, s.caches.toMemory, .idle⟩ : Snapshot).external st
  { s with tables.db := after.db, caches.toMemory := after.memory }

/-- A task starts and is not interrupted. -/
def State.start (s : State) (update : Bool) (frame : Frame) : State :=
  { s with tasks := s.tasks ++ [⟨update, some frame, []⟩], running := some s.tasks.length }

/-- `progressUpdateQueueActive` -/
def State.active (s : State) : Bool := s.tasks.any fun task => task.update && task.top.isSome

/-- A row of the registration is written. -/
def State.upsert (s : State) (i j : ℕ) : Option State :=
  (s.registrations[i]?).bind fun r =>
    (r.pending[j]?).map fun row =>
      { s with
        tables := s.tables.upsert row
        registrations := s.registrations.set i
          { r with pending := r.pending.eraseIdx j, written := r.written ++ [row] } }

/-- The parents are noted for a row that has been written. -/
def State.addParent (s : State) (i j : ℕ) : Option State :=
  (s.registrations[i]?).bind fun r =>
    (r.written[j]?).map fun row =>
      { s with
        caches := s.caches.addParentOf row
        registrations :=
          s.registrations.set i (Registration.next { r with written := r.written.eraseIdx j }) }

/-- The next chunk of the queue, if no update runs. -/
def State.processQueue (s : State) : State :=
  if s.active then s
  else
    match s.caches.queue with
    | [] => s
    | (chunk_id, _) :: queue =>
      { s with caches.queue := queue }.start true (.realUpdateChunkProgress chunk_id)

/-- The state after a step of the task `i`. -/
def State.next (s : State) (i : ℕ) (task : Task) (r : Tables × Caches × Outcome) : State :=
  { s with
    tables := r.1
    caches := r.2.1
    tasks := s.tasks.set i (task.after r.2.2)
    running := if r.2.2.isSync then some i else none }

/-- A task takes its next step. -/
def State.resume (s : State) (i : ℕ) (changed : Bool) : Option State :=
  (s.tasks[i]?).bind fun task =>
    task.top.map fun frame => s.next i task (frame.next s.tables s.caches changed)

/-- One event; while a task has not come to an `await`, no other takes a step. -/
def step (s : State) (e : Event) : Option State :=
  match e with
  | .resume i changed =>
    if s.running.all (· == i) then s.resume i changed else none
  | .statement st =>
    if s.running.isNone && st != .exit then some (s.statement st) else none
  | .uploadDir dir_id files =>
    if s.running.isNone &&
        (dir_id :: files.map Prod.fst).all fun id => (s.tables.db.findFile id).isSome then
      some { s with registrations := s.registrations ++ [.start dir_id files] }
    else none
  | .upsert i j => if s.running.isNone then s.upsert i j else none
  | .addParent i j => if s.running.isNone then s.addParent i j else none
  | .getDirProgress dir_id =>
    if s.running.isNone then
      some (if (s.caches.dirUploadCache dir_id).isSome then s
        else s.start false (.dir dir_id true .start))
    else none
  | .processQueue => if s.running.isNone then some s.processQueue else none
  | .exit => some { State.init with tables := s.tables }

end PointNetwork.Directories
