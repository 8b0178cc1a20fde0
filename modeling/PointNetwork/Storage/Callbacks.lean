import PointNetwork.Core
import PointNetwork.Machine
import PointNetwork.Tables

/-!
# Waiting for a status

The callbacks of `client/storage/callbacks.ts`, the calls that use them (`waitForFileToUpload`,
`waitForDirToUpload` and `getFile` of `client/storage/index.ts`, `getChunk` of
`client/storage/chunk/download.ts`), and the writes of `db/models/file.ts` and `db/models/chunk.ts`
that notify.

A call goes through the statements it awaits; the query, and the delivery of what it found, are two
events. A write is carried out first and notifies when its promise is settled. How a file or a chunk
is downloaded is left open; its end is an event.
-/

namespace PointNetwork.Storage.Callbacks

open Js

/-- The words of the statuses of files, directories and chunks. -/
inductive Status
  | NOT_STARTED
  | ENQUEUED
  | IN_PROGRESS
  | VALIDATING
  | COMPLETED
  | FAILED
  deriving DecidableEq

/-- The status that a callback waits for. -/
def Status.final : Status → Bool
  | .COMPLETED => true
  | .FAILED => true
  | _ => false

/-- Nobody waits for `CHUNK_UPLOAD_STATUS_CHANGED`, the one left out. -/
inductive EventTypes
  | FILE_UPLOAD_STATUS_CHANGED
  | FILE_DIR_UPLOAD_STATUS_CHANGED
  | FILE_DOWNLOAD_STATUS_CHANGED
  | CHUNK_DOWNLOAD_STATUS_CHANGED
  deriving DecidableEq

/-- `fullKey`: the type of an event and the id of a file or a chunk. -/
abbrev Key := EventTypes × JsString

/-! ## The tables -/

/-- The columns of a file that the functions read. -/
structure File where
  id : JsString
  ul_status : Status := .NOT_STARTED
  dir_ul_status : Status := .NOT_STARTED
  dl_status : Status := .NOT_STARTED
  deriving DecidableEq

/-- A chunk, without its upload status. -/
structure Chunk where
  id : JsString
  dl_status : Status := .NOT_STARTED
  deriving DecidableEq

/-- The two tables. -/
structure Database where
  files : List File
  chunks : List Chunk

/-- The status whose changes an event tells of. -/
def Database.status (db : Database) : Key → Option Status
  | (.FILE_UPLOAD_STATUS_CHANGED, id) => (Table.find File.id id db.files).map File.ul_status
  | (.FILE_DIR_UPLOAD_STATUS_CHANGED, id) => (Table.find File.id id db.files).map File.dir_ul_status
  | (.FILE_DOWNLOAD_STATUS_CHANGED, id) => (Table.find File.id id db.files).map File.dl_status
  | (.CHUNK_DOWNLOAD_STATUS_CHANGED, id) => (Table.find Chunk.id id db.chunks).map Chunk.dl_status

/-- A write of statuses: `File.update` or `Chunk.update` with `options.where`, of which `id` is a part
and `rest` the remainder, or the save of a chunk. -/
inductive Write
  | file (id : Option JsString) (rest : File → Bool) (ul_status dir_ul_status dl_status : Option Status)
  | chunk (id : Option JsString) (rest : Chunk → Bool) (dl_status : Option Status)

/-- The row that is written, if its id is known. -/
def Write.id : Write → Option JsString
  | .file id _ _ _ _ => id
  | .chunk id _ _ => id

/-- The status of an event that the write sets, where it matches. -/
def Write.field : Write → EventTypes → Option Status
  | .file _ _ ul_status _ _, .FILE_UPLOAD_STATUS_CHANGED => ul_status
  | .file _ _ _ dir_ul_status _, .FILE_DIR_UPLOAD_STATUS_CHANGED => dir_ul_status
  | .file _ _ _ _ dl_status, .FILE_DOWNLOAD_STATUS_CHANGED => dl_status
  | .chunk _ _ dl_status, .CHUNK_DOWNLOAD_STATUS_CHANGED => dl_status
  | _, _ => none

/-- What the write notifies of: nothing without an id. -/
def Write.keys (w : Write) : List Key :=
  match w.id with
  | none => []
  | some id =>
    [.FILE_UPLOAD_STATUS_CHANGED, .FILE_DIR_UPLOAD_STATUS_CHANGED, .FILE_DOWNLOAD_STATUS_CHANGED,
      .CHUNK_DOWNLOAD_STATUS_CHANGED].filterMap fun type => (w.field type).map fun _ => (type, id)

/-- The row of the table is one of those of the statement. -/
def named (id : Option JsString) (rowId : JsString) : Bool :=
  match id with
  | none => true
  | some id => rowId = id

/-- What a write does to the tables. -/
def Database.perform (db : Database) : Write → Database
  | .file id rest ul_status dir_ul_status dl_status =>
    { db with
      files := Table.update (fun file => named id file.id && rest file)
        (fun file =>
          { file with
            ul_status := ul_status.getD file.ul_status
            dir_ul_status := dir_ul_status.getD file.dir_ul_status
            dl_status := dl_status.getD file.dl_status })
        db.files }
  | .chunk id rest dl_status =>
    { db with
      chunks := Table.update (fun chunk => named id chunk.id && rest chunk)
        (fun chunk => { chunk with dl_status := dl_status.getD chunk.dl_status }) db.chunks }

/-! ## The calls -/

/-- The calls that wait for a status. -/
inductive Call
  | waitForFileToUpload (fileId : JsString)
  | waitForDirToUpload (fileId : JsString)
  /-- The id is that of `rawId`. -/
  | getFile (id : JsString) (useCache : Bool)
  | getChunk (chunkId : JsString) (useCache : Bool)
  deriving DecidableEq

/-- The event that the call waits for. -/
def Call.key : Call → Key
  | .waitForFileToUpload fileId => (.FILE_UPLOAD_STATUS_CHANGED, fileId)
  | .waitForDirToUpload fileId => (.FILE_DIR_UPLOAD_STATUS_CHANGED, fileId)
  | .getFile id _ => (.FILE_DOWNLOAD_STATUS_CHANGED, id)
  | .getChunk chunkId _ => (.CHUNK_DOWNLOAD_STATUS_CHANGED, chunkId)

/-- The call that the callback makes. -/
def Call.again : Call → Call
  | .getChunk chunkId _ => .getChunk chunkId true
  | call => call

/-- What a call does after a write, if it is one of a call: it downloads, or it returns the data. -/
inductive Rest
  | nothing
  | download (call : Call)
  | return (call : Call)

/-- Where a call or a write of its own stands. -/
inductive Task
  /-- `findByIdOrCreate` is about to create the row. -/
  | create (call : Call)
  /-- The row is about to be read; `first` before the second time of `waitForDirToUpload`. -/
  | find (call : Call) (first : Bool)
  /-- The row, or none, was read and not delivered. -/
  | found (call : Call) (first : Bool) (status : Option Status)
  /-- The write is about to be carried out. -/
  | write (w : Write) (rest : Rest)
  /-- The write was carried out, and notifies next. -/
  | written (keys : List Key) (rest : Rest)
  | download (call : Call)

/-- The first statement of a call. -/
def Call.start : Call → Task
  | .waitForFileToUpload fileId => .find (.waitForFileToUpload fileId) false
  | .waitForDirToUpload fileId => .find (.waitForDirToUpload fileId) true
  | call => .create call

/-- A download that has not been COMPLETED. -/
def notCompleted (file : File) : Bool := file.dl_status ≠ .COMPLETED

/-- `markFileAsInProgressDownload`, or the first save of `getChunk`. -/
def Call.markInProgress : Call → Write
  | .getFile id _ => .file (some id) notCompleted none none (some .IN_PROGRESS)
  | call => .chunk (some call.key.2) (fun _ => true) (some .IN_PROGRESS)

/-- `markFileAsCompletedDownload` or `markFileAsFailedDownload`, or the last save of `getChunk`. -/
def Call.markEnd (success : Bool) : Call → Write
  | .getFile id _ =>
    .file (some id) notCompleted none none (some (if success then .COMPLETED else .FAILED))
  | call =>
    .chunk (some call.key.2) (fun _ => true) (some (if success then .COMPLETED else .FAILED))

/-- What a call does with the status it has read. -/
inductive Decision
  | return
  | wait
  | download
  deriving DecidableEq

/-- `exist` says whether the data is on the disk. -/
def Call.decide (call : Call) (exist : Bool) (status : Status) : Decision :=
  match call with
  | .waitForFileToUpload _ => if status = .COMPLETED ∨ status = .FAILED then .return else .wait
  | .waitForDirToUpload _ => if status = .COMPLETED ∨ status = .FAILED then .return else .wait
  | .getFile _ useCache =>
    if useCache ∧ status = .COMPLETED ∧ exist then .return
    else if status = .IN_PROGRESS then .wait
    else .download
  | .getChunk _ useCache =>
    if useCache ∧ status = .COMPLETED ∧ exist then .return
    else if status = .IN_PROGRESS then .wait
    else .download

/-! ## The machine -/

/-- The tables, the statements under way and the callbacks. -/
structure State where
  db : Database
  tasks : List Task
  /-- The callbacks in the queues, each under the key of its call. -/
  callbacks : List Call
  /-- The callbacks that `setTimeout` has scheduled. -/
  timers : List Call

/-- No call is under way. -/
def State.init (db : Database) : State := ⟨db, [], [], []⟩

/-- A call, a write of another function, or what a statement or a timer does. -/
inductive Event
  | call (call : Call)
  /-- A write of some other function. -/
  | update (w : Write)
  /-- The database carries out the statement of the i-th task. -/
  | query (i : ℕ)
  /-- The i-th task goes on. -/
  | deliver (i : ℕ) (exist : Bool)
  /-- The i-th task ends its download. -/
  | downloaded (i : ℕ) (success : Bool)
  /-- The statement of the i-th task fails. -/
  | reject (i : ℕ)
  | timer (i : ℕ)

/-- The row that `findByIdOrCreate` creates if there is none. -/
def Database.create (db : Database) (key : Key) : Database :=
  match key with
  | (.CHUNK_DOWNLOAD_STATUS_CHANGED, id) =>
    { db with chunks := Table.insertIgnore Chunk.id [{ id }] db.chunks }
  | (_, id) => { db with files := Table.insertIgnore File.id [{ id }] db.files }

namespace State

/-- The i-th task is replaced. -/
def next (s : State) (i : ℕ) (tasks : List Task) : State :=
  { s with tasks := s.tasks.eraseIdx i ++ tasks }

/-- `waitForEvent` -/
def waitForEvent (s : State) (call : Call) : State := { s with callbacks := s.callbacks ++ [call.again] }

/-- `processQueue` for some keys in turn. -/
def processQueue (s : State) (keys : List Key) : State :=
  { s with
    callbacks := s.callbacks.filter fun call => call.key ∉ keys
    timers := s.timers ++ keys.flatMap fun key => s.callbacks.filter fun call => call.key = key }

/-- The database carries out a statement. -/
def query (s : State) (i : ℕ) : Task → Option State
  | .create call => some (({ s with db := s.db.create call.key }).next i [.find call false])
  | .find call first => some (s.next i [.found call first (s.db.status call.key)])
  | .write w rest => some (({ s with db := s.db.perform w }).next i [.written w.keys rest])
  | _ => none

/-- The answer of a statement comes back: the call returns, waits, or downloads. -/
def deliver (s : State) (i : ℕ) (exist : Bool) : Task → Option State
  | .found _ _ none => some (s.next i [])
  | .found call true (some _) => some (s.next i [.find call false])
  | .found call false (some status) =>
    match call.decide exist status with
    | .return => some (s.next i [])
    | .wait => some ((s.next i []).waitForEvent call)
    | .download => some (s.next i [.write call.markInProgress (.download call)])
  | .written keys rest =>
    some ((s.processQueue keys).next i
      (match rest with
        | .download call => [.download call]
        | _ => []))
  | _ => none

/-- A failure ends a call, unless it is caught: `getFile` then marks the file as failed, and `getChunk`
tries the next source. -/
def reject (s : State) (i : ℕ) : Task → Option State
  | .create _ => some (s.next i [])
  | .find _ _ => some (s.next i [])
  | .write _ (.download (.getFile id useCache)) =>
    some (s.next i [.write ((Call.getFile id useCache).markEnd false) .nothing])
  | .write _ (.return (.getFile id useCache)) =>
    some (s.next i [.write ((Call.getFile id useCache).markEnd false) .nothing])
  | .write _ (.return call) => some (s.next i [.download call])
  | .write _ _ => some (s.next i [])
  | _ => none

end State

/-- One event of the process. -/
def step (s : State) : Event → Option State
  | .call call => some { s with tasks := s.tasks ++ [call.start] }
  | .update w => some { s with tasks := s.tasks ++ [.write w .nothing] }
  | .query i => s.tasks[i]?.bind (s.query i)
  | .deliver i exist => s.tasks[i]?.bind (s.deliver i exist)
  | .downloaded i success =>
    match s.tasks[i]? with
    | some (.download call) =>
      some (s.next i [.write (call.markEnd success) (if success then .return call else .nothing)])
    | _ => none
  | .reject i => s.tasks[i]?.bind (s.reject i)
  | .timer i => s.timers[i]?.map fun call =>
      { s with timers := s.timers.eraseIdx i, tasks := s.tasks ++ [call.start] }

/-! ## The property and its condition -/

/-- The status of the event is COMPLETED or FAILED. -/
def State.Final (s : State) (key : Key) : Prop := ∃ status ∈ s.db.status key, status.final = true

/-- What the task notifies of when it goes on. -/
def Task.notices : Task → List Key
  | .written keys _ => keys
  | _ => []

/-- A write of the status was carried out, and has not notified yet. -/
def State.Notifying (s : State) (key : Key) : Prop := ∃ task ∈ s.tasks, key ∈ task.notices

/-- The task is a write of the status, or a download that ends with one. -/
def Task.Writes (key : Key) : Task → Prop
  | .write w _ => (w.field key.1).isSome ∧ named w.id key.2
  | .written keys _ => key ∈ keys
  | .download call => call.key = key
  | _ => False

/-- A callback waits for an event whose status is final, and nothing will call it. -/
def State.Missed (s : State) (key : Key) : Prop :=
  (∃ call ∈ s.callbacks, call.key = key) ∧ s.Final key ∧
    (∀ task ∈ s.tasks, ¬ task.Writes key) ∧ ∀ call ∈ s.timers, call.key ≠ key

/-- The call whose callback is put into the queue when the task goes on. -/
def Task.registers (exist : Bool) : Task → Option Call
  | .found call false (some status) =>
    if call.decide exist status = .wait then some call else none
  | _ => none

/-- The write without an id that the task is about to make. -/
def Task.silent : Task → Option Write
  | .write w _ => if w.id = none then some w else none
  | _ => none

/-- A callback is put into the queue in time: the status that the call waits for is still not final, or
its notification is still to come. And a write without an id, which notifies nobody, leaves no status
final that a callback waits for, unless a notification is still to come. -/
def InTime (s : State) : Event → Prop
  | .deliver i exist => ∀ task ∈ s.tasks[i]?, ∀ call ∈ task.registers exist,
      ¬ s.Final call.key ∨ s.Notifying call.key
  | .query i => ∀ task ∈ s.tasks[i]?, ∀ w ∈ task.silent, ∀ call ∈ s.callbacks,
      (∃ status ∈ (s.db.perform w).status call.key, status.final = true) → s.Notifying call.key
  | _ => True

end PointNetwork.Storage.Callbacks
