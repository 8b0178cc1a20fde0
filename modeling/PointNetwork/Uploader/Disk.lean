import Mathlib.Data.UInt
import PointNetwork.Folder
import PointNetwork.Uploader.ChunkTheorems

/-!
# The cache folder

The files of the chunks, which uploads and downloads share, beside the tasks of the uploader.
`enqueueChunksForUpload` writes a chunk whose file is not there into a temporary file and renames
it; `getChunk` writes the file of the chunk itself. Both take a file that is there as it is: an
upload does not write it again, `getChunk` returns what it contains, and so does an upload worker
send it.

A write goes on piece by piece, and so does the reading of a file; between any two steps the process
may end. The folder then stays as it is, with what has been written of a file.
-/

namespace PointNetwork.Uploader

open Js Storage

/-- The names `chunk_<id>` and `chunk_<id>_tmp_<Date.now()>`; an id is a hexadecimal digest, so that
no name is of both kinds. -/
inductive CacheFile
  | chunk (chunkId : JsString)
  | tmp (chunkId : JsString) (time : ℕ)
  deriving DecidableEq

/-- The folder of the chunks that are cached. -/
abbrev CacheFolder := Folder CacheFile UInt8

/-! ## The writers of `enqueueChunksForUpload` -/

/-- What the writer awaits for the chunk on which it stands. -/
inductive WriterPhase
  | next
  /-- The temporary file has a name. -/
  | named (chunkId : JsString) (data : Bytes) (time : ℕ)
  | writing (chunkId : JsString) (time : ℕ) (file : Writing UInt8)
  deriving DecidableEq

/-- The loop over the chunks, with those that are left. -/
structure Writer where
  chunks : List (JsString × Bytes)
  phase : WriterPhase
  deriving DecidableEq

/-- The steps of the loop in `uploadData` that writes the chunks. -/
inductive WriterStep
  /-- `existsSync` and `Date.now()`. -/
  | check (time : ℕ)
  | open
  | write (n : ℕ)
  | rename
  deriving DecidableEq

namespace Writer

/-- The loop does not run. -/
def idle : Writer := ⟨[], .next⟩

/-- The next step of a writer. -/
def next (w : Writer) (folder : CacheFolder) : WriterStep → Option (CacheFolder × Writer)
  | .check time =>
    match w.phase, w.chunks with
    | .next, (chunkId, data) :: chunks =>
      if (folder.entry (.chunk chunkId)).isSome then some (folder, ⟨chunks, .next⟩)
      else some (folder, ⟨chunks, .named chunkId data time⟩)
    | _, _ => none
  | .open =>
    match w.phase with
    | .named chunkId data time =>
      let (folder, inode) := folder.openTruncate (.tmp chunkId time)
      some (folder, { w with phase := .writing chunkId time ⟨data, inode, 0⟩ })
    | _ => none
  | .write n =>
    match w.phase with
    | .writing chunkId time file =>
      (file.next folder n).map fun (folder, file) =>
        (folder, { w with phase := .writing chunkId time file })
    | _ => none
  | .rename =>
    match w.phase with
    | .writing chunkId time file =>
      if file.isFinished then
        (folder.rename (.tmp chunkId time) (.chunk chunkId)).map fun folder =>
          (folder, { w with phase := .next })
      else none
    | _ => none

end Writer

/-! ## The files that `getChunk` writes, and the files that are read -/

/-- The write of a chunk that a source has given. -/
structure Save where
  chunkId : JsString
  file : Writing UInt8
  deriving DecidableEq

/-- The steps of the write of a downloaded chunk. -/
inductive SaveStep
  | open (data : Bytes)
  | write (n : ℕ)
  deriving DecidableEq

/-- A call of `readFile`: of an upload worker, or of `getChunk`. -/
inductive Reader
  | worker (i : ℕ)
  | download (i : ℕ)
  deriving DecidableEq

/-- A file that is being read, and the chunk that it was opened for. -/
structure Load where
  chunkId : JsString
  file : Reading UInt8
  deriving DecidableEq

/-! ## The state -/

/-- The tasks, with the folder and the files they have open. -/
structure Disk where
  state : State
  folder : CacheFolder
  /-- The writers, one for each call of `uploadData`. -/
  writers : List Writer
  saves : ℕ → Option Save
  /-- The chunk of a call of `getChunk` that reads its file. -/
  cached : ℕ → Option JsString
  loads : Reader → Option Load
  /-- What the upload workers have read, with the chunk. -/
  buffers : ℕ → Option (JsString × Bytes)
  /-- What the calls of `getChunk` have returned, with the chunk asked for. -/
  returned : List (JsString × Bytes)
  /-- What the upload workers have sent, with the chunk under whose id they have. -/
  sent : List (JsString × Bytes)

/-- Nothing has been written. -/
def Disk.init : Disk :=
  ⟨.init, .empty, [], fun _ => none, fun _ => none, fun _ => none, fun _ => none, [], []⟩

/-- The steps of the files, and the events of the tasks. -/
inductive DiskEvent
  | writer (i : ℕ) (step : WriterStep)
  | save (i : ℕ) (step : SaveStep)
  | openLoad (reader : Reader)
  | load (reader : Reader) (n : ℕ)
  /-- `getChunk` returns what it has read. -/
  | returnCached (i : ℕ)
  /-- Another event of the tasks. -/
  | other (e : Event)
  deriving DecidableEq

section

variable (cfg : Config)

/-- The call of `getChunk` finds its chunk downloaded, and may take it from the cache. -/
def Download.mayReturnCached (d : Download) (db : Database) : Bool :=
  match d.phase with
  | .find useCache => useCache && (instanceOf d.chunkId db).dl_status = .completed
  | _ => false

/-- The call has asked a source. -/
def Download.asks (d : Download) : Bool :=
  match d.phase with
  | .source _ (_ + 1) => true
  | _ => false

/-- `validateIntegrity` -/
def validateIntegrity (chunkId : JsString) (data : Bytes) : Bool := cfg.hashFn.id data = chunkId

namespace Disk

variable (s : Disk)

/-- A step of a writer, whose call of `uploadData` has not come to the statement after it. -/
def stepWriter (i : ℕ) (step : WriterStep) : Option Disk :=
  match s.state.uploads[i]?, s.writers[i]? with
  | some u, some w =>
    if u.phase = .createChunks then
      (w.next s.folder step).map fun (folder, w) =>
        { s with folder, writers := s.writers.set i w }
    else none
  | _, _ => none

/-- A download that has a valid source writes it. -/
def stepSave (i : ℕ) : SaveStep → Option Disk
  | .open data =>
    match s.state.downloads[i]?, s.saves i with
    | some d, none =>
      if d.asks && validateIntegrity cfg d.chunkId data then
        let (folder, inode) := s.folder.openTruncate (.chunk d.chunkId)
        some { s with
          folder
          saves := Function.update s.saves i (some ⟨d.chunkId, data, inode, 0⟩) }
      else none
    | _, _ => none
  | .write n =>
    (s.saves i).bind fun save =>
      (save.file.next s.folder n).map fun (folder, file) =>
        { s with folder, saves := Function.update s.saves i (some { save with file }) }

/-- The chunk whose file the reader awaits. -/
def awaited : Reader → Option JsString
  | .worker i =>
    (s.state.workers[i]?).bind fun w => if w.phase = .readFile then some w.chunkId else none
  | .download i => s.cached i

/-- A reader opens the file of its chunk. -/
def openLoad (reader : Reader) : Option Disk :=
  match s.loads reader, s.awaited reader with
  | none, some chunkId =>
    (s.folder.entry (.chunk chunkId)).map fun inode =>
      { s with loads := Function.update s.loads reader (some ⟨chunkId, inode, []⟩) }
  | _, _ => none

/-- A reader reads on. -/
def load (reader : Reader) (n : ℕ) : Option Disk :=
  match s.loads reader, s.awaited reader with
  | some load, some _ => some
    { s with
      loads := Function.update s.loads reader
        (some { load with file := load.file.next s.folder n }) }
  | _, _ => none

/-- The reader has come to the end of its file. -/
def loaded (reader : Reader) : Bool :=
  match s.loads reader with
  | some load => load.file.atEnd s.folder
  | none => false

/-- `getChunk` returns when it has read the whole file. -/
def returnCached (i : ℕ) : Option Disk :=
  if s.loaded (.download i) then
    (s.loads (.download i)).map fun load =>
      { s with
        cached := Function.update s.cached i none
        loads := Function.update s.loads (.download i) none
        returned := (load.chunkId, load.file.got) :: s.returned }
  else none

/-- The files are such that the event can happen. -/
def permits : Event → Bool
  | .upload i throws =>
    match s.state.uploads[i]? with
    | some u => u.phase != .createChunks || throws || s.writers[i]? == some .idle
    | none => true
  | .worker i answer =>
    match s.state.workers[i]? with
    | some w => w.phase != .readFile || answer == .throws || s.loaded (.worker i)
    | none => true
  | .download i bytes ok =>
    match s.state.downloads[i]? with
    | some d =>
      if d.mayReturnCached s.state.store.db then
        ok == (s.folder.entry (.chunk d.chunkId)).isSome
      else if d.asks then
        match s.saves i with
        | some save => bytes == some save.file.data && (!ok || save.file.isFinished)
        -- the write fails before the file is open
        | none => !(ok && bytes.any (validateIntegrity cfg d.chunkId))
      else true
    | none => true
  | _ => true

/-- What a step of an upload worker does to its data: they have been read, or are sent when the
HEAD request has not found the chunk. -/
def afterWorker (i : ℕ) (w : Worker) (answer : Answer) : Disk :=
  match w.phase with
  | .readFile =>
    if answer = .throws then s
    else
      { s with
        buffers := Function.update s.buffers i
          ((s.loads (.worker i)).map fun load => (load.chunkId, load.file.got)) }
  | .head => if answer = .ok then s else { s with sent := (s.buffers i).toList ++ s.sent }
  | _ => s

/-- After `chunk.save()`, `getChunk` returns the bytes that it has written. -/
def returnSaved (i : ℕ) : Disk :=
  match s.saves i with
  | some save => { s with returned := (save.chunkId, save.file.data) :: s.returned }
  | none => s

/-- The write is over, as far as it has come. -/
def dropSave (i : ℕ) : Disk := { s with saves := Function.update s.saves i none }

/-- What a step of a call of `getChunk` does to the files that it writes and reads. -/
def afterDownload (i : ℕ) (d : Download) (bytes : Option Bytes) (ok : Bool) : Disk :=
  match d.phase with
  | .find _ =>
    if d.mayReturnCached s.state.store.db && ok then
      { s with cached := Function.update s.cached i (some d.chunkId) }
    else s
  | .source _ _ =>
    if ok && bytes.any (validateIntegrity cfg d.chunkId) then s else s.dropSave i
  | .saveCompleted _ _ => (if ok then s.returnSaved i else s).dropSave i
  | _ => s

/-- The files and the calls on them after another event. -/
def afterOther : Event → Disk
  | .uploadData data _ =>
    { s with
      writers := s.writers ++ [⟨(fileChunks cfg.hashFn cfg.CHUNK_SIZE data).2.map fun chunk =>
        (cfg.hashFn.id chunk, chunk), .next⟩] }
  | .upload i throws => if throws then { s with writers := s.writers.set i .idle } else s
  | .worker i answer =>
    match s.state.workers[i]? with
    | some w => s.afterWorker i w answer
    | none => s
  | .download i bytes ok =>
    match s.state.downloads[i]? with
    | some d => s.afterDownload cfg i d bytes ok
    | none => s
  | .exit => { Disk.init with folder := s.folder, returned := s.returned, sent := s.sent }
  | _ => s

/-- A step of a file, or of the tasks with what it does to the files. -/
def step : DiskEvent → Option Disk
  | .writer i step => s.stepWriter i step
  | .save i step => s.stepSave cfg i step
  | .openLoad reader => s.openLoad reader
  | .load reader n => s.load reader n
  | .returnCached i => s.returnCached i
  | .other e =>
    if s.permits cfg e then
      (Uploader.step cfg s.state e).map fun state => { s.afterOther cfg e with state }
    else none

end Disk

end

end PointNetwork.Uploader
