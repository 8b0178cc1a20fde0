import PointNetwork.Uploader.ChunkTheorems

/-!
# The downloads of files

`getFile` of `client/storage/index.ts` as a task beside those of the uploader: it marks its file,
calls `getChunk` for the info chunk and for the chunks, and marks the file again. Here are the column
`dl_status` of the file table, which nothing else writes, and the calls of `getFile`; chunks and the
calls of `getChunk` are those of the uploader.

A call that waits for a download in progress may go on at any time, which covers every change of
the status that wakes it. What `getChunk` resolves to comes with the event, once the call has
ended. The process may end at any time; its memory is lost, and the tables stay.
-/

namespace PointNetwork.Uploader

open Js Storage

/-- A row of the file table, with its download status. -/
structure DownloadRow where
  id : JsString
  dl_status : FileStatus := .notStarted
  deriving DecidableEq

namespace DownloadRow

/-- The download status of a file. -/
def dlStatus (files : List DownloadRow) (id : JsString) : Option FileStatus :=
  (Table.find DownloadRow.id id files).map DownloadRow.dl_status

/-- `File.findByIdOrCreate`. -/
def findByIdOrCreate (fileId : JsString) (files : List DownloadRow) : List DownloadRow :=
  Table.insertIgnore DownloadRow.id [{ id := fileId }] files

/-- The updates of `dl_status`, which leave a completed download alone. -/
def setDownloadStatus (status : FileStatus) (fileId : JsString) (files : List DownloadRow) :
    List DownloadRow :=
  Table.update (fun file => file.id = fileId && file.dl_status != .completed)
    (fun file => { file with dl_status := status }) files

/-- The row of the file is COMPLETED. -/
def markFileAsCompletedDownload := setDownloadStatus .completed

/-- The row of the file is FAILED. -/
def markFileAsFailedDownload := setDownloadStatus .failed

/-- The row of the file is IN_PROGRESS. -/
def markFileAsInProgressDownload := setDownloadStatus .inProgress

end DownloadRow

/-- What a call of `getFile` awaits. A call of `getChunk` is given by its place among the downloads. -/
inductive FilePhase
  | find (useCache : Bool)
  /-- The event that the download status has changed. -/
  | waiting (useCache : Bool)
  | markInProgress
  | infoChunk (call : ℕ)
  | chunks (calls : List ℕ)
  | writeFile
  | markCompleted
  /-- `markFileAsFailedDownload` of the catch branch. -/
  | markFailed
  | done
  deriving DecidableEq

/-- A call of `getFile`. -/
structure FileDownload where
  fileId : JsString
  phase : FilePhase
  deriving DecidableEq

/-- The tasks, with the files that are downloaded. -/
structure Downloads where
  state : State
  files : List DownloadRow
  fileDownloads : List FileDownload

/-- No file has been asked for. -/
def Downloads.init : Downloads := ⟨.init, [], []⟩

/-- A call of `getFile`, a step of one, or an event of the tasks. -/
inductive DownloadEvent
  | getFile (rawId : JsString) (useCache : Bool)
  /-- A step of a call of `getFile`: the info chunk that `getChunk` gives, and whether the file is
  there, the chunks have come, or the disk or the statement does its work. -/
  | fileDownload (i : ℕ) (bytes : Option Bytes) (ok : Bool)
  | other (e : Event)
  deriving DecidableEq

/-- The call of `getChunk` has ended. -/
def callEnded (downloads : List Download) (call : ℕ) : Bool :=
  match downloads[call]? with
  | some d => d.phase = .done
  | none => false

section

variable (cfg : Config)

/-- A step of `getFile`: the file rows, the phase after it, and the chunks for which it calls
`getChunk`. -/
def FileDownload.next (d : FileDownload) (downloads : List Download) (files : List DownloadRow)
    (bytes : Option Bytes) (ok : Bool) : Option (List DownloadRow × FilePhase × List JsString) :=
  match d.phase with
  | .find useCache =>
    let files := DownloadRow.findByIdOrCreate d.fileId files
    let status := DownloadRow.dlStatus files d.fileId
    let phase :=
      if useCache ∧ status = some .completed ∧ ok then .done
      else if status = some .inProgress then .waiting useCache
      else .markInProgress
    some (files, phase, [])
  | .waiting useCache => some (files, .find useCache, [])
  | .markInProgress =>
    if ok then
      some (DownloadRow.markFileAsInProgressDownload d.fileId files,
        .infoChunk downloads.length, [d.fileId])
    else some (files, .markFailed, [])
  | .infoChunk call =>
    if callEnded downloads call then
      match bytes with
      | none => some (files, .markFailed, [])
      | some chunkInfo =>
        if isChunkInfo chunkInfo then
          match parseChunkInfo cfg.hashFn chunkInfo with
          | .error _ => some (files, .markFailed, [])
          | .ok chunkInfoParsed =>
            some (files, .chunks (List.range' downloads.length chunkInfoParsed.chunkIds.length),
              chunkInfoParsed.chunkIds)
        else some (files, .writeFile, [])
    else none
  | .chunks calls =>
    -- `Promise.all` waits for all calls, or for the first that rejects
    if ok then
      if calls.all (callEnded downloads) then some (files, .writeFile, []) else none
    else if calls.any (callEnded downloads) then some (files, .markFailed, []) else none
  | .writeFile => some (files, if ok then .markCompleted else .markFailed, [])
  | .markCompleted =>
    if ok then some (DownloadRow.markFileAsCompletedDownload d.fileId files, .done, [])
    else some (files, .markFailed, [])
  | .markFailed =>
    some (if ok then DownloadRow.markFileAsFailedDownload d.fileId files else files, .done, [])
  | .done => none

/-- One event; the chunks of a file are asked for all at once. -/
def Downloads.step (s : Downloads) : DownloadEvent → Option Downloads
  | .getFile rawId useCache =>
    match validateStorageId (normalizeId rawId) with
    | .error _ => some s
    | .ok _ =>
      some { s with fileDownloads := s.fileDownloads ++ [⟨normalizeId rawId, .find useCache⟩] }
  | .fileDownload i bytes ok =>
    (s.fileDownloads[i]?).bind fun d =>
      (d.next cfg s.state.downloads s.files bytes ok).map fun (files, phase, chunkIds) =>
        { state := { s.state with
            downloads := s.state.downloads ++ chunkIds.map fun chunkId => ⟨chunkId, .find true⟩ }
          files
          fileDownloads := s.fileDownloads.set i { d with phase } }
  | .other e =>
    (Uploader.step cfg s.state e).map fun state =>
      { s with state, fileDownloads := if e = .exit then [] else s.fileDownloads }

end

end PointNetwork.Uploader
