import Mathlib.Data.Set.Function
import PointNetwork.Machine
import PointNetwork.Storage.ChunkInfo

/-!
# Uploading and reading whole files

`uploadData` and `getFile` of `client/storage/index.ts`, with the file table and the folders
they work on. Calls run one after the other here; a call that finds a download of the same
file in progress waits for it. The encoding is `null` throughout, so that files are read as
buffers. `getChunkBinary` is a parameter: what the download of a chunk gives at the time of
the call.
-/

namespace PointNetwork.Storage

open Js

/-- `FILE_DOWNLOAD_STATUS` and `FILE_UPLOAD_STATUS`. -/
inductive FileStatus
  | notStarted
  | inProgress
  | completed
  | failed
  deriving DecidableEq, Repr

/-- A row of the file table. -/
structure File where
  size : Option ℕ := none
  ul_status : FileStatus := .notStarted
  dl_status : FileStatus := .notStarted
  deriving DecidableEq

/-- The file table, `FILES_DIR` and the chunk cache folder. -/
structure Node where
  files : JsString → Option File
  filesDir : JsString → Option Bytes
  chunkCache : JsString → Option Bytes

/-- A node that has seen no file. -/
def Node.empty : Node := ⟨fun _ => none, fun _ => none, fun _ => none⟩

/-- `File.findByIdOrCreate`. -/
def findByIdOrCreate (id : JsString) (node : Node) : File × Node :=
  let file := (node.files id).getD {}
  (file, { node with files := Function.update node.files id (some file) })

/-! ## Uploading -/

/-- The part of `enqueueChunksForUpload` that writes the chunks to the cache folder, each one
unless there is a file of its name. -/
def cacheChunks (H : HashFn) (chunks : List Bytes) (node : Node) : Node :=
  chunks.foldl (fun node data =>
    match node.chunkCache (H.id data) with
    | some _ => node
    | none => { node with chunkCache := Function.update node.chunkCache (H.id data) (some data) })
    node

/-- `markFileAsBeingUploaded`. -/
def markFileAsBeingUploaded (fileId : JsString) (fileSize : ℕ) (node : Node) : Node :=
  { node with
    files := fun id =>
      if id = fileId then
        (node.files id).map fun file =>
          if file.ul_status = .notStarted then
            { file with size := some fileSize, ul_status := .inProgress }
          else file
      else node.files id }

/-- The id of a file and the chunks stored for it: `chunks[-1]` is the info chunk of a file of
more than one chunk. -/
def fileChunks (H : HashFn) (C : ℕ) (buf : Bytes) : JsString × List Bytes :=
  let chunks := chunkify C buf
  if chunks.length ≤ 1 then (H.id buf, chunks)
  else
    let chunkInfoChunk := createChunkInfoChunk H C chunks
    (H.id chunkInfoChunk, chunks ++ [chunkInfoChunk])

/-- The id of a file is a digest: of its only chunk, or of its info chunk. -/
lemma exists_fileChunks_eq (H : HashFn) (C : ℕ) (buf : Bytes) :
    ∃ b, (fileChunks H C buf).1 = H.id b := by
  unfold fileChunks
  by_cases h : (chunkify C buf).length ≤ 1
  · simp only [if_pos h]
    exact ⟨_, rfl⟩
  · simp only [if_neg h]
    exact ⟨_, rfl⟩

lemma isValidStorageId_fileChunks (H : HashFn) (C : ℕ) (buf : Bytes) :
    isValidStorageId (fileChunks H C buf).1 = true := by
  obtain ⟨b, hb⟩ := exists_fileChunks_eq H C buf
  rw [hb]
  exact H.isValidStorageId_id b

/-- `uploadData`, not waiting for the upload. -/
def uploadData (H : HashFn) (C : ℕ) (buf : Bytes) (node : Node) : JsString × Node :=
  let (fileId, chunks) := fileChunks H C buf
  let node := (findByIdOrCreate fileId node).2
  (fileId, markFileAsBeingUploaded fileId buf.length (cacheChunks H chunks node))

/-! ## Reading -/

/-- A letter in lower case. An id has hexadecimal digits only, and no letter outside ASCII
has one of these as its lower case. -/
def toLower (u : UInt16) : UInt16 :=
  if 0x41 ≤ u.toNat && u.toNat ≤ 0x5A then UInt16.ofNat (u.toNat + 0x20) else u

/-- The id without `0x` in front, in lower case. -/
def normalizeId (rawId : JsString) : JsString :=
  let id := match rawId with
    | 0x30 :: 0x78 :: rest => rest
    | _ => rawId
  id.map toLower

/-- `validateStorageId`. -/
def validateStorageId (id : JsString) : Except Exception Unit := do
  if !isValidStorageId id then throw (.error "Invalid storage ID")
  if isZeroStorageId id then throw (.error "Zero storage ID doesn't exist")

/-- The updates of `dl_status`, which leave a completed download alone. -/
def setDownloadStatus (status : FileStatus) (fileId : JsString) (node : Node) : Node :=
  { node with
    files := fun id =>
      if id = fileId then
        (node.files id).map fun file =>
          if file.dl_status = .completed then file else { file with dl_status := status }
      else node.files id }

/-- The row of the file is COMPLETED. -/
def markFileAsCompletedDownload := setDownloadStatus .completed

/-- The row of the file is FAILED. -/
def markFileAsFailedDownload := setDownloadStatus .failed

/-- The row of the file is IN_PROGRESS. -/
def markFileAsInProgressDownload := setDownloadStatus .inProgress

/-- The second half of `getFile`: the download of the file into `FILES_DIR`. -/
def downloadFile (H : HashFn) (C : ℕ) (getChunkBinary : JsString → Except Exception Bytes)
    (id : JsString) (node : Node) : Except Exception Bytes × Node :=
  let node := markFileAsInProgressDownload id node
  match getChunkBinary id >>= decodeFile H C getChunkBinary with
  | .error e => (.error e, markFileAsFailedDownload id node)
  | .ok fileBuffer =>
    (.ok fileBuffer, markFileAsCompletedDownload id
      { node with filesDir := Function.update node.filesDir id (some fileBuffer) })

/-- `getFile`; the result is `none` when the call waits for a download in progress. -/
def getFile (H : HashFn) (C : ℕ) (getChunkBinary : JsString → Except Exception Bytes)
    (rawId : JsString) (useCache : Bool) (node : Node) : Option (Except Exception Bytes) × Node :=
  let id := normalizeId rawId
  match validateStorageId id with
  | .error e => (some (.error e), node)
  | .ok _ =>
    let (file, node) := findByIdOrCreate id node
    let cached := if useCache && file.dl_status = .completed then node.filesDir id else none
    match cached with
    | some fileBuffer => (some (.ok fileBuffer), node)
    | none =>
      if file.dl_status = .inProgress then (none, node)
      else
        let (result, node) := downloadFile H C getChunkBinary id node
        (some result, node)

end PointNetwork.Storage
