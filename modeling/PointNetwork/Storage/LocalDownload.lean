import PointNetwork.Js.Base64
import PointNetwork.Machine
import PointNetwork.Uploader.Database

/-!
# Chunks in a local network

`getChunk` of `client/storage/chunk/download.zappdev.ts`. The nodes of a local network answer
with the base64 text of the data of a transaction; the chunk is what the text decodes to.

The calls for one chunk id come one after the other, each as one step, with the answers that it
gets from the network. The temporary file, which the final one is renamed from, is left out. The
state also records, for the statements, what was downloaded and verified.
-/

namespace PointNetwork.Storage

open Js Uploader

variable {Encoding : Type}

/-- What `getChunk` uses of its surroundings: the hash function and `buf.toString(encoding)`. -/
structure LocalEnv (Encoding : Type) where
  hashFn : HashFn
  toText : Encoding → Bytes → JsString

/-- `axios.get(…).data`: the text of the answer, or the value if it is the text of a JSON value,
with what `Buffer.from` makes of this value unless it throws. -/
inductive AnswerData
  | text (s : JsString)
  | value (buf : Option Bytes)
  deriving DecidableEq

/-- A call, with the answers to it: the transactions of the query, or nothing if it fails; and for
each of them the data, or nothing if the request fails. -/
structure LocalCall (Encoding : Type) where
  encoding : Option Encoding
  useCache : Bool
  queryResult : Option (List (Option AnswerData))

/-- A string or a buffer. -/
inductive ChunkValue
  | buffer (b : Bytes)
  | text (s : JsString)
  deriving DecidableEq

/-- Data that was downloaded and has the hash asked for. -/
structure LocalDownload where
  data : JsString
  buf : Bytes
  deriving DecidableEq

/-- A row of the table `Chunk`, as far as downloads write it. -/
structure LocalRow where
  dl_status : DownloadStatus := .notStarted
  size : Option ℕ := none
  deriving DecidableEq

/-- The row and the file of the chunk. -/
structure LocalState where
  row : Option LocalRow
  file : Option Bytes
  downloads : List LocalDownload
  deriving DecidableEq

section

variable (env : LocalEnv Encoding) (chunkId : JsString)

/-- Bytes as they are returned in an encoding. -/
def present (encoding : Option Encoding) (b : Bytes) : ChunkValue :=
  match encoding with
  | none => .buffer b
  | some encoding => .text (env.toText encoding b)

/-- `fs.readFile(chunkPath, {encoding})`. -/
def readChunkFile (encoding : Option Encoding) : Option Bytes → Except Exception ChunkValue
  | none => throw .rejected
  | some b => pure (present env encoding b)

/-- The loop over the transactions, to the first whose data has the hash. -/
def findMatching : List (Option AnswerData) → Except Exception LocalDownload
  | [] => throw (.error "No matching hash found in arweave")
  | none :: _ => throw .rejected
  | some (.value none) :: _ => throw .typeError
  | some (.value (some buf)) :: rest =>
    if env.hashFn.id buf ≠ chunkId then findMatching rest
    -- `fs.writeFile` takes no such value
    else throw .typeError
  | some (.text data) :: rest =>
    let buf := fromBase64 data
    if env.hashFn.id buf ≠ chunkId then findMatching rest else pure ⟨data, buf⟩

/-- The query for the transactions of the chunk, and the loop over them. -/
def findChunk : Option (List (Option AnswerData)) → Except Exception LocalDownload
  | none => throw .rejected
  | some edges => findMatching env chunkId edges

/-- `getChunk`. Nothing comes out where a call waits for a download in progress: it goes on when
another call has changed the row. -/
def getChunkLocally (call : LocalCall Encoding) (s : LocalState) :
    Option (Except Exception ChunkValue) × LocalState :=
  let row := s.row.getD {}
  if call.useCache && row.dl_status = .completed then
    (some (readChunkFile env call.encoding s.file), { s with row := some row })
  else if row.dl_status = .inProgress then (none, { s with row := some row })
  else
    match findChunk env chunkId call.queryResult with
    | .ok d =>
      -- the text itself goes into the file
      (some (pure (.buffer d.buf)),
        { row := some ⟨.completed, some d.buf.length⟩
          file := some (bufferFrom d.data)
          downloads := s.downloads ++ [d] })
    | .error e =>
      (some (throw e), { s with row := some { row with dl_status := .failed } })

/-- The step of one call. -/
def LocalState.step (s : LocalState) (call : LocalCall Encoding) : Option LocalState :=
  some (getChunkLocally env chunkId call s).2

/-- The table and the folder before the first of the calls. -/
def LocalState.start (row : Option LocalRow) (file : Option Bytes) : LocalState := ⟨row, file, []⟩

end

/-- The call is served from the file. -/
def LocalCall.FromCache (call : LocalCall Encoding) (s : LocalState) : Prop :=
  call.useCache = true ∧ (s.row.getD {}).dl_status = .completed

end PointNetwork.Storage
