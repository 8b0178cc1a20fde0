import PointNetwork.Js.Replace
import PointNetwork.Storage.FileRead

/-!
# Reading a file as a stream

`getFileAsReadStream` and `serveReadableStreamWithFullData` of `client/storage/index.ts`. A
file of one chunk is pushed at once. For a file of several chunks the call sets up a
`ChunkStream`; its `StreamState` then changes with the events of the stream: the download of
a chunk ends, the consumer reads, the client disconnects. The encoding is `null`.
-/

namespace PointNetwork.Storage

open Js

/-! ## Ranges -/

/-- A number that is a natural number. -/
def natural? : JsNumber → Option ℕ
  | .fin n => if n.scale = 0 ∧ 0 ≤ n.mantissa then some n.mantissa.toNat else none
  | _ => none

/-- `Number((range || '').replace(/bytes=/, '').split('-')[0])`, when it is a natural number. -/
def rangeStart (range : JsString) : Option ℕ :=
  natural? (stringToNumber ((replace (js "bytes=") [] range).takeWhile (· != 0x2D)))

/-- The last byte of the answer to a range request, at most 1 MB after the first. -/
def rangeEnd (start totalSize : ℕ) : ℕ :=
  (max (start : ℤ) (min (start + 1024 * 1024) (totalSize - 1))).toNat

/-! ## Headers -/

/-- The headers and the status code set on the reply. -/
structure Reply where
  contentLength : JsString
  contentRange : Option JsString := none
  acceptRanges : Option JsString := none
  code : ℕ := 200
  deriving DecidableEq

/-- The header value of a total size, which is printed as a double; a missing one is the empty
text. -/
def sizeText (totalSize : Option Json) : JsString := (totalSize.map Json.toText).getD []

/-- The headers of a partial answer. -/
def rangeReply (start totalSize : ℕ) : Reply where
  contentLength := natText (rangeEnd start totalSize - start + 1)
  contentRange := some (js "bytes " ++ natText start ++ js "-" ++
    natText (rangeEnd start totalSize) ++ js "/" ++ natText totalSize)
  acceptRanges := some (js "bytes")
  code := 206

/-- `serveReadableStreamWithFullData`: the reply and what is pushed before the end of the
stream. -/
def serveReadableStreamWithFullData (data : Bytes) (range : Option ℕ) : Reply × List Bytes :=
  match range with
  | none => ({ contentLength := natText data.length }, [data])
  | some start =>
    (rangeReply start data.length, [slice data start (rangeEnd start data.length + 1 : ℕ)])

/-! ## Streams of chunks -/

/-- What the closures of `createReadableStream` see. -/
structure ChunkStream where
  chunkIds : List JsString
  /-- `start` and `end` of a range request. -/
  range : Option (ℕ × ℕ)
  startChunkIdx : ℤ
  endChunkIdx : ℤ
  deriving DecidableEq

/-- The variables of `createReadableStream` and the state of its stream. `active` lists the
calls of `downloadChunk` whose chunk has not arrived. -/
structure StreamState where
  downloading : Bool := true
  closed : Bool := false
  lastChunkIdx : ℤ := -1
  active : List ℤ := []
  pushed : List Bytes := []
  ended : Bool := false
  failed : Bool := false
  deriving DecidableEq

/-- What happens to a stream. -/
inductive StreamEvent
  /-- The download of a chunk ends; `pushResult` is what `readable.push` returns. -/
  | arrive (chunkIdx : ℤ) (pushResult : Bool)
  | fail (chunkIdx : ℤ)
  | read
  | close
  deriving DecidableEq

section Events

variable (C : ℕ) (getChunkBinary : JsString → Except Exception Bytes) (cs : ChunkStream)

/-- `downloadChunk` up to its first suspension. -/
def downloadChunk (chunkIdx : ℤ) (st : StreamState) : StreamState :=
  if chunkIdx > cs.endChunkIdx then { st with ended := true }
  else { st with active := st.active ++ [chunkIdx] }

/-- What `pushChunk` pushes of a chunk. -/
def dataToPush (chunkIdx : ℤ) (chunk : Bytes) : Bytes :=
  match cs.range with
  | some (start, stop) => slice chunk (start - chunkIdx * C) (stop - chunkIdx * C + 1)
  | none => chunk

/-- `pushChunk`: a push that returned true pauses the download. -/
def pushChunk (chunkIdx : ℤ) (chunk : Bytes) (pushResult : Bool) (st : StreamState) :
    StreamState :=
  let st := { st with pushed := st.pushed ++ [dataToPush C cs chunkIdx chunk] }
  if pushResult then { st with downloading := false, lastChunkIdx := chunkIdx } else st

/-- The download of a chunk; an index outside the list has no chunk to ask for. -/
def chunkAt (chunkIdx : ℤ) : Except Exception Bytes :=
  if chunkIdx < 0 then throw .rejected
  else match cs.chunkIds[chunkIdx.toNat]? with
    | some chunkId => getChunkBinary chunkId
    | none => throw .rejected

/-- The stream as `createReadableStream` returns it. -/
def ChunkStream.initial : StreamState := downloadChunk cs cs.startChunkIdx {}

/-- The step on an event. The stream asks for no data once it has ended. -/
def streamStep (st : StreamState) : StreamEvent → Option StreamState
  | .arrive chunkIdx pushResult =>
    if chunkIdx ∈ st.active then
      let st := { st with active := st.active.erase chunkIdx }
      match chunkAt getChunkBinary cs chunkIdx with
      | .error _ => some { st with failed := true }
      | .ok chunk =>
        let st := pushChunk C cs chunkIdx chunk pushResult st
        some (if st.downloading then downloadChunk cs (chunkIdx + 1) st else st)
    else none
  | .fail chunkIdx =>
    if chunkIdx ∈ st.active then
      some { st with active := st.active.erase chunkIdx, failed := true }
    else none
  | .read =>
    if st.ended then none
    else if !st.downloading && !st.closed then
      some (downloadChunk cs (st.lastChunkIdx + 1) { st with downloading := true })
    else some st
  | .close => some { st with downloading := false, closed := true }

end Events

/-- What `getFileAsReadStream` returns. -/
inductive ReadStream
  /-- A stream that already has all its data. -/
  | whole (reply : Reply) (pushed : List Bytes)
  | chunked (reply : Reply) (cs : ChunkStream)
  /-- A range request whose start, or whose file's announced size, is no natural number. -/
  | unmodelled
  deriving DecidableEq

/-- `createReadableStream` up to the first download. -/
def createReadableStream (C : ℕ) (chunkIds : List JsString) (totalSize : Option Json)
    (range : Option ℕ) : ReadStream :=
  match range with
  | none =>
    .chunked { contentLength := sizeText totalSize }
      { chunkIds, range := none, startChunkIdx := 0, endChunkIdx := chunkIds.length - 1 }
  | some start =>
    match (totalSize.map Json.toNumber).bind natural? with
    | some size =>
      let stop := rangeEnd start size
      .chunked (rangeReply start size)
        { chunkIds, range := some (start, stop), startChunkIdx := (start / C : ℕ),
          endChunkIdx := (stop / C : ℕ) }
    | none => .unmodelled

/-- `getFileAsReadStream`. -/
def getFileAsReadStream (H : HashFn) (C : ℕ)
    (getChunkBinary : JsString → Except Exception Bytes) (rawId : JsString) (range : Option ℕ)
    (node : Node) : Except Exception ReadStream × Node :=
  let id := normalizeId rawId
  match validateStorageId id with
  | .error e => (.error e, node)
  | .ok _ =>
    let node := (findByIdOrCreate id node).2
    match getChunkBinary id with
    | .error e => (.error e, node)
    | .ok chunkInfo =>
      if isChunkInfo chunkInfo then
        match parseChunkInfo H chunkInfo with
        | .error e => (.error e, node)
        | .ok parsed => (.ok (createReadableStream C parsed.chunkIds parsed.filesize range), node)
      else
        let (reply, pushed) := serveReadableStreamWithFullData chunkInfo range
        (.ok (.whole reply pushed), markFileAsCompletedDownload id node)

end PointNetwork.Storage
