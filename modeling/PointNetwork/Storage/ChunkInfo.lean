import PointNetwork.Core

/-!
# The chunk format: splitting a file, its Merkle tree and its info chunk

`chunkify`, `createChunkInfoChunk` and `parseChunkInfo` of `client/storage/index.ts`, with
`derive` and `merkle` of `util/merkle.ts`. The chunk size `C` is the configuration value
`CHUNK_SIZE`.
-/

namespace PointNetwork.Storage

open Js

/-- `CHUNKINFO_PROLOGUE`. -/
def CHUNKINFO_PROLOGUE : JsString := js "PN^CHUNK\x05$\x06z\u00f5*INFO"

/-! ## Merkle tree -/

section Merkle

variable (digestFn : Bytes → Bytes)

/-- `derive`: the parents of a level, an odd node out being paired with itself. -/
def derive (initialIteration : Bool) : List Bytes → List Bytes
  | [] => []
  | [left] =>
    [digestFn (if initialIteration then 0x00 :: (left ++ left) else left ++ left)]
  | left :: right :: rest =>
    digestFn (if initialIteration then 0x00 :: (left ++ right) else left ++ right)
      :: derive initialIteration rest

/-- The levels above a level, appended one after the other. Every level is half as long as
the one below it, so that the length of the first one bounds their number. -/
def merkleAbove : ℕ → Bool → List Bytes → List Bytes
  | 0, _, _ => []
  | fuel + 1, initialIteration, level =>
    let next := derive digestFn initialIteration level
    next ++ if next.length > 1 then merkleAbove fuel false next else []

/-- `merkle`: the leaves, then every level up to the root. -/
def merkle (values : List Bytes) : List Bytes :=
  values ++ merkleAbove digestFn (values.length + 1) true values

end Merkle

/-! ## Writing -/

section Write

variable (H : HashFn) (C : ℕ)

/-- `Math.ceil(length / CHUNK_SIZE)`. -/
def totalChunks (length : ℕ) : ℕ := (length + C - 1) / C

/-- `chunkify`. -/
def chunkify (buf : Bytes) : List Bytes :=
  if totalChunks C buf.length ≤ 1 then [buf]
  else (List.range (totalChunks C buf.length)).map fun i =>
    slice buf (i * C : ℕ) ((i + 1) * C : ℕ)

/-- `buffersToHashes`. -/
def buffersToHashes (bufs : List Bytes) : List Bytes := bufs.map H.digest

/-- `chunksToTotalLength`; the list is never empty. -/
def chunksToTotalLength (chunks : List Bytes) : ℕ :=
  (chunks.length - 1) * C + (chunks.getLastD []).length

/-- The contents of an info chunk. -/
def chunkInfoContents (chunks : List Bytes) : Json :=
  .obj [(js "type", .str (js "file")),
    (js "chunks", .arr ((buffersToHashes H chunks).map fun b => .str (toHex b))),
    (js "hash", .str (js "keccak256")),
    (js "filesize", .num (.ofInt (chunksToTotalLength C chunks))),
    (js "merkle", .arr ((merkle H.digest (buffersToHashes H chunks)).map fun x => .str (toHex x)))]

/-- `createChunkInfoChunk`. -/
def createChunkInfoChunk (chunks : List Bytes) : Bytes :=
  bufferFrom (CHUNKINFO_PROLOGUE ++ (chunkInfoContents H C chunks).stringify)

end Write

/-! ## Reading -/

/-- `ParsedChunkInfo`. The size and the Merkle tree are whatever the JSON text held; a
missing field is `none`. -/
structure ParsedChunkInfo where
  type : JsString
  hashType : JsString
  chunkIds : List JsString
  filesize : Option Json
  merkle : Option Json
  isValid : Bool
  deriving DecidableEq

/-- A property of a parsed JSON text. Reading one off anything but an object gives
`undefined`, off `null` a `TypeError`. -/
def readField (v : Json) (key : JsString) : Except Exception (Option Json) :=
  match v with
  | .null => throw .typeError
  | .obj kvs => pure (kvs.lookup key)
  | _ => pure none

/-- `chunks.map((x) => Buffer.from(x, 'hex'))` needs an array of strings. -/
def stringElements (v : Option Json) : Except Exception (List JsString) :=
  match v with
  | some (.arr xs) => xs.mapM fun x =>
    match x with
    | .str s => pure s
    | _ => throw .typeError
  | _ => throw .typeError

/-- `areScalarArraysEqual(a1, a2)` for an array of strings and any value. -/
def areScalarArraysEqual (a1 : List JsString) (a2 : Option Json) : Except Exception Bool :=
  match a2 with
  | some .null => throw .typeError
  | some (.arr xs) => pure (decide (xs = a1.map Json.str))
  | some (.obj kvs) =>
    pure (decide (kvs.lookup (js "length") = some (.num (.ofInt a1.length))) &&
      (List.range a1.length).all fun i =>
        decide (kvs.lookup (natText i) = some (.str (a1.getD i []))))
  | _ => pure false

/-- `parseChunkInfo`. -/
def parseChunkInfo (H : HashFn) (chunkInfo : Bytes) : Except Exception ParsedChunkInfo := do
  let toParse := (bufferToString chunkInfo).drop CHUNKINFO_PROLOGUE.length
  let some parsed := Json.parse toParse | throw .syntaxError
  let type ← readField parsed (js "type")
  let hash ← readField parsed (js "hash")
  let chunks ← readField parsed (js "chunks")
  let filesize ← readField parsed (js "filesize")
  let merkleHash ← readField parsed (js "merkle")
  if type ≠ some (.str (js "file")) then throw (.error "Bad file type")
  if hash ≠ some (.str (js "keccak256")) then throw (.error "Bad hash type")
  let chunkIds ← stringElements chunks
  let merkleReassembled := (merkle H.digest (chunkIds.map fromHex)).map toHex
  if !(← areScalarArraysEqual merkleReassembled merkleHash) then
    throw (.error "Incorrect Merkle hash")
  pure { type := js "file", hashType := js "keccak256", chunkIds, filesize,
         merkle := merkleHash, isValid := true }

/-- `chunkInfoString.startsWith(CHUNKINFO_PROLOGUE)`. -/
def isChunkInfo (chunkInfo : Bytes) : Bool :=
  CHUNKINFO_PROLOGUE.isPrefixOf (bufferToString chunkInfo)

/-- `last.slice(0, filesize - before)`. -/
def sliceTo (last : Bytes) (filesize : Option Json) (before : ℕ) : Bytes :=
  match filesize.map Json.toNumber with
  | some (.fin n) => slice last 0 (n.truncSub before)
  | some (.infinity false) => last
  | _ => []

/-- The file buffer: the chunks one after the other, the last one cut to the file size. -/
def concatChunks (C : ℕ) (chunks : List Bytes) (filesize : Option Json) : Bytes :=
  match chunks.getLast? with
  | none => []
  | some last =>
    chunks.dropLast.flatten ++ sliceTo last filesize ((chunks.length - 1) * C)

/-- What `getFile` makes of the chunk it finds under the id of a file, `getChunkBinary`
being the download of a chunk. -/
def decodeFile (H : HashFn) (C : ℕ) (getChunkBinary : JsString → Except Exception Bytes)
    (chunkInfo : Bytes) : Except Exception Bytes := do
  if isChunkInfo chunkInfo then
    let chunkInfoParsed ← parseChunkInfo H chunkInfo
    let chunkBuffers ← chunkInfoParsed.chunkIds.mapM getChunkBinary
    pure (concatChunks C chunkBuffers chunkInfoParsed.filesize)
  else pure chunkInfo

end PointNetwork.Storage
