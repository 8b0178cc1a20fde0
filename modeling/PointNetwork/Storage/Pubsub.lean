import PointNetwork.Deployer.KeyValue
import PointNetwork.Encryption.MessageTheorems
import PointNetwork.Storage.Directory

/-!
# Messages published for an identity

`pubsubPublishForIdentity` of `api/controllers/StorageController.js`, `pubsubPublish` and
`pubsubProcessMessage` of `client/storage/ipfs.ts`, and `util/gzip.ts`. The payload is compressed if an
option asks for it, signed, encrypted and uploaded for the recipient; what is published is the id of the
upload, behind the host and two prologues:

  `PN^PS_HOST|` host `|` `PN^PS_ES|` fileId

The packages `zlib` and `crypto`, and the server between the sockets, are parameters.
-/

namespace PointNetwork.Storage.Pubsub

open Js Encryption

/-! ## What the code is given -/

/-- `zlib.gzip` and `zlib.gunzip`. -/
structure Zlib where
  gzip : Bytes → Bytes
  gunzip : Bytes → Option Bytes
  gunzip_gzip : ∀ b, gunzip (gzip b) = some b

/-- Compression that stores, for small concrete runs. -/
def Zlib.stored : Zlib where
  gzip b := 0x1F :: 0x8B :: b
  gunzip b := if b.take 2 = [0x1F, 0x8B] then some (b.drop 2) else none
  gunzip_gzip _ := rfl

/-- The number of bytes in the text of a topic's hash. -/
def topicHashLength : ℕ := 66

/-- The server behind the sockets. What is sent for the hash of a topic it hands on, unchanged, to those who
listen on that topic. -/
structure Server where
  deliver : Bytes → Option (Bytes × Bytes)
  deliver_msg : ∀ topicHash message, topicHash.length = topicHashLength →
    deliver (bufferFrom (js "msg") ++ (topicHash ++ message)) = some (topicHash, message)

/-- A server that reads the three fields. -/
def Server.plain : Server where
  deliver b :=
    if b.take 3 = bufferFrom (js "msg") then some (field b 3 topicHashLength, b.drop (3 + topicHashLength))
    else none
  deliver_msg topicHash message h := by
    have hmsg : (bufferFrom (js "msg")).length = 3 := rfl
    rw [List.take_left' hmsg, if_pos rfl, field_eq _ topicHash message rfl hmsg h,
      drop_eq (bufferFrom (js "msg") ++ topicHash) message (by rw [List.append_assoc])
        (by rw [List.length_append, hmsg, h])]

/-- The node of a user. -/
structure Node (σ : Type) where
  env : Env σ
  /-- `getNetworkPrivateKey()`, in hexadecimal. -/
  networkPrivateKey : JsString
  /-- The topics for which a socket is open, in the order of `sockets`. -/
  sockets : List JsString

/-! ## Compression -/

/-- Stands before data that are compressed. -/
def PN_GZIP_PROLOGUE : JsString := js "PN^GZ\x05\x06*#"

section

variable (zlib : Zlib)

/-- `gzip`. A text is compressed as its UTF-8 bytes. -/
def gzip (data : JsString) (addPrologue : Bool) : Bytes :=
  let compressed := zlib.gzip (bufferFrom data)
  if addPrologue then bufferFrom PN_GZIP_PROLOGUE ++ compressed else compressed

/-- The data that were compressed. -/
def gunzip (data : Bytes) (verifyPrologue : Bool) : Except Exception Bytes :=
  let prologue := bufferToString (slice data 0 PN_GZIP_PROLOGUE.length)
  if verifyPrologue && prologue != PN_GZIP_PROLOGUE then throw (.error "Invalid prologue")
  else
    match zlib.gunzip (if verifyPrologue then data.drop PN_GZIP_PROLOGUE.length else data) with
    | some uncompressed => pure uncompressed
    | none => throw .rejected

/-- Uncompresses the data when they begin with the prologue. -/
def gunzipIfCompressed (data : Bytes) : Except Exception Bytes :=
  if bufferToString (slice data 0 PN_GZIP_PROLOGUE.length) = PN_GZIP_PROLOGUE then
    gunzip zlib data true
  else pure data

end

/-! ## Publishing -/

/-- Stands before the host of a publication. -/
def HOST_PREFIXED_PUBSUB_PROLOGUE : JsString := js "PN^PS_HOST|"

/-- Stands before a publication that is encrypted and signed. -/
def HOST_PREFIXED_PUBSUB_ENCSIGN_PROLOGUE : JsString := js "PN^PS_ES|"

/-- `identityToTopic` -/
def identityToTopic (hashFn : HashFn) (identity : JsString) : JsString :=
  js "_point_pubsub_id_" ++ toHex (hashFn.digest (bufferFrom identity))

/-- `'0x' + crypto.createHash('sha256').update(topic).digest('hex')` -/
def topicHash (sha256 : HashFn) (topic : JsString) : JsString :=
  js "0x" ++ toHex (sha256.digest (bufferFrom topic))

/-- What became of a call of `pubsubPublish`: what the socket was given, or an exception, and the sockets that
are open then. -/
structure Published where
  sent : Except Exception Bytes
  sockets : List JsString

/-- `pubsubPublish`. Where no socket is open, `connect('')` opens one but does not return it. -/
def pubsubPublish (sha256 : HashFn) (sockets : List JsString) (topic data : JsString) : Published :=
  match sockets with
  | [] => ⟨throw .typeError, [[]]⟩
  | _ :: _ =>
    let messageBuffer := bufferFrom data
    ⟨pure (bufferFrom (js "msg") ++ (bufferFrom (topicHash sha256 topic) ++ messageBuffer)), sockets⟩

/-- The body of the request. -/
structure Payload where
  data : JsString
  identity : JsString
  options : Option JsString
  deriving DecidableEq

/-- The option `gzip` of `JSON.parse(this.payload.options || '{}')`, as a condition. -/
def gzipOption (options : Option JsString) : Except Exception Bool :=
  let text := options.getD []
  match Json.parse (if text = [] then js "\x7b\x7d" else text) with
  | none => throw .syntaxError
  | some .null => throw .typeError
  | some value => pure (Deployer.truthy (Deployer.ownProperty (js "gzip") value))

section

variable {σ : Type}

/-- `wrapWithSignature` of a text or a buffer. `Buffer.concat` throws for a part that is no buffer. -/
def wrapWithSignature (env : Env σ) (host : JsString) (data : JsString ⊕ Bytes) (privateKey : Bytes) :
    Run σ Bytes :=
  match data with
  | .inr data => Encryption.wrapWithSignature env host data privateKey
  | .inl _ => do
    Logged.ofExcept (ensure (env.identity.getD [] ≠ []) "No identity found, cannot sign")
    Logged.fail .typeError

/-- `signEncryptUploadForIdentityFromMe` -/
def signEncryptUploadForIdentityFromMe (node : Node σ) (host : JsString) (data : JsString ⊕ Bytes)
    (identity : JsString) : Run σ JsString := do
  let signedPlaintext ← wrapWithSignature node.env host data (fromHex node.networkPrivateKey)
  encryptAndUploadDataForIdentity node.env host signedPlaintext identity

/-- What is published for an upload. -/
def prefixed (host fileId : JsString) : JsString :=
  HOST_PREFIXED_PUBSUB_PROLOGUE ++ host ++ js "|" ++ HOST_PREFIXED_PUBSUB_ENCSIGN_PROLOGUE ++ fileId

/-- `StorageController.pubsubPublishForIdentity`. The promise of `pubsubPublish` is not awaited: the answer of
the request is the same if it is rejected. -/
def pubsubPublishForIdentity (zlib : Zlib) (sha256 : HashFn) (node : Node σ) (host : JsString)
    (payload : Payload) : Run σ Published := do
  Logged.ofExcept (ensure (payload.data ≠ []) "Data cannot be empty")
  Logged.ofExcept (ensure (payload.identity ≠ []) "Identity cannot be empty")
  let gzipped ← Logged.ofExcept (gzipOption payload.options)
  -- a payload that is not compressed stays a string
  let data : JsString ⊕ Bytes := if gzipped then .inr (gzip zlib payload.data true) else .inl payload.data
  let encryptedAndSignedData ← signEncryptUploadForIdentityFromMe node host data payload.identity
  let topic := identityToTopic node.env.hashFn payload.identity
  pure (pubsubPublish sha256 node.sockets topic (prefixed host encryptedAndSignedData))

/-! ## Receiving -/

/-- A call of the callback: `callback(topic, final, identity)`. -/
structure Call where
  topic : JsString
  final : Bytes
  identity : JsString
  deriving DecidableEq

/-- `downloadVerifyDecryptFromIdentityForMe` -/
def downloadVerifyDecryptFromIdentityForMe (node : Node σ) (host fileId : JsString) :
    Except Exception VerifiedData :=
  downloadVerifyDecryptFromIdentity node.env host fileId (fromHex node.networkPrivateKey)

/-- `pubsubProcessMessage`: the call of the callback, nothing where an error is ignored. -/
def pubsubProcessMessage (zlib : Zlib) (node : Node σ) (host topic : JsString) (data : Bytes)
    (ignoreErrors : Bool) : Except Exception (Option Call) := do
  let hostIndex := HOST_PREFIXED_PUBSUB_PROLOGUE.length
  let prologue := slice data 0 hostIndex
  -- without a separator the end of the host is -1, and the slices below count from the end of the buffer
  let hostEndIndex := indexOf data 0x7C hostIndex
  let messageHost := bufferToString (slice data hostIndex hostEndIndex)
  let encsignIndex := hostEndIndex + 1
  let encsignEnd := encsignIndex + HOST_PREFIXED_PUBSUB_ENCSIGN_PROLOGUE.length
  let encsignPrologue := bufferToString (slice data encsignIndex encsignEnd)
  if prologue ≠ bufferFrom HOST_PREFIXED_PUBSUB_PROLOGUE then
    if ignoreErrors then pure none
    else throw (.error ("Invalid prologue: " ++ messageText (bufferToString prologue) ++ " vs " ++
      messageText HOST_PREFIXED_PUBSUB_PROLOGUE))
  else if messageHost ≠ host then
    if ignoreErrors then pure none
    else throw (.error ("Invalid host: " ++ messageText messageHost))
  else if encsignPrologue ≠ HOST_PREFIXED_PUBSUB_ENCSIGN_PROLOGUE then
    throw (.error ("Invalid encsign prologue: " ++ messageText encsignPrologue))
  else do
    let encryptedAndSignedData := bufferToString (slice data encsignEnd data.length)
    let verifiedData ← downloadVerifyDecryptFromIdentityForMe node host encryptedAndSignedData
    let final ← gunzipIfCompressed zlib verifiedData.data
    pure (some ⟨topic, final, verifiedData.identity⟩)

end

end PointNetwork.Storage.Pubsub
