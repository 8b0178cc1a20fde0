import PointNetwork.DolevYao
import PointNetwork.Encryption.Message
import PointNetwork.Machine

/-!
# Messages with perfect cryptography

The functions of `Message` on symbolic messages instead of buffers: a buffer that is put together
from fields is a nest of pairs, and texts, prologues, hashes and file ids are messages of their own.
Parties are honest or not. Honest parties sign, encrypt and upload what they are told to, for any
registered recipient; everything else is up to the adversary, who has the private keys of the other
identities, registers what keys it likes for them, and answers all downloads.
-/

namespace PointNetwork.Encryption.Symbolic

open Js Machine DolevYao

/-- What messages are built from. -/
inductive Atom
  | text (s : JsString)
  | bytes (b : Bytes)
  | privateKey (identity : JsString)
  | symmetricKey (n : ℕ)
  deriving DecidableEq

/-- The one-way functions: `hashFn`, and the id of an uploaded file. -/
inductive Fn
  | hashFn
  | fileId
  deriving DecidableEq

/-- The messages of this model. -/
abbrev Message := Term Atom Fn

/-- A text as a message. -/
def text (s : JsString) : Message := .atom (.text s)

/-- Bytes as a message. -/
def bytes (b : Bytes) : Message := .atom (.bytes b)

/-- The private key of an identity. -/
def privateKey (identity : JsString) : Message := .atom (.privateKey identity)

/-- The key that has been drawn under a number. -/
def symmetricKey (n : ℕ) : Message := .atom (.symmetricKey n)

/-- The hash of a message. -/
def hashFn (m : Message) : Message := .apply .hashFn m

/-- The id of the file that holds a message. -/
def fileId (m : Message) : Message := .apply .fileId m

/-! ## Sending -/

/-- `await hashFn(Buffer.from(host))`. -/
def hostHashed (host : JsString) : Message := hashFn (text host)

/-- What `wrapWithSignature` signs. -/
def combined (senderIdentity host : JsString) (data : Message) : Message :=
  .pair (bytes SIGNATURE_PROLOGUE_INNER) (.pair (text senderIdentity) (.pair (bytes [0x00])
    (.pair (hostHashed host) data)))

/-- The signature of the hash of the data. -/
def signRawData (data privateKey : Message) (r : ℕ) : Message := .sign privateKey (hashFn data) r

/-- The signature before the data, the sender and the host that it is of. -/
def wrapWithSignature (senderIdentity host : JsString) (data privateKey : Message) (r : ℕ) :
    Message :=
  let combined := combined senderIdentity host data
  .pair (bytes SIGNATURE_PROLOGUE_OUTER) (.pair (signRawData combined privateKey r) combined)

/-- The plaintext encrypted to a public key. -/
def encryptRawPlaintextAsymmetric (plaintext publicKey : Message) (r : ℕ) : Message :=
  .pair (bytes ASYMMETRIC_ENCRYPTION_PROLOGUE_RAWASYMM)
    (.aenc publicKey (.pair (bytes ASYMMETRIC_ENCRYPTION_PROLOGUE_PLAIN) plaintext) r)

/-- What `encryptAndUploadDataAsymmetric` encrypts for the recipient. -/
def keyInfo (host : JsString) (key symmetricFileId : Message) : Message :=
  .pair (bytes ASYMMETRIC_ENCRYPTION_PROLOGUE_ASYMM) (.pair key (.pair symmetricFileId
    (hostHashed host)))

/-- What `encryptAndUploadDataAsymmetric` uploads last. -/
def container (host : JsString) (key symmetricFileId publicKey : Message) (r : ℕ) : Message :=
  .pair (bytes ASYMMETRIC_ENCRYPTION_PROLOGUE_CONTAINER) (.pair (hashFn publicKey)
    (encryptRawPlaintextAsymmetric (keyInfo host key symmetricFileId) publicKey r))

/-- `encryptAndUploadDataAsymmetric` with this symmetric key: the two uploads. -/
def encryptAndUploadDataAsymmetric (host : JsString) (data publicKey key : Message) (r : ℕ) :
    List Message :=
  let encryptedData : Message := .senc key data r
  [encryptedData, container host key (fileId encryptedData) publicKey r]

/-! ## Receiving -/

/-- What is behind a prologue. -/
def expect (prologue : Bytes) : Message → Option Message
  | .pair (.atom (.bytes b)) m => if b = prologue then some m else none
  | _ => none

/-- The text of a field. -/
def toText : Message → Option JsString
  | .atom (.text s) => some s
  | _ => none

/-- The plaintext, for the private key that it was encrypted to. -/
def decryptRawPlaintextAsymmetric (encrypted privateKey : Message) : Option Message := do
  let ciphertext ← expect ASYMMETRIC_ENCRYPTION_PROLOGUE_RAWASYMM encrypted
  let decrypted ← ciphertext.adec privateKey
  expect ASYMMETRIC_ENCRYPTION_PROLOGUE_PLAIN decrypted

section

variable (network : Message → Option Message)

/-- A downloaded file, decrypted with a key. -/
def downloadAndDecryptFile (key fileId : Message) : Option Message := do
  let encryptedMaterial ← network fileId
  encryptedMaterial.sdec key

/-- The data in a container for the private key and the host. -/
def downloadAndDecryptDataAsymmetric (host : JsString) (fileId privateKey : Message) :
    Option Message := do
  let downloaded ← network fileId
  let rest ← expect ASYMMETRIC_ENCRYPTION_PROLOGUE_CONTAINER downloaded
  let (expectedPublicKeyHashed, encryptedData) ← rest.split
  guard (expectedPublicKeyHashed = hashFn (.publicKey privateKey))
  let decryptedKeyInfo ← decryptRawPlaintextAsymmetric encryptedData privateKey
  let info ← expect ASYMMETRIC_ENCRYPTION_PROLOGUE_ASYMM decryptedKeyInfo
  let (symmetricKey, rest) ← info.split
  let (symmetricFileId, expectedHostHashed) ← rest.split
  guard (hostHashed host = expectedHostHashed)
  downloadAndDecryptFile network symmetricKey symmetricFileId

/-- The data with the identity and the host that have been verified. -/
structure VerifiedData where
  identity : JsString
  host : JsString
  data : Message
  deriving DecidableEq

/-- `downloadAndVerifySignature` of a buffer. -/
def downloadAndVerifySignature (registry : JsString → Option Message) (host : JsString)
    (downloaded : Message) : Option VerifiedData := do
  let rest ← expect SIGNATURE_PROLOGUE_OUTER downloaded
  let (signature, data) ← rest.split
  let inner ← expect SIGNATURE_PROLOGUE_INNER data
  let (sender, rest) ← inner.split
  let senderIdentity ← toText sender
  let rest ← expect [0x00] rest
  let (expectedHostHashed, dataWithoutPrologueIdentityAndHost) ← rest.split
  guard (hostHashed host = expectedHostHashed)
  let senderPublicKey ← registry senderIdentity
  guard (Term.verify senderPublicKey (hashFn data) signature)
  pure ⟨senderIdentity, host, dataWithoutPrologueIdentityAndHost⟩

/-- The data of a message, with the sender that has signed them. -/
def downloadVerifyDecryptFromIdentity (registry : JsString → Option Message) (host : JsString)
    (fileId privateKey : Message) : Option VerifiedData := do
  let decrypted ← downloadAndDecryptDataAsymmetric network host fileId privateKey
  downloadAndVerifySignature registry host decrypted

end

/-! ## The runs -/

/-- A call of `signEncryptUploadForIdentity` by an honest party, with the key that was registered
for the recipient. The calls are numbered: the symmetric key and all randomness of a call are its
own. -/
structure Call where
  sender : JsString
  host : JsString
  data : Message
  recipient : JsString
  publicKey : Message
  n : ℕ
  deriving DecidableEq

namespace Call

variable (call : Call)

/-- The signature of a call. -/
def signature : Message :=
  signRawData (combined call.sender call.host call.data) (privateKey call.sender) call.n

/-- What a call encrypts. -/
def signedPlaintext : Message :=
  wrapWithSignature call.sender call.host call.data (privateKey call.sender) call.n

/-- What a call uploads first. -/
def encryptedData : Message := .senc (symmetricKey call.n) call.signedPlaintext call.n

/-- What the call encrypts with the key of the recipient. -/
def encryptedKey : Message :=
  .aenc call.publicKey (.pair (bytes ASYMMETRIC_ENCRYPTION_PROLOGUE_PLAIN)
    (keyInfo call.host (symmetricKey call.n) (fileId call.encryptedData))) call.n

/-- What `signEncryptUploadForIdentity` uploads. -/
def uploads : List Message :=
  encryptAndUploadDataAsymmetric call.host call.signedPlaintext call.publicKey
    (symmetricKey call.n) call.n

end Call

/-- The registry, the uploads and the calls so far. -/
structure State where
  registry : JsString → Option Message
  uploads : List Message
  calls : List Call

/-- A registration, a call of the node or an upload of the adversary. -/
inductive Event
  | register (identity : JsString) (publicKey : Message)
  | signEncryptUploadForIdentity (sender host : JsString) (data : Message) (recipient : JsString)

/-- Without a key for the recipient the call throws, and uploads nothing. -/
def step (s : State) : Event → Option State
  | .register identity publicKey =>
    some { s with registry := Function.update s.registry identity (some publicKey) }
  | .signEncryptUploadForIdentity sender host data recipient =>
    (s.registry recipient).map fun publicKey =>
      let call : Call := ⟨sender, host, data, recipient, publicKey, s.calls.length⟩
      { s with uploads := s.uploads ++ call.uploads, calls := s.calls ++ [call] }

section

variable (honest : JsString → Prop)

/-- The honest parties have registered the keys of their private keys. -/
def State.init [DecidablePred honest] : State where
  registry identity := if honest identity then some (.publicKey (privateKey identity)) else none
  uploads := []
  calls := []

/-- What the adversary knows before it derives anything: texts, bytes, its private keys, the public
keys, and all uploads. -/
inductive Knows (uploads : List Message) : Message → Prop
  | text (s : JsString) : Knows uploads (text s)
  | bytes (b : Bytes) : Knows uploads (bytes b)
  | privateKey (identity : JsString) : ¬ honest identity → Knows uploads (privateKey identity)
  | publicKey (identity : JsString) : Knows uploads (.publicKey (privateKey identity))
  | upload {m : Message} : m ∈ uploads → Knows uploads m

/-- The keys of honest parties stay, and the other identities register keys that the adversary can
make; honest parties send what the adversary likes. -/
def Able (s : State) : Event → Prop
  | .register identity publicKey =>
    ¬ honest identity ∧ Derives (Knows honest s.uploads) publicKey
  | .signEncryptUploadForIdentity sender _ data _ =>
    honest sender ∧ Derives (Knows honest s.uploads) data

end

end PointNetwork.Encryption.Symbolic
