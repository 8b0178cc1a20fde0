import PointNetwork.Encryption
import PointNetwork.Storage.FileRead

/-!
# Signed and encrypted messages between identities

The asymmetric half of `client/encryption.ts`. A message is signed together with the identity
of its sender and the hash of a host, encrypted under a fresh symmetric key and uploaded; the
key, the id of the file and the hash of the host are encrypted under the public key of the
recipient and uploaded, too.

The package `eccrypto` is a parameter, `Eccrypto`, with the lengths and the laws of what it
returns; so are the registry and the downloads (`Env`).
-/

namespace PointNetwork.Encryption

open Js

/-! ## What the code is given -/

/-- What `eccrypto.encrypt` returns. -/
structure Ecies where
  iv : Bytes
  ephemPublicKey : Bytes
  ciphertext : Bytes
  mac : Bytes
  deriving DecidableEq

/-- The package `eccrypto`, for valid private keys. Encryption and signing draw from a seed;
encryption fails for a public key that is none. -/
structure Eccrypto (σ : Type) where
  getPublic : Bytes → Bytes
  encrypt : Bytes → Bytes → σ → Option Ecies × σ
  decrypt : Bytes → Ecies → Option Bytes
  sign : Bytes → Bytes → σ → Bytes × σ
  verify : Bytes → Bytes → Bytes → Bool
  length_getPublic : ∀ privateKey, (getPublic privateKey).length = 65
  getPublic_head : ∀ privateKey, (getPublic privateKey).head? = some 0x04
  /-- The point whose coordinates are both zero is not on the curve. -/
  getPublic_ne_zero : ∀ privateKey, (getPublic privateKey).tail ≠ List.replicate 64 0
  encrypt_some : ∀ privateKey plaintext seed, ∃ c,
    (encrypt (getPublic privateKey) plaintext seed).1 = some c ∧ c.iv.length = 16 ∧
      c.ephemPublicKey.length = 65 ∧ c.mac.length = 32 ∧ decrypt privateKey c = some plaintext
  sign_head : ∀ privateKey hash seed, (sign privateKey hash seed).1.head? = some 0x30
  length_sign : ∀ privateKey hash seed, (sign privateKey hash seed).1.length ≤ 75
  verify_sign : ∀ privateKey hash seed,
    verify (getPublic privateKey) hash (sign privateKey hash seed).1 = true

/-- The public key of these small runs. -/
def plainKey (privateKey : Bytes) : Bytes :=
  0x04 :: 0x01 :: (privateKey ++ List.replicate 63 0).take 63

/-- A cipher that hides nothing and signatures that repeat the key, for small concrete runs. -/
def Eccrypto.plain : Eccrypto ℕ where
  getPublic := plainKey
  encrypt _ plaintext seed :=
    (some ⟨List.replicate 16 1, List.replicate 65 2, plaintext, List.replicate 32 3⟩, seed)
  decrypt _ c := some c.ciphertext
  sign privateKey hash seed := (0x30 :: (plainKey privateKey ++ hash).take 74, seed)
  verify publicKey hash signature := signature = 0x30 :: (publicKey ++ hash).take 74
  length_getPublic _ := by simp [plainKey]
  getPublic_head _ := rfl
  getPublic_ne_zero _ h := by simp [plainKey, List.replicate_succ] at h
  encrypt_some _ plaintext _ := ⟨_, rfl, rfl, rfl, rfl, rfl⟩
  sign_head _ _ _ := rfl
  length_sign _ _ _ := by
    rw [List.length_cons, List.length_take]
    omega
  verify_sign _ _ _ := decide_eq_true rfl

/-- What the functions below use of the node and its surroundings. -/
structure Env (σ : Type) where
  hashFn : HashFn
  CHUNK_SIZE : ℕ
  aes : Aes
  rng : Rng σ
  eccrypto : Eccrypto σ
  getFileBinary : JsString → Option Bytes
  /-- The two halves of the public key of an identity; nothing if the call fails. -/
  getCommPublicKeyByIdentity : JsString → Option (JsString × JsString)
  /-- `(await getIdentity()).identity`. -/
  identity : Option JsString

/-- A node for small concrete runs: its identity, the private keys of the registered identities,
the uploads it can download. -/
def Env.small (identity : JsString) (privateKeys : List (JsString × Bytes))
    (uploads : List Bytes) : Env ℕ where
  hashFn := .firstBytes
  CHUNK_SIZE := 1000
  aes := .plain
  rng := .counter
  eccrypto := .plain
  getFileBinary fileId := uploads.find? fun b =>
    (Storage.fileChunks .firstBytes 1000 b).1 = fileId
  getCommPublicKeyByIdentity identity := (privateKeys.lookup identity).map fun privateKey =>
    let text := toHex (plainKey privateKey).tail
    (js "0x" ++ text.take 64, js "0x" ++ text.drop 64)
  identity := some identity

/-- A computation that draws keys, may throw, and logs what it uploads. -/
abbrev Run (σ α : Type) := Logged σ Bytes Exception α

/-- The download of this upload returns what was uploaded. -/
def Good {σ : Type} (env : Env σ) (material : Bytes) : Prop :=
  env.getFileBinary (Storage.fileChunks env.hashFn env.CHUNK_SIZE material).1 = some material

/-! ## Buffers -/

/-- `b.slice(offset, offset + n)`. -/
def field (b : Bytes) (offset n : ℕ) : Bytes := (b.drop offset).take n

/-- `b.indexOf(value, byteOffset)`. -/
def indexOf (b : Bytes) (value : UInt8) (byteOffset : ℕ) : ℤ :=
  match (b.drop byteOffset).idxOf? value with
  | some i => (byteOffset + i : ℕ)
  | none => -1

/-- `s.replace('0x', '')`: the first occurrence goes. -/
def remove0x : JsString → JsString
  | 0x30 :: 0x78 :: rest => rest
  | u :: rest => u :: remove0x rest
  | [] => []

/-- The bytes before a length. -/
def ffff : Bytes := [0xff, 0xff]

/-- Stands before a plaintext. -/
def ASYMMETRIC_ENCRYPTION_PROLOGUE_PLAIN : Bytes := bufferFrom (js "PN^ENC\x05$\x06z\u00f5*PLAIN")

/-- Stands before the key, the file id and the host. -/
def ASYMMETRIC_ENCRYPTION_PROLOGUE_ASYMM : Bytes := bufferFrom (js "PN^ENC\x05$\x06z\u00f5*ASYMM")

/-- Stands before the hash of the public key and the encrypted key. -/
def ASYMMETRIC_ENCRYPTION_PROLOGUE_CONTAINER : Bytes :=
  bufferFrom (js "PN^ENC\x05$\x06z\u00f5*CONT")

/-- Stands before what is encrypted to a public key. -/
def ASYMMETRIC_ENCRYPTION_PROLOGUE_RAWASYMM : Bytes :=
  bufferFrom (js "PN^ENC\x05$\x06z\u00f5*RAWASYMM")

/-- Stands before what is signed. -/
def SIGNATURE_PROLOGUE_INNER : Bytes := bufferFrom (js "PN^SIGN\x05$\x06z\u00f5*INNER")

/-- Stands before a signature. -/
def SIGNATURE_PROLOGUE_OUTER : Bytes := bufferFrom (js "PN^SIGN\x05$\x06z\u00f5*OUTER")

/-- Throws unless a condition holds. -/
def ensure (condition : Bool) (message : String) : Except Exception Unit :=
  if condition then pure () else throw (.displayable message)

section

variable {σ : Type} (env : Env σ)

/-! ## The symmetric half -/

/-- `uploadData`. -/
def uploadData (material : Bytes) : Run σ JsString := do
  Logged.tell material
  pure (Storage.fileChunks env.hashFn env.CHUNK_SIZE material).1

/-- `encryptAndUploadData`: the key and the id of the file. -/
def encryptAndUploadData (data : Bytes) : Run σ (Bytes × JsString) := do
  let encryptedData ← EncryptedData.createFromPlaintext env.aes env.rng data none
  let fileId ← uploadData env encryptedData.encryptedMaterial
  pure (encryptedData.key, fileId)

/-- Downloads a file. -/
def getFileBinary (fileId : JsString) : Except Exception Bytes :=
  match env.getFileBinary fileId with
  | some material => pure material
  | none => throw .rejected

/-- `downloadAndDecryptFile`. -/
def downloadAndDecryptFile (key : Bytes) (fileId : JsString) : Except Exception Bytes := do
  let encryptedMaterial ← getFileBinary env fileId
  EncryptedData.decrypt env.aes ⟨key, encryptedMaterial⟩

/-! ## The asymmetric half -/

/-- `encryptRawPlaintextAsymmetric`. -/
def encryptRawPlaintextAsymmetric (plaintext publicKey : Bytes) : Run σ Bytes := do
  let encrypted ← Logged.draw (env.eccrypto.encrypt (0x04 :: publicKey)
    (ASYMMETRIC_ENCRYPTION_PROLOGUE_PLAIN ++ plaintext))
  match encrypted with
  | none => Logged.fail .rejected
  | some c =>
    pure (ASYMMETRIC_ENCRYPTION_PROLOGUE_RAWASYMM ++ (ffff ++ (c.iv ++ (ffff ++
      (c.ephemPublicKey ++ (ffff ++ (c.mac ++ (ffff ++ c.ciphertext))))))))

/-- `decryptRawPlaintextAsymmetric`: the four separators stand behind the prologue, the 16 bytes
of the vector, the 65 bytes of the ephemeral key and the 32 bytes of the code. -/
def decryptRawPlaintextAsymmetric (encrypted privateKey : Bytes) : Except Exception Bytes := do
  let n := ASYMMETRIC_ENCRYPTION_PROLOGUE_RAWASYMM.length
  ensure (field encrypted 0 n = ASYMMETRIC_ENCRYPTION_PROLOGUE_RAWASYMM)
    "Decryption failed: invalid \"rawasymm\" prologue"
  ensure (field encrypted n 2 = ffff) "Decryption failed: boundary not aligned"
  let iv := field encrypted (n + 2) 16
  ensure (field encrypted (n + 18) 2 = ffff) "Decryption failed: boundary not aligned"
  let ephemPublicKey := field encrypted (n + 20) 65
  ensure (field encrypted (n + 85) 2 = ffff) "Decryption failed: boundary not aligned"
  let mac := field encrypted (n + 87) 32
  ensure (field encrypted (n + 119) 2 = ffff) "Decryption failed: boundary not aligned"
  let ciphertext := encrypted.drop (n + 121)
  match env.eccrypto.decrypt privateKey ⟨iv, ephemPublicKey, ciphertext, mac⟩ with
  | none => throw .rejected
  | some decrypted =>
    ensure (field decrypted 0 ASYMMETRIC_ENCRYPTION_PROLOGUE_PLAIN.length =
        ASYMMETRIC_ENCRYPTION_PROLOGUE_PLAIN)
      "Decryption failed: decrypted data does not match prologue"
    pure (decrypted.drop ASYMMETRIC_ENCRYPTION_PROLOGUE_PLAIN.length)

/-- `hashFn(Buffer.from(host))`. -/
def hostHashed (host : JsString) : Bytes := env.hashFn.digest (bufferFrom host)

/-- `encryptAndUploadDataAsymmetric`. -/
def encryptAndUploadDataAsymmetric (host : JsString) (data publicKey : Bytes) :
    Run σ JsString := do
  let (symmetricKey, symmetricFileId) ← encryptAndUploadData env data
  let dataToEncryptAsymmetrically :=
    ASYMMETRIC_ENCRYPTION_PROLOGUE_ASYMM ++ (symmetricKey ++ (fromHex symmetricFileId ++
      hostHashed env host))
  Logged.ofExcept (ensure
    (dataToEncryptAsymmetrically.length =
      ASYMMETRIC_ENCRYPTION_PROLOGUE_ASYMM.length + 32 + 32 + 32)
    "Data to encrypt asymmetrically has incorrect length")
  let encrypted ← encryptRawPlaintextAsymmetric env dataToEncryptAsymmetrically publicKey
  uploadData env
    (ASYMMETRIC_ENCRYPTION_PROLOGUE_CONTAINER ++ (env.hashFn.digest publicKey ++ encrypted))

/-- `downloadAndDecryptDataAsymmetric`. -/
def downloadAndDecryptDataAsymmetric (host fileId : JsString) (privateKey : Bytes) :
    Except Exception Bytes := do
  let downloaded ← getFileBinary env fileId
  let n := ASYMMETRIC_ENCRYPTION_PROLOGUE_CONTAINER.length
  ensure (field downloaded 0 n = ASYMMETRIC_ENCRYPTION_PROLOGUE_CONTAINER)
    "Downloaded data does not have encryption container prologue"
  let publicKeyWith04 := env.eccrypto.getPublic privateKey
  ensure (publicKeyWith04.head? = some 0x04) "Public key isn't prefixed with 0x04"
  ensure (field downloaded n 32 = env.hashFn.digest publicKeyWith04.tail)
    "Downloaded data does not match expected public key"
  let decryptedKeyInfo ← decryptRawPlaintextAsymmetric env (downloaded.drop (n + 32)) privateKey
  let m := ASYMMETRIC_ENCRYPTION_PROLOGUE_ASYMM.length
  ensure (field decryptedKeyInfo 0 m = ASYMMETRIC_ENCRYPTION_PROLOGUE_ASYMM)
    "Downloaded data does not have asymm encryption prologue"
  let symmetricKey := field decryptedKeyInfo m 32
  let symmetricFileId := toHex (field decryptedKeyInfo (m + 32) 32)
  let expectedHostHashed := decryptedKeyInfo.drop (m + 64)
  ensure (decryptedKeyInfo.length = m + 32 + 32 + 32)
    "Downloaded data has unexpected extra bytes"
  ensure (hostHashed env host = expectedHostHashed)
    "Downloaded data does not match expected host"
  downloadAndDecryptFile env symmetricKey symmetricFileId

/-! ## The registry -/

/-- `commPublicKeyByIdentity`, which returns nothing when the call fails. -/
def commPublicKeyByIdentity (identity : JsString) : Option JsString :=
  (env.getCommPublicKeyByIdentity identity).map fun (part1, part2) =>
    js "0x" ++ remove0x part1 ++ remove0x part2

/-- `Buffer.from((await commPublicKeyByIdentity(identity)).replace('0x', ''), 'hex')` and the
tests that follow it. -/
def registeredPublicKey (identity : JsString) : Except Exception Bytes :=
  match commPublicKeyByIdentity env identity with
  | none => throw .typeError
  | some text => do
    let publicKey := fromHex (remove0x text)
    ensure (!(publicKey = List.replicate 64 0 || publicKey.length = 0)) "Empty public key"
    ensure (publicKey.length = 64) "Invalid public key"
    pure publicKey

/-- `encryptAndUploadDataForIdentity`. -/
def encryptAndUploadDataForIdentity (host : JsString) (data : Bytes) (identity : JsString) :
    Run σ JsString := do
  let publicKey ← Logged.ofExcept (registeredPublicKey env identity)
  encryptAndUploadDataAsymmetric env host data publicKey

/-! ## Signatures -/

/-- `signRawData`: the signature, which has at most 75 bytes, is padded on the left. -/
def signRawData (data privateKey : Bytes) : Run σ Bytes := do
  let signature ← Logged.draw (env.eccrypto.sign privateKey (env.hashFn.digest data))
  pure (List.replicate (75 - signature.length) 0xff ++ signature)

/-- `verifyRawData`. -/
def verifyRawData (data signature publicKey : Bytes) : Except Exception Unit := do
  let signatureDER := signature.dropWhile (· = 0xff)
  ensure (signatureDER.head? = some 0x30) "Invalid signature"
  -- an invalid signature makes `eccrypto.verify` throw
  if env.eccrypto.verify (0x04 :: publicKey) (env.hashFn.digest data) signatureDER then pure ()
  else throw .rejected

/-- `wrapWithSignature`. -/
def wrapWithSignature (host : JsString) (data privateKey : Bytes) : Run σ Bytes := do
  let senderIdentity := env.identity.getD []
  Logged.ofExcept (ensure (senderIdentity ≠ []) "No identity found, cannot sign")
  let combined := SIGNATURE_PROLOGUE_INNER ++ (bufferFrom senderIdentity ++ (0x00 ::
    (hostHashed env host ++ data)))
  let signature ← signRawData env combined privateKey
  pure (SIGNATURE_PROLOGUE_OUTER ++ (signature ++ combined))

/-- The data with the identity and the host that have been verified. -/
structure VerifiedData where
  identity : JsString
  host : JsString
  data : Bytes
  deriving DecidableEq

/-- `downloadAndVerifySignature` of a buffer. -/
def verifySignature (host : JsString) (downloaded : Bytes) : Except Exception VerifiedData := do
  let n := SIGNATURE_PROLOGUE_OUTER.length
  ensure (field downloaded 0 n = SIGNATURE_PROLOGUE_OUTER)
    "Downloaded data does not have outer signature prologue"
  let signature := field downloaded n 75
  let data := downloaded.drop (n + 75)
  let m := SIGNATURE_PROLOGUE_INNER.length
  ensure (field data 0 m = SIGNATURE_PROLOGUE_INNER)
    "Downloaded data does not have inner signature prologue"
  -- without a zero byte the end is -1, and the slices below count from the end of the buffer
  let senderIdentityEnd := indexOf data 0x00 m
  let senderIdentity := bufferToString (slice data m senderIdentityEnd)
  let expectedHostHashed := slice data (senderIdentityEnd + 1) (senderIdentityEnd + 1 + 32)
  ensure (hostHashed env host = expectedHostHashed)
    "Downloaded data does not match expected host"
  let rest := slice data (senderIdentityEnd + 1 + 32) data.length
  let senderPublicKey ← registeredPublicKey env senderIdentity
  verifyRawData env data signature senderPublicKey
  pure ⟨senderIdentity, host, rest⟩

/-- `downloadAndVerifySignature` of a file or a buffer. -/
def downloadAndVerifySignature (host : JsString) :
    JsString ⊕ Bytes → Except Exception VerifiedData
  | .inl fileId => do
    let downloaded ← getFileBinary env fileId
    verifySignature env host downloaded
  | .inr downloaded => verifySignature env host downloaded

/-! ## Messages -/

/-- `signEncryptUploadForIdentity`. -/
def signEncryptUploadForIdentity (host : JsString) (data : Bytes) (identity : JsString)
    (privateKey : Bytes) : Run σ JsString := do
  let signedPlaintext ← wrapWithSignature env host data privateKey
  encryptAndUploadDataForIdentity env host signedPlaintext identity

/-- `downloadVerifyDecryptFromIdentity`. -/
def downloadVerifyDecryptFromIdentity (host fileId : JsString) (privateKey : Bytes) :
    Except Exception VerifiedData := do
  let decrypted ← downloadAndDecryptDataAsymmetric env host fileId privateKey
  downloadAndVerifySignature env host (.inr decrypted)

end

end PointNetwork.Encryption
