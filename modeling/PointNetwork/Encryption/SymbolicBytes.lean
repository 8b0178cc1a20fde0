import PointNetwork.Encryption.MessageTheorems
import PointNetwork.Encryption.SymbolicTheorems

/-!
# The buffers of symbolic messages

An assignment gives buffers to the secrets of the symbolic model and seeds to its randomness, and so
a buffer to every symbolic message (`toBytes`).

* `log_eq_toBytes`: `signEncryptUploadForIdentity` uploads the buffers of what the symbolic call
  uploads;
* `received_toBytes`: the buffers of a symbolic message, by whomever it has been put together, are
  accepted with the sender and the data that the symbolic message has.
-/

namespace PointNetwork.Encryption.Symbolic

open Js DolevYao

/-- The bytes that the atoms stand for. -/
structure Assignment (σ : Type) where
  privateKey : JsString → Bytes
  symmetricKey : ℕ → Bytes
  iv : ℕ → Bytes
  /-- Where the encryption of a call draws from. -/
  encryptSeed : ℕ → σ
  signSeed : ℕ → σ
  length_iv : ∀ n, (iv n).length = IV_LENGTH_BYTES

section

variable {σ : Type} (env : Env σ) (ρ : Assignment σ)

/-- The upload id of a buffer, as the bytes that `Buffer.from(fileId, 'hex')` gives. -/
def fileIdBytes (b : Bytes) : Bytes :=
  fromHex (Storage.fileChunks env.hashFn env.CHUNK_SIZE b).1

/-- `signRawData` pads the signature. -/
def signatureFixed (signature : Bytes) : Bytes :=
  List.replicate (75 - signature.length) 0xff ++ signature

/-- The fields of `encryptRawPlaintextAsymmetric` behind its prologue. -/
def Ecies.frame (c : Ecies) : Bytes :=
  ffff ++ (c.iv ++ (ffff ++ (c.ephemPublicKey ++ (ffff ++ (c.mac ++ (ffff ++ c.ciphertext))))))

/-- The bytes of a message. -/
def toBytes : Message → Bytes
  | .atom (.text s) => bufferFrom s
  | .atom (.bytes b) => b
  | .atom (.privateKey identity) => ρ.privateKey identity
  | .atom (.symmetricKey n) => ρ.symmetricKey n
  | .apply .hashFn m => env.hashFn.digest (toBytes m)
  | .apply .fileId m => fileIdBytes env (toBytes m)
  | .publicKey k => Encryption.publicKey env (toBytes k)
  | .pair t u => toBytes t ++ toBytes u
  | .senc k t r =>
    let (tag, cipherText) := env.aes.encrypt (toBytes k) (ρ.iv r) (toBytes t)
    ρ.iv r ++ tag ++ cipherText
  | .aenc k t r =>
    ((env.eccrypto.encrypt (0x04 :: toBytes k) (toBytes t) (ρ.encryptSeed r)).1.map
      Ecies.frame).getD []
  | .sign k t r => signatureFixed (env.eccrypto.sign (toBytes k) (toBytes t) (ρ.signSeed r)).1

end

section

variable {σ : Type} {env : Env σ} {ρ : Assignment σ}

/-! ## Sending -/

/-- A run of `wrapWithSignature` draws once, and logs nothing. -/
theorem wrapWithSignature_run {identity : JsString} (host : JsString) (data privateKey : Message)
    (n : ℕ) (hidentity : env.identity = some identity) (hne : identity ≠ []) :
    Encryption.wrapWithSignature env host (toBytes env ρ data) (toBytes env ρ privateKey)
        (ρ.signSeed n) =
      (.ok (toBytes env ρ (wrapWithSignature identity host data privateKey n)), [],
        (env.eccrypto.sign (toBytes env ρ privateKey)
          (toBytes env ρ (hashFn (combined identity host data))) (ρ.signSeed n)).2) := by
  have htest : ensure (decide (env.identity.getD [] ≠ [])) "No identity found, cannot sign" =
      .ok () := by
    rw [hidentity, Option.getD_some, decide_eq_true hne]
    rfl
  unfold Encryption.wrapWithSignature
  show (Logged.ofExcept _ >>= _) _ = _
  rw [Logged.ofExcept_bind_eq htest, hidentity, Option.getD_some]
  rfl

/-- A run of `encryptAndUploadData` draws the key and then the vector. -/
theorem encryptAndUploadData_run (data : Message) {n : ℕ} {seed : σ}
    (hkey : ρ.symmetricKey n = (env.rng.randomBytes KEY_LENGTH_BYTES seed).1)
    (hiv : ρ.iv n = (env.rng.randomBytes IV_LENGTH_BYTES
      (env.rng.randomBytes KEY_LENGTH_BYTES seed).2).1) :
    let material := toBytes env ρ (.senc (symmetricKey n) data n)
    encryptAndUploadData env (toBytes env ρ data) seed =
      (.ok (ρ.symmetricKey n, (Storage.fileChunks env.hashFn env.CHUNK_SIZE material).1),
        [material], (env.rng.randomBytes IV_LENGTH_BYTES
          (env.rng.randomBytes KEY_LENGTH_BYTES seed).2).2) := by
  have hvalid := env.rng.validKey_randomBytes seed
  have hcreate : EncryptedData.createFromPlaintext (ω := Bytes) env.aes env.rng
      (toBytes env ρ data) none seed =
        (.ok ⟨ρ.symmetricKey n, toBytes env ρ (.senc (symmetricKey n) data n)⟩, [],
          (env.rng.randomBytes IV_LENGTH_BYTES (env.rng.randomBytes KEY_LENGTH_BYTES seed).2).2) := by
    have hdraw : (encryptionKey env.rng none : Logged σ Bytes Exception Bytes) seed =
        (.ok (env.rng.randomBytes KEY_LENGTH_BYTES seed).1, [],
          (env.rng.randomBytes KEY_LENGTH_BYTES seed).2) := rfl
    have hmaterial : toBytes env ρ (.senc (symmetricKey n) data n) =
        ρ.iv n ++ (env.aes.encrypt (ρ.symmetricKey n) (ρ.iv n) (toBytes env ρ data)).1 ++
          (env.aes.encrypt (ρ.symmetricKey n) (ρ.iv n) (toBytes env ρ data)).2 := rfl
    unfold EncryptedData.createFromPlaintext
    rw [Logged.bind_of_ok hdraw, if_pos hvalid, hmaterial, hkey, hiv]
    rfl
  unfold encryptAndUploadData
  rw [Logged.bind_of_ok hcreate]
  rfl

/-- A run of `encryptRawPlaintextAsymmetric` with the public key of a pair. -/
theorem encryptRaw_run (plaintext k : Message) (n : ℕ) :
    ∃ seed, Encryption.encryptRawPlaintextAsymmetric env (toBytes env ρ plaintext)
        (publicKey env (toBytes env ρ k)) (ρ.encryptSeed n) =
      (.ok (toBytes env ρ (encryptRawPlaintextAsymmetric plaintext (.publicKey k) n)), [], seed) := by
  obtain ⟨c, hc, -⟩ := env.eccrypto.encrypt_some (toBytes env ρ k)
    (ASYMMETRIC_ENCRYPTION_PROLOGUE_PLAIN ++ toBytes env ρ plaintext) (ρ.encryptSeed n)
  rw [getPublic_eq] at hc
  have hframe : toBytes env ρ (encryptRawPlaintextAsymmetric plaintext (.publicKey k) n) =
      ASYMMETRIC_ENCRYPTION_PROLOGUE_RAWASYMM ++ Ecies.frame c := by
    have hterm : toBytes env ρ (encryptRawPlaintextAsymmetric plaintext (.publicKey k) n) =
        ASYMMETRIC_ENCRYPTION_PROLOGUE_RAWASYMM ++ (((env.eccrypto.encrypt
          (0x04 :: publicKey env (toBytes env ρ k)) (ASYMMETRIC_ENCRYPTION_PROLOGUE_PLAIN ++
            toBytes env ρ plaintext) (ρ.encryptSeed n)).1.map Ecies.frame).getD []) := rfl
    rw [hterm, hc]
    rfl
  obtain ⟨seed, hdraw⟩ : ∃ seed, (Logged.draw (env.eccrypto.encrypt
      (0x04 :: publicKey env (toBytes env ρ k)) (ASYMMETRIC_ENCRYPTION_PROLOGUE_PLAIN ++
        toBytes env ρ plaintext)) : Run σ (Option Ecies)) (ρ.encryptSeed n) =
          (.ok (some c), [], seed) := by
    rw [← hc]
    exact ⟨_, rfl⟩
  refine ⟨seed, ?_⟩
  unfold Encryption.encryptRawPlaintextAsymmetric
  show (Logged.draw _ >>= _) _ = _
  rw [hframe, Logged.bind_of_ok hdraw]
  rfl

theorem length_fileIdBytes (b : Bytes) : (fileIdBytes env b).length = 32 := by
  obtain ⟨b', hb⟩ := Storage.exists_fileChunks_eq env.hashFn env.CHUNK_SIZE b
  unfold fileIdBytes
  rw [hb]
  unfold HashFn.id
  rw [fromHex_toHex]
  exact env.hashFn.length_digest b'

/-- The seed of a call after it has signed. -/
def seedAfterSign (env : Env σ) (ρ : Assignment σ) (call : Call) : σ :=
  (env.eccrypto.sign (ρ.privateKey call.sender)
    (toBytes env ρ (hashFn (combined call.sender call.host call.data))) (ρ.signSeed call.n)).2

/-- The secrets and the seeds of a call are what it draws. -/
structure Draws (env : Env σ) (ρ : Assignment σ) (call : Call) : Prop where
  symmetricKey : ρ.symmetricKey call.n =
    (env.rng.randomBytes KEY_LENGTH_BYTES (seedAfterSign env ρ call)).1
  iv : ρ.iv call.n = (env.rng.randomBytes IV_LENGTH_BYTES
    (env.rng.randomBytes KEY_LENGTH_BYTES (seedAfterSign env ρ call)).2).1
  encryptSeed : ρ.encryptSeed call.n = (env.rng.randomBytes IV_LENGTH_BYTES
    (env.rng.randomBytes KEY_LENGTH_BYTES (seedAfterSign env ρ call)).2).2

/-- A run of `encryptAndUploadDataAsymmetric` logs the two uploads. -/
theorem encryptAsymmetric_log {call : Call} {k : Message} (hdraws : Draws env ρ call)
    (hpublic : call.publicKey = .publicKey k) :
    (Encryption.encryptAndUploadDataAsymmetric env call.host (toBytes env ρ call.signedPlaintext)
      (publicKey env (toBytes env ρ k))).log (seedAfterSign env ρ call) =
        call.uploads.map (toBytes env ρ) := by
  have hrun := encryptAndUploadData_run call.signedPlaintext hdraws.symmetricKey hdraws.iv
  have hid : (fileIdBytes env (toBytes env ρ call.encryptedData)).length = 32 := length_fileIdBytes _
  have hkey : (ρ.symmetricKey call.n).length = 32 := by
    rw [hdraws.symmetricKey]
    exact env.rng.length_randomBytes _ _
  have htest : ensure (decide ((ASYMMETRIC_ENCRYPTION_PROLOGUE_ASYMM ++ (ρ.symmetricKey call.n ++
      (fileIdBytes env (toBytes env ρ call.encryptedData) ++
        Encryption.hostHashed env call.host))).length =
          ASYMMETRIC_ENCRYPTION_PROLOGUE_ASYMM.length + 32 + 32 + 32))
      "Data to encrypt asymmetrically has incorrect length" = .ok () := by
    rw [List.length_append, List.length_append, List.length_append, hkey, hid,
      length_hostHashed, decide_eq_true rfl]
    rfl
  obtain ⟨seed, hencrypt⟩ : ∃ seed, Encryption.encryptRawPlaintextAsymmetric env
      (ASYMMETRIC_ENCRYPTION_PROLOGUE_ASYMM ++ (ρ.symmetricKey call.n ++ (fileIdBytes env
        (toBytes env ρ call.encryptedData) ++ Encryption.hostHashed env call.host)))
      (publicKey env (toBytes env ρ k)) (ρ.encryptSeed call.n) = (.ok (toBytes env ρ
        (encryptRawPlaintextAsymmetric (keyInfo call.host (symmetricKey call.n)
          (fileId call.encryptedData)) (.publicKey k) call.n)), [], seed) :=
    encryptRaw_run (keyInfo call.host (symmetricKey call.n) (fileId call.encryptedData)) k call.n
  rw [hdraws.encryptSeed] at hencrypt
  unfold Encryption.encryptAndUploadDataAsymmetric Logged.log
  rw [Logged.bind_of_ok hrun]
  have hfile : fromHex (Storage.fileChunks env.hashFn env.CHUNK_SIZE (toBytes env ρ
      (.senc (symmetricKey call.n) call.signedPlaintext call.n))).1 =
        fileIdBytes env (toBytes env ρ call.encryptedData) := rfl
  have huploads : call.uploads.map (toBytes env ρ) = [toBytes env ρ call.encryptedData,
      ASYMMETRIC_ENCRYPTION_PROLOGUE_CONTAINER ++ (env.hashFn.digest (publicKey env
        (toBytes env ρ k)) ++ toBytes env ρ (encryptRawPlaintextAsymmetric (keyInfo call.host
          (symmetricKey call.n) (fileId call.encryptedData)) (.publicKey k) call.n))] := by
    unfold Call.uploads
    rw [hpublic]
    rfl
  dsimp only
  rw [hfile, Logged.ofExcept_bind_eq htest, huploads]
  unfold Logged.log
  rw [Logged.bind_of_ok hencrypt]
  rfl

/-- `signEncryptUploadForIdentity` uploads the buffers of what the symbolic call uploads. -/
theorem log_eq_toBytes {call : Call} {k : Message} (hidentity : env.identity = some call.sender)
    (hne : call.sender ≠ []) (hpublic : call.publicKey = .publicKey k)
    (hregistered : Registered env call.recipient (publicKey env (toBytes env ρ k)))
    (hdraws : Draws env ρ call) :
    (signEncryptUploadForIdentity env call.host (toBytes env ρ call.data) call.recipient
      (ρ.privateKey call.sender)).log (ρ.signSeed call.n) = call.uploads.map (toBytes env ρ) := by
  have hrun := wrapWithSignature_run (ρ := ρ) call.host call.data (privateKey call.sender) call.n
    hidentity hne
  have hsecret : toBytes env ρ (privateKey call.sender) = ρ.privateKey call.sender := rfl
  rw [hsecret] at hrun
  unfold signEncryptUploadForIdentity encryptAndUploadDataForIdentity Logged.log
  rw [Logged.bind_of_ok hrun, Logged.ofExcept_bind_eq (registeredPublicKey_eq hregistered)]
  exact encryptAsymmetric_log hdraws hpublic

/-! ## Receiving -/

/-- The buffer of a symmetric ciphertext is decrypted with the buffer of its key. -/
theorem downloadAndDecryptFile_toBytes {key m : Message} {r : ℕ} {id : JsString}
    (hfile : getFileBinary env id = .ok (toBytes env ρ (.senc key m r))) :
    Encryption.downloadAndDecryptFile env (toBytes env ρ key) id = .ok (toBytes env ρ m) := by
  unfold Encryption.downloadAndDecryptFile
  rw [hfile]
  exact decrypt_material env.aes (ρ.length_iv r) (toBytes env ρ m)

/-- The buffer of an asymmetric ciphertext is decrypted with the buffer of the private key. -/
theorem decryptRaw_toBytes (plaintext k : Message) (r : ℕ) :
    Encryption.decryptRawPlaintextAsymmetric env
      (toBytes env ρ (encryptRawPlaintextAsymmetric plaintext (.publicKey k) r))
      (toBytes env ρ k) = .ok (toBytes env ρ plaintext) := by
  obtain ⟨seed, hrun⟩ := @encryptRaw_run _ env ρ plaintext k r
  have hagree := @encryptRaw_agree _ env (fun _ => True) (toBytes env ρ plaintext)
    (toBytes env ρ k)
  obtain ⟨encrypted, hencrypted, hdecrypt⟩ :=
    hagree.run_of_ok (s := ρ.encryptSeed r) (fun _ _ => trivial) rfl
  rw [hrun] at hencrypted
  cases hencrypted
  exact hdecrypt

/-- The buffer of a signature is one of the buffer that it signs. -/
theorem verifyRawData_toBytes (data : Message) (identity : JsString) (r : ℕ) :
    (toBytes env ρ (signRawData data (privateKey identity) r)).length = 75 ∧
      verifyRawData env (toBytes env ρ data) (toBytes env ρ (signRawData data (privateKey identity) r))
        (publicKey env (ρ.privateKey identity)) = .ok () := by
  have hagree := @signRawData_agree _ env (fun _ => True) (toBytes env ρ data)
    (ρ.privateKey identity)
  obtain ⟨signature, hsignature, hverify⟩ :=
    hagree.run_of_ok (s := ρ.signSeed r) (fun _ _ => trivial) rfl
  obtain rfl : signature = toBytes env ρ (signRawData data (privateKey identity) r) :=
    (Except.ok.inj hsignature).symm
  exact hverify

/-- The buffers of two uploads for a key pair are read by its owner. -/
theorem downloadAsymmetric_toBytes {host : JsString} {m k key : Message} {r : ℕ}
    (hkey : (toBytes env ρ key).length = 32)
    (hfiles : ∀ u ∈ encryptAndUploadDataAsymmetric host m (.publicKey k) key r,
      getFileBinary env (toHex (toBytes env ρ (fileId u))) = .ok (toBytes env ρ u)) :
    Encryption.downloadAndDecryptDataAsymmetric env host (toHex (toBytes env ρ (fileId
        (container host key (fileId (.senc key m r)) (.publicKey k) r)))) (toBytes env ρ k) =
      .ok (toBytes env ρ m) := by
  have hencrypted := hfiles _ List.mem_cons_self
  have hcontainer := hfiles _ (List.mem_cons_of_mem _ List.mem_cons_self)
  generalize hid : toBytes env ρ (fileId (.senc key m r)) = id at hencrypted
  have hlength : (fromHex (toHex id)).length = 32 := by
    rw [fromHex_toHex, ← hid]
    exact length_fileIdBytes _
  have hdownload : Encryption.downloadAndDecryptFile env (toBytes env ρ key)
      (toHex (fromHex (toHex id))) = .ok (toBytes env ρ m) := by
    rw [fromHex_toHex]
    exact downloadAndDecryptFile_toBytes hencrypted
  have hdecrypt := @decryptRaw_toBytes _ env ρ
    (keyInfo host key (fileId (.senc key m r))) k r
  have hinfo : toBytes env ρ (keyInfo host key (fileId (.senc key m r))) =
      ASYMMETRIC_ENCRYPTION_PROLOGUE_ASYMM ++ (toBytes env ρ key ++ (fromHex (toHex id) ++
        Encryption.hostHashed env host)) := by
    rw [fromHex_toHex, ← hid]
    rfl
  rw [hinfo] at hdecrypt
  have hread := downloadAsymmetric_frame hkey hlength hdownload hdecrypt hcontainer host
  rw [if_pos rfl] at hread
  exact hread

/-- The buffer of a signed text is verified. -/
theorem verifySignature_toBytes {identity : JsString} (host : JsString) (data : Message) (r : ℕ)
    (hzero : 0 ∉ identity) (hwf : WellFormed identity)
    (hsender : Registered env identity (publicKey env (ρ.privateKey identity))) :
    verifySignature env host (toBytes env ρ
        (wrapWithSignature identity host data (privateKey identity) r)) =
      .ok ⟨identity, host, toBytes env ρ data⟩ := by
  have hcombined : toBytes env ρ (combined identity host data) =
      SIGNATURE_PROLOGUE_INNER ++ (bufferFrom identity ++ (0x00 ::
        (Encryption.hostHashed env host ++ toBytes env ρ data))) := rfl
  have hsigned : toBytes env ρ (wrapWithSignature identity host data (privateKey identity) r) =
      SIGNATURE_PROLOGUE_OUTER ++ (toBytes env ρ (signRawData (combined identity host data)
        (privateKey identity) r) ++ toBytes env ρ (combined identity host data)) := rfl
  obtain ⟨hlength, hverify⟩ := @verifyRawData_toBytes _ env ρ
    (combined identity host data) identity r
  rw [hcombined] at hverify hsigned
  rw [hsigned]
  exact verifySignature_frame hzero hwf hlength (registeredPublicKey_eq hsender) hverify host rfl

/-- A message that anybody has put together of a text signed by an identity is accepted as one of
this identity: what is symbolic in it is accepted by the code, too. -/
theorem received_toBytes {identity host : JsString} {data k key : Message} {r r' : ℕ}
    (hzero : 0 ∉ identity) (hwf : WellFormed identity)
    (hsender : Registered env identity (publicKey env (ρ.privateKey identity)))
    (hkey : (toBytes env ρ key).length = 32)
    (hfiles : ∀ u ∈ encryptAndUploadDataAsymmetric host
      (wrapWithSignature identity host data (privateKey identity) r) (.publicKey k) key r',
        getFileBinary env (toHex (toBytes env ρ (fileId u))) = .ok (toBytes env ρ u)) :
    Encryption.downloadVerifyDecryptFromIdentity env host (toHex (toBytes env ρ (fileId
        (container host key (fileId (.senc key (wrapWithSignature identity host data
          (privateKey identity) r) r')) (.publicKey k) r')))) (toBytes env ρ k) =
      .ok ⟨identity, host, toBytes env ρ data⟩ := by
  unfold Encryption.downloadVerifyDecryptFromIdentity
  rw [downloadAsymmetric_toBytes hkey hfiles, ok_bind]
  unfold Encryption.downloadAndVerifySignature
  exact verifySignature_toBytes host data r hzero hwf hsender

end

end PointNetwork.Encryption.Symbolic
