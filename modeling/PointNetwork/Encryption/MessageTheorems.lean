import PointNetwork.Encryption.Message

/-!
# The round trip of a message

What `signEncryptUploadForIdentity` uploads is what `downloadVerifyDecryptFromIdentity` takes
apart, with the identity of the sender and the data, for the same host only.

* `field_eq`, `ensure_bind`: reading a framed buffer;
* `decryptRaw_frame`, `verifySignature_frame`: the two framings, each with its reader;
* `message_roundTrip`: the round trip.
-/

namespace PointNetwork.Encryption

open Js

/-! ## Reading a framed buffer -/

/-- A test that succeeds. -/
theorem ensure_bind {α : Type} {condition : Bool} {message : String}
    {f : Unit → Except Exception α} (h : condition = true) :
    (ensure condition message >>= f) = f () := by
  rw [h]
  rfl

/-- A test that fails. -/
theorem ensure_bind_false {α : Type} {condition : Bool} {message : String}
    {f : Unit → Except Exception α} (h : condition = false) :
    (ensure condition message >>= f) = .error (.displayable message) := by
  rw [h]
  rfl

/-- The field behind a known beginning. -/
theorem field_eq {b : Bytes} (beginning middle ending : Bytes) {n m : ℕ}
    (h : b = beginning ++ (middle ++ ending)) (hn : beginning.length = n)
    (hm : middle.length = m) : field b n m = middle := by
  unfold field
  rw [h, ← hn, ← hm, List.drop_left, List.take_left]

/-- What is behind a known beginning. -/
theorem drop_eq {b : Bytes} (beginning ending : Bytes) {n : ℕ} (h : b = beginning ++ ending)
    (hn : beginning.length = n) : b.drop n = ending := by
  rw [h, ← hn, List.drop_left]

/-- A slice of known length is a field. -/
theorem slice_eq_field (b : Bytes) (n m : ℕ) : slice b n (n + m : ℕ) = field b n m := by
  rw [slice_nat, field, List.drop_take, Nat.add_sub_cancel_left]

theorem slice_eq_drop (b : Bytes) (n : ℕ) : slice b n b.length = b.drop n := by
  rw [slice_nat, List.take_length]

/-- The place of the first byte of a kind. -/
theorem indexOf_eq {b beginning middle ending : Bytes} {value : UInt8} {n : ℕ}
    (h : b = beginning ++ (middle ++ value :: ending)) (hn : beginning.length = n)
    (hmiddle : value ∉ middle) : indexOf b value n = (n + middle.length : ℕ) := by
  have hidx : ∀ xs : Bytes, value ∉ xs → (xs ++ value :: ending).idxOf? value = some xs.length := by
    intro xs
    induction xs with
    | nil => simp [List.idxOf?_cons]
    | cons x xs ih =>
      intro hxs
      rw [List.mem_cons, not_or] at hxs
      rw [List.cons_append, List.idxOf?_cons, if_neg (by simpa using Ne.symm hxs.1), ih hxs.2]
      rfl
  unfold indexOf
  rw [h, ← hn, List.drop_left, hidx middle hmiddle]

/-! ## The asymmetric frame -/

section

variable {σ : Type} {env : Env σ}

/-- The public key of a pair, as the registry keeps it: without the byte in front. -/
def publicKey (env : Env σ) (privateKey : Bytes) : Bytes := (env.eccrypto.getPublic privateKey).tail

theorem getPublic_eq (env : Env σ) (privateKey : Bytes) :
    env.eccrypto.getPublic privateKey = 0x04 :: publicKey env privateKey := by
  have hhead := env.eccrypto.getPublic_head privateKey
  unfold publicKey
  cases h : env.eccrypto.getPublic privateKey with
  | nil =>
    rw [h] at hhead
    cases hhead
  | cons b bs =>
    rw [h] at hhead
    rw [Option.some.inj hhead, List.tail_cons]

theorem length_publicKey (env : Env σ) (privateKey : Bytes) :
    (publicKey env privateKey).length = 64 := by
  have hlength := env.eccrypto.length_getPublic privateKey
  rw [getPublic_eq, List.length_cons] at hlength
  omega

/-- `decryptRawPlaintextAsymmetric` takes apart what `encryptRawPlaintextAsymmetric` put
together. -/
theorem decryptRaw_frame {c : Ecies} {plaintext privateKey : Bytes} (hiv : c.iv.length = 16)
    (hephem : c.ephemPublicKey.length = 65) (hmac : c.mac.length = 32)
    (hdecrypt : env.eccrypto.decrypt privateKey c =
      some (ASYMMETRIC_ENCRYPTION_PROLOGUE_PLAIN ++ plaintext)) :
    decryptRawPlaintextAsymmetric env (ASYMMETRIC_ENCRYPTION_PROLOGUE_RAWASYMM ++ (ffff ++
      (c.iv ++ (ffff ++ (c.ephemPublicKey ++ (ffff ++ (c.mac ++ (ffff ++ c.ciphertext))))))))
      privateKey = .ok plaintext := by
  generalize hprologue : ASYMMETRIC_ENCRYPTION_PROLOGUE_RAWASYMM = prologue
  generalize hb : prologue ++ (ffff ++ (c.iv ++ (ffff ++ (c.ephemPublicKey ++ (ffff ++
    (c.mac ++ (ffff ++ c.ciphertext))))))) = b
  have hffff : ffff.length = 2 := rfl
  have h1 : field b 0 prologue.length = prologue := field_eq [] prologue _ hb.symm rfl rfl
  have h2 : field b prologue.length 2 = ffff := field_eq prologue ffff _ hb.symm rfl hffff
  have h3 : field b (prologue.length + 2) 16 = c.iv :=
    field_eq (prologue ++ ffff) c.iv _ (by rw [← hb]; simp only [List.append_assoc]; rfl)
      (by simp [hffff]) hiv
  have h4 : field b (prologue.length + 18) 2 = ffff :=
    field_eq (prologue ++ ffff ++ c.iv) ffff _ (by rw [← hb]; simp only [List.append_assoc]; rfl)
      (by simp [hffff, hiv]) hffff
  have h5 : field b (prologue.length + 20) 65 = c.ephemPublicKey :=
    field_eq (prologue ++ ffff ++ c.iv ++ ffff) c.ephemPublicKey _
      (by rw [← hb]; simp only [List.append_assoc]; rfl) (by simp [hffff, hiv]) hephem
  have h6 : field b (prologue.length + 85) 2 = ffff :=
    field_eq (prologue ++ ffff ++ c.iv ++ ffff ++ c.ephemPublicKey) ffff _
      (by rw [← hb]; simp only [List.append_assoc]; rfl) (by simp [hffff, hiv, hephem]) hffff
  have h7 : field b (prologue.length + 87) 32 = c.mac :=
    field_eq (prologue ++ ffff ++ c.iv ++ ffff ++ c.ephemPublicKey ++ ffff) c.mac _
      (by rw [← hb]; simp only [List.append_assoc]; rfl) (by simp [hffff, hiv, hephem]) hmac
  have h8 : field b (prologue.length + 119) 2 = ffff :=
    field_eq (prologue ++ ffff ++ c.iv ++ ffff ++ c.ephemPublicKey ++ ffff ++ c.mac) ffff _
      (by rw [← hb]; simp only [List.append_assoc]; rfl) (by simp [hffff, hiv, hephem, hmac]) hffff
  have h9 : b.drop (prologue.length + 121) = c.ciphertext :=
    drop_eq (prologue ++ ffff ++ c.iv ++ ffff ++ c.ephemPublicKey ++ ffff ++ c.mac ++ ffff) _
      (by rw [← hb]; simp only [List.append_assoc]) (by simp [hffff, hiv, hephem, hmac])
  have h10 : field (ASYMMETRIC_ENCRYPTION_PROLOGUE_PLAIN ++ plaintext) 0
      ASYMMETRIC_ENCRYPTION_PROLOGUE_PLAIN.length = ASYMMETRIC_ENCRYPTION_PROLOGUE_PLAIN :=
    field_eq [] _ plaintext rfl rfl rfl
  unfold decryptRawPlaintextAsymmetric
  rw [hprologue]
  simp only [h1, h2, h3, h4, h5, h6, h7, h8, h9, hdecrypt, h10, List.drop_left]
  rw [ensure_bind (decide_true _), ensure_bind (decide_true _), ensure_bind (decide_true _), ensure_bind (decide_true _),
    ensure_bind (decide_true _), ensure_bind (decide_true _)]
  rfl

/-- What is encrypted for a key pair is decrypted with it. -/
theorem encryptRaw_agree (good : Bytes → Prop) (plaintext privateKey : Bytes) :
    Logged.Agree good
      (encryptRawPlaintextAsymmetric env plaintext (publicKey env privateKey)) (.ok ())
      fun encrypted _ => decryptRawPlaintextAsymmetric env encrypted privateKey = .ok plaintext := by
  have hdraw : Logged.Agree good (Logged.draw (env.eccrypto.encrypt
      (env.eccrypto.getPublic privateKey) (ASYMMETRIC_ENCRYPTION_PROLOGUE_PLAIN ++ plaintext)) :
        Run σ (Option Ecies)) (.ok ()) fun encrypted _ => ∃ c, encrypted = some c ∧
          c.iv.length = 16 ∧ c.ephemPublicKey.length = 65 ∧ c.mac.length = 32 ∧
            env.eccrypto.decrypt privateKey c =
              some (ASYMMETRIC_ENCRYPTION_PROLOGUE_PLAIN ++ plaintext) :=
    .draw (env.eccrypto.encrypt_some privateKey _)
  unfold encryptRawPlaintextAsymmetric
  rw [← getPublic_eq]
  refine hdraw.seq fun encrypted hencrypted => ?_
  obtain ⟨c, rfl, hiv, hephem, hmac, hdecrypt⟩ := hencrypted
  apply Logged.Agree.pure
  exact decryptRaw_frame hiv hephem hmac hdecrypt

/-! ## The symmetric half -/

/-- What was uploaded can be downloaded under the id. -/
lemma uploadData_agree (material : Bytes) :
    Logged.Agree (Good env) (uploadData env material) (.ok ()) fun fileId _ =>
      getFileBinary env fileId = .ok material ∧
        ∃ b, fileId = env.hashFn.id b := by
  unfold uploadData
  refine (Logged.Agree.tell material).seq fun _ hgood => ?_
  apply Logged.Agree.pure
  refine ⟨?_, Storage.exists_fileChunks_eq _ _ _⟩
  unfold getFileBinary
  rw [hgood]
  rfl

/-- The key and the id of an encrypted upload have 32 bytes, and give the data back. -/
lemma encryptAndUploadData_agree (data : Bytes) :
    Logged.Agree (Good env) (encryptAndUploadData env data) (.ok ()) fun uploaded _ =>
      uploaded.1.length = 32 ∧ (fromHex uploaded.2).length = 32 ∧
        downloadAndDecryptFile env uploaded.1 (toHex (fromHex uploaded.2)) = .ok data := by
  unfold encryptAndUploadData
  refine (EncryptedData.createFromPlaintext_valid env.aes env.rng data
    (fun key (hkey : none = some key) => by cases hkey) (Good env)).seq fun encryptedData hencrypted => ?_
  obtain ⟨hdecrypt, hvalid, -⟩ := hencrypted
  refine (uploadData_agree encryptedData.encryptedMaterial).seq fun fileId hfile => ?_
  obtain ⟨hbinary, b, rfl⟩ := hfile
  apply Logged.Agree.pure
  unfold HashFn.id at hbinary ⊢
  rw [fromHex_toHex]
  refine ⟨?_, env.hashFn.length_digest b, ?_⟩
  · unfold validKey at hvalid
    rw [Bool.and_eq_true] at hvalid
    exact of_decide_eq_true hvalid.2
  · unfold downloadAndDecryptFile
    rw [hbinary]
    exact hdecrypt

/-! ## The asymmetric upload -/

lemma length_hostHashed (env : Env σ) (host : JsString) : (hostHashed env host).length = 32 :=
  env.hashFn.length_digest _

/-- The container read by the owner of the key pair: the data for the same host, an error for any
other. -/
theorem downloadAsymmetric_frame {host fileId symmetricFileId : JsString}
    {data symmetricKey encrypted privateKey : Bytes} (hkey : symmetricKey.length = 32)
    (hid : (fromHex symmetricFileId).length = 32)
    (hdownload : downloadAndDecryptFile env symmetricKey (toHex (fromHex symmetricFileId)) =
      .ok data)
    (hdecrypt : decryptRawPlaintextAsymmetric env encrypted privateKey =
      .ok (ASYMMETRIC_ENCRYPTION_PROLOGUE_ASYMM ++ (symmetricKey ++ (fromHex symmetricFileId ++
        hostHashed env host))))
    (hfile : getFileBinary env fileId = .ok (ASYMMETRIC_ENCRYPTION_PROLOGUE_CONTAINER ++
      (env.hashFn.digest (publicKey env privateKey) ++ encrypted))) (host' : JsString) :
    downloadAndDecryptDataAsymmetric env host' fileId privateKey =
      if hostHashed env host' = hostHashed env host then .ok data
      else .error (.displayable "Downloaded data does not match expected host") := by
  have hdigest := env.hashFn.length_digest (publicKey env privateKey)
  have hhost := length_hostHashed env host
  generalize hd : ASYMMETRIC_ENCRYPTION_PROLOGUE_CONTAINER ++
    (env.hashFn.digest (publicKey env privateKey) ++ encrypted) = downloaded at hfile
  generalize hi : ASYMMETRIC_ENCRYPTION_PROLOGUE_ASYMM ++ (symmetricKey ++
    (fromHex symmetricFileId ++ hostHashed env host)) = info at hdecrypt
  -- the fields of the container
  have h1 : field downloaded 0 ASYMMETRIC_ENCRYPTION_PROLOGUE_CONTAINER.length =
      ASYMMETRIC_ENCRYPTION_PROLOGUE_CONTAINER := field_eq [] _ _ hd.symm rfl rfl
  have h2 : field downloaded ASYMMETRIC_ENCRYPTION_PROLOGUE_CONTAINER.length 32 =
      env.hashFn.digest (publicKey env privateKey) := field_eq _ _ _ hd.symm rfl hdigest
  have h3 : downloaded.drop (ASYMMETRIC_ENCRYPTION_PROLOGUE_CONTAINER.length + 32) = encrypted :=
    drop_eq (_ ++ env.hashFn.digest (publicKey env privateKey)) _
      (by rw [← hd, List.append_assoc]) (by rw [List.length_append, hdigest])
  -- the fields of what is encrypted in it
  have h4 : field info 0 ASYMMETRIC_ENCRYPTION_PROLOGUE_ASYMM.length =
      ASYMMETRIC_ENCRYPTION_PROLOGUE_ASYMM := field_eq [] _ _ hi.symm rfl rfl
  have h5 : field info ASYMMETRIC_ENCRYPTION_PROLOGUE_ASYMM.length 32 = symmetricKey :=
    field_eq _ _ _ hi.symm rfl hkey
  have h6 : field info (ASYMMETRIC_ENCRYPTION_PROLOGUE_ASYMM.length + 32) 32 =
      fromHex symmetricFileId :=
    field_eq (_ ++ symmetricKey) _ _ (by rw [← hi, List.append_assoc])
      (by rw [List.length_append, hkey]) hid
  have h7 : info.drop (ASYMMETRIC_ENCRYPTION_PROLOGUE_ASYMM.length + 64) = hostHashed env host :=
    drop_eq (_ ++ symmetricKey ++ fromHex symmetricFileId) _
      (by rw [← hi, List.append_assoc, List.append_assoc])
      (by rw [List.length_append, List.length_append, hkey, hid])
  have h8 : info.length = ASYMMETRIC_ENCRYPTION_PROLOGUE_ASYMM.length + 32 + 32 + 32 := by
    rw [← hi, List.length_append, List.length_append, List.length_append, hkey, hid, hhost]
  unfold downloadAndDecryptDataAsymmetric
  simp only [hfile, ok_bind, getPublic_eq, List.head?_cons, List.tail_cons, h1, h2, h3, hdecrypt,
    h4, h5, h6, h7, h8, hdownload]
  rw [ensure_bind (decide_true _), ensure_bind (decide_true _), ensure_bind (decide_true _),
    ensure_bind (decide_true _), ensure_bind (decide_true _)]
  by_cases hsame : hostHashed env host' = hostHashed env host
  · rw [if_pos hsame, ensure_bind (decide_eq_true hsame)]
  · rw [if_neg hsame, ensure_bind_false (decide_eq_false hsame)]

/-- What is uploaded for a key pair is read by its owner. -/
theorem uploadAsymmetric_agree (host : JsString) (data privateKey : Bytes) :
    Logged.Agree (Good env)
      (encryptAndUploadDataAsymmetric env host data (publicKey env privateKey)) (.ok ())
      fun fileId _ => ∀ host', downloadAndDecryptDataAsymmetric env host' fileId privateKey =
        if hostHashed env host' = hostHashed env host then .ok data
        else .error (.displayable "Downloaded data does not match expected host") := by
  unfold encryptAndUploadDataAsymmetric
  refine (encryptAndUploadData_agree data).seq fun uploaded huploaded => ?_
  obtain ⟨symmetricKey, symmetricFileId⟩ := uploaded
  obtain ⟨hkey, hid, hdownload⟩ := huploaded
  have hlength : (ASYMMETRIC_ENCRYPTION_PROLOGUE_ASYMM ++ (symmetricKey ++
      (fromHex symmetricFileId ++ hostHashed env host))).length =
        ASYMMETRIC_ENCRYPTION_PROLOGUE_ASYMM.length + 32 + 32 + 32 := by
    rw [List.length_append, List.length_append, List.length_append, hkey, hid,
      length_hostHashed]
  have htest : ensure (decide ((ASYMMETRIC_ENCRYPTION_PROLOGUE_ASYMM ++ (symmetricKey ++
      (fromHex symmetricFileId ++ hostHashed env host))).length =
        ASYMMETRIC_ENCRYPTION_PROLOGUE_ASYMM.length + 32 + 32 + 32))
      "Data to encrypt asymmetrically has incorrect length" = .ok () := by
    rw [decide_eq_true hlength]
    rfl
  show Logged.Agree _ (Logged.ofExcept _ >>= _) _ _
  rw [Logged.ofExcept_bind_eq htest]
  refine (encryptRaw_agree (Good env) _ privateKey).seq fun encrypted hdecrypt => ?_
  apply (uploadData_agree _).mono
  intro fileId _ hfile host'
  exact downloadAsymmetric_frame hkey hid hdownload hdecrypt hfile.1 host'

/-! ## The registry -/

/-- The registry gives this public key for an identity. -/
def Registered (env : Env σ) (identity : JsString) (key : Bytes) : Prop :=
  ∃ text, commPublicKeyByIdentity env identity = some text ∧ fromHex (remove0x text) = key

/-- The key of a registered identity. -/
theorem registeredPublicKey_eq {identity : JsString} {privateKey : Bytes}
    (h : Registered env identity (publicKey env privateKey)) :
    registeredPublicKey env identity = .ok (publicKey env privateKey) := by
  obtain ⟨text, htext, hkey⟩ := h
  have hlength := length_publicKey env privateKey
  have hne : publicKey env privateKey ≠ List.replicate 64 0 :=
    env.eccrypto.getPublic_ne_zero privateKey
  unfold registeredPublicKey
  simp only [htext, hkey]
  rw [ensure_bind (by rw [hlength, decide_eq_false hne]; rfl), ensure_bind (decide_eq_true hlength)]
  rfl

/-! ## The signature -/

/-- The padding of a signature is a byte that no signature starts with. -/
lemma dropWhile_padding {signature : Bytes} (n : ℕ) (hhead : signature.head? = some 0x30) :
    (List.replicate n 0xff ++ signature).dropWhile (· = 0xff) = signature := by
  induction n with
  | zero =>
    cases signature with
    | nil => cases hhead
    | cons b bs =>
      rw [List.head?_cons, Option.some.injEq] at hhead
      rw [hhead]
      rfl
  | succ n ih =>
    rw [List.replicate_succ, List.cons_append, List.dropWhile_cons_of_pos (by simp)]
    exact ih

/-- A signature has 75 bytes, and the public key of the signer verifies it. -/
theorem signRawData_agree (good : Bytes → Prop) (data privateKey : Bytes) :
    Logged.Agree good (signRawData env data privateKey) (.ok ()) fun signature _ =>
      signature.length = 75 ∧
        verifyRawData env data signature (publicKey env privateKey) = .ok () := by
  have hdraw : Logged.Agree good (Logged.draw (env.eccrypto.sign privateKey
      (env.hashFn.digest data)) : Run σ Bytes) (.ok ()) fun signature _ =>
        signature.head? = some 0x30 ∧ signature.length ≤ 75 ∧ env.eccrypto.verify
          (env.eccrypto.getPublic privateKey) (env.hashFn.digest data) signature = true :=
    .draw fun seed => ⟨env.eccrypto.sign_head _ _ seed, env.eccrypto.length_sign _ _ seed,
      env.eccrypto.verify_sign _ _ seed⟩
  unfold signRawData
  refine hdraw.seq fun signature hsignature => ?_
  obtain ⟨hhead, hle, hverify⟩ := hsignature
  apply Logged.Agree.pure
  refine ⟨?_, ?_⟩
  · rw [List.length_append, List.length_replicate]
    omega
  · unfold verifyRawData
    simp only [dropWhile_padding _ hhead, ← getPublic_eq]
    rw [hhead, ensure_bind (decide_eq_true rfl), if_pos hverify]
    rfl

/-- Where the signed part is cut: at the first zero byte behind the prologue, and 32 bytes
behind that. -/
lemma slice_signedPart {b identity rest : Bytes}
    (hb : b = SIGNATURE_PROLOGUE_INNER ++ (identity ++ 0x00 :: rest)) (hzero : 0x00 ∉ identity) :
    let i := indexOf b 0x00 SIGNATURE_PROLOGUE_INNER.length
    slice b SIGNATURE_PROLOGUE_INNER.length i = identity ∧
      slice b (i + 1) (i + 1 + 32) = rest.take 32 ∧
      slice b (i + 1 + 32) b.length = rest.drop 32 := by
  intro i
  have hi : i = (SIGNATURE_PROLOGUE_INNER.length + identity.length : ℕ) := indexOf_eq hb rfl hzero
  have hbegin : (SIGNATURE_PROLOGUE_INNER ++ identity ++ [0x00]).length =
      SIGNATURE_PROLOGUE_INNER.length + identity.length + 1 := by
    rw [List.length_append, List.length_append, List.length_singleton]
  have hsplit : b = (SIGNATURE_PROLOGUE_INNER ++ identity ++ [0x00]) ++ rest := by
    rw [hb]
    simp only [List.append_assoc, List.singleton_append]
  generalize hn : SIGNATURE_PROLOGUE_INNER.length + identity.length = n at hi hbegin
  have h1 : i + 1 = ((n + 1 : ℕ) : ℤ) := by omega
  have h2 : i + 1 + 32 = ((n + 1 + 32 : ℕ) : ℤ) := by omega
  refine ⟨?_, ?_, ?_⟩
  · rw [hi, ← hn, slice_eq_field]
    exact field_eq _ _ _ hb rfl rfl
  · rw [h2, h1, slice_eq_field, field, drop_eq _ _ hsplit hbegin]
  · rw [h2, slice_eq_drop, ← List.drop_drop, drop_eq _ _ hsplit hbegin]

/-- A signed text is taken apart where it was put together: the identity ends at the first zero
byte. -/
theorem verifySignature_frame {host identity : JsString} {data signature key : Bytes}
    (hzero : 0 ∉ identity) (hwf : WellFormed identity) (hsignature : signature.length = 75)
    (hkey : registeredPublicKey env identity = .ok key)
    (hverify : verifyRawData env (SIGNATURE_PROLOGUE_INNER ++ (bufferFrom identity ++ (0x00 ::
      (hostHashed env host ++ data)))) signature key = .ok ()) (host' : JsString)
    (hhost : hostHashed env host' = hostHashed env host) :
    verifySignature env host' (SIGNATURE_PROLOGUE_OUTER ++ (signature ++
      (SIGNATURE_PROLOGUE_INNER ++ (bufferFrom identity ++ (0x00 ::
        (hostHashed env host ++ data)))))) = .ok ⟨identity, host', data⟩ := by
  have hhashed := length_hostHashed env host
  generalize hc : SIGNATURE_PROLOGUE_INNER ++ (bufferFrom identity ++ (0x00 ::
    (hostHashed env host ++ data))) = combined at hverify
  generalize hd : SIGNATURE_PROLOGUE_OUTER ++ (signature ++ combined) = downloaded
  -- the outer fields
  have h1 : field downloaded 0 SIGNATURE_PROLOGUE_OUTER.length = SIGNATURE_PROLOGUE_OUTER :=
    field_eq [] _ _ hd.symm rfl rfl
  have h2 : field downloaded SIGNATURE_PROLOGUE_OUTER.length 75 = signature :=
    field_eq _ _ _ hd.symm rfl hsignature
  have h3 : downloaded.drop (SIGNATURE_PROLOGUE_OUTER.length + 75) = combined :=
    drop_eq (_ ++ signature) _ (by rw [← hd, List.append_assoc])
      (by rw [List.length_append, hsignature])
  -- the inner fields
  have h4 : field combined 0 SIGNATURE_PROLOGUE_INNER.length = SIGNATURE_PROLOGUE_INNER :=
    field_eq [] _ _ hc.symm rfl rfl
  have hcut := slice_signedPart hc.symm (bufferFrom_not_mem rfl (by decide) hzero)
  rw [← hhashed, List.take_left, List.drop_left] at hcut
  rcases hcut with ⟨h5, h6, h7⟩
  unfold verifySignature
  simp only [h1, h2, h3, h4, h5, h6, h7, hhost, hwf.bufferToString_eq, hkey, ok_bind, hverify]
  rw [ensure_bind (decide_true _), ensure_bind (decide_true _), ensure_bind (decide_true _)]
  rfl

/-- What is signed by an identity is verified as signed by it, for the same host. -/
theorem wrapWithSignature_agree {identity : JsString} {privateKey : Bytes}
    (hidentity : env.identity = some identity) (hne : identity ≠ []) (hzero : 0 ∉ identity)
    (hwf : WellFormed identity) (hkey : Registered env identity (publicKey env privateKey))
    (good : Bytes → Prop) (host : JsString) (data : Bytes) :
    Logged.Agree good (wrapWithSignature env host data privateKey) (.ok ()) fun signed _ =>
      ∀ host', hostHashed env host' = hostHashed env host →
        verifySignature env host' signed = .ok ⟨identity, host', data⟩ := by
  have htest : ensure (decide (env.identity.getD [] ≠ [])) "No identity found, cannot sign" =
      .ok () := by
    rw [hidentity, Option.getD_some, decide_eq_true hne]
    rfl
  unfold wrapWithSignature
  show Logged.Agree _ (Logged.ofExcept _ >>= _) _ _
  rw [Logged.ofExcept_bind_eq htest, hidentity, Option.getD_some]
  refine (signRawData_agree good _ privateKey).seq fun signature hsignature => ?_
  apply Logged.Agree.pure
  intro host' hhost
  exact verifySignature_frame hzero hwf hsignature.1 (registeredPublicKey_eq hkey) hsignature.2
    host' hhost

/-! ## The message -/

/-- What an identity signs, encrypts and uploads for a recipient is read by the recipient, for a host with
the same hash. -/
lemma message_agree {senderIdentity recipientIdentity : JsString}
    {senderPrivateKey recipientPrivateKey : Bytes}
    (hidentity : env.identity = some senderIdentity) (hne : senderIdentity ≠ [])
    (hzero : 0 ∉ senderIdentity) (hwf : WellFormed senderIdentity)
    (hsender : Registered env senderIdentity (publicKey env senderPrivateKey))
    (hrecipient : Registered env recipientIdentity (publicKey env recipientPrivateKey))
    (host : JsString) (data : Bytes) :
    Logged.Agree (Good env) (signEncryptUploadForIdentity env host data recipientIdentity
      senderPrivateKey) (.ok ()) fun fileId _ => ∀ host',
        downloadVerifyDecryptFromIdentity env host' fileId recipientPrivateKey =
          if hostHashed env host' = hostHashed env host then .ok ⟨senderIdentity, host', data⟩
          else .error (.displayable "Downloaded data does not match expected host") := by
  unfold signEncryptUploadForIdentity
  refine (wrapWithSignature_agree hidentity hne hzero hwf hsender (Good env) host data).seq
    fun signed hsigned => ?_
  unfold encryptAndUploadDataForIdentity
  rw [Logged.ofExcept_bind_eq (registeredPublicKey_eq hrecipient)]
  apply (uploadAsymmetric_agree host signed recipientPrivateKey).mono
  intro fileId _ hdownload host'
  unfold downloadVerifyDecryptFromIdentity
  rw [hdownload host']
  by_cases hhost : hostHashed env host' = hostHashed env host
  · rw [if_pos hhost, if_pos hhost]
    exact hsigned host' hhost
  · rw [if_neg hhost, if_neg hhost]
    rfl

/-- What an identity signs, encrypts and uploads for a recipient is what the recipient downloads,
verifies and decrypts, with the identity of the sender, for a host with the same hash; for another
one the download throws. Assumed of the run: the two uploads it makes can be downloaded. -/
theorem message_roundTrip {senderIdentity recipientIdentity : JsString}
    {senderPrivateKey recipientPrivateKey : Bytes}
    (hidentity : env.identity = some senderIdentity) (hne : senderIdentity ≠ [])
    (hzero : 0 ∉ senderIdentity) (hwf : WellFormed senderIdentity)
    (hsender : Registered env senderIdentity (publicKey env senderPrivateKey))
    (hrecipient : Registered env recipientIdentity (publicKey env recipientPrivateKey))
    {host : JsString} {data : Bytes} {seed : σ}
    (hgood : ∀ material ∈ (signEncryptUploadForIdentity env host data recipientIdentity
      senderPrivateKey).log seed, Good env material) :
    ∃ fileId, (signEncryptUploadForIdentity env host data recipientIdentity senderPrivateKey
        seed).1 = .ok fileId ∧ ∀ host',
      downloadVerifyDecryptFromIdentity env host' fileId recipientPrivateKey =
        if hostHashed env host' = hostHashed env host then .ok ⟨senderIdentity, host', data⟩
        else .error (.displayable "Downloaded data does not match expected host") := by
  have hagree := message_agree hidentity hne hzero hwf hsender hrecipient host data
  obtain ⟨fileId, hrun, hdownload⟩ := hagree.run_of_ok hgood rfl
  exact ⟨fileId, hrun, hdownload⟩

end

/-- The identity `a` writes to `b` on the host `h`. -/
def letter (env : Env ℕ) : Run ℕ JsString :=
  signEncryptUploadForIdentity env (js "h") [5, 6] (js "b") [1]

/-- Two identities, and the uploads of a letter from one to the other. -/
def letterEnv : Env ℕ :=
  let env uploads := Env.small (js "a") [(js "a", [1]), (js "b", [2])] uploads
  env ((letter (env [])).log 0)

theorem message_roundTrip_letter :
    ∃ fileId, (letter letterEnv 0).1 = .ok fileId ∧ ∀ host',
      downloadVerifyDecryptFromIdentity letterEnv host' fileId [2] =
        if hostHashed letterEnv host' = hostHashed letterEnv (js "h") then
          .ok ⟨js "a", host', [5, 6]⟩
        else .error (.displayable "Downloaded data does not match expected host") :=
  have hgood : ∀ material ∈ (letter letterEnv).log 0, Good letterEnv material := by
    unfold Good
    decide +kernel
  message_roundTrip rfl (by decide) (by decide) (by decide) ⟨_, rfl, by decide +kernel⟩
    ⟨_, rfl, by decide +kernel⟩ hgood

end PointNetwork.Encryption
