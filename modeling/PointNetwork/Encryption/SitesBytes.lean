import PointNetwork.Encryption.MultipleData
import PointNetwork.Encryption.SitesTheorems

/-!
# The buffers of what sites encrypt

An assignment gives buffers to the secrets of the symbolic model and seeds to its randomness, and so a
buffer to every symbolic message (`toBytes`).

* `encryptMultipleData_toBytes`: `encryptMultipleData` returns the buffers of what it encrypts
  symbolically;
* `decryptData_toBytes`: wallets decrypt the buffers to what they decrypt symbolically, and refuse the
  hosts with another hash.
-/

namespace PointNetwork.Encryption.Sites

open Js DolevYao

/-- The bytes that the atoms stand for. -/
structure Assignment (σ : Type) where
  secret : ℕ → Bytes
  privateKey : JsString → Bytes
  symmetricKey : ℕ → Bytes
  iv : ℕ → Bytes
  /-- The seed of the wallet before it draws the randomness of this number. -/
  seed : ℕ → σ
  length_symmetricKey : ∀ n, (symmetricKey n).length = 24
  length_iv : ∀ n, (iv n).length = 16

section

variable {σ : Type} (wallet : Wallet σ) (ρ : Assignment σ)

/-- What is encrypted for the key whose buffer is `publicKey`. -/
def eciesOf (publicKey plaintext : Bytes) (r : ℕ) : Option Ecies :=
  (wallet.eccrypto.encrypt (0x04 :: publicKey) plaintext (ρ.seed r)).1

/-- A pair is a part of a record and what follows it. -/
def toBytes : Message → Bytes
  | .atom (.host s) => bufferFrom s
  | .atom (.bytes b) => b
  | .atom (.secret n) => ρ.secret n
  | .atom (.privateKey identity) => ρ.privateKey identity
  | .atom (.symmetricKey n) => ρ.symmetricKey n
  | .atom (.iv n) => ρ.iv n
  | .apply .sha256 t => wallet.sha256.digest (toBytes t)
  | .publicKey k => (wallet.eccrypto.getPublic (toBytes k)).tail
  | .pair t u => bufferFrom (bar :: toHex (toBytes t)) ++ toBytes u
  | .senc k t r => wallet.aes192.encrypt (toBytes k) (ρ.iv r) (toBytes t)
  | .aenc k t r => ((eciesOf wallet ρ (toBytes k) (toBytes t) r).map fun c =>
    bufferFrom (symmetricObjJSON c.toObj)).getD []
  | .sign k t r => (wallet.eccrypto.sign (toBytes k) (toBytes t) (ρ.seed r)).1

/-- A symmetric object of the code for one of the symbolic model. -/
def IsObj (m : Message) (obj : MultipleEncryptionSymmetricObj) : Prop :=
  ∃ pk t r c, m = .aenc pk t r ∧ eciesOf wallet ρ (toBytes wallet ρ pk) (toBytes wallet ρ t) r =
    some c ∧ obj.encryptedSymmetricObj = c.toObj ∧
      obj.encryptedSymmetricObjJSON = symmetricObjJSON c.toObj

/-- The text of a public key. -/
def IsKey (text : JsString) (pk : Message) : Prop :=
  ∃ k, pk = .publicKey k ∧ fromHex (remove0x text) = toBytes wallet ρ pk

/-! ## What a call draws -/

/-- The seeds of the loop over the public keys. -/
def DrawsKeys (symmetricObj : Message) : (publicKeys : List Message) → (r : ℕ) → Prop
  | [], _ => True
  | pk :: publicKeys, r => ρ.seed (r + 1) = (wallet.eccrypto.encrypt
      (0x04 :: toBytes wallet ρ pk) (toBytes wallet ρ symmetricObj) (ρ.seed r)).2 ∧
    DrawsKeys symmetricObj publicKeys (r + 1)

/-- The key, the vector and the seeds of an entry are what it draws. -/
structure DrawsEntry (host : JsString) (publicKeys : List Message) (n : ℕ) : Prop where
  symmetricKey : ρ.symmetricKey n = (wallet.rng.randomBytes 24 (ρ.seed n)).1
  iv : ρ.iv n = (wallet.rng.randomBytes 16 (wallet.rng.randomBytes 24 (ρ.seed n)).2).1
  seed : ρ.seed (n + 1) = (wallet.rng.randomBytes 16 (wallet.rng.randomBytes 24 (ρ.seed n)).2).2
  keys : DrawsKeys wallet ρ (record host (Sites.symmetricKey n) (Sites.iv n)) publicKeys (n + 1)

/-- The wallet draws the keys and vectors of the entries one after the other. -/
def Draws (host : JsString) (publicKeys : List Message) : (entries n : ℕ) → Prop
  | 0, _ => True
  | entries + 1, n => DrawsEntry wallet ρ host publicKeys n ∧
    Draws host publicKeys entries (n + 1 + publicKeys.length)

end

section

variable {σ : Type} {wallet : Wallet σ} {ρ : Assignment σ} {host : JsString}

/-! ## Encryption -/

/-- The buffer of a record. -/
lemma toBytes_record (key iv : Message) : toBytes wallet ρ (record host key iv) =
    bufferFrom (Encryption.record (wallet.sha256.digest (bufferFrom host)) (toBytes wallet ρ key)
      (toBytes wallet ρ iv)) := by
  have hpart : ∀ b : Bytes, WellFormed (bar :: toHex b) := by
    intro b
    refine WellFormed.of_ascii fun u hu => ?_
    obtain rfl | hu := List.mem_cons.mp hu
    · decide
    · exact ascii_of_mem_toHex hu
  have hrecord : ∀ a b c : Bytes, Encryption.record a b c =
      (bar :: toHex a) ++ ((bar :: toHex b) ++ ((bar :: toHex c) ++ [bar])) := fun _ _ _ => rfl
  rw [hrecord, (hpart _).bufferFrom_append, (hpart _).bufferFrom_append,
    (hpart _).bufferFrom_append]
  rfl

/-- The point of a public key, as `eccrypto` has it. -/
lemma cons_toBytes_publicKey (k : Message) :
    0x04 :: toBytes wallet ρ (.publicKey k) = wallet.eccrypto.getPublic (toBytes wallet ρ k) :=
  List.cons_head?_tail (wallet.eccrypto.getPublic_head (toBytes wallet ρ k))

/-- The object for a key is the one of the messages, in bytes. -/
lemma encryptForKey_toBytes {text message : JsString} {pk symmetricObj : Message} {r : ℕ}
    (hkey : IsKey wallet ρ text pk) (hmessage : bufferFrom message = toBytes wallet ρ symmetricObj)
    (hseed : ρ.seed (r + 1) = (wallet.eccrypto.encrypt (0x04 :: toBytes wallet ρ pk)
      (toBytes wallet ρ symmetricObj) (ρ.seed r)).2) :
    ∃ obj, IsObj wallet ρ (.aenc pk symmetricObj r) obj ∧
      Logged.Yields (encryptForKey wallet message text) (ρ.seed r) obj (ρ.seed (r + 1)) := by
  obtain ⟨k, rfl, htext⟩ := hkey
  obtain ⟨c, hc, -⟩ := wallet.eccrypto.encrypt_some (toBytes wallet ρ k)
    (toBytes wallet ρ symmetricObj) (ρ.seed r)
  rw [← cons_toBytes_publicKey] at hc
  refine ⟨⟨text, c.toObj, symmetricObjJSON c.toObj⟩,
    ⟨.publicKey k, symmetricObj, r, c, rfl, hc, rfl, rfl⟩, ?_⟩
  have hbuffer : fromHex (js "04") ++ fromHex (remove0x text) =
      0x04 :: toBytes wallet ρ (.publicKey k) := by
    have hfour : fromHex (js "04") = [0x04] := by decide
    rw [hfour, htext]
    rfl
  unfold encryptForKey
  dsimp only
  rw [hbuffer, hmessage]
  refine Logged.yields_bind.mpr ⟨some c, ρ.seed (r + 1), ⟨[], ?_⟩, ⟨[], rfl⟩⟩
  rw [← hc, hseed]
  rfl

/-- The loop over the public keys. -/
lemma encryptForKeys_toBytes {texts : List JsString} {publicKeys : List Message}
    {symmetricObj : Message} {message : JsString} {r : ℕ}
    (hkeys : List.Forall₂ (IsKey wallet ρ) texts publicKeys)
    (hmessage : bufferFrom message = toBytes wallet ρ symmetricObj)
    (hdraws : DrawsKeys wallet ρ symmetricObj publicKeys r) :
    ∃ objs, List.Forall₂ (IsObj wallet ρ) (encryptForKeys symmetricObj publicKeys r) objs ∧
      Logged.Yields (texts.mapM (encryptForKey wallet message)) (ρ.seed r) objs
        (ρ.seed (r + publicKeys.length)) := by
  induction hkeys generalizing r with
  | nil => exact ⟨[], .nil, Logged.yields_pure.mpr ⟨rfl, rfl⟩⟩
  | cons hkey _ ih =>
    obtain ⟨hseed, hrest⟩ := hdraws
    obtain ⟨obj, hobj, hyields⟩ := encryptForKey_toBytes hkey hmessage hseed
    obtain ⟨objs, hobjs, hloop⟩ := ih hrest
    refine ⟨obj :: objs, .cons hobj hobjs, ?_⟩
    rw [List.mapM_cons, List.length_cons, Nat.add_comm _ 1, ← Nat.add_assoc]
    refine Logged.yields_bind.mpr ⟨_, _, hyields, Logged.yields_bind.mpr ⟨_, _, hloop, ?_⟩⟩
    exact Logged.yields_pure.mpr ⟨rfl, rfl⟩

/-- An entry of the code for one of the symbolic model. -/
def IsEntry (wallet : Wallet σ) (ρ : Assignment σ) (m : Message × List Message)
    (entry : Bytes × List MultipleEncryptionSymmetricObj) : Prop :=
  entry.1 = toBytes wallet ρ m.1 ∧ List.Forall₂ (IsObj wallet ρ) m.2 entry.2

/-- The entry of the data is the one of the messages, in bytes. -/
lemma encryptEntry_toBytes {texts : List JsString} {publicKeys : List Message} {n : ℕ}
    (hkeys : List.Forall₂ (IsKey wallet ρ) texts publicKeys) (data : Message)
    (hdraws : DrawsEntry wallet ρ host publicKeys n) :
    ∃ entry, IsEntry wallet ρ (encryptEntry host publicKeys data n) entry ∧
      Logged.Yields (Encryption.encryptEntry wallet (hostNameHashHex wallet host) texts
        (.buffer (toBytes wallet ρ data))) (ρ.seed n) entry
          (ρ.seed (n + 1 + publicKeys.length)) := by
  obtain ⟨objs, hobjs, hyields⟩ := encryptForKeys_toBytes hkeys
    (toBytes_record (symmetricKey n) (iv n)).symm hdraws.keys
  refine ⟨(toBytes wallet ρ (.senc (symmetricKey n) data n), objs), ⟨rfl, hobjs⟩, ?_⟩
  unfold Encryption.encryptEntry
  refine Logged.yields_bind.mpr ⟨ρ.symmetricKey n, (wallet.rng.randomBytes 24 (ρ.seed n)).2,
    ⟨[], by rw [hdraws.symmetricKey]; rfl⟩, ?_⟩
  refine Logged.yields_bind.mpr ⟨ρ.iv n, ρ.seed (n + 1),
    ⟨[], by rw [hdraws.iv, hdraws.seed]; rfl⟩, ?_⟩
  exact Logged.yields_bind.mpr ⟨objs, _, hyields, ⟨[], rfl⟩⟩

/-- The call returns the buffers of what it encrypts symbolically. -/
theorem encryptMultipleData_toBytes {texts : List JsString} {publicKeys : List Message}
    (hkeys : List.Forall₂ (IsKey wallet ρ) texts publicKeys) {dataArray : List Message} {n : ℕ}
    (hdraws : Draws wallet ρ host publicKeys dataArray.length n) :
    ∃ entries s, List.Forall₂ (IsEntry wallet ρ) (encryptMultipleData host publicKeys dataArray n)
        entries ∧
      Logged.Yields (Encryption.encryptMultipleData wallet host
        (dataArray.map fun data => .buffer (toBytes wallet ρ data)) texts) (ρ.seed n)
        ⟨entries.map fun entry => toHex entry.1, entries.map (·.2)⟩ s := by
  have hloop : ∃ entries s, List.Forall₂ (IsEntry wallet ρ)
        (encryptMultipleData host publicKeys dataArray n) entries ∧
      Logged.Yields ((dataArray.map fun data => Data.buffer (toBytes wallet ρ data)).mapM
        (Encryption.encryptEntry wallet (hostNameHashHex wallet host) texts)) (ρ.seed n) entries s := by
    induction dataArray generalizing n with
    | nil => exact ⟨[], ρ.seed n, .nil, Logged.yields_pure.mpr ⟨rfl, rfl⟩⟩
    | cons data dataArray ih =>
      obtain ⟨hentry, hrest⟩ := hdraws
      obtain ⟨entry, hisEntry, hyields⟩ := encryptEntry_toBytes hkeys data hentry
      obtain ⟨entries, s, hentries, hloop⟩ := ih hrest
      refine ⟨entry :: entries, s, .cons hisEntry hentries, ?_⟩
      rw [List.map_cons, List.mapM_cons]
      refine Logged.yields_bind.mpr ⟨_, _, hyields, Logged.yields_bind.mpr ⟨_, _, hloop, ?_⟩⟩
      exact Logged.yields_pure.mpr ⟨rfl, rfl⟩
  obtain ⟨entries, s, hentries, hyields⟩ := hloop
  refine ⟨entries, s, hentries, ?_⟩
  unfold Encryption.encryptMultipleData
  exact Logged.yields_bind.mpr ⟨entries, s, hyields, ⟨[], rfl⟩⟩

/-! ## Decryption -/

/-- What a wallet decrypts symbolically for a host, of a record with the vector of the data, it decrypts
of the buffers; for a host with another hash it throws. -/
theorem decryptData_toBytes {key data k : Message} {r r' : ℕ} {privateKey : JsString}
    {obj : MultipleEncryptionSymmetricObj}
    (hobj : IsObj wallet ρ (.aenc (.publicKey k) (record host key (iv r)) r') obj)
    (hkey : (toBytes wallet ρ key).length = 24) (hprivate : fromHex privateKey = toBytes wallet ρ k) :
    decryptData host (.senc key data r) (.aenc (.publicKey k) (record host key (iv r)) r') k =
        some data ∧
      ∀ other, (Encryption.decryptData wallet other (toBytes wallet ρ (.senc key data r))
        obj.encryptedSymmetricObj privateKey).map (·.plaintext) =
          opened wallet host other (toBytes wallet ρ data) := by
  constructor
  · simp [decryptData, decryptSymmetricKey, decryptDataWithDecryptedKey, record, Term.adec,
      Term.sdec, Term.split]
  · obtain ⟨pk, t, r'', c, heq, hc, hobj, hjson⟩ := hobj
    cases heq
    unfold eciesOf at hc
    obtain ⟨c', hc', -, -, -, hdecrypt⟩ := wallet.eccrypto.encrypt_some (toBytes wallet ρ k)
      (toBytes wallet ρ (record host key (iv r))) (ρ.seed r')
    rw [← cons_toBytes_publicKey, hc] at hc'
    cases hc'
    have hopens : Opens wallet host (toBytes wallet ρ data) (toBytes wallet ρ (.senc key data r))
        privateKey obj := by
      refine ⟨c, toBytes wallet ρ key, ρ.iv r, hobj, hjson, ?_, ?_⟩
      · rw [hprivate, hdecrypt, toBytes_record]
        rfl
      · exact wallet.aes192.decrypt_encrypt _ _ _ hkey (ρ.length_iv r)
    exact hopens.decryptData

end

end PointNetwork.Encryption.Sites
