import PointNetwork.Encryption.Message
import PointNetwork.Js.Ascii
import PointNetwork.Js.JsonTheorems

/-!
# Data that is encrypted for the key of a wallet

`client/encryptIdentityUtils.js`, with the two methods of the `WalletController` that use it. The
text is encrypted with AES-192 in CBC mode under a fresh key; the key, the vector and the hash of
the host form a record that is encrypted under the public key.

The text enters the cipher in the encoding `ascii` and is read back as UTF-8.
-/

namespace PointNetwork.Encryption

open Js

/-! ## What the code is given -/

/-- The cipher `aes192` of node's `crypto`: `encrypt key iv plaintext`. Decryption fails for bytes
that are no padded text. -/
structure Aes192 where
  encrypt : Bytes → Bytes → Bytes → Bytes
  decrypt : Bytes → Bytes → Bytes → Option Bytes
  decrypt_encrypt : ∀ key iv plaintext, key.length = 24 → iv.length = 16 →
    decrypt key iv (encrypt key iv plaintext) = some plaintext

/-- A cipher that hides nothing, for small concrete runs. -/
def Aes192.plain : Aes192 where
  encrypt _ _ plaintext := plaintext
  decrypt _ _ cyphertext := some cyphertext
  decrypt_encrypt _ _ _ _ _ := rfl

/-- What the functions below use of the packages and of node. -/
structure Wallet (σ : Type) where
  sha256 : HashFn
  aes192 : Aes192
  rng : Rng σ
  eccrypto : Eccrypto σ

/-- A wallet whose ciphers are the simplest that keep their laws. -/
def Wallet.small : Wallet ℕ where
  sha256 := .firstBytes
  aes192 := .plain
  rng := .counter
  eccrypto := .plain

/-- The texts of the two keys of a pair, as callers pass them. -/
structure KeyPair {σ : Type} (wallet : Wallet σ) where
  publicKey : JsString
  privateKey : JsString
  fromHex_publicKey : fromHex (remove0x publicKey) =
    (wallet.eccrypto.getPublic (fromHex privateKey)).tail

/-- An object whose values are buffers, such as what `eccrypto.encrypt` returns. -/
abbrev SymmetricObj := List (JsString × Bytes)

/-- The object that `eccrypto.encrypt` returns. -/
def Ecies.toObj (c : Ecies) : SymmetricObj :=
  [(js "iv", c.iv), (js "ephemPublicKey", c.ephemPublicKey), (js "ciphertext", c.ciphertext),
    (js "mac", c.mac)]

/-- What `eccrypto.decrypt` reads of its argument. -/
def Ecies.ofObj (obj : SymmetricObj) : Option Ecies := do
  pure ⟨← obj.lookup (js "iv"), ← obj.lookup (js "ephemPublicKey"), ← obj.lookup (js "ciphertext"),
    ← obj.lookup (js "mac")⟩

/-- What `encryptData` returns. -/
structure EncryptionReturn where
  encryptedMessage : JsString
  encryptedSymmetricObj : SymmetricObj
  encryptedSymmetricObjJSON : JsString
  deriving DecidableEq

/-- What `decryptData` returns. -/
structure DecryptionReturn where
  plaintext : Bytes
  hostNameHash : JsString
  symmetricKey : JsString
  iv : JsString
  deriving DecidableEq

/-- The separator of the parts of a record. -/
def bar : UInt16 := 0x7C

/-- `JSON.stringify` of the buffers in hexadecimal. -/
def symmetricObjJSON (obj : SymmetricObj) : JsString :=
  (Json.obj (obj.map fun (k, v) => (k, .str (toHex v)))).stringify

/-- `JSON.parse` of the text of an object of strings. -/
def parseSymmetricObjJSON (text : JsString) : Except Exception (List (JsString × JsString)) :=
  match Json.parse text with
  | some (.obj kvs) =>
    kvs.mapM fun (k, v) =>
      match v with
      | .str s => .ok (k, s)
      | _ => .error .typeError
  | some _ => .error .typeError
  | none => .error .syntaxError

/-- `getEncryptedSymetricObjFromJSON`. -/
def getEncryptedSymetricObjFromJSON (obj : List (JsString × JsString)) : SymmetricObj :=
  obj.map fun (k, v) => (k, fromHex v)

section

variable {σ : Type} (wallet : Wallet σ)

/-- The hash of the host in hexadecimal. -/
def hostNameHashHex (host : JsString) : JsString := toHex (wallet.sha256.digest (bufferFrom host))

/-- `encryptData`. -/
def encryptData (host plaintext publicKey : JsString) :
    Logged σ Empty Exception EncryptionReturn := do
  let symmetricKey ← Logged.draw (wallet.rng.randomBytes 24)
  let iv ← Logged.draw (wallet.rng.randomBytes 16)
  let encryptedMessage := wallet.aes192.encrypt symmetricKey iv (fromAscii plaintext)
  let publicKeyBuffer := fromHex (js "04") ++ fromHex (remove0x publicKey)
  let messageForPublicKeyEncryption := bar :: (hostNameHashHex wallet host ++
    bar :: (toHex symmetricKey ++ bar :: (toHex iv ++ [bar])))
  let encrypted ← Logged.draw
    (wallet.eccrypto.encrypt publicKeyBuffer (bufferFrom messageForPublicKeyEncryption))
  match encrypted with
  | none => Logged.fail .rejected
  | some c =>
    pure ⟨toHex encryptedMessage, c.toObj, symmetricObjJSON c.toObj⟩

/-- `decryptData`. -/
def decryptData (host : JsString) (cyphertext : Bytes) (encryptedSymmetricObj : SymmetricObj)
    (privateKey : JsString) : Except Exception DecryptionReturn :=
  match (Ecies.ofObj encryptedSymmetricObj).bind (wallet.eccrypto.decrypt (fromHex privateKey)) with
  | none => .error .rejected
  | some symmetricObj =>
    let parts := (bufferToString symmetricObj).splitOn bar
    match parts[1]? with
    | none => .error (.error "Host is invalid")
    | some hostNameHash =>
      if hostNameHashHex wallet host ≠ hostNameHash then .error (.error "Host is invalid")
      else
        match parts[2]?, parts[3]? with
        | some symmetricKey, some iv =>
          match wallet.aes192.decrypt (fromHex symmetricKey) (fromHex iv) cyphertext with
          | none => .error .rejected
          | some plaintext => .ok ⟨plaintext, hostNameHash, symmetricKey, iv⟩
        -- `Buffer.from(undefined, 'hex')`
        | _, _ => .error .typeError

/-- `WalletController.decryptData`: the text that the response has. -/
def decryptPayload (host encryptedData encryptedSymmetricObj privateKey : JsString) :
    Except Exception JsString := do
  let obj ← parseSymmetricObjJSON encryptedSymmetricObj
  let decryptedData ← decryptData wallet host (fromHex encryptedData)
    (getEncryptedSymetricObjFromJSON obj) privateKey
  pure (bufferToString decryptedData.plaintext)

end

/-! ## What is read back -/

/-- The parts are found again in the object. -/
lemma Ecies.ofObj_toObj (c : Ecies) : Ecies.ofObj c.toObj = some c := by
  have h1 : (js "ephemPublicKey" == js "iv") = false := by decide
  have h2 : (js "ciphertext" == js "iv") = false := by decide
  have h3 : (js "ciphertext" == js "ephemPublicKey") = false := by decide
  have h4 : (js "mac" == js "iv") = false := by decide
  have h5 : (js "mac" == js "ephemPublicKey") = false := by decide
  have h6 : (js "mac" == js "ciphertext") = false := by decide
  simp only [Ecies.ofObj, Ecies.toObj, List.lookup_cons, beq_self_eq_true, h1, h2, h3, h4, h5, h6]
  rfl

/-- The keys of the object are in the order that JavaScript keeps. -/
lemma orderedKeys_toObj {α : Type} (iv ephemPublicKey ciphertext mac : α) :
    orderedKeys [(js "iv", iv), (js "ephemPublicKey", ephemPublicKey), (js "ciphertext", ciphertext),
      (js "mac", mac)] = true := by
  have h1 : precedes (js "iv") (js "ephemPublicKey") = true := by decide
  have h2 : precedes (js "iv") (js "ciphertext") = true := by decide
  have h3 : precedes (js "iv") (js "mac") = true := by decide
  have h4 : precedes (js "ephemPublicKey") (js "ciphertext") = true := by decide
  have h5 : precedes (js "ephemPublicKey") (js "mac") = true := by decide
  have h6 : precedes (js "ciphertext") (js "mac") = true := by decide
  simp [orderedKeys, h1, h2, h3, h4, h5, h6]

/-- The object is the same after it went through its JSON form. -/
lemma parse_symmetricObjJSON (c : Ecies) : ∃ obj,
    parseSymmetricObjJSON (symmetricObjJSON c.toObj) = .ok obj ∧
      getEncryptedSymetricObjFromJSON obj = c.toObj := by
  have hcanonical : (Json.obj (c.toObj.map fun (k, v) => (k, .str (toHex v)))).canonical = true := by
    simp [Json.canonical, canonicalProps, Ecies.toObj, orderedKeys_toObj]
  unfold parseSymmetricObjJSON symmetricObjJSON
  rw [parse_stringify hcanonical]
  refine ⟨c.toObj.map fun (k, v) => (k, toHex v), rfl, ?_⟩
  simp [getEncryptedSymetricObjFromJSON, Ecies.toObj]

/-- Hexadecimal text does not contain the separator. -/
lemma bar_not_mem_toHex (b : Bytes) : bar ∉ toHex b := by
  intro h
  obtain ⟨d, hd, he⟩ := exists_hexDigitUnit h
  have hall : ∀ d < 16, bar ≠ hexDigitUnit d := by decide
  exact hall d hd he

/-- The record of the hash, the key and the vector. -/
def record (hash key iv : Bytes) : JsString :=
  bar :: (toHex hash ++ bar :: (toHex key ++ bar :: (toHex iv ++ [bar])))

/-- The parts of the record are found again in its bytes. -/
lemma splitOn_record (hash key iv : Bytes) :
    (bufferToString (bufferFrom (record hash key iv))).splitOn bar =
      [[], toHex hash, toHex key, toHex iv, []] := by
  have hwell : WellFormed (record hash key iv) := by
    refine WellFormed.of_ascii fun u hu => ?_
    simp only [record, List.mem_cons, List.mem_append, List.not_mem_nil, or_false] at hu
    rcases hu with rfl | hu | rfl | hu | rfl | hu | rfl
    · decide
    · exact ascii_of_mem_toHex hu
    · decide
    · exact ascii_of_mem_toHex hu
    · decide
    · exact ascii_of_mem_toHex hu
    · decide
  have hfront : record hash key iv = [] ++ bar :: (toHex hash ++ bar :: (toHex key ++ bar ::
      (toHex iv ++ bar :: []))) := rfl
  rw [hwell.bufferToString_eq, hfront, List.splitOn_append_cons_self_of_not_mem List.not_mem_nil,
    List.splitOn_append_cons_self_of_not_mem (bar_not_mem_toHex hash),
    List.splitOn_append_cons_self_of_not_mem (bar_not_mem_toHex key),
    List.splitOn_append_cons_self_of_not_mem (bar_not_mem_toHex iv)]
  rfl

section

variable {σ : Type} {wallet : Wallet σ} {host plaintext : JsString}

/-- `decryptData` on a record of the right host and on one of another host. -/
lemma decryptData_record {c : Ecies} {privateKey : JsString} {hash key iv cyphertext : Bytes}
    (hc : wallet.eccrypto.decrypt (fromHex privateKey) c = some (bufferFrom (record hash key iv))) :
    decryptData wallet host cyphertext c.toObj privateKey =
      if wallet.sha256.digest (bufferFrom host) = hash then
        match wallet.aes192.decrypt key iv cyphertext with
        | none => .error .rejected
        | some plaintext => .ok ⟨plaintext, toHex hash, toHex key, toHex iv⟩
      else .error (.error "Host is invalid") := by
  have hhash : hostNameHashHex wallet host = toHex hash ↔
      wallet.sha256.digest (bufferFrom host) = hash :=
    ⟨fun h => toHex_injective h, fun h => congrArg toHex h⟩
  unfold decryptData
  rw [Ecies.ofObj_toObj, Option.bind_some, hc]
  simp only [splitOn_record, List.getElem?_cons_succ, List.getElem?_cons_zero, ne_eq, hhash,
    fromHex_toHex]
  by_cases h : wallet.sha256.digest (bufferFrom host) = hash
  · rw [if_neg (not_not.mpr h), if_pos h]
  · rw [if_pos h, if_neg h]

/-- The bytes of a public key are those of the pair. -/
lemma publicKeyBuffer_eq (pair : KeyPair wallet) :
    fromHex (js "04") ++ fromHex (remove0x pair.publicKey) =
      wallet.eccrypto.getPublic (fromHex pair.privateKey) := by
  have hfour : fromHex (js "04") = [0x04] := by decide
  have hhead := wallet.eccrypto.getPublic_head (fromHex pair.privateKey)
  rw [hfour, pair.fromHex_publicKey]
  exact List.cons_head?_tail hhead

/-- What `encryptData` gives is, for the same host, decrypted to the bytes that entered the cipher,
and for a host with another hash not at all. -/
theorem encryptData_spec (pair : KeyPair wallet) (host plaintext : JsString) (s : σ) :
    ∃ encrypted s', Logged.Yields (encryptData wallet host plaintext pair.publicKey) s encrypted s' ∧
      ∀ other, decryptPayload wallet other encrypted.encryptedMessage
          encrypted.encryptedSymmetricObjJSON pair.privateKey =
        if wallet.sha256.digest (bufferFrom other) = wallet.sha256.digest (bufferFrom host) then
          .ok (bufferToString (fromAscii plaintext))
        else .error (.error "Host is invalid") := by
  have hkey := wallet.rng.length_randomBytes 24 s
  have hiv := wallet.rng.length_randomBytes 16 (wallet.rng.randomBytes 24 s).2
  generalize hrandomKey : wallet.rng.randomBytes 24 s = drawnKey at hkey hiv
  generalize hrandomIv : wallet.rng.randomBytes 16 drawnKey.2 = drawnIv at hiv
  obtain ⟨c, hc, -, -, -, hdecrypt⟩ := wallet.eccrypto.encrypt_some (fromHex pair.privateKey)
    (bufferFrom (record (wallet.sha256.digest (bufferFrom host)) drawnKey.1 drawnIv.1)) drawnIv.2
  generalize hencrypt : wallet.eccrypto.encrypt _ _ drawnIv.2 = drawnObj at hc
  obtain ⟨obj, hparse, hobj⟩ := parse_symmetricObjJSON c
  refine ⟨⟨toHex (wallet.aes192.encrypt drawnKey.1 drawnIv.1 (fromAscii plaintext)), c.toObj,
    symmetricObjJSON c.toObj⟩, drawnObj.2, ?_, fun other => ?_⟩
  · unfold encryptData
    refine Logged.yields_bind.mpr ⟨drawnKey.1, drawnKey.2, ⟨[], by rw [← hrandomKey]; rfl⟩, ?_⟩
    refine Logged.yields_bind.mpr ⟨drawnIv.1, drawnIv.2, ⟨[], by rw [← hrandomIv]; rfl⟩, ?_⟩
    rw [publicKeyBuffer_eq]
    refine Logged.yields_bind.mpr ⟨some c, drawnObj.2, ⟨[], ?_⟩, ⟨[], rfl⟩⟩
    rw [← hc, ← hencrypt]
    rfl
  · unfold decryptPayload
    rw [hparse, ok_bind, hobj, fromHex_toHex, decryptData_record hdecrypt,
      wallet.aes192.decrypt_encrypt _ _ _ hkey hiv]
    split <;> rfl

/-- A text that is encrypted for a host is decrypted as it was for this host, and decryption fails
for every host with another hash. -/
def RoundTrip (wallet : Wallet σ) (pair : KeyPair wallet) (host plaintext : JsString) (s : σ) :
    Prop :=
  ∃ encrypted s',
    Logged.Yields (encryptData wallet host plaintext pair.publicKey) s encrypted s' ∧
      decryptPayload wallet host encrypted.encryptedMessage encrypted.encryptedSymmetricObjJSON
        pair.privateKey = .ok plaintext ∧
      ∀ other, wallet.sha256.digest (bufferFrom other) ≠ wallet.sha256.digest (bufferFrom host) →
        ∃ e, decryptPayload wallet other encrypted.encryptedMessage
          encrypted.encryptedSymmetricObjJSON pair.privateKey = .error e

/-- The round trip holds of the texts of ASCII characters and U+FFFD. -/
theorem roundTrip_iff (wallet : Wallet σ) (pair : KeyPair wallet) (host plaintext : JsString)
    (s : σ) : RoundTrip wallet pair host plaintext s ↔ ∀ u ∈ plaintext, IsAscii u := by
  obtain ⟨encrypted, s', hyields, hspec⟩ := encryptData_spec pair host plaintext s
  have hsame := hspec host
  rw [if_pos rfl] at hsame
  rw [← bufferToString_fromAscii_iff]
  constructor
  · rintro ⟨encrypted', s'', hyields', hplain, -⟩
    obtain ⟨rfl, -⟩ := hyields.unique hyields'
    rw [hsame] at hplain
    exact Except.ok.inj hplain
  · intro htext
    refine ⟨encrypted, s', hyields, by rw [hsame, htext], fun other hother => ?_⟩
    exact ⟨_, by rw [hspec other, if_neg hother]⟩

/-- The keys of a pair for the run below. -/
def KeyPair.small : KeyPair .small where
  publicKey := js "0x" ++ toHex (plainKey [1]).tail
  privateKey := js "01"
  fromHex_publicKey := by decide +kernel

/-- The text "é", the unit 0xE9, is decrypted as U+FFFD. -/
theorem not_roundTrip : ¬ ∀ (σ : Type) (wallet : Wallet σ) (pair : KeyPair wallet)
    (host plaintext : JsString) (s : σ), RoundTrip wallet pair host plaintext s := by
  intro h
  have hround := h ℕ .small .small (js "a.point") [0xE9] 0
  obtain ⟨encrypted, s', hyields, hspec⟩ :=
    encryptData_spec KeyPair.small (js "a.point") [0xE9] 0
  obtain ⟨encrypted', s'', hyields', hplain, -⟩ := hround
  obtain ⟨rfl, -⟩ := hyields.unique hyields'
  have hsame := hspec (js "a.point")
  rw [if_pos rfl, hplain] at hsame
  exact absurd (Except.ok.inj hsame) (by decide)

end

end PointNetwork.Encryption
