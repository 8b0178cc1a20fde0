import PointNetwork.Core
import PointNetwork.Logged

/-!
# Symmetric encryption of data

`EncryptedData` of `client/encryption.ts`. The cipher, AES-256-GCM of node's `crypto`, and its
random bytes are parameters: `Aes` with the law that decryption inverts encryption, `Rng`.
-/

namespace PointNetwork

open Js

/-- The length of an AES-256 key. -/
def KEY_LENGTH_BYTES : ℕ := 32

/-- The length of the vector of GCM. -/
def IV_LENGTH_BYTES : ℕ := 12

/-- The length of the tag that GCM appends. -/
def AUTH_TAG_LENGTH_BYTES : ℕ := 16

/-- The cipher: `encrypt key iv plaintext` gives the authentication tag and the text. -/
structure Aes where
  encrypt : Bytes → Bytes → Bytes → Bytes × Bytes
  decrypt : Bytes → Bytes → Bytes → Bytes → Option Bytes
  length_tag : ∀ key iv plaintext, (encrypt key iv plaintext).1.length = AUTH_TAG_LENGTH_BYTES
  decrypt_encrypt : ∀ key iv plaintext,
    decrypt key iv (encrypt key iv plaintext).1 (encrypt key iv plaintext).2 = some plaintext

/-- `crypto.randomBytes`, drawing from a seed. A random key is never all zero. -/
structure Rng (σ : Type) where
  randomBytes : ℕ → σ → Bytes × σ
  length_randomBytes : ∀ n s, (randomBytes n s).1.length = n
  key_ne_zero : ∀ s, (randomBytes KEY_LENGTH_BYTES s).1 ≠ List.replicate KEY_LENGTH_BYTES 0

/-- A cipher that hides nothing, for small concrete runs. -/
def Aes.plain : Aes where
  encrypt _ _ plaintext := (List.replicate AUTH_TAG_LENGTH_BYTES 0, plaintext)
  decrypt _ _ _ cipherText := some cipherText
  length_tag _ _ _ := List.length_replicate
  decrypt_encrypt _ _ _ := rfl

/-- A generator that counts, for small concrete runs. -/
def Rng.counter : Rng ℕ where
  randomBytes n s := (List.replicate n (UInt8.ofNat (s % 255 + 1)), s + 1)
  length_randomBytes _ _ := List.length_replicate
  key_ne_zero s h := by
    have hbyte : UInt8.ofNat (s % 255 + 1) = 0 := (List.replicate_inj.mp h).2.resolve_left (by decide)
    have hnat := congrArg UInt8.toNat hbyte
    rw [UInt8.toNat_ofNat'] at hnat
    simp at hnat
    omega

/-- What `encryptData` returns: the key, and the material that it encrypts. -/
structure EncryptedData where
  key : Bytes
  encryptedMaterial : Bytes
  deriving DecidableEq

/-- The key test of `EncryptedData.createFromPlaintext`. -/
def validKey (key : Bytes) : Bool :=
  key != List.replicate KEY_LENGTH_BYTES 0 && key.length = KEY_LENGTH_BYTES

variable {σ ω : Type}

/-- `forceEncryptionKey || await crypto.randomBytes(KEY_LENGTH_BYTES)`. -/
def encryptionKey (rng : Rng σ) (forceEncryptionKey : Option Bytes) :
    Logged σ ω Exception Bytes :=
  match forceEncryptionKey with
  | some key => pure key
  | none => Logged.draw (rng.randomBytes KEY_LENGTH_BYTES)

/-- `EncryptedData.createFromPlaintext`. -/
def EncryptedData.createFromPlaintext (aes : Aes) (rng : Rng σ) (plaintext : Bytes)
    (forceEncryptionKey : Option Bytes) : Logged σ ω Exception EncryptedData := do
  let key ← encryptionKey rng forceEncryptionKey
  if validKey key then
    let iv ← Logged.draw (rng.randomBytes IV_LENGTH_BYTES)
    let (tag, cipherText) := aes.encrypt key iv plaintext
    pure ⟨key, iv ++ tag ++ cipherText⟩
  else Logged.fail (.displayable "key is empty or invalid length")

/-- `decrypt`: the vector and the tag are in front of the text. -/
def EncryptedData.decrypt (aes : Aes) (data : EncryptedData) : Except Exception Bytes :=
  let iv := data.encryptedMaterial.take IV_LENGTH_BYTES
  let tag := (data.encryptedMaterial.drop IV_LENGTH_BYTES).take AUTH_TAG_LENGTH_BYTES
  let cipherText := data.encryptedMaterial.drop (IV_LENGTH_BYTES + AUTH_TAG_LENGTH_BYTES)
  match aes.decrypt data.key iv tag cipherText with
  | some plaintext => pure plaintext
  | none => throw .rejected

/-- Random keys have the right length. -/
lemma Rng.validKey_randomBytes (rng : Rng σ) (s : σ) :
    validKey (rng.randomBytes KEY_LENGTH_BYTES s).1 = true := by
  simp [validKey, rng.key_ne_zero s, rng.length_randomBytes]

/-- Decryption finds the vector and the tag where encryption put them. -/
lemma decrypt_material (aes : Aes) {key iv : Bytes} (hiv : iv.length = IV_LENGTH_BYTES)
    (plaintext : Bytes) :
    EncryptedData.decrypt aes ⟨key, iv ++ (aes.encrypt key iv plaintext).1 ++
      (aes.encrypt key iv plaintext).2⟩ = .ok plaintext := by
  have htag := aes.length_tag key iv plaintext
  have hiv' : (iv ++ (aes.encrypt key iv plaintext).1 ++ (aes.encrypt key iv plaintext).2).take
      IV_LENGTH_BYTES = iv := by
    rw [List.append_assoc, ← hiv, List.take_left]
  have htag' : ((iv ++ (aes.encrypt key iv plaintext).1 ++
      (aes.encrypt key iv plaintext).2).drop IV_LENGTH_BYTES).take AUTH_TAG_LENGTH_BYTES
      = (aes.encrypt key iv plaintext).1 := by
    rw [List.append_assoc, ← hiv, List.drop_left, ← htag, List.take_left]
  have htext : (iv ++ (aes.encrypt key iv plaintext).1 ++
      (aes.encrypt key iv plaintext).2).drop (IV_LENGTH_BYTES + AUTH_TAG_LENGTH_BYTES)
      = (aes.encrypt key iv plaintext).2 := by
    rw [← hiv, ← htag, ← List.length_append, List.drop_left]
  unfold EncryptedData.decrypt
  simp only [hiv', htag', htext, aes.decrypt_encrypt]
  rfl

/-- What was encrypted is decrypted, with a random key or with a given one, and the key is a
valid one. -/
theorem EncryptedData.createFromPlaintext_valid (aes : Aes) (rng : Rng σ) (plaintext : Bytes)
    {force : Option Bytes} (hforce : ∀ key, force = some key → validKey key = true)
    (good : ω → Prop) :
    Logged.Agree good (createFromPlaintext aes rng plaintext force) (.ok ()) fun data _ =>
      data.decrypt aes = .ok plaintext ∧ validKey data.key = true ∧
        ∀ key, force = some key → data.key = key := by
  have hkey : Logged.Agree good (encryptionKey rng force : Logged σ ω Exception Bytes)
      (.ok ()) fun key _ => validKey key = true ∧ ∀ k, force = some k → key = k := by
    cases force with
    | some key => exact .pure ⟨hforce key rfl, fun k hk => Option.some.inj hk⟩
    | none => exact .draw fun s => ⟨rng.validKey_randomBytes s, fun k hk => by cases hk⟩
  unfold createFromPlaintext
  refine hkey.seq fun key hvalid => ?_
  rw [if_pos hvalid.1]
  have hiv : Logged.Agree good (Logged.draw (rng.randomBytes IV_LENGTH_BYTES) :
      Logged σ ω Exception Bytes) (.ok ()) fun iv _ => iv.length = IV_LENGTH_BYTES :=
    .draw fun s => rng.length_randomBytes _ s
  exact hiv.seq fun iv hlen => .pure ⟨decrypt_material aes hlen plaintext, hvalid⟩

/-- What is made of a plaintext decrypts to it, with the key that was asked for. -/
theorem EncryptedData.createFromPlaintext_agree (aes : Aes) (rng : Rng σ) (plaintext : Bytes)
    {force : Option Bytes} (hforce : ∀ key, force = some key → validKey key = true)
    (good : ω → Prop) :
    Logged.Agree good (createFromPlaintext aes rng plaintext force) (.ok ()) fun data _ =>
      data.decrypt aes = .ok plaintext ∧ ∀ key, force = some key → data.key = key :=
  (createFromPlaintext_valid aes rng plaintext hforce good).mono
    fun _ _ ⟨hdecrypt, _, hkey⟩ => ⟨hdecrypt, hkey⟩

end PointNetwork
