import PointNetwork.DolevYao
import PointNetwork.Js.Text
import PointNetwork.Machine

/-!
# What sites can read

The functions of `client/encryptIdentityUtils.js` on symbolic messages, and the runs of many nodes
with them. The page of a site calls the wallet of its user, and the wallet passes the host of the page.
The sites of honest hosts keep their data for themselves; the adversary has the other sites, the
private keys of the other identities, and everything that is ever encrypted.

* `encryptMultipleData`, `decryptSymmetricKey`, `decryptData`: the functions;
* `step`: the runs; `Able`: what the adversary does in them.
-/

namespace PointNetwork.Encryption.Sites

open Js Machine DolevYao

/-- What messages are built from. -/
inductive Atom
  | host (s : JsString)
  | bytes (b : Bytes)
  | secret (n : ℕ)
  | privateKey (identity : JsString)
  | symmetricKey (n : ℕ)
  | iv (n : ℕ)
  deriving DecidableEq

/-- The hash function. -/
inductive Fn
  | sha256
  deriving DecidableEq

/-- The messages of this model. -/
abbrev Message := Term Atom Fn

/-- Data that a page wants to keep secret. -/
def secret (n : ℕ) : Message := .atom (.secret n)

/-- The private key of an identity. -/
def privateKey (identity : JsString) : Message := .atom (.privateKey identity)

/-- The key that has been drawn under a number. -/
def symmetricKey (n : ℕ) : Message := .atom (.symmetricKey n)

/-- The vector that has been drawn under a number. -/
def iv (n : ℕ) : Message := .atom (.iv n)

/-! ## The functions -/

/-- The hash of a host. -/
def hostNameHash (host : JsString) : Message := .apply .sha256 (.atom (.host host))

/-- `messageForPublicKeyEncryption`: a bar before each part, and one more at the end. -/
def record (host : JsString) (symmetricKey iv : Message) : Message :=
  .pair (hostNameHash host) (.pair symmetricKey (.pair iv (.atom (.bytes [0x7C]))))

/-- The loop over the public keys, with the randomness from number `r` on. -/
def encryptForKeys (symmetricObj : Message) : (publicKeys : List Message) → (r : ℕ) → List Message
  | [], _ => []
  | pk :: publicKeys, r => .aenc pk symmetricObj r :: encryptForKeys symmetricObj publicKeys (r + 1)

/-- The loop over the data, with the key and the vector of number `n`. -/
def encryptEntry (host : JsString) (publicKeys : List Message) (data : Message) (n : ℕ) :
    Message × List Message :=
  (.senc (symmetricKey n) data n,
    encryptForKeys (record host (symmetricKey n) (iv n)) publicKeys (n + 1))

/-- The entries for the data, each with a key of its own. -/
def encryptMultipleData (host : JsString) (publicKeys : List Message) :
    (dataArray : List Message) → (n : ℕ) → List (Message × List Message)
  | [], _ => []
  | data :: dataArray, n =>
    encryptEntry host publicKeys data n ::
      encryptMultipleData host publicKeys dataArray (n + 1 + publicKeys.length)

/-- The symmetric object, when it is for this host. -/
def decryptSymmetricKey (host : JsString) (encryptedSymmetricObj privateKey : Message) :
    Option Message := do
  let symmetricObj ← encryptedSymmetricObj.adec privateKey
  let (hash, _) ← symmetricObj.split
  guard (hostNameHash host = hash)
  pure symmetricObj

/-- With a wrong vector the code gets the first block wrong; here it gets all of the text. -/
def decryptDataWithDecryptedKey (host : JsString) (cyphertext symmetricObj : Message) :
    Option Message := do
  let (hash, rest) ← symmetricObj.split
  guard (hostNameHash host = hash)
  let (symmetricKey, _) ← rest.split
  cyphertext.sdec symmetricKey

/-- The data, when they are for this host. -/
def decryptData (host : JsString) (cyphertext encryptedSymmetricObj privateKey : Message) :
    Option Message := do
  let symmetricObj ← decryptSymmetricKey host encryptedSymmetricObj privateKey
  decryptDataWithDecryptedKey host cyphertext symmetricObj

/-! ## The runs -/

/-- An entry of a call of `encryptMultipleData`: who can read what, and the number of its key. -/
structure Entry where
  host : JsString
  identities : List JsString
  n : ℕ

/-- The entries of a call with this many public keys, numbered as in `encryptMultipleData`. -/
def entries (host : JsString) (identities : List JsString) (keys : ℕ) :
    (dataArray : List Message) → (n : ℕ) → List Entry
  | [], _ => []
  | _ :: dataArray, n => ⟨host, identities, n⟩ ::
    entries host identities keys dataArray (n + 1 + keys)

/-- The keys of the identities, and what has been encrypted and decrypted. -/
structure State where
  registry : JsString → Option Message
  entries : List Entry
  /-- All that was ever encrypted: data and symmetric objects. -/
  encrypted : List Message
  /-- What wallets have replied to the sites of the adversary. -/
  learned : List Message
  /-- The number of the next key. -/
  n : ℕ

/-- What pages have done and what the adversary does. -/
inductive Event
  | register (identity : JsString) (publicKey : Message)
  /-- A page on `host` has data encrypted for identities. -/
  | encryptMultipleData (host : JsString) (dataArray : List Message) (identities : List JsString)
  /-- A page on `host` calls the wallet of `identity`. -/
  | decryptData (host identity : JsString) (cyphertext encryptedSymmetricObj : Message)
  | decryptSymmetricKey (host identity : JsString) (encryptedSymmetricObj : Message)

section

variable (honestHost honest : JsString → Prop)

section

variable [DecidablePred honestHost]

/-- The reply of a wallet to the page of a site. -/
def State.reply (s : State) (host : JsString) (m : Message) : State :=
  if honestHost host then s else { s with learned := s.learned ++ [m] }

/-- What throws has no effect. -/
def step (s : State) : Event → Option State
  | .register identity publicKey =>
    some { s with registry := Function.update s.registry identity (some publicKey) }
  | .encryptMultipleData host dataArray identities =>
    (identities.mapM s.registry).map fun publicKeys =>
      { s with
        entries := s.entries ++
          Sites.entries host identities publicKeys.length dataArray s.n
        encrypted := s.encrypted ++ (Sites.encryptMultipleData host publicKeys dataArray s.n).flatMap
          fun entry => entry.1 :: entry.2
        n := s.n + dataArray.length * (1 + publicKeys.length) }
  | .decryptData host identity cyphertext encryptedSymmetricObj =>
    (Sites.decryptData host cyphertext encryptedSymmetricObj (privateKey identity)).map
      (s.reply honestHost host)
  | .decryptSymmetricKey host identity encryptedSymmetricObj =>
    (Sites.decryptSymmetricKey host encryptedSymmetricObj (privateKey identity)).map
      (s.reply honestHost host)

end

/-- The honest identities have registered the keys of their private keys. -/
def State.init [DecidablePred honest] : State where
  registry identity := if honest identity then some (.publicKey (privateKey identity)) else none
  entries := []
  encrypted := []
  learned := []
  n := 0

/-- What the adversary knows before it derives anything. -/
inductive Knows (s : State) : Message → Prop
  | host (h : JsString) : Knows s (.atom (.host h))
  | bytes (b : Bytes) : Knows s (.atom (.bytes b))
  | privateKey (identity : JsString) : ¬ honest identity → Knows s (privateKey identity)
  | publicKey (identity : JsString) : Knows s (.publicKey (Sites.privateKey identity))
  | encrypted {m : Message} : m ∈ s.encrypted → Knows s m
  | learned {m : Message} : m ∈ s.learned → Knows s m

/-- The keys of honest identities stay. Honest hosts encrypt what they like for honest identities;
else the adversary chooses what is encrypted, and what its sites have wallets decrypt. -/
def Able (s : State) : Event → Prop
  | .register identity publicKey => ¬ honest identity ∧ Derives (Knows honest s) publicKey
  | .encryptMultipleData host dataArray identities =>
    (honestHost host ∧ ∀ identity ∈ identities, honest identity) ∨
      ∀ data ∈ dataArray, Derives (Knows honest s) data
  | .decryptData host identity cyphertext encryptedSymmetricObj =>
    honest identity ∧ (honestHost host ∨
      Derives (Knows honest s) cyphertext ∧ Derives (Knows honest s) encryptedSymmetricObj)
  | .decryptSymmetricKey host identity encryptedSymmetricObj =>
    honest identity ∧ (honestHost host ∨ Derives (Knows honest s) encryptedSymmetricObj)

end

end PointNetwork.Encryption.Sites
