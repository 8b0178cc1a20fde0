import Mathlib.Data.Option.Basic
import PointNetwork.Encryption.Symbolic

/-!
# Who has sent what is received

A signature covers the identity of the sender, the host and the data, but not the recipient.

* `downloadAndDecrypt_eq_some`, `verify_eq_some`: what a party accepts is what the functions for
  sending put together;
* `Bounded`: the messages of honest parties for honest recipients are sealed;
* `sender_called`: the sender of an accepted message has called `signEncryptUploadForIdentity` with
  its data and host, for the recipient or for an identity of the adversary;
* `forwarded`: the adversary passes on a message that it has received.
-/

namespace PointNetwork.Encryption.Symbolic

open Js Machine DolevYao

/-! ## What is accepted -/

section

variable {network : Message → Option Message} {registry : JsString → Option Message}
  {host : JsString} {m t key : Message}

/-- A message is expected to be its prologue and what follows. -/
theorem expect_eq_some {prologue : Bytes} : expect prologue m = some t ↔
    m = .pair (bytes prologue) t := by
  unfold expect
  split
  · rename_i b rest
    split_ifs with hb
    · subst hb
      constructor
      · rintro ⟨rfl⟩
        rfl
      · rintro ⟨rfl⟩
        rfl
    · constructor
      · exact nofun
      · rintro ⟨rfl⟩
        exact (hb rfl).elim
  · rename_i hnot
    constructor
    · exact nofun
    · exact fun h => (hnot _ _ h).elim

/-- Only a text is read as one. -/
theorem toText_eq_some {s : JsString} : toText m = some s ↔ m = text s := by
  unfold toText
  split
  · constructor
    · rintro ⟨rfl⟩
      rfl
    · rintro ⟨rfl⟩
      rfl
  · rename_i hnot
    constructor
    · exact nofun
    · exact fun h => (hnot s h).elim

/-- What decrypts is what was encrypted for the key pair. -/
theorem eq_of_decryptRaw (h : decryptRawPlaintextAsymmetric m key = some t) :
    ∃ r, m = encryptRawPlaintextAsymmetric t (.publicKey key) r := by
  unfold decryptRawPlaintextAsymmetric at h
  simp only [Option.bind_eq_bind, Option.bind_eq_some_iff, expect_eq_some, Term.adec_eq_some] at h
  obtain ⟨ciphertext, rfl, decrypted, ⟨r, rfl⟩, rfl⟩ := h
  exact ⟨r, rfl⟩

/-- What is downloaded and decrypted are two uploads of `encryptAndUploadDataAsymmetric`. -/
theorem eq_of_downloadAndDecrypt {id : Message}
    (h : downloadAndDecryptDataAsymmetric network host id key = some t) :
    ∃ symmetricKey symmetricFileId r r',
      network id = some (container host symmetricKey symmetricFileId (.publicKey key) r) ∧
        network symmetricFileId = some (.senc symmetricKey t r') := by
  unfold downloadAndDecryptDataAsymmetric downloadAndDecryptFile at h
  simp only [Option.bind_eq_bind, Option.bind_eq_some_iff, Prod.exists, expect_eq_some,
    Term.split_eq_some, Option.guard_eq_some', exists_const, Term.sdec_eq_some] at h
  obtain ⟨downloaded, hdownloaded, rest, rfl, hashed, encrypted, rfl, rfl, hdecrypt⟩ := h
  obtain ⟨keyInfo, hdecrypt, info, rfl, symmetricKey, rest, rfl, hinfo⟩ := hdecrypt
  obtain ⟨symmetricFileId, hostHashed, rfl, rfl, material, hmaterial, r', rfl⟩ := hinfo
  obtain ⟨r, rfl⟩ := eq_of_decryptRaw hdecrypt
  exact ⟨symmetricKey, symmetricFileId, r, r', hdownloaded, hmaterial⟩

/-- What verifies was signed with the private key of the public key that is registered for the
sender that it names. -/
theorem eq_of_verify {v : VerifiedData} (h : downloadAndVerifySignature registry host m = some v) :
    v.host = host ∧ ∃ k r, registry v.identity = some (.publicKey k) ∧
      m = wrapWithSignature v.identity host v.data k r := by
  unfold downloadAndVerifySignature at h
  simp only [Option.bind_eq_bind, Option.bind_eq_some_iff, Prod.exists, expect_eq_some,
    Term.split_eq_some, Option.guard_eq_some', exists_const, toText_eq_some,
    Term.verify_eq_true] at h
  obtain ⟨rest, rfl, signature, data, rfl, inner, rfl, sender, rest, rfl, h⟩ := h
  obtain ⟨identity, rfl, rest, rfl, hashed, data, rfl, rfl, key, hkey, h⟩ := h
  obtain ⟨⟨k, r, rfl, rfl⟩, ⟨⟩⟩ := h
  exact ⟨rfl, k, r, hkey, rfl⟩

end

/-! ## What the adversary cannot derive -/

section

variable (honest : JsString → Prop) (calls : List Call)

/-- The private keys of honest parties, and the symmetric keys that are encrypted for them. -/
def Hidden : Atom → Prop
  | .text _ => False
  | .bytes _ => False
  | .privateKey identity => honest identity
  | .symmetricKey n => ∀ call ∈ calls, call.n = n → honest call.recipient

/-- The ciphertexts of calls for honest recipients, and the signatures of the other calls. -/
def Sealed (m : Message) : Prop :=
  ∃ call ∈ calls, (honest call.recipient ∧ (m = call.encryptedData ∨ m = call.encryptedKey)) ∨
    (¬ honest call.recipient ∧ m = call.signature)

/-- The adversary can derive no more than such messages. -/
def Bounded (m : Message) : Prop := m.Public (Hidden honest calls) (Sealed honest calls)

/-- What holds of the state in every run. -/
structure Safe (s : State) : Prop where
  registered : ∀ identity, honest identity →
    s.registry identity = some (.publicKey (privateKey identity))
  registry : ∀ identity key, s.registry identity = some key → Bounded honest s.calls key
  sender : ∀ call ∈ s.calls, honest call.sender
  recipient : ∀ call ∈ s.calls, honest call.recipient →
    call.publicKey = .publicKey (privateKey call.recipient)
  number : ∀ call ∈ s.calls, call.n < s.calls.length
  distinct : ∀ call ∈ s.calls, ∀ call' ∈ s.calls, call.n = call'.n → call = call'
  uploads : ∀ m ∈ s.uploads, Bounded honest s.calls m

end

section

variable {honest : JsString → Prop} {calls calls' : List Call} {s t : State} {m : Message}
  {call : Call}

/-- More calls allow no less. -/
theorem Bounded.mono (h : Bounded honest calls m) (hcalls : ∀ call ∈ calls, call ∈ calls') :
    Bounded honest calls' m := by
  apply Term.Public.mono h
  · intro a ha
    cases a with
    | text s => exact ha
    | bytes b => exact ha
    | privateKey identity => exact ha
    | symmetricKey n => exact fun call hcall => ha call (hcalls call hcall)
  · rintro m ⟨call, hcall, hm⟩
    exact ⟨call, hcalls call hcall, hm⟩

/-- The key of a call for an honest recipient is hidden. -/
theorem Safe.hidden (h : Safe honest s) (hcall : call ∈ s.calls)
    (hrecipient : honest call.recipient) : Hidden honest s.calls (.symmetricKey call.n) := by
  intro call' hcall' hn
  obtain rfl := h.distinct call' hcall' call hcall hn
  exact hrecipient

/-- In a safe state the keys are sealed. -/
theorem Safe.sealing (h : Safe honest s) : Sealing (Hidden honest s.calls) (Sealed honest s.calls)
    where
  senc := by
    rintro k t r ⟨call, hcall, ⟨hrecipient, heq | heq⟩ | ⟨-, heq⟩⟩ hk
    · cases heq
      exact hk (h.hidden hcall hrecipient)
    · cases heq
    · cases heq
  aenc := by
    rintro k t r ⟨call, hcall, ⟨hrecipient, heq | heq⟩ | ⟨-, heq⟩⟩ hk
    · cases heq
    · have hkey : Term.publicKey k = call.publicKey := by
        unfold Call.encryptedKey at heq
        injection heq
      rw [h.recipient call hcall hrecipient] at hkey
      cases hkey
      exact hk hrecipient
    · cases heq

/-- What the adversary derives is bounded. -/
theorem Safe.bounded (h : Safe honest s) (hm : Derives (Knows honest s.uploads) m) :
    Bounded honest s.calls m := by
  apply hm.isPublic h.sealing
  rintro m (_ | _ | ⟨identity, hnot⟩ | _ | hupload)
  · exact id
  · exact id
  · exact hnot
  · trivial
  · exact h.uploads _ hupload

/-- What a call uploads is bounded. -/
theorem bounded_uploads (hdata : Bounded honest calls call.data)
    (hkey : Bounded honest calls call.publicKey) (hcall : call ∈ calls) :
    ∀ m ∈ call.uploads, Bounded honest calls m := by
  intro m hm
  obtain rfl | rfl : m = call.encryptedData ∨ m = container call.host (symmetricKey call.n)
      (fileId call.encryptedData) call.publicKey call.n := by
    obtain rfl | hm := List.mem_cons.mp hm
    · exact .inl rfl
    · exact .inr (List.mem_singleton.mp hm)
  · by_cases hrecipient : honest call.recipient
    · exact .inr ⟨call, hcall, .inl ⟨hrecipient, .inl rfl⟩⟩
    · have hsignature : Sealed honest calls call.signature :=
        ⟨call, hcall, .inr ⟨hrecipient, rfl⟩⟩
      refine .inl ⟨fun hhidden => hrecipient (hhidden call hcall rfl), id, ⟨trivial, ?_⟩, ?_⟩
      · exact .inr hsignature
      · exact ⟨id, id, id, trivial, hdata⟩
  · refine ⟨id, trivial, id, ?_⟩
    by_cases hrecipient : honest call.recipient
    · exact .inr ⟨call, hcall, .inl ⟨hrecipient, .inr rfl⟩⟩
    · refine .inl ⟨hkey, id, id, ?_, trivial, trivial⟩
      exact fun hhidden => hrecipient (hhidden call hcall rfl)

theorem safe_init [DecidablePred honest] : Safe honest (.init honest) where
  registered identity h := if_pos h
  registry identity key h := by
    have h : (if honest identity then some (Term.publicKey (privateKey identity)) else none) =
      some key := h
    split_ifs at h
    cases h
    trivial
  sender _ h := (List.not_mem_nil h).elim
  recipient _ h := (List.not_mem_nil h).elim
  number _ h := (List.not_mem_nil h).elim
  distinct _ h := (List.not_mem_nil h).elim
  uploads _ h := (List.not_mem_nil h).elim

/-- A registration of the adversary keeps the state safe. -/
theorem step_register {identity : JsString} {key : Message} (h : Safe honest s)
    (hidentity : ¬ honest identity) (hkey : Derives (Knows honest s.uploads) key) :
    Safe honest { s with registry := Function.update s.registry identity (some key) } where
  registered identity' h' := by
    have hne : identity' ≠ identity := fun heq => hidentity (heq ▸ h')
    show Function.update s.registry identity (some key) identity' = _
    rw [Function.update_of_ne hne]
    exact h.registered identity' h'
  registry identity' key' h' := by
    have h' : Function.update s.registry identity (some key) identity' = some key' := h'
    by_cases hidentity' : identity' = identity
    · subst hidentity'
      rw [Function.update_self] at h'
      cases h'
      exact h.bounded hkey
    · rw [Function.update_of_ne hidentity'] at h'
      exact h.registry identity' key' h'
  sender := h.sender
  recipient := h.recipient
  number := h.number
  distinct := h.distinct
  uploads := h.uploads

/-- A call of an honest sender keeps the state safe. -/
theorem step_call (h : Safe honest s) (hn : call.n = s.calls.length) (hsender : honest call.sender)
    (hdata : Derives (Knows honest s.uploads) call.data)
    (hkey : s.registry call.recipient = some call.publicKey) :
    Safe honest { s with uploads := s.uploads ++ call.uploads, calls := s.calls ++ [call] } where
  registered := h.registered
  registry identity key h' := (h.registry identity key h').mono fun _ => List.mem_append_left _
  sender c hc := by
    obtain hc | hc := List.mem_append.mp hc
    · exact h.sender c hc
    · obtain rfl := List.mem_singleton.mp hc
      exact hsender
  recipient c hc hrecipient := by
    obtain hc | hc := List.mem_append.mp hc
    · exact h.recipient c hc hrecipient
    · obtain rfl := List.mem_singleton.mp hc
      rw [h.registered _ hrecipient] at hkey
      exact (Option.some.inj hkey).symm
  number c hc := by
    show c.n < (s.calls ++ [call]).length
    rw [List.length_append, List.length_singleton]
    obtain hc | hc := List.mem_append.mp hc
    · exact Nat.lt_succ_of_lt (h.number c hc)
    · obtain rfl := List.mem_singleton.mp hc
      omega
  distinct c hc c' hc' heq := by
    obtain hold | hnew := List.mem_append.mp hc
    · obtain hold' | hnew' := List.mem_append.mp hc'
      · exact h.distinct c hold c' hold' heq
      · obtain rfl := List.mem_singleton.mp hnew'
        -- an earlier call has a smaller number
        have hlt := h.number c hold
        omega
    · obtain rfl := List.mem_singleton.mp hnew
      obtain hold' | hnew' := List.mem_append.mp hc'
      · have hlt := h.number c' hold'
        omega
      · exact (List.mem_singleton.mp hnew').symm
  uploads m hm := by
    obtain hm | hm := List.mem_append.mp hm
    · exact (h.uploads m hm).mono fun _ => List.mem_append_left _
    · apply bounded_uploads _ _ (List.mem_append_right _ List.mem_cons_self) m hm
      · exact (h.bounded hdata).mono fun _ => List.mem_append_left _
      · exact (h.registry _ _ hkey).mono fun _ => List.mem_append_left _

/-- Each event keeps the state safe. -/
theorem step_safe {e : Event} (h : Safe honest s) (hok : Able honest s e)
    (hs : step s e = some t) : Safe honest t := by
  cases e with
  | register identity key =>
    cases hs
    exact step_register h hok.1 hok.2
  | signEncryptUploadForIdentity sender host data recipient =>
    obtain ⟨key, hkey, rfl⟩ := Option.map_eq_some_iff.mp hs
    exact step_call h rfl hok.1 hok.2 hkey

/-! ## The sender of a message -/

/-- A signed text says who has signed what. -/
theorem wrapWithSignature_inj {identity identity' host host' : JsString}
    {data data' k k' : Message} {r r' : ℕ}
    (h : wrapWithSignature identity host data k r = wrapWithSignature identity' host' data' k' r') :
    identity = identity' ∧ host = host' ∧ data = data' := by
  simp only [wrapWithSignature, combined, hostHashed, hashFn, text, Term.pair.injEq,
    Term.atom.injEq, Term.apply.injEq, Atom.text.injEq] at h
  obtain ⟨-, -, -, hidentity, -, ⟨-, hhost⟩, hdata⟩ := h
  exact ⟨hidentity, hhost, hdata⟩

/-- The adversary makes no signature of an honest party: it has received it. -/
theorem called_of_signature {identity host : JsString} {data : Message} {r : ℕ}
    (hidentity : honest identity)
    (hm : Bounded honest s.calls (wrapWithSignature identity host data (privateKey identity) r)) :
    ∃ call ∈ s.calls, call.sender = identity ∧ call.host = host ∧ call.data = data ∧
      ¬ honest call.recipient := by
  obtain ⟨-, ⟨-, hkey | ⟨call, hcall, ⟨-, heq | heq⟩ | ⟨hrecipient, heq⟩⟩⟩, -⟩ := hm
  · exact (hkey hidentity).elim
  · cases heq
  · cases heq
  · cases heq
    exact ⟨call, hcall, rfl, rfl, rfl, hrecipient⟩

/-- What the recipient takes from a container is bounded, with its key, or the container is that of a
call for it. -/
theorem bounded_of_container {host : JsString} {key id : Message} {recipient : JsString} {r : ℕ}
    (h : Safe honest s) (hrecipient : honest recipient) (hm : Bounded honest s.calls
      (container host key id (.publicKey (privateKey recipient)) r)) :
    Bounded honest s.calls key ∨
      ∃ call ∈ s.calls, call.recipient = recipient ∧ key = symmetricKey call.n := by
  obtain ⟨-, -, -, ⟨-, -, -, hkey, -⟩ | ⟨call, hcall, ⟨hhonest, heq | heq⟩ | ⟨-, heq⟩⟩⟩ := hm
  · exact .inl hkey
  · cases heq
  · right
    unfold Call.encryptedKey keyInfo at heq
    injection heq with hpublic hinfo hn
    rw [h.recipient call hcall hhonest] at hpublic
    refine ⟨call, hcall, ?_, ?_⟩
    · cases hpublic
      rfl
    · injection hinfo with _ hinfo
      injection hinfo with _ hinfo
      injection hinfo
  · cases heq

/-- In every run: if an honest party accepts a message, and the sender that it names is honest, then
the sender has called `signEncryptUploadForIdentity` with the host and the data of the message, for
this party or for an identity of the adversary. -/
theorem sender_called [DecidablePred honest] {network : Message → Option Message} {id : Message}
    {host recipient : JsString} {v : VerifiedData}
    (hreach : Reach step (Able honest) (.init honest) s)
    (hnetwork : ∀ id m, network id = some m → Derives (Knows honest s.uploads) m)
    (hrecipient : honest recipient)
    (hreceive : downloadVerifyDecryptFromIdentity network s.registry host id
      (privateKey recipient) = some v) (hsender : honest v.identity) :
    v.host = host ∧ ∃ call ∈ s.calls, call.sender = v.identity ∧ call.host = v.host ∧
      call.data = v.data ∧ (call.recipient = recipient ∨ ¬ honest call.recipient) := by
  have h : Safe honest s :=
    hreach.invariant safe_init fun _ _ _ hsafe hok hs => step_safe hsafe hok hs
  obtain ⟨decrypted, hdecrypt, hverify⟩ := Option.bind_eq_some_iff.mp hreceive
  obtain ⟨hhost, k, r, hkey, rfl⟩ := eq_of_verify hverify
  obtain ⟨key, symmetricFileId, r', r'', hcontainer, hmaterial⟩ := eq_of_downloadAndDecrypt hdecrypt
  obtain rfl : k = privateKey v.identity := by
    rw [h.registered _ hsender] at hkey
    cases hkey
    rfl
  have hcontainer := h.bounded (hnetwork _ _ hcontainer)
  have hmaterial := h.bounded (hnetwork _ _ hmaterial)
  refine ⟨hhost, ?_⟩
  rw [hhost]
  obtain ⟨hkey, hsigned⟩ | ⟨call, hcall, ⟨hhonest, heq | heq⟩ | ⟨-, heq⟩⟩ := hmaterial
  · -- the adversary has the signed text, and S has sent it to one of its identities
    obtain ⟨call, hcall, hidentity, hhost, hdata, hnot⟩ := called_of_signature hsender hsigned
    exact ⟨call, hcall, hidentity, hhost, hdata, .inr hnot⟩
  · -- the ciphertext is that of a call, and so is its key
    unfold Call.encryptedData Call.signedPlaintext at heq
    injection heq with hn hsigned _
    obtain ⟨hidentity, hhost, hdata⟩ := wrapWithSignature_inj hsigned
    refine ⟨call, hcall, hidentity.symm, hhost.symm, hdata.symm, .inl ?_⟩
    rw [hn] at hcontainer
    obtain hpublic | ⟨call', hcall', hrecipient', hn⟩ := bounded_of_container h hrecipient hcontainer
    · exact (hpublic (h.hidden hcall hhonest)).elim
    · have hn : call.n = call'.n := Atom.symmetricKey.inj (Term.atom.inj hn)
      obtain rfl := h.distinct call hcall call' hcall' hn
      exact hrecipient'
  · cases heq
  · cases heq

/-! ## Forwarding -/

/-- Who has the private key of the recipient opens the message. -/
theorem derives_signedPlaintext {k : Message} {known : Message → Prop}
    (huploads : ∀ m ∈ call.uploads, known m) (hkey : call.publicKey = .publicKey k)
    (hk : Derives known k) : Derives known call.signedPlaintext := by
  have hencrypted : Derives known call.encryptedData := .known (huploads _ List.mem_cons_self)
  have hcontainer : Derives known (container call.host (symmetricKey call.n)
      (fileId call.encryptedData) call.publicKey call.n) :=
    .known (huploads _ (List.mem_cons_of_mem _ List.mem_cons_self))
  rw [hkey] at hcontainer
  have hinfo := (hcontainer.snd.snd.snd.adec hk).snd
  exact hencrypted.sdec hinfo.snd.fst

/-- Who has a signed text encrypts it for anybody, with a symmetric key of its own. -/
theorem derives_forward {host : JsString} {signed key publicKey : Message} {uploads : List Message}
    {r : ℕ} (hsigned : Derives (Knows honest uploads) signed)
    (hpublic : Derives (Knows honest uploads) publicKey)
    (hkey : Derives (Knows honest uploads) key) :
    ∀ m ∈ encryptAndUploadDataAsymmetric host signed publicKey key r,
      Derives (Knows honest uploads) m := by
  intro m hm
  have hencrypted : Derives (Knows honest uploads) (.senc key signed r) := .senc r hkey hsigned
  have hbytes : ∀ b, Derives (Knows honest uploads) (bytes b) := fun b => .known (.bytes b)
  obtain rfl | hm := List.mem_cons.mp hm
  · exact hencrypted
  · obtain rfl := List.mem_singleton.mp hm
    have hhost : Derives (Knows honest uploads) (hostHashed host) :=
      .apply Fn.hashFn (.known (Knows.text host))
    have hinfo := (hbytes ASYMMETRIC_ENCRYPTION_PROLOGUE_ASYMM).pair
      (hkey.pair ((hencrypted.apply .fileId).pair hhost))
    have hcontents := hpublic.aenc r ((hbytes ASYMMETRIC_ENCRYPTION_PROLOGUE_PLAIN).pair hinfo)
    have hencrypted := (hbytes ASYMMETRIC_ENCRYPTION_PROLOGUE_RAWASYMM).pair hcontents
    exact (hbytes _).pair ((hpublic.apply Fn.hashFn).pair hencrypted)

end

/-- Two honest parties. -/
def twoHonest (identity : JsString) : Prop := identity = js "s" ∨ identity = js "r"

instance : DecidablePred twoHonest := fun _ => inferInstanceAs (Decidable (_ ∨ _))

/-- The party `s` writes to the identity `e` of the adversary. -/
def letter : Call :=
  ⟨js "s", js "h", bytes [1], js "e", .publicKey (privateKey (js "e")), 0⟩

/-- A letter has been sent, and an adversary has a key of its own. -/
def letterState : State where
  registry := Function.update (State.init twoHonest).registry (js "e")
    (some (.publicKey (privateKey (js "e"))))
  uploads := letter.uploads
  calls := [letter]

theorem reach_letterState : Reach step (Able twoHonest) (.init twoHonest) letterState := by
  have hregister : Reach step (Able twoHonest) (.init twoHonest)
      ⟨letterState.registry, [], []⟩ := by
    apply Reach.init.step (e := .register (js "e") (.publicKey (privateKey (js "e")))) ?_ rfl
    exact ⟨by decide, .known (.publicKey _)⟩
  apply hregister.step (e := .signEncryptUploadForIdentity (js "s") (js "h") (bytes [1]) (js "e"))
  · exact ⟨by decide, .known (.bytes [1])⟩
  · rfl

/-- The adversary encrypts the signed text again, for `r`. -/
def forwardedUploads : List Message :=
  encryptAndUploadDataAsymmetric (js "h") letter.signedPlaintext (.publicKey (privateKey (js "r")))
    (bytes (List.replicate 32 7)) 0

/-- The downloads of what the adversary has uploaded. -/
def forwardedFile (id : Message) : Option Message := forwardedUploads.find? fun m => fileId m = id

/-- The adversary has all files that it serves. -/
theorem derives_forwardedFile : ∀ id m, forwardedFile id = some m →
    Derives (Knows twoHonest letterState.uploads) m := by
  intro id m hm
  have hk : Derives (Knows twoHonest letterState.uploads) (privateKey (js "e")) :=
    .known (.privateKey (js "e") (by decide))
  apply derives_forward _ (.known (.publicKey _)) (.known (.bytes _)) m
    (List.mem_of_find?_eq_some hm)
  exact derives_signedPlaintext (fun _ hm => .upload hm) rfl hk

/-- The id of the forwarded message. -/
def forwardedId : Message :=
  fileId (container (js "h") (bytes (List.replicate 32 7))
    (fileId (.senc (bytes (List.replicate 32 7)) letter.signedPlaintext 0))
    (.publicKey (privateKey (js "r"))) 0)

/-- A message to the adversary is accepted by the one that it was forwarded to. -/
theorem forwarded_accepted : downloadVerifyDecryptFromIdentity forwardedFile letterState.registry
    (js "h") forwardedId (privateKey (js "r")) = some ⟨js "s", js "h", bytes [1]⟩ := by
  decide +kernel

theorem sender_called_letter : ∃ call ∈ letterState.calls, call.sender = js "s" ∧
    call.host = js "h" ∧ call.data = bytes [1] ∧
      (call.recipient = js "r" ∨ ¬ twoHonest call.recipient) :=
  (sender_called reach_letterState derives_forwardedFile (by decide) forwarded_accepted
    (by decide)).2

/-- The recipient `r` accepts a message that `s` has written to the adversary, and `s` has never
written to `r`. -/
theorem forwarded : Reach step (Able twoHonest) (.init twoHonest) letterState ∧
    (∀ id m, forwardedFile id = some m → Derives (Knows twoHonest letterState.uploads) m) ∧
    twoHonest (js "s") ∧ twoHonest (js "r") ∧
    downloadVerifyDecryptFromIdentity forwardedFile letterState.registry (js "h") forwardedId
      (privateKey (js "r")) = some ⟨js "s", js "h", bytes [1]⟩ ∧
    ∀ call ∈ letterState.calls, call.recipient ≠ js "r" :=
  ⟨reach_letterState, derives_forwardedFile, by decide, by decide, forwarded_accepted,
    by decide⟩

end PointNetwork.Encryption.Symbolic
