import PointNetwork.Storage.Pubsub

/-!
# What becomes of a message

A message is delivered if the payload was compressed, the host has no lone surrogate and a socket of the
sender is open, and else it is not (`delivered_iff`): a payload that is not compressed is a string, which
`Buffer.concat` refuses, a lone surrogate is not found again in the bytes of the host, and `connect` does not
return the socket it opens.

* `gunzipIfCompressed_gzip`: what is compressed is decompressed;
* `pubsubProcessMessage_prefixed`: what is published for an upload is taken apart again, for any two hosts;
* `yields_pubsubPublishForIdentity`: when something is published, and what.
-/

namespace PointNetwork.Storage.Pubsub

open Js Encryption Logged

/-! ## Compression -/

/-- What is compressed is decompressed, as the bytes of the text. -/
theorem gunzipIfCompressed_gzip (zlib : Zlib) (data : JsString) :
    gunzipIfCompressed zlib (gzip zlib data true) = .ok (bufferFrom data) := by
  have hlength : (bufferFrom PN_GZIP_PROLOGUE).length = PN_GZIP_PROLOGUE.length := by decide
  have hprologue : bufferToString (slice (gzip zlib data true) 0 PN_GZIP_PROLOGUE.length) =
      PN_GZIP_PROLOGUE := by
    have hslice : slice (gzip zlib data true) (0 : ℕ) (0 + PN_GZIP_PROLOGUE.length : ℕ) =
        bufferFrom PN_GZIP_PROLOGUE := by
      rw [slice_eq_field]
      exact field_eq [] _ (zlib.gzip (bufferFrom data)) rfl rfl hlength
    rw [Nat.zero_add] at hslice
    show bufferToString (slice _ (0 : ℕ) _) = _
    rw [hslice]
    decide
  have hdrop : (gzip zlib data true).drop PN_GZIP_PROLOGUE.length = zlib.gzip (bufferFrom data) :=
    drop_eq (bufferFrom PN_GZIP_PROLOGUE) _ rfl hlength
  unfold gunzipIfCompressed gunzip
  simp only [hprologue, hdrop, zlib.gunzip_gzip, bne_self_eq_false, Bool.and_false, if_true,
    Bool.false_eq_true, if_false]
  rfl

/-! ## The frame -/

/-- The bytes of what is published. -/
lemma bufferFrom_prefixed (host fileId : JsString) :
    bufferFrom (prefixed host fileId) = bufferFrom HOST_PREFIXED_PUBSUB_PROLOGUE ++ (bufferFrom host ++
      (0x7C :: (bufferFrom HOST_PREFIXED_PUBSUB_ENCSIGN_PROLOGUE ++ bufferFrom fileId))) := by
  have hprologue : WellFormed HOST_PREFIXED_PUBSUB_PROLOGUE := by decide
  have hbar : WellFormed (js "|") := by decide
  have hencsign : WellFormed HOST_PREFIXED_PUBSUB_ENCSIGN_PROLOGUE := by decide
  have hassoc : prefixed host fileId = HOST_PREFIXED_PUBSUB_PROLOGUE ++ (host ++ (js "|" ++
      (HOST_PREFIXED_PUBSUB_ENCSIGN_PROLOGUE ++ fileId))) := by
    unfold prefixed
    simp only [List.append_assoc]
  -- the separator behind the host ends no pair
  have hhost : bufferFrom (host ++ (js "|" ++ (HOST_PREFIXED_PUBSUB_ENCSIGN_PROLOGUE ++ fileId))) =
      bufferFrom host ++ bufferFrom (js "|" ++ (HOST_PREFIXED_PUBSUB_ENCSIGN_PROLOGUE ++ fileId)) :=
    bufferFrom_append (by decide) host _
  rw [hassoc, hprologue.bufferFrom_append, hhost, hbar.bufferFrom_append, hencsign.bufferFrom_append]
  rfl

section

variable {σ : Type}

/-- What is published for an upload is taken apart again: by a node that listens for the host, as its bytes
give it, the upload is fetched; any other refuses it. -/
theorem pubsubProcessMessage_prefixed (zlib : Zlib) (node : Node σ) {host fileId : JsString}
    (hbar : 0x7C ∉ host) (hid : WellFormed fileId) (host' topic : JsString) (ignoreErrors : Bool) :
    pubsubProcessMessage zlib node host' topic (bufferFrom (prefixed host fileId)) ignoreErrors =
      if toWellFormed host ≠ host' then
        if ignoreErrors then pure none
        else throw (.error ("Invalid host: " ++ messageText (toWellFormed host)))
      else (do
        let verifiedData ← downloadVerifyDecryptFromIdentityForMe node host' fileId
        let final ← gunzipIfCompressed zlib verifiedData.data
        pure (some ⟨topic, final, verifiedData.identity⟩)) := by
  have hb := bufferFrom_prefixed host fileId
  have hn : (bufferFrom HOST_PREFIXED_PUBSUB_PROLOGUE).length = HOST_PREFIXED_PUBSUB_PROLOGUE.length := by
    decide
  have hm : (bufferFrom HOST_PREFIXED_PUBSUB_ENCSIGN_PROLOGUE).length =
      HOST_PREFIXED_PUBSUB_ENCSIGN_PROLOGUE.length := by
    decide
  generalize bufferFrom (prefixed host fileId) = b at hb ⊢
  have hprologue : slice b 0 HOST_PREFIXED_PUBSUB_PROLOGUE.length =
      bufferFrom HOST_PREFIXED_PUBSUB_PROLOGUE := by
    rw [show (0 : ℤ) = (0 : ℕ) by rfl, slice_nat, List.drop_zero, hb, List.take_left' hn]
  have hindex : indexOf b 0x7C HOST_PREFIXED_PUBSUB_PROLOGUE.length =
      (HOST_PREFIXED_PUBSUB_PROLOGUE.length + (bufferFrom host).length : ℕ) :=
    indexOf_eq hb hn (bufferFrom_not_mem rfl (by decide) hbar)
  have hhost : slice b HOST_PREFIXED_PUBSUB_PROLOGUE.length
      (HOST_PREFIXED_PUBSUB_PROLOGUE.length + (bufferFrom host).length : ℕ) = bufferFrom host := by
    rw [slice_eq_field]
    exact field_eq _ _ _ hb hn rfl
  generalize hend : HOST_PREFIXED_PUBSUB_PROLOGUE.length + (bufferFrom host).length = n at hindex hhost
  -- behind the separator
  have hfront : (bufferFrom HOST_PREFIXED_PUBSUB_PROLOGUE ++ bufferFrom host ++ [0x7C]).length = n + 1 := by
    rw [List.length_append, List.length_append, hn, List.length_singleton, hend]
  have hrest : b = (bufferFrom HOST_PREFIXED_PUBSUB_PROLOGUE ++ bufferFrom host ++ [0x7C]) ++
      (bufferFrom HOST_PREFIXED_PUBSUB_ENCSIGN_PROLOGUE ++ bufferFrom fileId) := by
    rw [hb]
    simp only [List.append_assoc, List.singleton_append]
  have hencsign : slice b ((n : ℤ) + 1) ((n : ℤ) + 1 + HOST_PREFIXED_PUBSUB_ENCSIGN_PROLOGUE.length) =
      bufferFrom HOST_PREFIXED_PUBSUB_ENCSIGN_PROLOGUE := by
    rw [show (n : ℤ) + 1 + HOST_PREFIXED_PUBSUB_ENCSIGN_PROLOGUE.length =
        ((n + 1 + HOST_PREFIXED_PUBSUB_ENCSIGN_PROLOGUE.length : ℕ) : ℤ) by push_cast; rfl,
      show (n : ℤ) + 1 = ((n + 1 : ℕ) : ℤ) by push_cast; rfl, slice_eq_field]
    exact field_eq _ _ _ hrest hfront hm
  have hfile : slice b ((n : ℤ) + 1 + HOST_PREFIXED_PUBSUB_ENCSIGN_PROLOGUE.length) b.length =
      bufferFrom fileId := by
    rw [show (n : ℤ) + 1 + HOST_PREFIXED_PUBSUB_ENCSIGN_PROLOGUE.length =
        ((n + 1 + HOST_PREFIXED_PUBSUB_ENCSIGN_PROLOGUE.length : ℕ) : ℤ) by push_cast; rfl, slice_eq_drop]
    exact drop_eq (_ ++ bufferFrom HOST_PREFIXED_PUBSUB_ENCSIGN_PROLOGUE) _
      (hrest.trans (List.append_assoc _ _ _).symm) (by rw [List.length_append, hfront, hm])
  have htext : bufferToString (bufferFrom HOST_PREFIXED_PUBSUB_ENCSIGN_PROLOGUE) =
      HOST_PREFIXED_PUBSUB_ENCSIGN_PROLOGUE := by
    decide
  unfold pubsubProcessMessage
  simp only [hprologue, hindex, hhost, hencsign, hfile, htext, bufferToString_bufferFrom,
    hid.toWellFormed_eq, ne_eq, not_true_eq_false, if_false]

/-! ## Publishing -/

/-- The id of an upload is the text of a hash. -/
lemma exists_id_of_uploadData {env : Env σ} {material : Bytes} {fileId : JsString} {s s' : σ}
    (h : Yields (Encryption.uploadData env material) s fileId s') : ∃ b, fileId = env.hashFn.id b := by
  unfold Encryption.uploadData at h
  obtain ⟨_, _, -, hpure⟩ := yields_bind.mp h
  rw [(yields_pure.mp hpure).1]
  exact exists_fileChunks_eq _ _ _

/-- So is the id of a signed and encrypted upload. -/
lemma wellFormed_fileId {node : Node σ} {host identity fileId : JsString} {data : JsString ⊕ Bytes}
    {s s' : σ} (h : Yields (signEncryptUploadForIdentityFromMe node host data identity) s fileId s') :
    WellFormed fileId := by
  unfold signEncryptUploadForIdentityFromMe at h
  obtain ⟨signed, _, -, h⟩ := yields_bind.mp h
  unfold encryptAndUploadDataForIdentity at h
  obtain ⟨key, -, h⟩ := yields_ofExcept_bind.mp h
  unfold encryptAndUploadDataAsymmetric at h
  obtain ⟨uploaded, _, -, h⟩ := yields_bind.mp h
  obtain ⟨_, -, h⟩ := yields_ofExcept_bind.mp h
  obtain ⟨encrypted, _, -, h⟩ := yields_bind.mp h
  obtain ⟨b, rfl⟩ := exists_id_of_uploadData h
  exact .of_ascii fun u hu => ascii_of_mem_toHex hu

/-- A string is not signed. -/
lemma not_yields_string {node : Node σ} {host identity fileId : JsString} {data : JsString} {s s' : σ} :
    ¬Yields (signEncryptUploadForIdentityFromMe node host (.inl data) identity) s fileId s' := by
  intro h
  unfold signEncryptUploadForIdentityFromMe at h
  obtain ⟨signed, _, hsigned, -⟩ := yields_bind.mp h
  obtain ⟨_, -, hfail⟩ := yields_ofExcept_bind.mp hsigned
  obtain ⟨_, hfail⟩ := hfail
  cases hfail

/-- A check passes when its condition holds. -/
lemma ensure_eq_ok {condition : Bool} {message : String} {u : Unit} :
    ensure condition message = .ok u ↔ condition = true := by
  unfold ensure
  cases condition with
  | true => exact ⟨fun _ => rfl, fun _ => rfl⟩
  | false =>
    constructor
    · intro h
      cases h
    · intro h
      cases h

/-- Something is published if the payload is compressed and then signed, encrypted and uploaded. -/
theorem yields_pubsubPublishForIdentity {zlib : Zlib} {sha256 : HashFn} {node : Node σ} {host : JsString}
    {payload : Payload} (hdata : payload.data ≠ []) (hidentity : payload.identity ≠ [])
    {published : Published} {s s' : σ} :
    Yields (pubsubPublishForIdentity zlib sha256 node host payload) s published s' ↔
      gzipOption payload.options = .ok true ∧ ∃ fileId,
        Yields (signEncryptUploadForIdentityFromMe node host (.inr (gzip zlib payload.data true))
          payload.identity) s fileId s' ∧
        published = pubsubPublish sha256 node.sockets (identityToTopic node.env.hashFn payload.identity)
          (prefixed host fileId) := by
  unfold pubsubPublishForIdentity
  simp only [yields_ofExcept_bind, ensure_eq_ok, decide_eq_true hdata, decide_eq_true hidentity,
    exists_const, true_and]
  constructor
  · rintro ⟨gzipped, hoption, h⟩
    obtain ⟨fileId, _, hsign, hpure⟩ := yields_bind.mp h
    obtain ⟨hpublished, hseed⟩ := yields_pure.mp hpure
    cases gzipped with
    | false => exact (not_yields_string hsign).elim
    | true =>
      rw [if_pos rfl] at hsign
      exact ⟨hoption, fileId, hseed ▸ hsign, hpublished⟩
  · rintro ⟨hoption, fileId, hsign, rfl⟩
    refine ⟨true, hoption, yields_bind.mpr ⟨fileId, s', ?_, yields_pure.mpr ⟨rfl, rfl⟩⟩⟩
    rw [if_pos rfl]
    exact hsign

/-! ## From end to end -/

/-- What is given to this call of `signEncryptUploadForIdentityFromMe` is what the recipient downloads,
decrypts and verifies, with the identity of the sender. -/
def RoundTrip (sender recipient : Node σ) (senderIdentity host identity : JsString) (data : Bytes)
    (seed : σ) : Prop :=
  ∃ fileId seed', Yields (signEncryptUploadForIdentityFromMe sender host (.inr data) identity) seed fileId
      seed' ∧
    downloadVerifyDecryptFromIdentityForMe recipient host fileId = .ok ⟨senderIdentity, host, data⟩

/-- So it is if both are registered with their keys and what the call uploads can be downloaded. -/
theorem roundTrip_of_registered {env : Env σ} {senderIdentity identity host : JsString} {data : Bytes}
    {senderKey recipientKey : Bytes} {seed : σ}
    (hidentity : env.identity = some senderIdentity) (hne : senderIdentity ≠ [])
    (hzero : 0 ∉ senderIdentity) (hwf : WellFormed senderIdentity)
    (hsender : Registered env senderIdentity (publicKey env senderKey))
    (hrecipient : Registered env identity (publicKey env recipientKey))
    (hgood : ∀ material ∈ (signEncryptUploadForIdentity env host data identity senderKey).log seed,
      Good env material) (sockets sockets' : List JsString) :
    RoundTrip ⟨env, toHex senderKey, sockets⟩
      ⟨{ env with identity := some identity }, toHex recipientKey, sockets'⟩ senderIdentity host identity data
      seed := by
  have hagree := message_agree hidentity hne hzero hwf hsender hrecipient host data
  obtain ⟨fileId, hrun, hdownload⟩ := hagree.run_of_ok hgood rfl
  have hrecipientKey : fromHex (toHex recipientKey) = recipientKey := fromHex_toHex recipientKey
  refine ⟨fileId, (signEncryptUploadForIdentity env host data identity senderKey seed).2.2, ?_, ?_⟩
  · show Yields (signEncryptUploadForIdentity env host data identity (fromHex (toHex senderKey))) _ _ _
    rw [fromHex_toHex]
    exact ⟨_, Prod.ext hrun rfl⟩
  · show downloadVerifyDecryptFromIdentity env host fileId (fromHex (toHex recipientKey)) = _
    rw [hrecipientKey, hdownload host, if_pos rfl]

/-- The request makes the sender send something, and what the server hands on for the topic of the recipient
makes the callback of the recipient be called with the bytes of the payload and the identity of the sender. -/
def Delivered (zlib : Zlib) (sha256 : HashFn) (server : Server) (sender recipient : Node σ)
    (senderIdentity host : JsString) (payload : Payload) (seed : σ) : Prop :=
  ∃ published seed' sent message,
    Yields (pubsubPublishForIdentity zlib sha256 sender host payload) seed published seed' ∧
    published.sent = .ok sent ∧
    server.deliver sent =
      some (bufferFrom (topicHash sha256 (identityToTopic sender.env.hashFn payload.identity)), message) ∧
    ∀ topic ignoreErrors, pubsubProcessMessage zlib recipient host topic message ignoreErrors =
      .ok (some ⟨topic, bufferFrom payload.data, senderIdentity⟩)

lemma length_topicHash (sha256 : HashFn) (topic : JsString) :
    (bufferFrom (topicHash sha256 topic)).length = topicHashLength := by
  have hascii : ∀ u ∈ topicHash sha256 topic, u.toNat < 0x80 := by
    intro u hu
    rcases List.mem_append.mp hu with hu | hu
    · have hall : (js "0x").all (fun u => u.toNat < 0x80) = true := by decide
      exact of_decide_eq_true (List.all_eq_true.mp hall u hu)
    · exact ascii_of_mem_toHex hu
  rw [length_bufferFrom hascii]
  unfold topicHash
  rw [List.length_append, length_toHex, sha256.length_digest]
  rfl

/-- The server hands on what is published, if a socket is open. -/
lemma pubsubPublish_sent_iff (sha256 : HashFn) (server : Server) (sockets : List JsString)
    (topic data : JsString) (sent message : Bytes) :
    (pubsubPublish sha256 sockets topic data).sent = .ok sent ∧
        server.deliver sent = some (bufferFrom (topicHash sha256 topic), message) ↔
      sockets ≠ [] ∧ sent = bufferFrom (js "msg") ++ (bufferFrom (topicHash sha256 topic) ++ bufferFrom data) ∧
        message = bufferFrom data := by
  have hdeliver := server.deliver_msg _ (bufferFrom data) (length_topicHash sha256 topic)
  cases sockets with
  | nil =>
    constructor
    · rintro ⟨h, -⟩
      cases h
    · rintro ⟨h, -⟩
      exact (h rfl).elim
  | cons socket sockets =>
    constructor
    · rintro ⟨hsent, h⟩
      obtain rfl := Except.ok.inj hsent
      rw [hdeliver] at h
      refine ⟨List.cons_ne_nil _ _, rfl, ?_⟩
      exact ((Prod.mk.inj (Option.some.inj h)).2).symm
    · rintro ⟨-, rfl, rfl⟩
      exact ⟨rfl, hdeliver⟩

/-- A message is delivered, as the bytes of its payload and with the identity of its sender, if and only if the
option `gzip` is set, the host has no lone surrogate and a socket of the sender is open. -/
theorem delivered_iff (zlib : Zlib) (sha256 : HashFn) (server : Server) (sender recipient : Node σ)
    (senderIdentity host : JsString) (payload : Payload) (seed : σ) (hbar : 0x7C ∉ host)
    (hdata : payload.data ≠ []) (hidentity : payload.identity ≠ [])
    (hround : RoundTrip sender recipient senderIdentity host payload.identity
      (gzip zlib payload.data true) seed) :
    Delivered zlib sha256 server sender recipient senderIdentity host payload seed ↔
      gzipOption payload.options = .ok true ∧ WellFormed host ∧ sender.sockets ≠ [] := by
  constructor
  · rintro ⟨published, seed', sent, message, hpublish, hsent, hdeliver, hprocess⟩
    obtain ⟨hoption, fileId, hsign, rfl⟩ := (yields_pubsubPublishForIdentity hdata hidentity).mp hpublish
    obtain ⟨hsockets, -, rfl⟩ := (pubsubPublish_sent_iff ..).mp ⟨hsent, hdeliver⟩
    refine ⟨hoption, (wellFormed_iff host).mpr ?_, hsockets⟩
    -- otherwise the recipient refuses the host
    by_contra hhost
    have hrefused := hprocess [] true
    rw [pubsubProcessMessage_prefixed zlib recipient hbar (wellFormed_fileId hsign), if_pos hhost,
      if_pos rfl] at hrefused
    cases hrefused
  · rintro ⟨hoption, hhost, hsockets⟩
    obtain ⟨fileId, seed', hsign, hdownload⟩ := hround
    have hdelivered := (pubsubPublish_sent_iff sha256 server sender.sockets
      (identityToTopic sender.env.hashFn payload.identity) (prefixed host fileId) _ _).mpr
        ⟨hsockets, rfl, rfl⟩
    refine ⟨_, seed', _, _, (yields_pubsubPublishForIdentity hdata hidentity).mpr
      ⟨hoption, fileId, hsign, rfl⟩, hdelivered.1, hdelivered.2, ?_⟩
    intro topic ignoreErrors
    have hsame : ¬toWellFormed host ≠ host := not_not_intro hhost.toWellFormed_eq
    rw [pubsubProcessMessage_prefixed zlib recipient hbar (wellFormed_fileId hsign), if_neg hsame, hdownload,
      ok_bind, gunzipIfCompressed_gzip, ok_bind]
    rfl

end

/-! ## A message on a small node -/

/-- The surroundings of `a`, who signs the data for `b` and can download what this uploads. -/
def smallEnv (data : Bytes) : Env ℕ :=
  let env := Env.small (js "a") [(js "a", [1]), (js "b", [2])]
  env ((signEncryptUploadForIdentity (env []) (js "h") data (js "b") [1]).log 0)

/-- A node that sends. -/
def smallSender (data : Bytes) : Node ℕ := ⟨smallEnv data, toHex [1], [js "topic"]⟩

/-- A node that has subscribed to nothing. -/
def smallRecipient (data : Bytes) : Node ℕ :=
  ⟨{ smallEnv data with identity := some (js "b") }, toHex [2], []⟩

/-- The text of the public key of a private key, as the registry gives it. -/
def smallKeyText (privateKey : Bytes) : JsString :=
  let text := toHex (plainKey privateKey).tail
  js "0x" ++ remove0x (js "0x" ++ text.take 64) ++ remove0x (js "0x" ++ text.drop 64)

/-- A message between the small nodes is read back. -/
lemma roundTrip_small {data : Bytes}
    (hgood : ∀ material ∈ (signEncryptUploadForIdentity (smallEnv data) (js "h") data (js "b") [1]).log 0,
      Good (smallEnv data) material) :
    RoundTrip (smallSender data) (smallRecipient data) (js "a") (js "h") (js "b") data 0 :=
  have hsender : Registered (smallEnv data) (js "a") (publicKey (smallEnv data) [1]) :=
    ⟨smallKeyText [1], rfl, show fromHex (remove0x (smallKeyText [1])) = (plainKey [1]).tail by decide +kernel⟩
  have hrecipient : Registered (smallEnv data) (js "b") (publicKey (smallEnv data) [2]) :=
    ⟨smallKeyText [2], rfl, show fromHex (remove0x (smallKeyText [2])) = (plainKey [2]).tail by decide +kernel⟩
  roundTrip_of_registered rfl (by decide) (by decide) (by decide) hsender hrecipient hgood _ _

/-- A payload for the recipient. -/
def smallPayload (options : Option JsString) : Payload := ⟨js "x", js "b", options⟩

/-- The data that is signed for this payload if it is compressed. -/
def compressed : Bytes := gzip .stored (smallPayload none).data true

theorem delivered_iff_small :
    gzipOption (some (js "\x7b\"gzip\":true\x7d")) = .ok true ∧
      (Delivered .stored .firstBytes .plain (smallSender compressed) (smallRecipient compressed) (js "a")
        (js "h") (smallPayload (some (js "\x7b\"gzip\":true\x7d"))) 0 ↔
      gzipOption (some (js "\x7b\"gzip\":true\x7d")) = .ok true ∧ WellFormed (js "h") ∧
        (smallSender compressed).sockets ≠ []) :=
  have hround : RoundTrip (smallSender compressed) (smallRecipient compressed) (js "a") (js "h") (js "b")
      compressed 0 := roundTrip_small (by unfold Good; decide +kernel)
  ⟨by decide +kernel, delivered_iff _ _ _ _ _ _ _ _ _ (by decide) (by decide) (by decide) hround⟩

/-- The request of `a`, without options, sends nothing to `b`. -/
theorem not_delivered : ¬ ∀ (zlib : Zlib) (sha256 : HashFn) (server : Server) (sender recipient : Node ℕ)
    (senderIdentity host : JsString) (payload : Payload) (gzipped : Bool) (seed : ℕ), 0x7C ∉ host →
      WellFormed host → sender.sockets ≠ [] → payload.data ≠ [] → payload.identity ≠ [] →
      gzipOption payload.options = .ok gzipped →
      RoundTrip sender recipient senderIdentity host payload.identity
        (if gzipped then gzip zlib payload.data true else bufferFrom payload.data) seed →
      Delivered zlib sha256 server sender recipient senderIdentity host payload seed := by
  intro h
  have hround : RoundTrip (smallSender (bufferFrom (js "x"))) (smallRecipient (bufferFrom (js "x"))) (js "a")
      (js "h") (js "b") (bufferFrom (js "x")) 0 := roundTrip_small (by unfold Good; decide +kernel)
  have hdelivered := h .stored .firstBytes .plain _ _ (js "a") (js "h") (smallPayload none) false 0 (by decide)
    (by decide) (by decide) (by decide) (by decide) (by decide +kernel) hround
  obtain ⟨published, seed', sent, message, hpublish, -⟩ := hdelivered
  have hoption := ((yields_pubsubPublishForIdentity (by decide) (by decide)).mp hpublish).1
  have hfalse : gzipOption (smallPayload none).options = .ok false := by decide +kernel
  rw [hfalse] at hoption
  cases hoption

end PointNetwork.Storage.Pubsub
