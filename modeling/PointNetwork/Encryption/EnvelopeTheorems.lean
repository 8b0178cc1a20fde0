import Mathlib.Data.List.TakeWhile
import PointNetwork.Encryption.MessageTheorems

/-!
# What a verified signature was put on

A message that `downloadAndVerifySignature` accepts is cut at the first zero byte behind the
inner prologue, and the bytes in front of it are decoded as UTF-8. When there is such a byte
and what is in front of it is UTF-8, the message is what `wrapWithSignature` makes of the
identity, the host and the data that are returned, and only then: `accepted_asWrapped_iff`.
-/

namespace PointNetwork.Encryption

open Js

variable {σ : Type} {env : Env σ}

/-! ## The shape of a wrapped message -/

/-- What `wrapWithSignature` signs. -/
def combined (env : Env σ) (identity host : JsString) (data : Bytes) : Bytes :=
  SIGNATURE_PROLOGUE_INNER ++ (bufferFrom identity ++ (0x00 :: (hostHashed env host ++ data)))

/-- What is signed in a message: all that follows the outer prologue and the signature. -/
def signedPart (downloaded : Bytes) : Bytes :=
  downloaded.drop (SIGNATURE_PROLOGUE_OUTER.length + 75)

/-- A message is what wrapping an identity, a host and data makes, with some signature. -/
def AsWrapped (env : Env σ) (downloaded : Bytes) (v : VerifiedData) : Prop :=
  signedPart downloaded = combined env v.identity v.host v.data ∧
    ∃ signature : Bytes, signature.length = 75 ∧
      downloaded = SIGNATURE_PROLOGUE_OUTER ++
        (signature ++ combined env v.identity v.host v.data)

/-- What `wrapWithSignature` returns has this shape. -/
theorem wrapWithSignature_asWrapped {identity : JsString} (hidentity : env.identity = some identity)
    (hne : identity ≠ []) (good : Bytes → Prop) (host : JsString) (data privateKey : Bytes) :
    Logged.Agree good (wrapWithSignature env host data privateKey) (.ok ()) fun signed _ =>
      AsWrapped env signed ⟨identity, host, data⟩ := by
  have htest : ensure (decide (env.identity.getD [] ≠ [])) "No identity found, cannot sign" =
      .ok () := by
    rw [hidentity, Option.getD_some, decide_eq_true hne]
    rfl
  unfold wrapWithSignature
  show Logged.Agree _ (Logged.ofExcept _ >>= _) _ _
  rw [Logged.ofExcept_bind_eq htest, hidentity, Option.getD_some]
  refine (signRawData_agree good _ privateKey).seq fun signature hsignature => ?_
  apply Logged.Agree.pure
  refine ⟨?_, signature, hsignature.1, rfl⟩
  exact drop_eq (SIGNATURE_PROLOGUE_OUTER ++ signature) _ (by rw [List.append_assoc]; rfl)
    (by rw [List.length_append, hsignature.1])

/-! ## When a message is cut where it was put together -/

/-- The bytes between the inner prologue and the first zero byte behind it. -/
def identityBytes (downloaded : Bytes) : Bytes :=
  ((signedPart downloaded).drop SIGNATURE_PROLOGUE_INNER.length).takeWhile (· ≠ 0x00)

/-- Decoding these bytes loses nothing. -/
def ValidUtf8 (b : Bytes) : Prop := bufferFrom (bufferToString b) = b

instance (b : Bytes) : Decidable (ValidUtf8 b) := inferInstanceAs (Decidable (_ = _))

/-- The identity ends somewhere, and is text. -/
def HasIdentity (downloaded : Bytes) : Prop :=
  0x00 ∈ (signedPart downloaded).drop SIGNATURE_PROLOGUE_INNER.length ∧
    ValidUtf8 (identityBytes downloaded)

instance (downloaded : Bytes) : Decidable (HasIdentity downloaded) :=
  inferInstanceAs (Decidable (_ ∧ _))

/-! ## What is accepted -/

/-- A sequence behind a test that it passed. -/
lemma of_ensure_bind {α : Type} {condition : Bool} {message : String}
    {f : Unit → Except Exception α} {a : α} (h : (ensure condition message >>= f) = .ok a) :
    condition = true ∧ f () = .ok a := by
  cases condition with
  | false => cases h
  | true => exact ⟨rfl, h⟩

/-- The tests an accepted message passed, and the fields that are returned. -/
lemma verifySignature_ok {host : JsString} {downloaded : Bytes} {v : VerifiedData}
    (h : verifySignature env host downloaded = .ok v) :
    let b := signedPart downloaded
    let i := indexOf b 0x00 SIGNATURE_PROLOGUE_INNER.length
    field downloaded 0 SIGNATURE_PROLOGUE_OUTER.length = SIGNATURE_PROLOGUE_OUTER ∧
      field b 0 SIGNATURE_PROLOGUE_INNER.length = SIGNATURE_PROLOGUE_INNER ∧
      hostHashed env host = slice b (i + 1) (i + 1 + 32) ∧
      v = ⟨bufferToString (slice b SIGNATURE_PROLOGUE_INNER.length i), host,
        slice b (i + 1 + 32) b.length⟩ := by
  intro b i
  unfold verifySignature at h
  rcases of_ensure_bind h with ⟨houter, h⟩
  rcases of_ensure_bind h with ⟨hinner, h⟩
  rcases of_ensure_bind h with ⟨hhost, h⟩
  rcases bind_ok h with ⟨key, -, h⟩
  rcases bind_ok h with ⟨-, -, h⟩
  exact ⟨of_decide_eq_true houter, of_decide_eq_true hinner, of_decide_eq_true hhost,
    (Except.ok.inj h).symm⟩

/-- A list with a byte in it is the bytes before its first occurrence, the byte, and the
rest. -/
lemma eq_takeWhile_append {b : Bytes} {value : UInt8} (h : value ∈ b) :
    ∃ rest, b = b.takeWhile (· ≠ value) ++ value :: rest := by
  induction b with
  | nil => cases h
  | cons x b ih =>
    by_cases hx : x = value
    · subst hx
      exact ⟨b, by simp⟩
    · rcases ih (List.mem_of_ne_of_mem (Ne.symm hx) h) with ⟨rest, hrest⟩
      refine ⟨rest, ?_⟩
      rw [List.takeWhile_cons_of_pos (by simpa using hx), List.cons_append, ← hrest]

lemma not_mem_takeWhile (b : Bytes) (value : UInt8) : value ∉ b.takeWhile (· ≠ value) := by
  intro h
  simpa using List.mem_takeWhile_imp h

/-- A field at the beginning, and what is behind it. -/
lemma eq_append_drop {b beginning : Bytes} (h : field b 0 beginning.length = beginning) :
    b = beginning ++ b.drop beginning.length := by
  conv_lhs => rw [← List.take_append_drop beginning.length b]
  rw [field, List.drop_zero] at h
  rw [h]

/-- An accepted message whose identity ends is its prologue, the bytes of the identity, a zero
byte, the hash of the host and the data. -/
lemma signedPart_eq {host : JsString} {downloaded : Bytes} {v : VerifiedData}
    (h : verifySignature env host downloaded = .ok v)
    (hzero : 0x00 ∈ (signedPart downloaded).drop SIGNATURE_PROLOGUE_INNER.length) :
    v.identity = bufferToString (identityBytes downloaded) ∧
      signedPart downloaded = SIGNATURE_PROLOGUE_INNER ++
        (identityBytes downloaded ++ (0x00 :: (hostHashed env v.host ++ v.data))) := by
  rcases verifySignature_ok h with ⟨-, hinner, hhost, hv⟩
  rcases eq_takeWhile_append hzero with ⟨rest, hrest⟩
  have hb := eq_append_drop hinner
  rw [hrest] at hb
  have hcut := slice_signedPart hb (not_mem_takeWhile _ _)
  rw [hv, hcut.1, hcut.2.2]
  rw [hcut.2.1] at hhost
  refine ⟨rfl, ?_⟩
  rw [hhost, List.take_append_drop]
  exact hb

/-- The outer frame of an accepted message. -/
lemma downloaded_eq {host : JsString} {downloaded : Bytes} {v : VerifiedData}
    (h : verifySignature env host downloaded = .ok v) (hne : signedPart downloaded ≠ []) :
    ∃ signature : Bytes, signature.length = 75 ∧
      downloaded = SIGNATURE_PROLOGUE_OUTER ++ (signature ++ signedPart downloaded) := by
  rcases verifySignature_ok h with ⟨houter, -, -, -⟩
  have hd := eq_append_drop houter
  have hpos := List.length_pos_iff.mpr hne
  rw [signedPart, List.length_drop] at hpos
  refine ⟨(downloaded.drop SIGNATURE_PROLOGUE_OUTER.length).take 75, ?_, ?_⟩
  · rw [List.length_take, List.length_drop]
    omega
  · rw [signedPart, ← List.drop_drop, List.take_append_drop]
    exact hd

/-- A message that was accepted is what its identity, host and data are wrapped in exactly when
its identity ends, and is text. -/
theorem accepted_asWrapped_iff {host : JsString} {downloaded : Bytes} {v : VerifiedData}
    (h : downloadAndVerifySignature env host (.inr downloaded) = .ok v) :
    AsWrapped env downloaded v ↔ HasIdentity downloaded := by
  constructor
  · intro hwrapped
    have hzero : 0x00 ∈ (signedPart downloaded).drop SIGNATURE_PROLOGUE_INNER.length := by
      rw [hwrapped.1, combined, List.drop_left]
      simp
    rcases signedPart_eq h hzero with ⟨hidentity, hcut⟩
    -- the two readings of the signed part differ in the bytes of the identity at most
    rw [hwrapped.1, combined] at hcut
    have hbytes := List.append_cancel_right (List.append_cancel_left hcut)
    refine ⟨hzero, ?_⟩
    rw [ValidUtf8, ← hidentity]
    exact hbytes
  · rintro ⟨hzero, htext⟩
    rcases signedPart_eq h hzero with ⟨hidentity, hcut⟩
    have hsigned : signedPart downloaded = combined env v.identity v.host v.data := by
      rw [combined, hidentity, htext]
      exact hcut
    refine ⟨hsigned, ?_⟩
    rw [← hsigned]
    apply downloaded_eq h
    rw [hcut]
    exact List.append_ne_nil_of_left_ne_nil (by decide) _

/-- A message of a sender with the private key `[1]`, for any bytes where the identity stands. -/
def signed (env : Env ℕ) (rest : Bytes) : Bytes :=
  SIGNATURE_PROLOGUE_OUTER ++ ((0x30 :: (plainKey [1] ++
    env.hashFn.digest (SIGNATURE_PROLOGUE_INNER ++ rest)).take 74) ++
      (SIGNATURE_PROLOGUE_INNER ++ rest))

/-- Two identities with one key, the name of one of them being the replacement character. -/
def inbox : Env ℕ := Env.small (js "me") [(js "a", [1]), (js "\ufffd", [1])] []

/-- A message from `a`. -/
def fromA : Bytes := signed inbox (0x61 :: 0x00 :: (hostHashed inbox (js "h") ++ [7]))

theorem accepted_asWrapped_iff_fromA :
    AsWrapped inbox fromA ⟨js "a", js "h", [7]⟩ ↔ HasIdentity fromA := by
  have h : downloadAndVerifySignature inbox (js "h") (.inr fromA) =
      .ok ⟨js "a", js "h", [7]⟩ := by decide +kernel
  exact accepted_asWrapped_iff h

-- Without a zero byte the identity ends, and the hash of the host begins, at the ends of the
-- signed part.
example :
    let env := Env.small (js "me") [(List.replicate 13 0x61, [1])] []
    let host := js "PN^SIGN\x05$\x06z\u00f5*INNER" ++ List.replicate 13 0x61
    let downloaded := signed env (List.replicate 13 0x61 ++ [0x62])
    downloadAndVerifySignature env host (.inr downloaded) =
        .ok ⟨List.replicate 13 0x61, host, [0x62]⟩ ∧ ¬ HasIdentity downloaded := by
  decide +kernel

/-- A byte that is no text is read as the identity `\ufffd`, so that two messages with different
signed parts are accepted with the same identity, host and data. -/
theorem accepted_not_asWrapped :
    ¬ ∀ (env : Env ℕ) (host : JsString) (downloaded : Bytes) (v : VerifiedData),
      downloadAndVerifySignature env host (.inr downloaded) = .ok v → AsWrapped env downloaded v := by
  intro h
  have hbad := h inbox (js "h") (signed inbox (0xff :: 0x00 :: (hostHashed inbox (js "h") ++ [7])))
    ⟨js "\ufffd", js "h", [7]⟩ (by decide +kernel)
  exact absurd hbad.1 (by decide +kernel)

end PointNetwork.Encryption
