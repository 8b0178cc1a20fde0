import Mathlib.Tactic.Common

/-!
# Messages in the symbolic model of cryptography

Cryptography is perfect here: messages are terms, and who does not have the key of a ciphertext
learns nothing from it. The adversary owns the network. What it can make of the messages it knows
are those that `Derives` gives: it applies every function of the signature and takes apart what it
has the keys for.

* `Term.sdec`, `Term.adec`, `Term.verify`: what an honest party does with a key;
* `Term.Public`: a bound on what the adversary can derive. Some atoms are secret, and some messages
  are sealed: they may contain secrets, since the adversary can neither open nor make them;
* `Derives.isPublic`: if what is known is public, then what can be derived is.
-/

namespace DolevYao

/-- Messages over atoms `α`, with one-way functions `φ`. Encryption and signing are randomized, by
the number at the end. -/
inductive Term (α φ : Type)
  | atom (a : α)
  | apply (f : φ) (t : Term α φ)
  | publicKey (k : Term α φ)
  | pair (t u : Term α φ)
  | senc (k t : Term α φ) (r : ℕ)
  | aenc (k t : Term α φ) (r : ℕ)
  | sign (k t : Term α φ) (r : ℕ)
  deriving DecidableEq

namespace Term

variable {α φ : Type} {k p t u v : Term α φ}

/-- The two halves of a pair. -/
def split : Term α φ → Option (Term α φ × Term α φ)
  | .pair t u => some (t, u)
  | _ => none

/-- Only a pair is split, into its parts. -/
theorem split_eq_some : t.split = some (u, v) ↔ t = .pair u v := by
  cases t with
  | pair u' v' => simp [split]
  | _ => simp [split]

variable [DecidableEq α] [DecidableEq φ]

/-- Symmetric decryption. -/
def sdec : Term α φ → (key : Term α φ) → Option (Term α φ)
  | .senc k t _, key => if k = key then some t else none
  | _, _ => none

/-- Asymmetric decryption with a private key. -/
def adec : Term α φ → (key : Term α φ) → Option (Term α φ)
  | .aenc k t _, key => if k = .publicKey key then some t else none
  | _, _ => none

/-- The second message is a signature of `t` for the public key `p`. -/
def verify (p t : Term α φ) : Term α φ → Bool
  | .sign k t' _ => p = .publicKey k ∧ t' = t
  | _ => false

/-- Only the key that has encrypted decrypts. -/
theorem sdec_eq_some : t.sdec k = some u ↔ ∃ r, t = .senc k u r := by
  cases t with
  | senc k' t' r => simp [sdec, and_comm]
  | _ => simp [sdec]

/-- Only the private key for the public key decrypts. -/
theorem adec_eq_some : t.adec k = some u ↔ ∃ r, t = .aenc (.publicKey k) u r := by
  cases t with
  | aenc k' t' r => simp [adec, and_comm]
  | _ => simp [adec]

/-- Only a signature with the private key verifies. -/
theorem verify_eq_true : verify p t u = true ↔ ∃ k r, p = .publicKey k ∧ u = .sign k t r := by
  cases u with
  | sign k' t' r =>
    unfold verify
    rw [decide_eq_true_iff]
    constructor
    · rintro ⟨rfl, rfl⟩
      exact ⟨k', r, rfl, rfl⟩
    · rintro ⟨k, r', rfl, h⟩
      cases h
      exact ⟨rfl, rfl⟩
  | _ => simp [verify]

end Term

section

variable {α φ : Type} {known known' : Term α φ → Prop} {t : Term α φ}

/-- What the adversary can make of the messages it knows. A signature does not hide what it
signs. -/
inductive Derives (known : Term α φ → Prop) : Term α φ → Prop
  | known {t : Term α φ} : known t → Derives known t
  | apply (f : φ) {t : Term α φ} : Derives known t → Derives known (.apply f t)
  | publicKey {k : Term α φ} : Derives known k → Derives known (.publicKey k)
  | pair {t u : Term α φ} : Derives known t → Derives known u → Derives known (.pair t u)
  | fst {t u : Term α φ} : Derives known (.pair t u) → Derives known t
  | snd {t u : Term α φ} : Derives known (.pair t u) → Derives known u
  | senc {k t : Term α φ} (r : ℕ) : Derives known k → Derives known t → Derives known (.senc k t r)
  | sdec {k t : Term α φ} {r : ℕ} : Derives known (.senc k t r) → Derives known k → Derives known t
  | aenc {k t : Term α φ} (r : ℕ) : Derives known k → Derives known t → Derives known (.aenc k t r)
  | adec {k t : Term α φ} {r : ℕ} :
    Derives known (.aenc (.publicKey k) t r) → Derives known k → Derives known t
  | sign {k t : Term α φ} (r : ℕ) : Derives known k → Derives known t → Derives known (.sign k t r)
  | signed {k t : Term α φ} {r : ℕ} : Derives known (.sign k t r) → Derives known t

/-! ## A bound on the knowledge of the adversary -/

/-- A message contains no secret atom, except under a one-way function or where it is sealed, and
no signature with a secret key that is not. -/
def Term.Public (hidden : α → Prop) (sealed : Term α φ → Prop) : Term α φ → Prop
  | .atom a => ¬ hidden a
  | .apply _ _ => True
  | .publicKey _ => True
  | .pair t u => t.Public hidden sealed ∧ u.Public hidden sealed
  | .senc k t r => (k.Public hidden sealed ∧ t.Public hidden sealed) ∨ sealed (.senc k t r)
  | .aenc k t r => (k.Public hidden sealed ∧ t.Public hidden sealed) ∨ sealed (.aenc k t r)
  | .sign k t r => t.Public hidden sealed ∧ (k.Public hidden sealed ∨ sealed (.sign k t r))

variable {hidden hidden' : α → Prop} {sealed sealed' : Term α φ → Prop}

/-- The keys of sealed ciphertexts are not public. -/
structure Sealing (hidden : α → Prop) (sealed : Term α φ → Prop) : Prop where
  senc : ∀ k t r, sealed (.senc k t r) → ¬ k.Public hidden sealed
  aenc : ∀ k t r, sealed (.aenc (.publicKey k) t r) → ¬ k.Public hidden sealed

/-- What is public stays so when secrets are given away and messages are sealed. -/
theorem Term.Public.mono (h : t.Public hidden sealed) (hhidden : ∀ a, hidden' a → hidden a)
    (hsealed : ∀ t, sealed t → sealed' t) : t.Public hidden' sealed' := by
  induction t with
  | atom a => exact fun ha => h (hhidden a ha)
  | apply f t ih => trivial
  | publicKey k ih => trivial
  | pair t u iht ihu => exact ⟨iht h.1, ihu h.2⟩
  | senc k t r ihk iht =>
    obtain ⟨hk, ht⟩ | h := h
    · exact .inl ⟨ihk hk, iht ht⟩
    · exact .inr (hsealed _ h)
  | aenc k t r ihk iht =>
    obtain ⟨hk, ht⟩ | h := h
    · exact .inl ⟨ihk hk, iht ht⟩
    · exact .inr (hsealed _ h)
  | sign k t r ihk iht => exact ⟨iht h.1, h.2.imp ihk (hsealed _)⟩

/-- The adversary derives public messages from public messages. -/
theorem Derives.isPublic (hsealing : Sealing hidden sealed)
    (hknown : ∀ t, known t → t.Public hidden sealed) (h : Derives known t) :
    t.Public hidden sealed := by
  induction h with
  | known ht => exact hknown _ ht
  | apply f _ _ => trivial
  | publicKey _ _ => trivial
  | pair _ _ iht ihu => exact ⟨iht, ihu⟩
  | fst _ ih => exact ih.1
  | snd _ ih => exact ih.2
  | senc r _ _ ihk iht => exact .inl ⟨ihk, iht⟩
  | sdec _ _ ih ihk =>
    obtain ⟨-, ht⟩ | hsealed := ih
    · exact ht
    · exact (hsealing.senc _ _ _ hsealed ihk).elim
  | aenc r _ _ ihk iht => exact .inl ⟨ihk, iht⟩
  | adec _ _ ih ihk =>
    obtain ⟨-, ht⟩ | hsealed := ih
    · exact ht
    · exact (hsealing.aenc _ _ _ hsealed ihk).elim
  | sign r _ _ ihk iht => exact ⟨iht, .inl ihk⟩
  | signed _ ih => exact ih.1

end

end DolevYao
