import Mathlib.Data.List.Forall2
import Mathlib.Data.Option.Basic
import PointNetwork.Encryption.Sites

/-!
# Sites cannot read what is encrypted for other hosts

The adversary sees all that is encrypted, has wallets of honest users decrypt what it likes on its own
hosts, and encrypts what it likes for them. A wallet decrypts for a host what was encrypted for it:
the adversary does not get at the rest.

* `eq_of_decryptSymmetricKey`, `eq_of_decryptData`: what a wallet decrypts was encrypted like this;
* `Safe`: what holds in every run, and `Bounded`: what the adversary can derive at most;
* `secret_kept`: what honest hosts encrypt for honest identities stays secret in every run.
-/

namespace PointNetwork.Encryption.Sites

open Js Machine DolevYao

/-! ## What is decrypted -/

section

variable {host : JsString} {obj cyphertext key t : Message}

/-- A symmetric object is decrypted with its key and for its host only. -/
theorem eq_of_decryptSymmetricKey (h : decryptSymmetricKey host obj key = some t) :
    ∃ rest r, t = .pair (hostNameHash host) rest ∧ obj = .aenc (.publicKey key) t r := by
  unfold decryptSymmetricKey at h
  simp only [Option.bind_eq_bind, Option.bind_eq_some_iff, Prod.exists, Term.split_eq_some,
    Option.guard_eq_some', exists_const, Term.adec_eq_some] at h
  obtain ⟨symmetricObj, ⟨r, rfl⟩, hash, rest, rfl, rfl, heq⟩ := h
  cases heq
  exact ⟨rest, r, rfl, rfl⟩

/-- Data are decrypted with their key and for their host only. -/
theorem eq_of_decryptData (h : decryptData host cyphertext obj key = some t) :
    ∃ symmetricKey rest r r',
      obj = .aenc (.publicKey key) (.pair (hostNameHash host) (.pair symmetricKey rest)) r ∧
        cyphertext = .senc symmetricKey t r' := by
  unfold decryptData at h
  simp only [Option.bind_eq_bind, Option.bind_eq_some_iff] at h
  obtain ⟨symmetricObj, hobj, hdata⟩ := h
  obtain ⟨rest, r, rfl, rfl⟩ := eq_of_decryptSymmetricKey hobj
  unfold decryptDataWithDecryptedKey at hdata
  simp only [Option.bind_eq_bind, Option.bind_eq_some_iff, Prod.exists, Term.split_eq_some,
    Term.pair.injEq, Option.guard_eq_some', exists_const, Term.sdec_eq_some] at hdata
  obtain ⟨_, _, ⟨rfl, rfl⟩, -, symmetricKey, rest, rfl, r', rfl⟩ := hdata
  exact ⟨symmetricKey, rest, r, r', rfl, rfl⟩

end

/-! ## What the adversary cannot derive -/

section

variable (honestHost honest : JsString → Prop) (entries : List Entry)

/-- Only honest hosts and identities are concerned. -/
def Confidential (entry : Entry) : Prop :=
  honestHost entry.host ∧ ∀ identity ∈ entry.identities, honest identity

/-- The secrets, the private keys of honest identities, and the keys of confidential entries. -/
def Hidden : Atom → Prop
  | .host _ => False
  | .bytes _ => False
  | .secret _ => True
  | .privateKey identity => honest identity
  | .symmetricKey n => ∀ entry ∈ entries, entry.n = n → Confidential honestHost honest entry
  | .iv _ => False

/-- The ciphertexts of confidential entries. -/
def Sealed (m : Message) : Prop :=
  ∃ entry ∈ entries, Confidential honestHost honest entry ∧
    ((∃ data, m = .senc (symmetricKey entry.n) data entry.n) ∨
      ∃ identity r, honest identity ∧ m = .aenc (.publicKey (privateKey identity))
        (record entry.host (symmetricKey entry.n) (iv entry.n)) r)

/-- The adversary can derive no more than such messages. -/
def Bounded (m : Message) : Prop :=
  m.Public (Hidden honestHost honest entries) (Sealed honestHost honest entries)

/-- What holds of the state in every run. -/
structure Safe (s : State) : Prop where
  registered : ∀ identity, honest identity →
    s.registry identity = some (.publicKey (privateKey identity))
  registry : ∀ identity key, s.registry identity = some key → Bounded honestHost honest s.entries key
  number : ∀ entry ∈ s.entries, entry.n < s.n
  distinct : ∀ entry ∈ s.entries, ∀ entry' ∈ s.entries, entry.n = entry'.n → entry = entry'
  encrypted : ∀ m ∈ s.encrypted, Bounded honestHost honest s.entries m
  learned : ∀ m ∈ s.learned, Bounded honestHost honest s.entries m

end

section

variable {honestHost honest : JsString → Prop} {es es' : List Entry} {s t : State} {m : Message}
  {entry : Entry}

/-- More entries allow no less. -/
theorem Bounded.mono (h : Bounded honestHost honest es m) (hes : ∀ entry ∈ es, entry ∈ es') :
    Bounded honestHost honest es' m := by
  apply Term.Public.mono h
  · intro a ha
    cases a with
    | symmetricKey n => exact fun entry hentry => ha entry (hes entry hentry)
    | _ => exact ha
  · intro m hm
    obtain ⟨entry, hentry, hrest⟩ := hm
    exact ⟨entry, hes entry hentry, hrest⟩

/-- The key of a confidential entry is hidden. -/
theorem Safe.hidden (h : Safe honestHost honest s) (hentry : entry ∈ s.entries)
    (hconf : Confidential honestHost honest entry) :
    Hidden honestHost honest s.entries (.symmetricKey entry.n) := by
  intro entry' hentry' hn
  obtain rfl := h.distinct entry' hentry' entry hentry hn
  exact hconf

/-- In a safe state the secrets are sealed. -/
theorem Safe.sealing (h : Safe honestHost honest s) :
    Sealing (Hidden honestHost honest s.entries) (Sealed honestHost honest s.entries) where
  senc := by
    intro k t r hsealed hk
    obtain ⟨entry, hentry, hconf, ⟨data, heq⟩ | ⟨identity, r', -, heq⟩⟩ := hsealed
    · cases heq
      exact hk (h.hidden hentry hconf)
    · cases heq
  aenc := by
    intro k t r hsealed hk
    obtain ⟨entry, hentry, hconf, ⟨data, heq⟩ | ⟨identity, r', hidentity, heq⟩⟩ := hsealed
    · cases heq
    · cases heq
      exact hk hidentity

/-- What the adversary derives is bounded. -/
theorem Safe.bounded (h : Safe honestHost honest s) (hm : Derives (Knows honest s) m) :
    Bounded honestHost honest s.entries m := by
  apply hm.isPublic h.sealing
  intro m hm
  cases hm with
  | host _ => exact id
  | bytes _ => exact id
  | privateKey identity hnot => exact hnot
  | publicKey _ => trivial
  | encrypted hm => exact h.encrypted m hm
  | learned hm => exact h.learned m hm

/-! ## One step -/

/-- Each object is encrypted to one of the public keys. -/
theorem mem_encryptForKeys {symmetricObj : Message} {publicKeys : List Message} {r : ℕ}
    (h : m ∈ encryptForKeys symmetricObj publicKeys r) :
    ∃ pk ∈ publicKeys, ∃ r', m = .aenc pk symmetricObj r' := by
  induction publicKeys generalizing r with
  | nil => cases h
  | cons pk publicKeys ih =>
    obtain rfl | h := List.mem_cons.mp h
    · exact ⟨pk, List.mem_cons_self, r, rfl⟩
    · obtain ⟨pk', hpk', r', rfl⟩ := ih h
      exact ⟨pk', List.mem_cons_of_mem _ hpk', r', rfl⟩

/-- The messages of an entry that is confidential are sealed. -/
theorem bounded_of_confidential {publicKeys : List Message} {data : Message} (hentry : entry ∈ es)
    (hconf : Confidential honestHost honest entry)
    (hkeys : ∀ pk ∈ publicKeys, ∃ identity, honest identity ∧ pk = .publicKey (privateKey identity)) :
    ∀ m ∈ (encryptEntry entry.host publicKeys data entry.n).1 ::
      (encryptEntry entry.host publicKeys data entry.n).2, Bounded honestHost honest es m := by
  intro m hm
  obtain rfl | hm := List.mem_cons.mp hm
  · exact .inr ⟨entry, hentry, hconf, .inl ⟨data, rfl⟩⟩
  · obtain ⟨pk, hpk, r, rfl⟩ := mem_encryptForKeys hm
    obtain ⟨identity, hidentity, rfl⟩ := hkeys pk hpk
    exact .inr ⟨entry, hentry, hconf, .inr ⟨identity, r, hidentity, rfl⟩⟩

/-- The messages of another entry contain no secret when its data does not. -/
theorem bounded_of_not_confidential {publicKeys : List Message} {data : Message}
    (hentry : entry ∈ es) (hconf : ¬ Confidential honestHost honest entry)
    (hdata : Bounded honestHost honest es data)
    (hkeys : ∀ pk ∈ publicKeys, Bounded honestHost honest es pk) :
    ∀ m ∈ (encryptEntry entry.host publicKeys data entry.n).1 ::
      (encryptEntry entry.host publicKeys data entry.n).2, Bounded honestHost honest es m := by
  have hkey : Bounded honestHost honest es (symmetricKey entry.n) :=
    fun hhidden => hconf (hhidden entry hentry rfl)
  intro m hm
  obtain rfl | hm := List.mem_cons.mp hm
  · exact .inl ⟨hkey, hdata⟩
  · obtain ⟨pk, hpk, r, rfl⟩ := mem_encryptForKeys hm
    exact .inl ⟨hkeys pk hpk, trivial, hkey, id, id⟩

/-- What a call encrypts are the messages of its entries. -/
theorem mem_encryptMultipleData {host : JsString} {identities : List JsString}
    {publicKeys dataArray : List Message} {n : ℕ}
    (hm : m ∈ (encryptMultipleData host publicKeys dataArray n).flatMap
      fun entry => entry.1 :: entry.2) :
    ∃ entry ∈ entries host identities publicKeys.length dataArray n, ∃ data ∈ dataArray,
      m ∈ (encryptEntry entry.host publicKeys data entry.n).1 ::
        (encryptEntry entry.host publicKeys data entry.n).2 := by
  induction dataArray generalizing n with
  | nil => cases hm
  | cons data dataArray ih =>
    unfold encryptMultipleData at hm
    rw [List.flatMap_cons, List.mem_append] at hm
    obtain hm | hm := hm
    · exact ⟨⟨host, identities, n⟩, List.mem_cons_self, data, List.mem_cons_self, hm⟩
    · obtain ⟨entry, hentry, data', hdata', hm⟩ := ih hm
      exact ⟨entry, List.mem_cons_of_mem _ hentry, data', List.mem_cons_of_mem _ hdata', hm⟩

/-- Each entry has the host and the identities of its call, and a number of its own. -/
theorem mem_entries {host : JsString} {identities : List JsString} {keys n : ℕ}
    {dataArray : List Message} (h : entry ∈ entries host identities keys dataArray n) :
    entry.host = host ∧ entry.identities = identities ∧ n ≤ entry.n ∧
      entry.n < n + dataArray.length * (1 + keys) := by
  induction dataArray generalizing n with
  | nil => cases h
  | cons data dataArray ih =>
    have hlength : (data :: dataArray).length * (1 + keys) =
        1 + keys + dataArray.length * (1 + keys) := by
      rw [List.length_cons, Nat.succ_mul]
      omega
    rw [hlength]
    obtain rfl | h := List.mem_cons.mp h
    · exact ⟨rfl, rfl, Nat.le_refl _, by dsimp only; omega⟩
    · obtain ⟨hhost, hidentities, hle, hlt⟩ := ih h
      exact ⟨hhost, hidentities, by omega, by omega⟩

/-- The entries of a call have different numbers. -/
theorem entries_distinct {host : JsString} {identities : List JsString} {keys n : ℕ}
    {dataArray : List Message} {entry' : Entry}
    (h : entry ∈ entries host identities keys dataArray n)
    (h' : entry' ∈ entries host identities keys dataArray n) (hn : entry.n = entry'.n) :
    entry = entry' := by
  obtain ⟨hhost, hidentities, -, -⟩ := mem_entries h
  obtain ⟨hhost', hidentities', -, -⟩ := mem_entries h'
  cases entry
  cases entry'
  cases hhost
  cases hidentities
  cases hhost'
  cases hidentities'
  cases hn
  rfl

/-- The keys that are found are registered. -/
theorem mem_registry {registry : JsString → Option Message} {identities : List JsString}
    {publicKeys : List Message} (h : identities.mapM registry = some publicKeys) {pk : Message}
    (hpk : pk ∈ publicKeys) : ∃ identity ∈ identities, registry identity = some pk := by
  induction identities generalizing publicKeys with
  | nil =>
    cases h
    cases hpk
  | cons identity identities ih =>
    simp only [List.mapM_cons, Option.bind_eq_bind, Option.bind_eq_some_iff] at h
    obtain ⟨key, hkey, keys, hkeys, heq⟩ := h
    cases heq
    obtain rfl | hpk := List.mem_cons.mp hpk
    · exact ⟨identity, List.mem_cons_self, hkey⟩
    · obtain ⟨identity', hmem, hregistered⟩ := ih hkeys hpk
      exact ⟨identity', List.mem_cons_of_mem _ hmem, hregistered⟩

/-- A registration of the adversary keeps the state safe. -/
theorem step_register {identity : JsString} {key : Message} (h : Safe honestHost honest s)
    (hidentity : ¬ honest identity) (hkey : Derives (Knows honest s) key) :
    Safe honestHost honest
      { s with registry := Function.update s.registry identity (some key) } where
  registered identity' h' := by
    have hne : identity' ≠ identity := fun heq => hidentity (heq ▸ h')
    show Function.update s.registry identity (some key) identity' = _
    rw [Function.update_of_ne hne]
    exact h.registered identity' h'
  registry identity' key' h' := by
    have h' : Function.update s.registry identity (some key) identity' = some key' := h'
    by_cases hidentity' : identity' = identity
    · subst hidentity'
      rw [Function.update_self] at h'
      cases h'
      exact h.bounded hkey
    · rw [Function.update_of_ne hidentity'] at h'
      exact h.registry identity' key' h'
  number := h.number
  distinct := h.distinct
  encrypted := h.encrypted
  learned := h.learned

/-- An encryption keeps the state safe. -/
theorem step_encrypt {host : JsString} {identities : List JsString}
    {publicKeys dataArray : List Message} (h : Safe honestHost honest s)
    (hable : (honestHost host ∧ ∀ identity ∈ identities, honest identity) ∨
      ∀ data ∈ dataArray, Derives (Knows honest s) data)
    (hkeys : identities.mapM s.registry = some publicKeys) :
    Safe honestHost honest { s with
      entries := s.entries ++ entries host identities publicKeys.length dataArray s.n
      encrypted := s.encrypted ++ (encryptMultipleData host publicKeys dataArray s.n).flatMap
        fun entry => entry.1 :: entry.2
      n := s.n + dataArray.length * (1 + publicKeys.length) } where
  registered := h.registered
  registry identity key h' := (h.registry identity key h').mono fun _ => List.mem_append_left _
  number entry hentry := by
    obtain hold | hnew := List.mem_append.mp hentry
    · have hlt := h.number entry hold
      dsimp only
      omega
    · exact (mem_entries hnew).2.2.2
  distinct entry hentry entry' hentry' hn := by
    obtain hold | hnew := List.mem_append.mp hentry
    · obtain hold' | hnew' := List.mem_append.mp hentry'
      · exact h.distinct entry hold entry' hold' hn
      · have hlt := h.number entry hold
        have hle := (mem_entries hnew').2.2.1
        omega
    · obtain hold' | hnew' := List.mem_append.mp hentry'
      · have hlt := h.number entry' hold'
        have hle := (mem_entries hnew).2.2.1
        omega
      · exact entries_distinct hnew hnew' hn
  encrypted m hm := by
    obtain hold | hnew := List.mem_append.mp hm
    · exact (h.encrypted m hold).mono fun _ => List.mem_append_left _
    · obtain ⟨entry, hentry, data, hdata, hm⟩ := mem_encryptMultipleData hnew
      obtain ⟨hhost, hidentities, -, -⟩ := mem_entries hentry
      have hmem := List.mem_append_right s.entries hentry
      by_cases hconf : Confidential honestHost honest entry
      · refine bounded_of_confidential hmem hconf (fun pk hpk => ?_) m hm
        obtain ⟨identity, hidentity, hregistered⟩ := mem_registry hkeys hpk
        have hhonest := hconf.2 identity (hidentities ▸ hidentity)
        rw [h.registered identity hhonest] at hregistered
        exact ⟨identity, hhonest, (Option.some.inj hregistered).symm⟩
      · refine bounded_of_not_confidential hmem hconf ?_ (fun pk hpk => ?_) m hm
        · obtain ⟨hhonest, hall⟩ | hderives := hable
          · exact (hconf ⟨hhost ▸ hhonest, hidentities ▸ hall⟩).elim
          · exact (h.bounded (hderives data hdata)).mono fun _ => List.mem_append_left _
        · obtain ⟨identity, -, hregistered⟩ := mem_registry hkeys hpk
          exact (h.registry identity pk hregistered).mono fun _ => List.mem_append_left _
  learned m hm := (h.learned m hm).mono fun _ => List.mem_append_left _

theorem safe_init [DecidablePred honest] : Safe honestHost honest (.init honest) where
  registered identity h := if_pos h
  registry identity key h := by
    have h : (if honest identity then some (Term.publicKey (privateKey identity)) else none) =
      some key := h
    split_ifs at h
    cases h
    trivial
  number _ h := (List.not_mem_nil h).elim
  distinct _ h := (List.not_mem_nil h).elim
  encrypted _ h := (List.not_mem_nil h).elim
  learned _ h := (List.not_mem_nil h).elim

/-- A wallet that opens a symmetric object for a site of the adversary tells it nothing new: the
objects of confidential entries are for other hosts. -/
theorem bounded_symmetricObj {host identity : JsString} {rest : Message} {r : ℕ}
    (hhost : ¬ honestHost host) (hm : Bounded honestHost honest es
      (.aenc (.publicKey (privateKey identity)) (.pair (hostNameHash host) rest) r)) :
    Bounded honestHost honest es rest := by
  obtain ⟨-, -, hrest⟩ | ⟨entry, hentry, hconf, ⟨data, heq⟩ | ⟨identity', r', -, heq⟩⟩ := hm
  · exact hrest
  · cases heq
  · cases heq
    exact (hhost hconf.1).elim

variable [DecidablePred honestHost]

/-- A wallet may reply to a site of the adversary with what is bounded. -/
theorem step_reply {host : JsString} (h : Safe honestHost honest s)
    (hm : ¬ honestHost host → Bounded honestHost honest s.entries m) :
    Safe honestHost honest (s.reply honestHost host m) := by
  unfold State.reply
  split_ifs with hhost
  · exact h
  · refine ⟨h.registered, h.registry, h.number, h.distinct, h.encrypted, fun m' hm' => ?_⟩
    obtain hm' | hm' := List.mem_append.mp hm'
    · exact h.learned m' hm'
    · obtain rfl := List.mem_singleton.mp hm'
      exact hm hhost

/-- Each event keeps the state safe. -/
theorem step_safe {e : Event} (h : Safe honestHost honest s) (hok : Able honestHost honest s e)
    (hs : step honestHost s e = some t) : Safe honestHost honest t := by
  cases e with
  | register identity key =>
    cases hs
    exact step_register h hok.1 hok.2
  | encryptMultipleData host dataArray identities =>
    obtain ⟨publicKeys, hkeys, rfl⟩ := Option.map_eq_some_iff.mp hs
    exact step_encrypt h hok hkeys
  | decryptData host identity cyphertext obj =>
    obtain ⟨plaintext, hplaintext, rfl⟩ := Option.map_eq_some_iff.mp hs
    obtain ⟨key, rest, r, r', rfl, rfl⟩ := eq_of_decryptData hplaintext
    refine step_reply h fun hhost => ?_
    obtain ⟨-, hhonest | ⟨hcyphertext, hobj⟩⟩ := hok
    · exact (hhost hhonest).elim
    · have hkey := (bounded_symmetricObj hhost (h.bounded hobj)).1
      obtain ⟨-, hdata⟩ | hsealed := h.bounded hcyphertext
      · exact hdata
      · exact (h.sealing.senc _ _ _ hsealed hkey).elim
  | decryptSymmetricKey host identity obj =>
    obtain ⟨symmetricObj, hsymmetric, rfl⟩ := Option.map_eq_some_iff.mp hs
    obtain ⟨rest, r, rfl, rfl⟩ := eq_of_decryptSymmetricKey hsymmetric
    refine step_reply h fun hhost => ?_
    obtain ⟨-, hhonest | hobj⟩ := hok
    · exact (hhost hhonest).elim
    · exact ⟨trivial, bounded_symmetricObj hhost (h.bounded hobj)⟩

/-- In every run the adversary learns no secret that honest hosts have encrypted for honest identities,
no key that they were encrypted with and no private key of an honest identity: neither from what is
encrypted nor from what wallets decrypt for its own sites. -/
theorem secret_kept [DecidablePred honest]
    (hreach : Reach (step honestHost) (Able honestHost honest) (.init honest) s) :
    (∀ n, ¬ Derives (Knows honest s) (secret n)) ∧
      (∀ entry ∈ s.entries, Confidential honestHost honest entry →
        ¬ Derives (Knows honest s) (symmetricKey entry.n)) ∧
      ∀ identity, honest identity → ¬ Derives (Knows honest s) (privateKey identity) := by
  have hsafe : Safe honestHost honest s :=
    hreach.invariant safe_init fun _ _ _ h hok hs => step_safe h hok hs
  refine ⟨fun n hn => ?_, fun entry hentry hconf hn => ?_, fun identity hidentity hn => ?_⟩
  · exact hsafe.bounded hn trivial
  · exact hsafe.bounded hn (hsafe.hidden hentry hconf)
  · exact hsafe.bounded hn hidentity

end

/-! ## A run -/

/-- The host of the small run. -/
def oneHost (host : JsString) : Prop := host = js "a.point"

instance : DecidablePred oneHost := fun _ => inferInstanceAs (Decidable (_ = _))

/-- The identity of the small run. -/
def oneUser (identity : JsString) : Prop := identity = js "u"

instance : DecidablePred oneUser := fun _ => inferInstanceAs (Decidable (_ = _))

/-- The public key of `u`. -/
def keyOfU : Message := .publicKey (privateKey (js "u"))

/-- What the host `a.point` has encrypted, and then the site `e.point`, for the same user. -/
def twoCalls : State where
  registry := (State.init oneUser).registry
  entries := [⟨js "a.point", [js "u"], 0⟩, ⟨js "e.point", [js "u"], 2⟩]
  encrypted := [.senc (symmetricKey 0) (secret 0) 0,
    .aenc keyOfU (record (js "a.point") (symmetricKey 0) (iv 0)) 1,
    .senc (symmetricKey 2) (.atom (.bytes [1])) 2,
    .aenc keyOfU (record (js "e.point") (symmetricKey 2) (iv 2)) 3]
  learned := []
  n := 4

/-- The site has had the wallet decrypt what it has encrypted. -/
def oneReply : State := { twoCalls with learned := [.atom (.bytes [1])] }

theorem reach_oneReply : Reach (step oneHost) (Able oneHost oneUser) (.init oneUser) oneReply := by
  have hfirst : Reach (step oneHost) (Able oneHost oneUser) (.init oneUser)
      { twoCalls with
        entries := twoCalls.entries.take 1
        encrypted := twoCalls.encrypted.take 2
        n := 2 } := by
    apply Reach.init.step (e := .encryptMultipleData (js "a.point") [secret 0] [js "u"])
    · exact .inl ⟨by decide, by decide⟩
    · rfl
  have hcalls : Reach (step oneHost) (Able oneHost oneUser) (.init oneUser) twoCalls := by
    apply hfirst.step (e := .encryptMultipleData (js "e.point") [.atom (.bytes [1])] [js "u"])
    · refine .inr fun data hdata => ?_
      obtain rfl := List.mem_singleton.mp hdata
      exact .known (.bytes [1])
    · rfl
  apply hcalls.step (e := .decryptData (js "e.point") (js "u")
    (.senc (symmetricKey 2) (.atom (.bytes [1])) 2)
    (.aenc keyOfU (record (js "e.point") (symmetricKey 2) (iv 2)) 3))
  · exact ⟨by decide, .inr ⟨.known (.encrypted (by simp [twoCalls])),
      .known (.encrypted (by simp [twoCalls]))⟩⟩
  · rfl

theorem secret_kept_oneReply : ¬ Derives (Knows oneUser oneReply) (secret 0) :=
  (secret_kept reach_oneReply).1 0

-- On its own host the secret is decrypted for the user.
example : decryptData (js "a.point") (.senc (symmetricKey 0) (secret 0) 0)
    (.aenc keyOfU (record (js "a.point") (symmetricKey 0) (iv 0)) 1) (privateKey (js "u")) =
      some (secret 0) := by decide

end PointNetwork.Encryption.Sites
