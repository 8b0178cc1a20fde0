import PointNetwork.Js.Ascii
import PointNetwork.NameService.DomainCache
import PointNetwork.NameService.Registry

/-!
# Domains of Solana and Ethereum

What `resolveDomain` and the functions that write do with the chain, in `network/providers/solana.ts`
and `network/providers/ethereum.js`, on top of the runs of `DomainCache`. The history of a chain, with
the transactions of all of the world, is a function of its height. The program of the Solana name
service is a parameter.

* `contentOf_written`: what is read of a record after any sequence of updates;
* `sol_content_since` and `ens_content_since`: when the last content that was set is all that is
  answered;
* `sol_content_stale`: that the old content can be answered after the new one has been set, although the
  entry is removed so that this does not happen.
-/

namespace PointNetwork.NameService

open Js Machine DomainCache

/-- The key of a request: the network and the name as it was asked for. -/
abbrev Key := JsString × JsString

/-- The separator of a cache key. -/
def colon : UInt16 := 0x3A

/-- `${network}:${domainName}` -/
def cacheKey (k : Key) : JsString := k.1 ++ colon :: k.2

/-- The names of networks have no colon, so that the text has only one reading. -/
theorem cacheKey_injective {k k' : Key} (h : colon ∉ k.1) (h' : colon ∉ k'.1)
    (heq : cacheKey k = cacheKey k') : k = k' := by
  have hindex : ∀ k : Key, colon ∉ k.1 → (cacheKey k).idxOf colon = k.1.length := by
    intro k hk
    rw [cacheKey, List.idxOf_append_of_notMem hk, List.idxOf_cons_self, Nat.add_zero]
  have hlength : k.1.length = k'.1.length := by rw [← hindex k h, heq, hindex k' h']
  obtain ⟨hnetwork, hname⟩ := List.append_inj heq hlength
  exact Prod.ext hnetwork (List.cons.inj hname).2

/-! ## The POINT record of a `.sol` domain -/

/-- The name without `.sol`; the pattern `/.sol$/` takes the last four units. -/
def withoutSol (domainName : JsString) : JsString :=
  if js ".sol" <:+ domainName then domainName.take (domainName.length - 4) else domainName

/-- `data?.toString().replace(/\\x00/g, '') || null` -/
def contentOf (data : Bytes) : Option JsString :=
  let text := (bufferToString data).filter (· ≠ 0)
  if text = [] then none else some text

/-- `dataToWrite` of `updatePointRecord` -/
def dataToWrite (data : JsString) : Except Exception Bytes :=
  let dataBuf := bufferFrom data
  if dataBuf.length > 1000 then
    .error (.error s!"Data to be writen to POINT record is too large: {dataBuf.length}, max allowed is 1000 bytes.")
  else .ok (dataBuf ++ List.replicate (1000 - dataBuf.length) 0)

/-- What the program of the name service does with the data of a record, behind `@bonfida`'s
`createNameRegistry` and `updateInstruction`. -/
structure NameProgram where
  /-- The data of a new record with this space. -/
  created : ℕ → Bytes
  /-- What an update with these bytes makes of the data. -/
  update : (data : Bytes) → (offset : ℕ) → (bytes : Bytes) → Bytes

/-- What the provider relies on: a new record is all zeros, and an update that fits puts its bytes in
the place of those at its offset. -/
structure NameProgram.Lawful (program : NameProgram) : Prop where
  created : ∀ space, program.created space = List.replicate space 0
  update : ∀ data offset bytes, offset + bytes.length ≤ data.length →
    program.update data offset bytes =
      data.take offset ++ bytes ++ data.drop (offset + bytes.length)

section Records

variable (program : NameProgram)

/-- `createPointRecord` -/
def createdRecord : Bytes := program.created 2000

/-- `updatePointRecord`. An update that is too large is not sent. -/
def updated (record : Bytes) (data : JsString) : Bytes :=
  match dataToWrite data with
  | .ok bytes => program.update record 0 bytes
  | .error _ => record

/-- A record that only `updatePointRecord` has written to. -/
def written (updates : List JsString) : Bytes :=
  updates.foldl (updated program) (createdRecord program)

end Records

/-- The text of a buffer that begins with an encoded text. -/
lemma bufferToString_append (s : JsString) (rest : Bytes) :
    bufferToString (bufferFrom s ++ rest) = toWellFormed s ++ bufferToString rest := by
  have h := utf8Run_flatMap (fun c hc => isScalar_of_mem_codePoints (s := s) hc) rest
  unfold bufferToString bufferFrom toWellFormed
  rw [h, ofCodePoints_append]

lemma bufferToString_zeros (n : ℕ) :
    bufferToString (List.replicate n 0) = List.replicate n 0 := by
  induction n with
  | zero => rfl
  | succ n ih =>
    have hzero : bufferFrom [0] = [0] := by decide
    rw [List.replicate_succ, ← List.singleton_append, ← hzero, bufferToString_append, ih]
    rfl

/-- A content that fits is padded with zeros. -/
lemma dataToWrite_of_le {data : JsString} (hsize : (bufferFrom data).length ≤ 1000) :
    dataToWrite data =
      .ok (bufferFrom data ++ List.replicate (1000 - (bufferFrom data).length) 0) := by
  unfold dataToWrite
  dsimp only
  rw [if_neg (by omega)]

section Records

variable {program : NameProgram} (hprogram : program.Lawful)

include hprogram

/-- An update that is not too large leaves nothing of the first 1000 bytes. -/
lemma updated_append {data : JsString} (hsize : (bufferFrom data).length ≤ 1000) {front : Bytes}
    (hfront : front.length = 1000) (rest : Bytes) :
    updated program (front ++ rest) data =
      bufferFrom data ++ (List.replicate (1000 - (bufferFrom data).length) 0 ++ rest) := by
  have hlength : (bufferFrom data ++
      List.replicate (1000 - (bufferFrom data).length) 0).length = 1000 := by
    rw [List.length_append, List.length_replicate]
    omega
  have hfits : 0 + (bufferFrom data ++
      List.replicate (1000 - (bufferFrom data).length) 0).length ≤ (front ++ rest).length := by
    rw [hlength, List.length_append, hfront]
    omega
  rw [updated, dataToWrite_of_le hsize]
  dsimp only
  rw [hprogram.update _ _ _ hfits, hlength, List.take_zero, List.nil_append, Nat.zero_add,
    List.drop_left' hfront, List.append_assoc]

/-- Behind its first 1000 bytes a record stays as it was created. -/
lemma written_spec (updates : List JsString) : ∃ front : Bytes, front.length = 1000 ∧
    written program updates = front ++ List.replicate 1000 0 := by
  induction updates using List.reverseRecOn with
  | nil =>
    refine ⟨List.replicate 1000 0, List.length_replicate, ?_⟩
    show program.created 2000 = _
    rw [hprogram.created, List.replicate_append_replicate]
  | append_singleton updates data ih =>
    obtain ⟨front, hfront, hwritten⟩ := ih
    unfold written at hwritten ⊢
    rw [List.foldl_append, List.foldl_cons, List.foldl_nil, hwritten]
    by_cases hsize : (bufferFrom data).length ≤ 1000
    · refine ⟨bufferFrom data ++ List.replicate (1000 - (bufferFrom data).length) 0, ?_, ?_⟩
      · rw [List.length_append, List.length_replicate]
        omega
      · rw [updated_append hprogram hsize hfront, List.append_assoc]
    · refine ⟨front, hfront, ?_⟩
      unfold updated dataToWrite
      dsimp only
      rw [if_pos (by omega)]

/-- What is read after some updates is the text of the last of them, without its zeros. -/
theorem contentOf_written {data : JsString} (hsize : (bufferFrom data).length ≤ 1000)
    (updates : List JsString) :
    contentOf (written program (updates ++ [data])) =
      let text := (toWellFormed data).filter (· ≠ 0)
      if text = [] then none else some text := by
  obtain ⟨front, hfront, hwritten⟩ := written_spec hprogram updates
  have hlast : written program (updates ++ [data]) = bufferFrom data ++
      List.replicate (1000 - (bufferFrom data).length + 1000) 0 := by
    unfold written at hwritten ⊢
    rw [List.foldl_append, List.foldl_cons, List.foldl_nil, hwritten,
      updated_append hprogram hsize hfront, List.replicate_append_replicate]
  unfold contentOf
  rw [hlast, bufferToString_append, bufferToString_zeros, List.filter_append, List.filter_replicate]
  simp

/-- A text without zeros and lone surrogates is read as it was written. -/
lemma contentOf_written_self {data : JsString} (hsize : (bufferFrom data).length ≤ 1000)
    (hclean : (toWellFormed data).filter (· ≠ 0) = data) (hne : data ≠ []) (updates : List JsString) :
    contentOf (written program (updates ++ [data])) = some data := by
  rw [contentOf_written hprogram hsize, hclean]
  exact if_neg hne

end Records

/-! ## The runs -/

/-- `cacheExpiration` of both caches: two minutes -/
def cacheExpiration : ℕ := 2 * 60 * 1000

/-- A .sol domain on the chain. -/
structure SolDomain where
  owner : JsString
  /-- The data of the POINT record. -/
  record : Option Bytes

/-- What a request gives: the owner and, read later, the content of the record. Without a record, or
when the call for it throws, there is no content. -/
def SolFetched (chain : ℕ → Key → Option SolDomain) (k : Key) (a b : ℕ) (v : DomainRegistry) : Prop :=
  ∃ h₁ h₂ domain, a ≤ h₁ ∧ h₁ ≤ h₂ ∧ h₂ ≤ b ∧ chain h₁ (k.1, withoutSol k.2) = some domain ∧
    v.owner = domain.owner ∧ (v.content = none ∨
      ∃ domain' record, chain h₂ (k.1, withoutSol k.2) = some domain' ∧
        domain'.record = some record ∧ v.content = contentOf record)

/-- When a node, or several of them, have set the content of a `.sol` domain, and nobody has written
something else since the height `L`: two minutes after the last request from before `L` has ended, all
that is answered for the domain is this content, or none if the record could not be read. After the
entry was removed it is so at once. -/
theorem sol_content_since {program : NameProgram} (hprogram : program.Lawful)
    {chain : ℕ → Key → Option SolDomain} {s s' : State Key DomainRegistry} {k : Key} {L : ℕ}
    {data : JsString} (hsize : (bufferFrom data).length ≤ 1000)
    (hchain : ∀ h, L ≤ h → ∀ domain, chain h (k.1, withoutSol k.2) = some domain →
      ∃ updates, domain.record = some (written program (updates ++ [data])))
    (hreach : Reach step (Able (SolFetched chain)) (.init cacheExpiration) s) (hL : L ≤ s.height)
    (hfetches : ∀ i since, s.fetches i = some (k, since) → L ≤ since)
    (hlater : Reach step (Able (SolFetched chain)) s s') :
    ∃ new, s'.answers = new ++ s.answers ∧ ∀ a ∈ new, a.key = k →
      s.now + cacheExpiration < a.now ∨
        (∀ entry, s.cache.cache.get k = some entry → L ≤ entry.entry.since) →
      a.stamped.value.content = none ∨
        a.stamped.value.content = some ((toWellFormed data).filter (· ≠ 0)) := by
  obtain ⟨new, hnew, hall⟩ := answer_since (by decide) k hreach hL hfetches hlater
  refine ⟨new, hnew, fun a ha hkey hcond => ?_⟩
  obtain ⟨hsince, h, -, -, hfetched⟩ := hall a ha hkey hcond
  obtain ⟨h₁, h₂, -, hle₁, hle₂, -, -, -, hnone | ⟨domain', record, hdomain, hrecord, hcontent⟩⟩ :=
    hfetched
  · exact .inl hnone
  · rw [hkey] at hdomain
    obtain ⟨updates, hwritten⟩ := hchain h₂ (by omega) domain' hdomain
    obtain rfl := Option.some.inj (hrecord.symm.trans hwritten)
    rw [contentOf_written hprogram hsize] at hcontent
    dsimp only at hcontent
    split_ifs at hcontent with hempty
    · exact .inl hcontent
    · exact .inr hcontent

/-- A program that overwrites what is there. -/
def overwriting : NameProgram where
  created space := List.replicate space 0
  update data offset bytes :=
    if offset + bytes.length ≤ data.length then
      data.take offset ++ bytes ++ data.drop (offset + bytes.length)
    else data

/-- Overwriting keeps the laws of the program. -/
lemma lawful_overwriting : overwriting.Lawful where
  created _ := rfl
  update _ _ _ h := if_pos h

/-- Two updates; the second one is in the block of height 1. -/
def twoUpdates (h : ℕ) (_ : Key) : Option SolDomain :=
  some ⟨js "o", some (written overwriting (if h = 0 then [js "a=1"] else [js "a=1", js "a=2"]))⟩

/-- The key of the sample domain. -/
def oneKey : Key := (js "solana", js "a.sol")

lemma contentOf_twoUpdates : contentOf (written overwriting [js "a=1"]) = some (js "a=1") ∧
    contentOf (written overwriting [js "a=1", js "a=2"]) = some (js "a=2") :=
  ⟨contentOf_written_self lawful_overwriting (by decide +kernel) (by decide +kernel) (by decide) [],
    contentOf_written_self lawful_overwriting (by decide +kernel) (by decide +kernel) (by decide)
      [js "a=1"]⟩

/-- The first content is in the cache when the second one is written, and is out of it later. -/
theorem sol_content_since_two : ∃ s s' a, Reach step (Able (SolFetched twoUpdates)) s s' ∧
    s.answers.map (·.stamped.value.content) = [some (js "a=1")] ∧ s'.answers = a :: s.answers ∧
    (a.stamped.value.content = none ∨ a.stamped.value.content = some (js "a=2")) := by
  have hsize : (bufferFrom (js "a=2")).length ≤ 1000 := by decide +kernel
  have htext : (toWellFormed (js "a=2")).filter (· ≠ 0) = js "a=2" := by decide +kernel
  have hold : SolFetched twoUpdates oneKey 0 0 ⟨js "o", some (js "a=1")⟩ :=
    ⟨0, 0, _, Nat.le_refl _, Nat.le_refl _, Nat.le_refl _, rfl, rfl,
      .inr ⟨_, _, rfl, rfl, contentOf_twoUpdates.1.symm⟩⟩
  have hnew : SolFetched twoUpdates oneKey 1 1 ⟨js "o", some (js "a=2")⟩ :=
    ⟨1, 1, _, Nat.le_refl _, Nat.le_refl _, Nat.le_refl _, rfl, rfl,
      .inr ⟨_, _, rfl, rfl, contentOf_twoUpdates.2.symm⟩⟩
  obtain ⟨s, s', a, hreach, hlater, hheight, hfetches, hbefore, hafter, hkey, hnow⟩ :=
    exists_asked_again (show 0 < cacheExpiration by decide) hold hnew
  refine ⟨s, s', a, hlater, by rw [hbefore]; rfl, hafter, ?_⟩
  obtain ⟨new, hall, hnew⟩ := sol_content_since lawful_overwriting hsize
    (fun h hh domain hdomain => ⟨[js "a=1"], by
      cases hdomain
      rw [if_neg (by omega)]
      rfl⟩) hreach hheight.ge (fun i since h => by rw [hfetches] at h; cases h) hlater
  have hmem : a ∈ new := by
    have happend : [a] ++ s.answers = new ++ s.answers := hafter.symm.trans hall
    rw [← List.append_cancel_right happend]
    exact List.mem_singleton_self a
  have hanswer := hnew a hmem hkey (.inl hnow)
  rw [htext] at hanswer
  exact hanswer

/-- However a node has run: when it has sent an update of a record, and a request comes before the update
is on the chain, the content from before the update is still answered two minutes later. -/
theorem sol_content_stale {chain : ℕ → Key → Option SolDomain} {s : State Key DomainRegistry} (k : Key)
    {i : ℕ} {domain : SolDomain} {record : Bytes}
    (hreach : Reach step (Able (SolFetched chain)) (.init cacheExpiration) s)
    (hidle : s.fetches i = none) (hdomain : chain s.height (k.1, withoutSol k.2) = some domain)
    (hrecord : domain.record = some record) :
    ∃ s₁ s', step s (.sent k) = some s₁ ∧ Reach step (Able (SolFetched chain)) s₁ s' ∧
      s'.height = s.height + 1 ∧ s'.now = s.now + cacheExpiration ∧
      s'.answers.head? =
        some ⟨k, ⟨⟨domain.owner, contentOf record⟩, s.height, s.now⟩, s.now + cacheExpiration⟩ := by
  have hfetched : SolFetched chain k s.height s.height ⟨domain.owner, contentOf record⟩ :=
    ⟨s.height, s.height, domain, Nat.le_refl _, Nat.le_refl _, Nat.le_refl _, hdomain, rfl,
      .inr ⟨domain, record, hdomain, hrecord, rfl⟩⟩
  exact stale_answer (by decide) hreach k hidle hfetched (Nat.le_refl _)

theorem sol_content_stale_two : ∃ s s', step (.init cacheExpiration) (.sent oneKey) = some s ∧
    Reach step (Able (SolFetched twoUpdates)) s s' ∧ s'.height = 1 ∧ s'.now = 120000 ∧
    s'.answers.head? = some ⟨oneKey, ⟨⟨js "o", some (js "a=1")⟩, 0, 0⟩, 120000⟩ := by
  obtain ⟨s, s', hsent, hreach, hheight, hnow, hanswer⟩ := @sol_content_stale twoUpdates
    (.init cacheExpiration) oneKey 0 ⟨js "o", some (written overwriting [js "a=1"])⟩
    (written overwriting [js "a=1"]) .init rfl rfl rfl
  rw [contentOf_twoUpdates.1] at hanswer
  exact ⟨s, s', hsent, hreach, hheight, hnow, hanswer⟩

/-! ## The text record of an `.eth` domain -/

/-- What a resolver contract keeps for a name. -/
structure EnsRecord where
  text : Option JsString
  contentHash : Option JsString

/-- An .eth domain on the chain. -/
structure EnsDomain where
  /-- The contract that answers for the name. -/
  resolver : Option JsString
  /-- `resolveName` -/
  owner : Option JsString
  /-- What the contracts keep for the name, by their addresses. -/
  records : JsString → EnsRecord

/-- What `resolveDomain` returns for an .eth domain. -/
structure EnsRegistry where
  owner : Option JsString
  content : Option JsString

/-- `(!_content) ? _contentHash : _content` -/
def ensContent (text contentHash : Option JsString) : Option JsString :=
  match text with
  | some (c :: cs) => some (c :: cs)
  | _ => contentHash

/-- What a request gives: the resolver is looked up first; the three calls after it run side by side. -/
def EnsFetched (chain : ℕ → Key → EnsDomain) (k : Key) (a b : ℕ) (v : EnsRegistry) : Prop :=
  ∃ h₁ h₂ h₃ h₄ resolver, a ≤ h₁ ∧ (h₁ ≤ h₂ ∧ h₂ ≤ b) ∧ (h₁ ≤ h₃ ∧ h₃ ≤ b) ∧ (h₁ ≤ h₄ ∧ h₄ ≤ b) ∧
    (chain h₁ k).resolver = some resolver ∧ v.owner = (chain h₂ k).owner ∧
    v.content =
      ensContent ((chain h₃ k).records resolver).text ((chain h₄ k).records resolver).contentHash

/-- A text record goes before the content hash. -/
lemma ensContent_of_ne {data : JsString} (hne : data ≠ []) (contentHash : Option JsString) :
    ensContent (some data) contentHash = some data := by
  cases data with
  | nil => exact absurd rfl hne
  | cons c cs => rfl

/-- When `setDomainContent` has set the text of a name, in the public resolver of the network, and since
the height `L` this is the resolver of the name and nobody has written something else: two minutes after
the last request from before `L` has ended, all that is answered for the name is this text. After the
entry was removed it is so at once. -/
theorem ens_content_since {chain : ℕ → Key → EnsDomain} {s s' : State Key EnsRegistry} {k : Key} {L : ℕ}
    {data tldAddress : JsString} (hne : data ≠ [])
    (hresolver : ∀ h, L ≤ h → ∀ resolver, (chain h k).resolver = some resolver → resolver = tldAddress)
    (htext : ∀ h, L ≤ h → ((chain h k).records tldAddress).text = some data)
    (hreach : Reach step (Able (EnsFetched chain)) (.init cacheExpiration) s) (hL : L ≤ s.height)
    (hfetches : ∀ i since, s.fetches i = some (k, since) → L ≤ since)
    (hlater : Reach step (Able (EnsFetched chain)) s s') :
    ∃ new, s'.answers = new ++ s.answers ∧ ∀ a ∈ new, a.key = k →
      s.now + cacheExpiration < a.now ∨
        (∀ entry, s.cache.cache.get k = some entry → L ≤ entry.entry.since) →
      a.stamped.value.content = some data := by
  obtain ⟨new, hnew, hall⟩ := answer_since (by decide) k hreach hL hfetches hlater
  refine ⟨new, hnew, fun a ha hkey hcond => ?_⟩
  obtain ⟨hsince, h, -, -, hfetched⟩ := hall a ha hkey hcond
  obtain ⟨h₁, h₂, h₃, h₄, resolver, hle₁, -, hle₃, -, hfound, -, hcontent⟩ := hfetched
  rw [hkey] at hfound hcontent
  obtain rfl := hresolver h₁ (by omega) resolver hfound
  rw [hcontent, htext h₃ (by omega)]
  exact ensContent_of_ne hne _

/-- A name whose resolver and text are new from the height 1 on. -/
def twoTexts (h : ℕ) (_ : Key) : EnsDomain where
  resolver := some (if h = 0 then js "old" else js "public")
  owner := some (js "o")
  records address :=
    if address = js "old" then ⟨none, some (js "ipfs")⟩
    else ⟨some (if h = 0 then js "a=1" else js "a=2"), some (js "ipfs")⟩

/-- The key of the sample domain. -/
def ensKey : Key := (js "rinkeby", js "a.eth")

/-- The content hash is in the cache when the text is written, and is out of it later. -/
theorem ens_content_since_two : ∃ s s' a, Reach step (Able (EnsFetched twoTexts)) s s' ∧
    s.answers.map (·.stamped.value.content) = [some (js "ipfs")] ∧ s'.answers = a :: s.answers ∧
    a.stamped.value.content = some (js "a=2") := by
  have hold : EnsFetched twoTexts ensKey 0 0 ⟨some (js "o"), some (js "ipfs")⟩ :=
    ⟨0, 0, 0, 0, js "old", by omega, by omega, by omega, by omega, rfl, rfl, rfl⟩
  have hnew : EnsFetched twoTexts ensKey 1 1 ⟨some (js "o"), some (js "a=2")⟩ :=
    ⟨1, 1, 1, 1, js "public", by omega, by omega, by omega, by omega, rfl, rfl, rfl⟩
  obtain ⟨s, s', a, hreach, hlater, hheight, hfetches, hbefore, hafter, hkey, hnow⟩ :=
    exists_asked_again (show 0 < cacheExpiration by decide) hold hnew
  refine ⟨s, s', a, hlater, by rw [hbefore]; rfl, hafter, ?_⟩
  obtain ⟨new, hall, hnew⟩ := @ens_content_since twoTexts s s' ensKey 1 (js "a=2") (js "public")
    (by decide)
    (fun h hh resolver hfound => by
      rw [← Option.some.inj hfound, if_neg (by omega)])
    (fun h hh => by
      have hpublic : js "public" ≠ js "old" := by decide
      have hlater : h ≠ 0 := by omega
      simp [twoTexts, hpublic, hlater])
    hreach hheight.ge (fun i since h => by rw [hfetches] at h; cases h) hlater
  have hmem : a ∈ new := by
    have happend : [a] ++ s.answers = new ++ s.answers := hafter.symm.trans hall
    rw [← List.append_cancel_right happend]
    exact List.mem_singleton_self a
  exact hnew a hmem hkey (.inl hnow)

end PointNetwork.NameService
