import PointNetwork.NameService.Identity

/-!
# When the cache of identities can be seen

A call finds what it would find with an empty cache just if the entries that it comes to, of a
Solana key or an Ethereum address, hold what the registry answers for the network of this call:
`getIdentity_eq_iff`.

* `Recorded`: what an entry holds was answered once, for some network;
* `pointIdentity_fst`, `solanaIdentity_fst_iff`, `ethereumIdentity_fst_iff`: the parts one by one.
-/

namespace PointNetwork.NameService

open Js

namespace Registries

variable (registries : Registries)

/-! ## What the cache holds -/

/-- An answer of a registry, with its key. -/
inductive Recorded : JsString → IdentityData → Prop
  | point {address : JsString} {identity : Option JsString}
      (h : registries.pointAnswer address = some identity) :
      Recorded (pointKey address) (registries.pointRecord address identity)
  | solana {publicKey network : JsString} {identity : Option JsString}
      (h : registries.solanaAnswer publicKey network = some identity) :
      Recorded (solanaKey publicKey) (solanaRecord publicKey identity)
  | ethereum {address network : JsString} {identity : Option JsString}
      (h : registries.ethereumAnswer address network = some identity) :
      Recorded (ethereumKey address) (registries.ethereumRecord address identity)

/-- All entries were answered, and none is evicted. -/
structure Consistent (cache : IdentityCache) : Prop where
  limit : cache.limit = none
  recorded : ∀ key e, cache.cache.get key = some e → registries.Recorded key e.entry

variable {registries}

lemma consistent_identityCache : registries.Consistent identityCache where
  limit := rfl
  recorded _ _ h := by cases h

/-- The keys of the networks do not meet. -/
lemma pointKey_ne_solanaKey (address publicKey : JsString) :
    solanaKey publicKey ≠ pointKey address := by
  intro h
  exact absurd (List.cons.inj h).1 (by decide)

lemma pointKey_ne_ethereumKey (address address' : JsString) :
    ethereumKey address' ≠ pointKey address := by
  intro h
  exact absurd (List.cons.inj h).1 (by decide)

lemma solanaKey_ne_ethereumKey (publicKey address : JsString) :
    ethereumKey address ≠ solanaKey publicKey := by
  intro h
  exact absurd (List.cons.inj h).1 (by decide)

/-- What may be recorded under a key of the Point network. -/
lemma Recorded.of_pointKey {address : JsString} {data : IdentityData}
    (h : registries.Recorded (pointKey address) data) :
    ∃ identity, registries.pointAnswer address = some identity ∧
      data = registries.pointRecord address identity := by
  generalize hkey : pointKey address = key at h
  cases h with
  | point h =>
    rw [List.append_cancel_left hkey]
    exact ⟨_, h, rfl⟩
  | solana => exact absurd hkey.symm (pointKey_ne_solanaKey _ _)
  | ethereum => exact absurd hkey.symm (pointKey_ne_ethereumKey _ _)

/-- What may be recorded under a key of Solana. -/
lemma Recorded.of_solanaKey {publicKey : JsString} {data : IdentityData}
    (h : registries.Recorded (solanaKey publicKey) data) :
    ∃ network identity, registries.solanaAnswer publicKey network = some identity ∧
      data = solanaRecord publicKey identity := by
  generalize hkey : solanaKey publicKey = key at h
  cases h with
  | point => exact absurd hkey (pointKey_ne_solanaKey _ _)
  | solana h =>
    rw [List.append_cancel_left hkey]
    exact ⟨_, _, h, rfl⟩
  | ethereum => exact absurd hkey.symm (solanaKey_ne_ethereumKey _ _)

/-- What may be recorded under a key of Ethereum. -/
lemma Recorded.of_ethereumKey {address : JsString} {data : IdentityData}
    (h : registries.Recorded (ethereumKey address) data) :
    ∃ network identity, registries.ethereumAnswer address network = some identity ∧
      data = registries.ethereumRecord address identity := by
  generalize hkey : ethereumKey address = key at h
  cases h with
  | point => exact absurd hkey (pointKey_ne_ethereumKey _ _)
  | solana => exact absurd hkey (solanaKey_ne_ethereumKey _ _)
  | ethereum h =>
    rw [List.append_cancel_left hkey]
    exact ⟨_, _, h, rfl⟩

/-! ## One lookup -/

section LookUp

variable {looked added now : ℕ} {key key' : JsString} {record : Option JsString → IdentityData}
  {answer : Option (Option JsString)} {cache : IdentityCache}

/-- What is found in the cache is returned if it is an identity; else the answer is, and is
cached. -/
lemma lookUp_cases :
    (∃ data, (cache.get looked key).1 = some data ∧ lookUp looked added key record answer cache =
      (some ((given data.identity).map fun _ => data), cache.checkExpired looked key)) ∨
    (cache.get looked key).1 = none ∧
      (answer = none ∧ lookUp looked added key record answer cache =
          (none, cache.checkExpired looked key) ∨
        ∃ identity, answer = some identity ∧ lookUp looked added key record answer cache =
          (some (identity.map fun _ => record identity),
            (cache.checkExpired looked key).add added key (record identity))) := by
  have hsnd : (cache.get looked key).2 = cache.checkExpired looked key := rfl
  unfold lookUp
  rcases hget : cache.get looked key with ⟨_ | data, checked⟩
  · rw [hget] at hsnd
    refine .inr ⟨rfl, ?_⟩
    rcases answer with _ | _ | identity
    · exact .inl ⟨rfl, by rw [← hsnd]⟩
    · exact .inr ⟨none, rfl, by rw [← hsnd]; rfl⟩
    · exact .inr ⟨some identity, rfl, by rw [← hsnd]; rfl⟩
  · rw [hget] at hsnd
    exact .inl ⟨data, rfl, by rw [← hsnd]⟩

/-- A cache that loses an entry stays consistent. -/
lemma Consistent.checkExpired (hc : registries.Consistent cache) :
    registries.Consistent (cache.checkExpired looked key) where
  limit := by rw [CacheFactory.limit_checkExpired, hc.limit]
  recorded k e h := hc.recorded k e (CacheFactory.of_get_checkExpired h).1

/-- A lookup leaves the cache consistent. -/
lemma Consistent.after_lookUp (hc : registries.Consistent cache)
    (hrecord : ∀ identity, answer = some identity → registries.Recorded key (record identity)) :
    registries.Consistent (lookUp looked added key record answer cache).2 := by
  have hchecked : registries.Consistent (cache.checkExpired looked key) := hc.checkExpired
  rcases @lookUp_cases looked added key record answer cache with
    ⟨data, _, heq⟩ | ⟨_, ⟨_, heq⟩ | ⟨identity, hanswer, heq⟩⟩
  · rw [heq]
    exact hchecked
  · rw [heq]
    exact hchecked
  · rw [heq]
    refine ⟨?_, ?_⟩
    · rw [CacheFactory.limit_add, hchecked.limit]
    · intro k e h
      rcases CacheFactory.of_get_add h with ⟨rfl, rfl⟩ | ⟨_, hold⟩
      · exact hrecord identity hanswer
      · exact hchecked.recorded k e hold

/-- A lookup leaves the entries of the other keys as they are. -/
lemma Consistent.get_lookUp (hc : registries.Consistent cache) (hne : key' ≠ key) :
    ((lookUp looked added key record answer cache).2.get now key').1 = (cache.get now key').1 := by
  rw [CacheFactory.get_fst, CacheFactory.get_fst]
  congr 1
  have hchecked : (cache.checkExpired looked key).limit = none := hc.checkExpired.limit
  rcases @lookUp_cases looked added key record answer cache with
    ⟨data, _, heq⟩ | ⟨_, ⟨_, heq⟩ | ⟨identity, _, heq⟩⟩
  · rw [heq, CacheFactory.get_checkExpired_of_ne hne]
  · rw [heq, CacheFactory.get_checkExpired_of_ne hne]
  · rw [heq, CacheFactory.get_add_of_ne hchecked hne, CacheFactory.get_checkExpired_of_ne hne]

/-- With an answer and entries that were answers, what is returned is the answer just if a live
entry of the key holds it. -/
lemma lookUp_eq_iff {identity : Option JsString} (hanswer : answer = some identity)
    (hrecord : ∀ identity, (record identity).identity = identity)
    (hentry : ∀ data, (cache.get looked key).1 = some data →
      ∃ identity, given identity = identity ∧ data = record identity) :
    ∃ found, (lookUp looked added key record answer cache).1 = some found ∧
      (found = identity.map (fun _ => record identity) ↔
        ∀ data, (cache.get looked key).1 = some data → answer = some data.identity) := by
  rcases @lookUp_cases looked added key record answer cache with
    ⟨data, hget, heq⟩ | ⟨hget, ⟨hnone, _⟩ | ⟨identity', hanswer', heq⟩⟩
  · refine ⟨_, by rw [heq], ?_⟩
    obtain ⟨old, hold, rfl⟩ := hentry data hget
    rw [hget, hanswer, hrecord, hold]
    constructor
    · intro hmap data hdata
      cases hdata
      rw [hrecord]
      -- An identity is in its record, and without one there is no record.
      cases old with
      | none =>
        rw [Option.map_none, eq_comm, Option.map_eq_none_iff] at hmap
        rw [hmap]
      | some text =>
        cases identity with
        | none => cases hmap
        | some text' =>
          have hrecords : record (some text) = record (some text') := Option.some.inj hmap
          rw [← hrecord (some text), ← hrecord (some text'), hrecords]
    · intro h
      have hsame := Option.some.inj (h _ rfl)
      rw [hrecord] at hsame
      rw [hsame]
  · rw [hnone] at hanswer
    cases hanswer
  · rw [hanswer'] at hanswer
    cases hanswer
    refine ⟨_, by rw [heq], iff_of_true rfl ?_⟩
    intro data hdata
    rw [hget] at hdata
    cases hdata

end LookUp

/-! ## The three parts -/

lemma given_given (text : Option JsString) : given (given text) = given text := by
  rcases text with _ | _ | ⟨u, text⟩
  · rfl
  · rfl
  · rfl

lemma given_of_pointAnswer {address : JsString} {identity : Option JsString}
    (h : registries.pointAnswer address = some identity) : given identity = identity := by
  obtain ⟨answer, _, rfl⟩ := Option.map_eq_some_iff.mp h
  rcases answer with _ | _ | ⟨u, text⟩
  · rfl
  · rfl
  · show given (Option.filter _ (some (u :: text))) = Option.filter _ (some (u :: text))
    rw [Option.filter_some]
    split
    · rfl
    · rfl

lemma given_of_solanaAnswer {publicKey network : JsString} {identity : Option JsString}
    (h : registries.solanaAnswer publicKey network = some identity) :
    given identity = identity := by
  obtain ⟨answer, _, rfl⟩ := Option.map_eq_some_iff.mp h
  exact given_given answer

lemma given_of_ethereumAnswer {address network : JsString} {identity : Option JsString}
    (h : registries.ethereumAnswer address network = some identity) :
    given identity = identity := by
  obtain ⟨answer, _, rfl⟩ := Option.map_eq_some_iff.mp h
  exact given_given answer

variable (registries)

/-- No lookup fails. -/
structure Answering : Prop where
  identityByOwner : ∀ address, registries.identityByOwner address ≠ none
  solanaDomain : ∀ publicKey network, registries.solanaDomain publicKey network ≠ none
  ethereumDomain : ∀ address network, registries.ethereumDomain address network ≠ none

/-- The identity that the first part is to find. -/
def pointFound (params : IdentityParams) : Option IdentityData :=
  if params.targeted (js "point") then
    (registries.pointAnswer (registries.ethereumAddress params)).bind fun identity =>
      identity.map fun _ => registries.pointRecord (registries.ethereumAddress params) identity
  else none

/-- What the second part is to find. -/
def solanaFound (params : IdentityParams) : Option IdentityData :=
  if params.targeted (js "solana") then
    (registries.solanaKeyOf params).bind fun publicKey =>
      (registries.solanaAnswer publicKey params.solanaNetwork).bind fun identity =>
        identity.map fun _ => solanaRecord publicKey identity
  else none

/-- What the third part is to find. -/
def ethereumFound (params : IdentityParams) : Option IdentityData :=
  if params.targeted (js "ethereum") then
    (registries.ethereumAnswer (registries.ethereumAddress params) params.ethereumNetwork).bind
      fun identity =>
        identity.map fun _ => registries.ethereumRecord (registries.ethereumAddress params) identity
  else none

/-- Where the call looks for a Solana domain, a live entry of the key holds what the registry
answers for the network of the call. -/
def SolanaMatches (params : IdentityParams) (clock : ℕ → ℕ) (cache : IdentityCache) : Prop :=
  params.targeted (js "solana") = true →
    ∀ publicKey, registries.solanaKeyOf params = some publicKey → ∀ data, (cache.get (clock 2) (solanaKey publicKey)).1 = some data →
      registries.solanaAnswer publicKey params.solanaNetwork = some data.identity

/-- The same of an Ethereum domain. -/
def EthereumMatches (params : IdentityParams) (clock : ℕ → ℕ) (cache : IdentityCache) : Prop :=
  params.targeted (js "ethereum") = true →
    ∀ data, (cache.get (clock 4) (ethereumKey (registries.ethereumAddress params))).1 = some data →
      registries.ethereumAnswer (registries.ethereumAddress params) params.ethereumNetwork =
        some data.identity

variable {registries}

section Parts

variable {params : IdentityParams} {clock : ℕ → ℕ} {cache : IdentityCache}

/-- What is found in a consistent cache has been recorded. -/
lemma Consistent.of_get {looked : ℕ} {key : JsString} {data : IdentityData}
    (hc : registries.Consistent cache) (h : (cache.get looked key).1 = some data) :
    registries.Recorded key data := by
  obtain ⟨e, he, rfl, _⟩ := CacheFactory.of_get h
  exact hc.recorded key e he

/-- A lookup that does not fail has an answer, whatever is made of it. -/
lemma exists_map_of_ne_none {α β : Type*} {answer : Option α} (h : answer ≠ none) (f : α → β) :
    ∃ result, answer.map f = some result := by
  obtain ⟨found, rfl⟩ := Option.ne_none_iff_exists'.mp h
  exact ⟨f found, rfl⟩

lemma Answering.pointAnswer (hregistries : registries.Answering) (address : JsString) :
    ∃ identity, registries.pointAnswer address = some identity :=
  exists_map_of_ne_none (hregistries.identityByOwner address) _

lemma Answering.solanaAnswer (hregistries : registries.Answering) (publicKey network : JsString) :
    ∃ identity, registries.solanaAnswer publicKey network = some identity :=
  exists_map_of_ne_none (hregistries.solanaDomain publicKey network) _

lemma Answering.ethereumAnswer (hregistries : registries.Answering) (address network : JsString) :
    ∃ identity, registries.ethereumAnswer address network = some identity :=
  exists_map_of_ne_none (hregistries.ethereumDomain address network) _

/-- The first part returns what it is to find, whatever is cached. -/
lemma pointIdentity_fst (hregistries : registries.Answering) (hc : registries.Consistent cache) :
    (registries.pointIdentity params clock cache).1 = registries.pointFound params := by
  unfold pointIdentity pointFound
  split
  · obtain ⟨identity, hidentity⟩ := hregistries.pointAnswer (registries.ethereumAddress params)
    have hentry : ∀ data, (cache.get (clock 0) (pointKey (registries.ethereumAddress params))).1 =
        some data → ∃ identity, given identity = identity ∧
          data = registries.pointRecord (registries.ethereumAddress params) identity := by
      intro data hdata
      obtain ⟨old, hold, rfl⟩ := (hc.of_get hdata).of_pointKey
      exact ⟨old, given_of_pointAnswer hold, rfl⟩
    obtain ⟨found, hfound, hiff⟩ :=
      @lookUp_eq_iff _ (clock 1) _ _ _ _ _ hidentity (fun _ => rfl) hentry
    show (lookUp _ _ _ _ _ cache).1.getD _ = _
    rw [hfound, hidentity]
    apply hiff.mpr
    intro data hdata
    obtain ⟨old, hold, rfl⟩ := (hc.of_get hdata).of_pointKey
    exact hold
  · rfl

/-- The second part returns what it is to find just if the entry that it comes to holds this. -/
lemma solanaIdentity_fst_iff (hregistries : registries.Answering)
    (hc : registries.Consistent cache) :
    (registries.solanaIdentity params clock cache).1 = registries.solanaFound params ↔
      registries.SolanaMatches params clock cache := by
  unfold solanaIdentity solanaFound SolanaMatches
  split
  · rename_i htarget
    rw [htarget]
    cases hkey : registries.solanaKeyOf params with
    | none => simp
    | some publicKey =>
      obtain ⟨identity, hidentity⟩ := hregistries.solanaAnswer publicKey params.solanaNetwork
      have hentry : ∀ data, (cache.get (clock 2) (solanaKey publicKey)).1 = some data →
          ∃ identity, given identity = identity ∧ data = solanaRecord publicKey identity := by
        intro data hdata
        obtain ⟨_, old, hold, rfl⟩ := (hc.of_get hdata).of_solanaKey
        exact ⟨old, given_of_solanaAnswer hold, rfl⟩
      obtain ⟨found, hfound, hiff⟩ :=
        @lookUp_eq_iff _ (clock 3) _ _ _ _ _ hidentity (fun _ => rfl) hentry
      show (lookUp _ _ _ _ _ cache).1.join = (registries.solanaAnswer _ _).bind _ ↔ _
      rw [hfound, hidentity]
      constructor
      · rintro h _ _ ⟨rfl⟩ data hdata
        exact hiff.mp h data hdata
      · intro h
        exact hiff.mpr (h rfl publicKey rfl)
  · rename_i htarget
    exact iff_of_true rfl fun h => absurd h htarget

/-- The third part returns what it is to find just if the entry that it comes to holds this. -/
lemma ethereumIdentity_fst_iff (hregistries : registries.Answering)
    (hc : registries.Consistent cache) :
    (registries.ethereumIdentity params clock cache).1 = registries.ethereumFound params ↔
      registries.EthereumMatches params clock cache := by
  unfold ethereumIdentity ethereumFound EthereumMatches
  split
  · rename_i htarget
    rw [htarget]
    obtain ⟨identity, hidentity⟩ :=
      hregistries.ethereumAnswer (registries.ethereumAddress params) params.ethereumNetwork
    have hentry : ∀ data, (cache.get (clock 4)
        (ethereumKey (registries.ethereumAddress params))).1 = some data →
          ∃ identity, given identity = identity ∧
            data = registries.ethereumRecord (registries.ethereumAddress params) identity := by
      intro data hdata
      obtain ⟨_, old, hold, rfl⟩ := (hc.of_get hdata).of_ethereumKey
      exact ⟨old, given_of_ethereumAnswer hold, rfl⟩
    obtain ⟨found, hfound, hiff⟩ :=
      @lookUp_eq_iff _ (clock 5) _ _ _ _ _ hidentity (fun _ => rfl) hentry
    show (lookUp _ _ _ _ _ cache).1.join = (registries.ethereumAnswer _ _).bind _ ↔ _
    rw [hfound]
    constructor
    · rintro h _ data hdata
      rw [hidentity] at h
      exact hiff.mp h data hdata
    · intro h
      rw [hidentity]
      exact hiff.mpr (h rfl)
  · rename_i htarget
    exact iff_of_true rfl fun h => absurd h htarget

/-! ## What the parts keep -/

/-- The lookup on the Point network leaves the cache consistent. -/
lemma Consistent.pointIdentity (hc : registries.Consistent cache) :
    registries.Consistent (registries.pointIdentity params clock cache).2 := by
  unfold Registries.pointIdentity
  split
  · exact hc.after_lookUp fun _ h => .point h
  · exact hc

/-- The lookup on Solana leaves the cache consistent. -/
lemma Consistent.solanaIdentity (hc : registries.Consistent cache) :
    registries.Consistent (registries.solanaIdentity params clock cache).2 := by
  unfold Registries.solanaIdentity
  split
  · split
    · exact hc
    · exact hc.after_lookUp fun _ h => .solana h
  · exact hc

/-- The lookup on Ethereum leaves the cache consistent. -/
lemma Consistent.ethereumIdentity (hc : registries.Consistent cache) :
    registries.Consistent (registries.ethereumIdentity params clock cache).2 := by
  unfold Registries.ethereumIdentity
  split
  · exact hc.after_lookUp fun _ h => .ethereum h
  · exact hc

/-- The first part leaves the entries of the other two as they are. -/
lemma Consistent.get_pointIdentity (hc : registries.Consistent cache) {now : ℕ} {key : JsString}
    (hkey : ∀ address, key ≠ pointKey address) :
    ((registries.pointIdentity params clock cache).2.get now key).1 = (cache.get now key).1 := by
  unfold Registries.pointIdentity
  split
  · exact hc.get_lookUp (hkey _)
  · rfl

/-- The lookup on Solana leaves the other keys alone. -/
lemma Consistent.get_solanaIdentity (hc : registries.Consistent cache) {now : ℕ} {key : JsString}
    (hkey : ∀ publicKey, key ≠ solanaKey publicKey) :
    ((registries.solanaIdentity params clock cache).2.get now key).1 = (cache.get now key).1 := by
  unfold Registries.solanaIdentity
  split
  · split
    · rfl
    · exact hc.get_lookUp (hkey _)
  · rfl

/-- The three parts in turn; what the first one finds is returned. -/
lemma getIdentity_fst :
    let afterPoint := (registries.pointIdentity params clock cache).2
    let afterSolana := (registries.solanaIdentity params clock afterPoint).2
    (registries.getIdentity params clock cache).1 =
      ((registries.pointIdentity params clock cache).1.or
        ((registries.solanaIdentity params clock afterPoint).1.or
          (registries.ethereumIdentity params clock afterSolana).1)).getD
        registries.emptyIdentity := by
  unfold getIdentity
  rcases registries.pointIdentity params clock cache with ⟨_ | data, afterPoint⟩
  · dsimp only
    rcases registries.solanaIdentity params clock afterPoint with ⟨_ | data, afterSolana⟩
    · dsimp only
      rcases registries.ethereumIdentity params clock afterSolana with ⟨_ | data, _⟩
      · rfl
      · rfl
    · rfl
  · rfl

/-- A call leaves the cache consistent. -/
lemma Consistent.getIdentity (hc : registries.Consistent cache) :
    registries.Consistent (registries.getIdentity params clock cache).2 := by
  have hpoint : registries.Consistent (registries.pointIdentity params clock cache).2 :=
    hc.pointIdentity
  unfold Registries.getIdentity
  generalize registries.pointIdentity params clock cache = point at hpoint ⊢
  rcases point with ⟨_ | data, afterPoint⟩
  · dsimp only at hpoint ⊢
    have hsolana : registries.Consistent (registries.solanaIdentity params clock afterPoint).2 :=
      hpoint.solanaIdentity
    generalize registries.solanaIdentity params clock afterPoint = solana at hsolana ⊢
    rcases solana with ⟨_ | data, afterSolana⟩
    · dsimp only at hsolana ⊢
      have hethereum :
          registries.Consistent (registries.ethereumIdentity params clock afterSolana).2 :=
        hsolana.ethereumIdentity
      generalize registries.ethereumIdentity params clock afterSolana = ethereum at hethereum ⊢
      rcases ethereum with ⟨_ | data, afterEthereum⟩
      · exact hethereum
      · exact hethereum
    · exact hsolana
  · exact hpoint

/-- What a lookup returns is a record of its key. -/
lemma network_lookUp {looked added : ℕ} {key : JsString} {record : Option JsString → IdentityData}
    {answer : Option (Option JsString)} {network : Network} {data : IdentityData}
    (hrecord : ∀ identity, (record identity).network = network)
    (hentry : ∀ data, (cache.get looked key).1 = some data → data.network = network)
    (h : (lookUp looked added key record answer cache).1.join = some data) :
    data.network = network := by
  rcases @lookUp_cases looked added key record answer cache with
    ⟨old, hget, heq⟩ | ⟨_, ⟨_, heq⟩ | ⟨identity, _, heq⟩⟩
  · rw [heq] at h
    obtain ⟨_, _, rfl⟩ := Option.map_eq_some_iff.mp h
    exact hentry _ hget
  · rw [heq] at h
    cases h
  · rw [heq] at h
    obtain ⟨_, _, rfl⟩ := Option.map_eq_some_iff.mp h
    exact hrecord _

/-- What is found on Solana says so. -/
lemma network_solanaIdentity (hc : registries.Consistent cache) {data : IdentityData}
    (h : (registries.solanaIdentity params clock cache).1 = some data) :
    data.network = .solana := by
  unfold solanaIdentity at h
  split at h
  · split at h
    · cases h
    · refine network_lookUp (fun _ => rfl) ?_ h
      intro old hold
      obtain ⟨_, _, _, rfl⟩ := (hc.of_get hold).of_solanaKey
      rfl
  · cases h

/-- What is found on Ethereum says so. -/
lemma network_ethereumIdentity (hc : registries.Consistent cache) {data : IdentityData}
    (h : (registries.ethereumIdentity params clock cache).1 = some data) :
    data.network = .ethereum := by
  unfold ethereumIdentity at h
  split at h
  · refine network_lookUp (fun _ => rfl) ?_ h
    intro old hold
    obtain ⟨_, _, _, rfl⟩ := (hc.of_get hold).of_ethereumKey
    rfl
  · cases h

end Parts

/-! ## Whole calls -/

variable (registries) in
/-- If the call comes to Solana, an entry that it finds there holds what the registry answers for
its network; the same of Ethereum if it comes there. -/
def Unmixed (params : IdentityParams) (clock : ℕ → ℕ) (cache : IdentityCache) : Prop :=
  registries.pointFound params = none →
    registries.SolanaMatches params clock cache ∧
      (registries.solanaFound params = none → registries.EthereumMatches params clock cache)

/-- The cache stays consistent over any calls. -/
lemma Consistent.foldl {cache : IdentityCache} (hc : registries.Consistent cache)
    (calls : List (IdentityParams × (ℕ → ℕ))) :
    registries.Consistent
      (calls.foldl (fun cache call => (registries.getIdentity call.1 call.2 cache).2) cache) := by
  induction calls generalizing cache with
  | nil => exact hc
  | cons call calls ih => exact ih hc.getIdentity

/-- What is found for a network is not what is returned when nothing is. -/
lemma getD_ne_of_network {ethereum : Option IdentityData} {data empty : IdentityData}
    (hempty : empty.network = .point) (hdata : data.network = .solana)
    (hethereum : ∀ data, ethereum = some data → data.network = .ethereum) :
    ethereum.getD empty ≠ data := by
  rintro rfl
  cases ethereum with
  | none =>
    rw [Option.getD_none, hempty] at hdata
    cases hdata
  | some found =>
    rw [Option.getD_some, hethereum found rfl] at hdata
    cases hdata

/-- The fallback is told apart from what is found by its network. -/
lemma getD_eq_iff {ethereum ethereum' : Option IdentityData} {empty : IdentityData}
    (hempty : empty.network = .point)
    (hethereum : ∀ data, ethereum = some data → data.network = .ethereum)
    (hethereum' : ∀ data, ethereum' = some data → data.network = .ethereum) :
    ethereum.getD empty = ethereum'.getD empty ↔ ethereum = ethereum' := by
  have hne : ∀ data : IdentityData, data.network = .ethereum → data ≠ empty := by
    rintro data hdata rfl
    rw [hempty] at hdata
    cases hdata
  rcases ethereum with _ | data
  · rcases ethereum' with _ | data'
    · exact iff_of_true rfl rfl
    · exact iff_of_false (hne data' (hethereum' _ rfl)).symm (by simp)
  · rcases ethereum' with _ | data'
    · exact iff_of_false (hne data (hethereum _ rfl)) (by simp)
    · exact Option.some_inj.symm

/-- What the last two parts make together: a domain of Solana is neither one of Ethereum nor
none. -/
lemma getD_or_eq_iff {solana solana' ethereum ethereum' : Option IdentityData}
    {empty : IdentityData} (hempty : empty.network = .point)
    (hsolana : ∀ data, solana = some data → data.network = .solana)
    (hsolana' : ∀ data, solana' = some data → data.network = .solana)
    (hethereum : ∀ data, ethereum = some data → data.network = .ethereum)
    (hethereum' : ∀ data, ethereum' = some data → data.network = .ethereum) :
    (solana.or ethereum).getD empty = (solana'.or ethereum').getD empty ↔
      solana = solana' ∧ (solana' = none → ethereum = ethereum') := by
  rcases solana with _ | data
  · rcases solana' with _ | data'
    · rw [Option.none_or, Option.none_or, getD_eq_iff hempty hethereum hethereum']
      simp
    · rw [Option.none_or, Option.some_or, Option.getD_some]
      exact iff_of_false (getD_ne_of_network hempty (hsolana' _ rfl) hethereum) (by simp)
  · rcases solana' with _ | data'
    · rw [Option.none_or, Option.some_or, Option.getD_some, eq_comm]
      exact iff_of_false (getD_ne_of_network hempty (hsolana _ rfl) hethereum') (by simp)
    · rw [Option.some_or, Option.some_or, Option.getD_some, Option.getD_some]
      simp

section Calls

variable {params : IdentityParams} {clock : ℕ → ℕ} {cache : IdentityCache}

lemma network_solanaFound {data : IdentityData} (h : registries.solanaFound params = some data) :
    data.network = .solana := by
  unfold solanaFound at h
  split at h
  · obtain ⟨_, _, h⟩ := Option.bind_eq_some_iff.mp h
    obtain ⟨_, _, h⟩ := Option.bind_eq_some_iff.mp h
    obtain ⟨_, _, rfl⟩ := Option.map_eq_some_iff.mp h
    rfl
  · cases h

lemma network_ethereumFound {data : IdentityData}
    (h : registries.ethereumFound params = some data) :
    data.network = .ethereum := by
  unfold ethereumFound at h
  split at h
  · obtain ⟨_, _, h⟩ := Option.bind_eq_some_iff.mp h
    obtain ⟨_, _, rfl⟩ := Option.map_eq_some_iff.mp h
    rfl
  · cases h

/-- What the registries say, asked in their order. -/
def found (registries : Registries) (params : IdentityParams) : IdentityData :=
  ((registries.pointFound params).or
    ((registries.solanaFound params).or (registries.ethereumFound params))).getD
    registries.emptyIdentity

/-- The first part does not touch what the second one looks for. -/
lemma Consistent.solanaMatches_iff (hc : registries.Consistent cache) :
    registries.SolanaMatches params clock (registries.pointIdentity params clock cache).2 ↔
      registries.SolanaMatches params clock cache := by
  unfold SolanaMatches
  simp only [hc.get_pointIdentity fun address => pointKey_ne_solanaKey address _]

/-- Neither of the first two parts touches what the third one looks for. -/
lemma Consistent.ethereumMatches_iff (hc : registries.Consistent cache) :
    registries.EthereumMatches params clock
        (registries.solanaIdentity params clock
          (registries.pointIdentity params clock cache).2).2 ↔
      registries.EthereumMatches params clock cache := by
  have hpoint : registries.Consistent (registries.pointIdentity params clock cache).2 :=
    hc.pointIdentity
  unfold EthereumMatches
  simp only [hpoint.get_solanaIdentity fun publicKey => solanaKey_ne_ethereumKey publicKey _,
    hc.get_pointIdentity fun address => pointKey_ne_ethereumKey address _]

/-- A call returns what the registries say just if it meets no entry of another network that says
something else. -/
theorem getIdentity_fst_iff (hregistries : registries.Answering)
    (hc : registries.Consistent cache) :
    (registries.getIdentity params clock cache).1 = registries.found params ↔
      registries.Unmixed params clock cache := by
  have hpoint : registries.Consistent (registries.pointIdentity params clock cache).2 :=
    hc.pointIdentity
  unfold found Unmixed
  rw [getIdentity_fst, pointIdentity_fst hregistries hc]
  cases registries.pointFound params with
  | some data => simp
  | none =>
    rw [Option.none_or, Option.none_or]
    rw [getD_or_eq_iff rfl (fun _ => network_solanaIdentity hpoint) (fun _ => network_solanaFound)
      (fun _ => network_ethereumIdentity hpoint.solanaIdentity) (fun _ => network_ethereumFound)]
    rw [solanaIdentity_fst_iff hregistries hpoint,
      ethereumIdentity_fst_iff hregistries hpoint.solanaIdentity, hc.solanaMatches_iff,
      hc.ethereumMatches_iff]
    simp

lemma unmixed_identityCache : registries.Unmixed params clock identityCache := by
  intro _
  constructor
  · intro _ publicKey _ data h
    cases h
  · intro _ _ data h
    cases h

/-- After any calls, a call returns what it returns with an empty cache just if it meets no entry of
another network that says something else. -/
theorem getIdentity_eq_iff (hregistries : registries.Answering)
    (calls : List (IdentityParams × (ℕ → ℕ))) (params : IdentityParams) (clock clock' : ℕ → ℕ) :
    (registries.getIdentity params clock (registries.cacheAfter calls)).1 =
        (registries.getIdentity params clock' identityCache).1 ↔
      registries.Unmixed params clock (registries.cacheAfter calls) := by
  rw [(getIdentity_fst_iff hregistries consistent_identityCache).mpr unmixed_identityCache]
  exact getIdentity_fst_iff hregistries (consistent_identityCache.foldl calls)

end Calls

/-! ## Two networks -/

/-- Registries in which one Solana key has a domain, but not in the network `devnet`. -/
def devnetRegistries : Registries where
  getNetworkPublicKey := js "04"
  getNetworkAddress := js "0xd7"
  solanaPublicKey := js "6YPh"
  toPublicKey := some
  toLowerCase := id
  identityByOwner _ := some none
  solanaDomain _ network := some (if network = js "devnet" then none else some (js "user.sol"))
  ethereumDomain _ _ := some none

lemma answering_devnetRegistries : devnetRegistries.Answering where
  identityByOwner _ h := by cases h
  solanaDomain _ _ h := by cases h
  ethereumDomain _ _ h := by cases h

/-- A call for an address on one of the networks of Solana. -/
def solanaParams (network : JsString) : IdentityParams :=
  ⟨some (js "6YPh"), none, some [js "solana"], some network, none⟩

/-- A second call for the same network finds what is cached. -/
theorem getIdentity_eq_iff_same :
    (devnetRegistries.getIdentity (solanaParams (js "solana")) (fun _ => 1000)
        (devnetRegistries.cacheAfter [(solanaParams (js "solana"), fun _ => 0)])).1 =
      (devnetRegistries.getIdentity (solanaParams (js "solana")) (fun _ => 1000)
        identityCache).1 := by
  rw [getIdentity_eq_iff answering_devnetRegistries]
  intro _
  constructor
  · rintro _ publicKey ⟨rfl⟩ data hdata
    obtain rfl := Option.some.inj hdata
    decide +kernel
  · intro _ h
    revert h
    decide +kernel

/-- A call for `devnet` after one for `solana` returns the domain of the latter. -/
theorem getIdentity_other_network :
    (devnetRegistries.getIdentity (solanaParams (js "devnet")) (fun _ => 1000)
        (devnetRegistries.cacheAfter [(solanaParams (js "solana"), fun _ => 0)])).1 ≠
      (devnetRegistries.getIdentity (solanaParams (js "devnet")) (fun _ => 1000)
        identityCache).1 := by
  decide +kernel

end Registries

end PointNetwork.NameService
