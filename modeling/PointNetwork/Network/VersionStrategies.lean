import PointNetwork.Network.KeyValue
import PointNetwork.Network.Versions
import PointNetwork.NodeCache

/-!
# The two search strategies

`getKeyValue` of `network/providers/ethereum.js` for a version that is written in the history. The
strategy `exact` takes the first of the events of the version, `equalOrBefore` folds over all events
that are not above it, and both keep what they find under one key of `keyValueCache`.

The fold ends with the first event that is above every later one (`foldl_laterVersion`). Whichever
call comes first, all calls give one value exactly when this event holds the same value as the
first event of the version (`strategies_agree_iff`).
-/

namespace PointNetwork.Network.Ikv

open Js Logged
open Deployer (stripPoint point)

/-- What the node knows of a chain: the events in their order and what `ikvGet` returns. -/
structure Chain where
  history : List IkvSet
  ikvGet : JsString → JsString → Option JsString

/-- The events that pass the filter `{identity, key}`. -/
def Chain.written (chain : Chain) (identity key : JsString) : List IkvSet :=
  chain.history.filter fun e => e.identity = identity && e.key = key

/-- `events[0].returnValues.value` of the events that pass the filter `{identity, key, version}`. -/
def Chain.firstValue (chain : Chain) (identity key version : JsString) : Option JsString :=
  match (chain.written identity key).filter (fun e => e.version = version) with
  | [] => none
  | first :: _ => some first.value

/-- What the store function of a lookup resolves to. -/
def Chain.lookup (chain : Chain) (lookup : Lookup) : Option JsString :=
  if lookup.version = latest then chain.ikvGet lookup.identity lookup.key
  else if lookup.versionSearchStrategy = js "exact" then
    chain.firstValue lookup.identity lookup.key lookup.version
  else getLastVersionOrBefore lookup.version (chain.written lookup.identity lookup.key)

/-- `keyValueCache.get` over a chain, at the time that the state holds. -/
def cachedWorld (cache : NodeCache (Option JsString)) (chain : Chain) : World (cache.Store × ℕ) :=
  fun lookup (store, now) =>
    match cache.get store now lookup.cacheKey with
    | some found => (some found, (store, now))
    | none =>
      let found := chain.lookup lookup
      (some found, (cache.set store now lookup.cacheKey found, now))

/-- How a version is searched for. -/
inductive Strategy
  | exact
  | equalOrBefore
  deriving DecidableEq

/-- The text of a strategy in a call. -/
def Strategy.text : Strategy → JsString
  | exact => js "exact"
  | equalOrBefore => js "equalOrBefore"

/-- A call, so many milliseconds after the one before it. -/
structure Call where
  strategy : Strategy
  delay : ℕ

/-- What calls for one key and version give, one after the other. -/
def runCalls (cache : NodeCache (Option JsString)) (chain : Chain)
    (identity key version : JsString) :
    List Call → cache.Store × ℕ → List (Except Failure (Option JsString))
  | [], _ => []
  | call :: calls, (store, now) =>
    let (result, _, state) := getKeyValue (cachedWorld cache chain) (identity.count 0x6C + 1)
      identity key version call.strategy.text false (store, now + call.delay)
    result :: runCalls cache chain identity key version calls state

/-! ## The event that the fold ends with -/

/-- The first event whose version is above all later ones. -/
def firstAbove : List IkvSet → Option IkvSet
  | [] => none
  | e :: rest =>
    if ∀ e' ∈ rest, compareVersions e.version e'.version = 1 then some e else firstAbove rest

lemma firstAbove_cons (e : IkvSet) (rest : List IkvSet) :
    firstAbove (e :: rest) =
      if ∀ e' ∈ rest, compareVersions e.version e'.version = 1 then some e
      else firstAbove rest := rfl

/-- The first components decide unless they are equal. -/
lemma compareComponents_cons (a b : JsString) (as bs : List JsString) :
    compareComponents (a :: as) (b :: bs) = 1 ↔
      textLt b a = true ∨ a = b ∧ compareComponents as bs = 1 := by
  rw [compareComponents]
  by_cases hab : a = b
  · subst hab
    simp
  · rw [textLt_swap hab]
    cases textLt a b with
    | true => simp [hab]
    | false => simp

/-- The order of components is transitive. -/
lemma compareComponents_trans {as bs cs : List JsString} (h : compareComponents as bs = 1)
    (h' : compareComponents bs cs = 1) : compareComponents as cs = 1 := by
  induction as generalizing bs cs with
  | nil => cases h
  | cons a as ih =>
    cases bs with
    | nil => cases h
    | cons b bs =>
      cases cs with
      | nil => cases h'
      | cons c cs =>
        rw [compareComponents_cons] at h h' ⊢
        rcases h with hba | ⟨rfl, h⟩
        · rcases h' with hcb | ⟨rfl, -⟩
          · exact .inl (textLt_trans hcb hba)
          · exact .inl hba
        · rcases h' with hca | ⟨rfl, h'⟩
          · exact .inl hca
          · exact .inr ⟨rfl, ih h h'⟩

/-- The order of versions is transitive. -/
lemma compareVersions_trans {u v w : JsString} (h : compareVersions u v = 1)
    (h' : compareVersions v w = 1) : compareVersions u w = 1 := compareComponents_trans h h'

/-- The fold keeps an event until one comes that it is not above. -/
lemma foldl_laterVersion (first : IkvSet) (rest : List IkvSet) :
    firstAbove (first :: rest) = some (rest.foldl laterVersion first) := by
  induction rest generalizing first with
  | nil => simp [firstAbove]
  | cons x rest ih =>
    have hstep : laterVersion first x =
        if compareVersions first.version x.version = 1 then first else x := rfl
    rw [List.foldl_cons, hstep]
    by_cases hx : compareVersions first.version x.version = 1
    · rw [if_pos hx, ← ih first, firstAbove_cons first (x :: rest), firstAbove_cons first rest]
      simp only [List.forall_mem_cons, hx, true_and]
      by_cases hall : ∀ e ∈ rest, compareVersions first.version e.version = 1
      · rw [if_pos hall, if_pos hall]
      · -- an event that the first one is above is not above all that the first one is not
        have hnot : ¬ ∀ e ∈ rest, compareVersions x.version e.version = 1 := fun h =>
          hall fun e he => compareVersions_trans hx (h e he)
        rw [if_neg hall, if_neg hall, firstAbove_cons, if_neg hnot]
    · rw [if_neg hx, ← ih x, firstAbove_cons, if_neg fun h => hx (h x List.mem_cons_self)]

/-- The value of the first event that is above all later ones. -/
lemma getLastVersionOrBefore_eq (version : JsString) (events : List IkvSet) :
    getLastVersionOrBefore version events =
      (firstAbove (notAbove version events)).map IkvSet.value := by
  unfold getLastVersionOrBefore
  cases notAbove version events with
  | nil => rfl
  | cons first rest =>
    rw [foldl_laterVersion]
    rfl

/-- The value of the first event that is above all later ones, among those not above the
version. -/
def Chain.selectedValue (chain : Chain) (identity key version : JsString) : Option JsString :=
  (firstAbove (notAbove version (chain.written identity key))).map IkvSet.value

/-- The value of the last event of the version. -/
def Chain.lastValue (chain : Chain) (identity key version : JsString) : Option JsString :=
  (((chain.written identity key).filter fun e => e.version = version).getLast?).map IkvSet.value

/-! ## Runs of calls -/

variable {cache : NodeCache (Option JsString)} {chain : Chain} {identity key version : JsString}

/-- A lookup that is cached is answered from the cache. -/
lemma cachedWorld_some {lookup : Lookup} {store : cache.Store} {now : ℕ}
    {found : Option JsString} (h : cache.get store now lookup.cacheKey = some found) :
    cachedWorld cache chain lookup (store, now) = (some found, (store, now)) := by
  simp only [cachedWorld, h]

/-- A lookup that is not cached is answered by the chain, and cached. -/
lemma cachedWorld_none {lookup : Lookup} {store : cache.Store} {now : ℕ}
    (h : cache.get store now lookup.cacheKey = none) :
    cachedWorld cache chain lookup (store, now) = (some (chain.lookup lookup),
      (cache.set store now lookup.cacheKey (chain.lookup lookup), now)) := by
  simp only [cachedWorld, h]

/-- A lookup always finds an answer. -/
lemma find_cachedWorld (lookup : Lookup) (store : cache.Store) (now : ℕ) :
    find (cachedWorld cache chain) lookup (store, now) =
      (.ok ((cache.get store now lookup.cacheKey).getD (chain.lookup lookup)), [lookup],
        (cachedWorld cache chain lookup (store, now)).2) := by
  rw [find_eq]
  cases hget : cache.get store now lookup.cacheKey with
  | none => rw [cachedWorld_none hget, Option.getD_none]
  | some found => rw [cachedWorld_some hget, Option.getD_some]

/-- The lookup that a call makes. -/
def lookupOf (identity key version : JsString) (strategy : Strategy) : Lookup :=
  ⟨stripPoint (resolved identity), key, version, strategy.text⟩

/-- A call is answered from the cache, or from the chain. -/
lemma getKeyValue_cached (strategy : Strategy) (store : cache.Store) (now : ℕ) :
    let lookup := lookupOf identity key version strategy
    getKeyValue (cachedWorld cache chain) (identity.count 0x6C + 1) identity key version
        strategy.text false (store, now) =
      (.ok ((cache.get store now lookup.cacheKey).getD (chain.lookup lookup)), [lookup],
        (cachedWorld cache chain lookup (store, now)).2) := by
  intro lookup
  have hstrategy : version = latest ∨ strategy.text = js "exact" ∨
      strategy.text = js "equalOrBefore" := by
    cases strategy with
    | exact => exact .inr (.inl rfl)
    | equalOrBefore => exact .inr (.inr rfl)
  rw [getKeyValue_eq (by omega) (fun h => by cases h), getValue, if_pos hstrategy]
  exact find_cachedWorld lookup store now

/-- The latest version is read from the contract. -/
lemma lookup_latest (hlatest : version = latest) (strategy : Strategy) :
    chain.lookup (lookupOf identity key version strategy) =
      chain.ikvGet (stripPoint (resolved identity)) key := if_pos hlatest

/-- An exact version is looked up among the events. -/
lemma lookup_exact (hlatest : version ≠ latest) :
    chain.lookup (lookupOf identity key version .exact) =
      chain.firstValue (stripPoint (resolved identity)) key version := by
  have hversion : (lookupOf identity key version .exact).version ≠ latest := hlatest
  rw [Chain.lookup, if_neg hversion]
  exact if_pos rfl

/-- A version or one before it is selected among the events. -/
lemma lookup_equalOrBefore (hlatest : version ≠ latest) :
    chain.lookup (lookupOf identity key version .equalOrBefore) =
      chain.selectedValue (stripPoint (resolved identity)) key version := by
  have hversion : (lookupOf identity key version .equalOrBefore).version ≠ latest := hlatest
  rw [Chain.lookup, if_neg hversion, Chain.selectedValue, ← getLastVersionOrBefore_eq]
  exact if_neg (by decide +kernel : js "equalOrBefore" ≠ js "exact")

/-- Both strategies look under one key. -/
lemma cacheKey_lookupOf (strategy : Strategy) :
    (lookupOf identity key version strategy).cacheKey =
      (lookupOf identity key version .exact).cacheKey := rfl

/-- Whatever the cache holds under a key is this value. -/
def Holds (cache : NodeCache (Option JsString)) (store : cache.Store) (key : JsString)
    (found : Option JsString) : Prop :=
  ∀ now value, cache.get store now key = some value → value = found

/-- Where both strategies find the same on the chain, all calls give it. -/
lemma runCalls_of_agree {found : Option JsString}
    (hfound : ∀ strategy, chain.lookup (lookupOf identity key version strategy) = found)
    {calls : List Call} {store : cache.Store} {now : ℕ}
    (hs : Holds cache store (lookupOf identity key version .exact).cacheKey found) :
    ∀ result ∈ runCalls cache chain identity key version calls (store, now),
      result = .ok found := by
  induction calls generalizing store now with
  | nil => intro result hresult; cases hresult
  | cons call calls ih =>
    have hcall := hs (now + call.delay)
    rw [← cacheKey_lookupOf call.strategy] at hcall
    rw [runCalls, getKeyValue_cached]
    dsimp only
    intro result hresult
    cases hget : cache.get store (now + call.delay)
        (lookupOf identity key version call.strategy).cacheKey with
    | none =>
      rw [hget, Option.getD_none, hfound, cachedWorld_none hget, hfound] at hresult
      rcases List.mem_cons.mp hresult with rfl | hresult
      · rfl
      · exact ih (fun _ _ hvalue => cache.get_set hvalue) result hresult
    | some value =>
      rw [hget, Option.getD_some, hcall value hget, cachedWorld_some hget] at hresult
      rcases List.mem_cons.mp hresult with rfl | hresult
      · rfl
      · exact ih hs result hresult

/-- The first call of a run finds its value on the chain. -/
lemma runCalls_single (strategy : Strategy) :
    runCalls cache chain identity key version [⟨strategy, 0⟩] (cache.empty, 0) =
      [.ok (chain.lookup (lookupOf identity key version strategy))] := by
  rw [runCalls, getKeyValue_cached]
  dsimp only
  rw [cache.get_empty, Option.getD_none, runCalls]

/-! ## Versions of as many components -/

/-- The order is antisymmetric for versions of one length. -/
lemma compareComponents_swap {as bs : List JsString} (hlength : as.length = bs.length) :
    compareComponents bs as = -compareComponents as bs := by
  induction as generalizing bs with
  | nil =>
    cases bs with
    | nil => rfl
    | cons b bs => cases hlength
  | cons a as ih =>
    cases bs with
    | nil => cases hlength
    | cons b bs =>
      rw [compareComponents, compareComponents]
      by_cases hab : a = b
      · subst hab
        rw [textLt_irrefl, if_neg Bool.false_ne_true, if_neg Bool.false_ne_true,
          if_neg Bool.false_ne_true, if_neg Bool.false_ne_true]
        exact ih (Nat.succ_injective hlength)
      · rw [textLt_swap hab]
        cases textLt a b with
        | true => rfl
        | false => rfl

/-- Versions are compared to one of three results. -/
lemma compareComponents_cases (as bs : List JsString) : compareComponents as bs = 1 ∨
    compareComponents as bs = -1 ∨ compareComponents as bs = 0 := by
  induction as generalizing bs with
  | nil => exact .inr (.inr rfl)
  | cons a as ih =>
    cases bs with
    | nil => exact .inr (.inr rfl)
    | cons b bs =>
      rw [compareComponents]
      split
      · exact .inl rfl
      · split
        · exact .inr (.inl rfl)
        · exact ih bs

/-- Versions of one length that compare as equal are equal. -/
lemma eq_of_compareComponents {as bs : List JsString} (hlength : as.length = bs.length)
    (h : compareComponents as bs = 0) : as = bs := by
  induction as generalizing bs with
  | nil =>
    cases bs with
    | nil => rfl
    | cons b bs => cases hlength
  | cons a as ih =>
    cases bs with
    | nil => cases hlength
    | cons b bs =>
      rw [compareComponents] at h
      by_cases hab : a = b
      · subst hab
        rw [textLt_irrefl, if_neg Bool.false_ne_true, if_neg Bool.false_ne_true] at h
        rw [ih (Nat.succ_injective hlength) h]
      · rw [textLt_swap hab] at h
        cases hlt : textLt a b with
        | true =>
          rw [hlt] at h
          cases h
        | false =>
          rw [hlt] at h
          cases h

lemma compareVersions_self (version : JsString) : compareVersions version version = 0 := by
  have hswap : compareVersions version version = -compareVersions version version :=
    compareComponents_swap rfl
  omega

/-- Of events not above a version, with as many components: the fold ends with the last event of
the version. -/
lemma firstAbove_of_components {version : JsString} {events : List IkvSet}
    (hcomponents : ∀ e ∈ events,
      (e.version.splitOn point).length = (version.splitOn point).length)
    (hkept : ∀ e ∈ events, [-1, 0].contains (compareVersions e.version version) = true)
    (hoccurs : ∃ e ∈ events, e.version = version) :
    firstAbove events = (events.filter fun e => e.version = version).getLast? := by
  induction events with
  | nil =>
    rcases hoccurs with ⟨e, he, -⟩
    cases he
  | cons e rest ih =>
    rw [List.forall_mem_cons] at hcomponents hkept
    rw [firstAbove_cons]
    by_cases hlater : ∃ e' ∈ rest, e'.version = version
    · -- the event is not above the later one of the version
      have hnot : ¬ ∀ e' ∈ rest, compareVersions e.version e'.version = 1 := by
        intro habove
        rcases hlater with ⟨e', he', hversion⟩
        have hone := habove e' he'
        rw [hversion] at hone
        rw [hone] at hkept
        exact absurd hkept.1 (by decide)
      have hne : (rest.filter fun e => e.version = version) ≠ [] := by
        rcases hlater with ⟨e', he', hversion⟩
        exact List.ne_nil_of_mem (List.mem_filter.mpr ⟨he', decide_eq_true hversion⟩)
      rw [if_neg hnot, ih hcomponents.2 hkept.2 hlater, List.filter_cons]
      split
      · rw [List.getLast?_cons, List.getLast?_eq_some_getLast hne, Option.getD_some]
      · rfl
    · have hversion : e.version = version := by
        rcases hoccurs with ⟨e', he', hversion⟩
        rcases List.mem_cons.mp he' with rfl | he'
        · exact hversion
        · exact absurd ⟨e', he', hversion⟩ hlater
      have habove : ∀ e' ∈ rest, compareVersions e.version e'.version = 1 := by
        intro e' he'
        have hlength := hcomponents.2 e' he'
        have hkept' := hkept.2 e' he'
        have hswap : compareVersions version e'.version = -compareVersions e'.version version :=
          compareComponents_swap hlength
        rw [hversion, hswap]
        rcases compareComponents_cases (e'.version.splitOn point) (version.splitOn point)
          with hcompare | hcompare | hcompare
        · have hone : compareVersions e'.version version = 1 := hcompare
          rw [hone] at hkept'
          exact absurd hkept' (by decide)
        · show -compareComponents _ _ = 1
          rw [hcompare]
          rfl
        · -- texts of the same components are the same
          have hsplit := eq_of_compareComponents hlength hcompare
          have heq := congrArg ([point].intercalate) hsplit
          rw [List.intercalate_splitOn, List.intercalate_splitOn] at heq
          exact absurd ⟨e', he', heq⟩ hlater
      have hnil : (rest.filter fun e => e.version = version) = [] := by
        rw [List.filter_eq_nil_iff]
        intro e' he' hdecide
        exact hlater ⟨e', he', of_decide_eq_true hdecide⟩
      rw [if_pos habove, List.filter_cons, if_pos (decide_eq_true hversion), hnil]
      rfl

/-- Among versions of as many components the selected value is the last one of the version. -/
lemma Chain.selectedValue_eq (hcomponents : ∀ e ∈ chain.written identity key,
      (e.version.splitOn point).length = (version.splitOn point).length)
    (hoccurs : ∃ e ∈ chain.written identity key, e.version = version) :
    chain.selectedValue identity key version = chain.lastValue identity key version := by
  have hself : [-1, 0].contains (compareVersions version version) = true := by
    rw [compareVersions_self]
    decide
  have hfirst : firstAbove (notAbove version (chain.written identity key)) =
      ((notAbove version (chain.written identity key)).filter
        fun e => e.version = version).getLast? := by
    apply firstAbove_of_components
    · intro e he
      exact hcomponents e (List.mem_of_mem_filter he)
    · intro e he
      exact (List.mem_filter.mp he).2
    · rcases hoccurs with ⟨e, he, hversion⟩
      exact ⟨e, List.mem_filter.mpr ⟨he, hversion ▸ hself⟩, hversion⟩
  have hfilter : (notAbove version (chain.written identity key)).filter
      (fun e => e.version = version) =
      (chain.written identity key).filter fun e => e.version = version := by
    rw [notAbove, List.filter_filter]
    apply List.filter_congr
    intro e _
    by_cases hversion : e.version = version
    · rw [hversion, hself]
      simp
    · simp [hversion]
  rw [selectedValue, lastValue, hfirst, hfilter]

/-- Nothing is cached under the key of the calls. -/
def Fresh (cache : NodeCache (Option JsString)) (store : cache.Store)
    (identity key version : JsString) : Prop :=
  ∀ now, cache.get store now (lookupOf identity key version .exact).cacheKey = none

/-- Whichever strategy is called first and whenever, all calls give one value if and only if the
first event of the version and the one that the fold ends with hold the same value; among versions
of as many components that one is the last event of the version. -/
theorem strategies_agree_iff (cache : NodeCache (Option JsString)) (chain : Chain)
    (identity key version : JsString) :
    let name := stripPoint (resolved identity)
    ((∃ found, ∀ store now calls, Fresh cache store identity key version →
        ∀ result ∈ runCalls cache chain identity key version calls (store, now),
          result = .ok found) ↔
      version = latest ∨
        chain.firstValue name key version = chain.selectedValue name key version) ∧
    ((∀ e ∈ chain.written name key,
        (e.version.splitOn point).length = (version.splitOn point).length) →
      (∃ e ∈ chain.written name key, e.version = version) →
        chain.selectedValue name key version = chain.lastValue name key version) := by
  intro name
  refine ⟨⟨?_, ?_⟩, Chain.selectedValue_eq⟩
  · intro h
    rcases h with ⟨found, hfound⟩
    by_cases hlatest : version = latest
    · exact .inl hlatest
    · right
      -- a call on an empty cache finds what the chain has
      have hsingle : ∀ strategy, chain.lookup (lookupOf identity key version strategy) = found := by
        intro strategy
        have hresult := hfound cache.empty 0 [⟨strategy, 0⟩] (fun now => cache.get_empty now _)
        rw [runCalls_single] at hresult
        exact Except.ok.inj (hresult _ List.mem_cons_self)
      rw [← lookup_exact hlatest, ← lookup_equalOrBefore hlatest, hsingle, hsingle]
  · intro h
    -- conversely all strategies read one value, so that it does not matter which call filled the
    -- cache
    have hagree : ∀ strategy, chain.lookup (lookupOf identity key version strategy) =
        chain.lookup (lookupOf identity key version .exact) := by
      intro strategy
      by_cases hlatest : version = latest
      · rw [lookup_latest hlatest, lookup_latest hlatest]
      · cases strategy with
        | exact => rfl
        | equalOrBefore =>
          rw [lookup_exact hlatest, lookup_equalOrBefore hlatest]
          exact (h.resolve_left hlatest).symm
    refine ⟨chain.lookup (lookupOf identity key version .exact), ?_⟩
    intro store now calls hfresh
    apply runCalls_of_agree hagree
    intro time value hvalue
    rw [hfresh] at hvalue
    cases hvalue

/-- Two values are written under one version. -/
def rewritten : Chain where
  history := [⟨js "site", js "zweb/contracts/address/A", js "0xold", js "1.0.0"⟩,
    ⟨js "site", js "zweb/contracts/address/A", js "0xnew", js "1.0.0"⟩]
  ikvGet _ _ := none

/-- The calls of a run, from an empty cache. -/
def rewrittenRun (calls : List Call) : List (Except Failure (Option JsString)) :=
  runCalls (.stamped _) rewritten (js "site") (js "zweb/contracts/address/A") (js "1.0.0") calls
    (.empty, 0)

/-- One strategy finds the first write and the other one the last; within the lifetime of the entry
the first caller decides for both. -/
theorem strategies_disagree :
    rewrittenRun [⟨.exact, 0⟩, ⟨.equalOrBefore, 30000⟩] =
        [.ok (some (js "0xold")), .ok (some (js "0xnew"))] ∧
      rewrittenRun [⟨.exact, 0⟩, ⟨.equalOrBefore, 0⟩] =
        [.ok (some (js "0xold")), .ok (some (js "0xold"))] ∧
      rewrittenRun [⟨.equalOrBefore, 0⟩, ⟨.exact, 0⟩] =
        [.ok (some (js "0xnew")), .ok (some (js "0xnew"))] := by
  decide +kernel

end PointNetwork.Network.Ikv
