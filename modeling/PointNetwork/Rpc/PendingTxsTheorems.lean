import PointNetwork.Rpc.PendingTxs

/-!
# A stored transaction is sent at most once

`confirmTransaction_once` is about every run: what is sent is what was stored last under the `reqId`, not
after it expired and not twice, and nothing is sent for a `reqId` that is unknown, has expired or was
confirmed before. The invariant `Tracked` ties each entry of the pool to the transaction last stored under
its key, which has not been confirmed.
-/

namespace PointNetwork.Rpc

open Js Machine
open Deployer (truthy ownProperty)

/-! ## What is handed to a provider -/

/-- Two objects agree on all keys but one. -/
def AgreeBut (key : JsString) (a b : Json) : Prop :=
  ∃ kvs kvs', a = .obj kvs ∧ b = .obj kvs' ∧ ∀ k, k ≠ key → kvs.lookup k = kvs'.lookup k

/-- A call passes on what was stored: all parameters, but the gas price, to a network of Ethereum; the
one parameter, or the property of it that the provider asks for, to a network of Solana. -/
inductive Exact (params : List Json) (network : JsString) : Call → Prop
  | eth (id : Json) : Exact params network (.eth id params network)
  | gasPrice (id : Json) {item filled : Json} {rest : List Json} : params = item :: rest →
      AgreeBut (js "gasPrice") filled item → Exact params network (.eth id (filled :: rest) network)
  | sendFunds {item : Json} {kvs : List (JsString × Json)} : params = [item] →
      AgreeBut (js "network") (.obj kvs) item → kvs.lookup (js "network") = some (.str network) →
      Exact params network (.sendFunds (.obj kvs))
  | setPointReference {item domain : Json} : params = [item] →
      ownProperty (js "domain") item = some domain →
      Exact params network (.setPointReference domain network)
  | signAndSendTransaction (id : Json) {item : Json} : params = [item] →
      Exact params network (.signAndSendTransaction id item network)

/-- Setting a property changes nothing else. -/
lemma agreeBut_setProp (key : JsString) (value : Json) (kvs : List (JsString × Json)) :
    AgreeBut key (.obj (setProp key value kvs)) (.obj kvs) :=
  ⟨_, _, rfl, rfl, fun _ hne => lookup_setProp_ne hne value kvs⟩

/-- What is stored for a network of Solana is one parameter. -/
def Node.Whole (node : Node) (params : List Json) (network : JsString) : Prop :=
  node.networkType network = some .solana → params.length = 1

variable {node : Node} {request : RPCRequest} {id : Json} {params : List Json} {network : JsString}
  {tx : PendingTx} {call : Call}

/-- What is sent to Ethereum is what was stored. -/
lemma ethereumSend_exact (h : ethereumSend node id params network = .ok call) :
    Exact params network call := by
  unfold ethereumSend at h
  split at h
  · rename_i item rest price _
    cases item with
    | obj kvs =>
      cases h
      exact .gasPrice id rfl (agreeBut_setProp _ _ kvs)
    | arr xs =>
      cases h
      exact .eth id
    | null | bool | num | str => cases h
  · cases h
    exact .eth id

/-- What is sent to Solana is what was stored. -/
lemma solanaSend_exact (hone : params.length = 1) (h : solanaSend id params network = .ok call) :
    Exact params network call := by
  obtain ⟨item, rfl⟩ := List.length_eq_one_iff.mp hone
  unfold solanaSend at h
  simp only [List.head?_cons] at h
  split at h
  · cases h
  · cases h
  · rename_i given _ hgiven
    obtain rfl : item = given := Option.some.inj hgiven
    split at h
    · cases h
      exact .sendFunds rfl (agreeBut_setProp _ _ _) (lookup_setProp_self _ _ _)
    · split at h
      · rename_i domain hdomain
        split at h
        · cases h
          exact .setPointReference rfl hdomain
        · cases h
          exact .signAndSendTransaction id rfl
      · cases h
        exact .signAndSendTransaction id rfl

/-- A transaction is sent as it was stored. -/
theorem sendTo_exact (hone : node.Whole tx.params tx.network) (h : sendTo node id tx = .ok call) :
    Exact tx.params tx.network call := by
  unfold sendTo at h
  split at h
  · cases h
  · exact ethereumSend_exact h
  · rename_i htype
    exact solanaSend_exact (hone htype) h
  · cases h

/-- What is stored has all that is sent. -/
lemma checkTransaction_whole (h : checkTransaction node request = .ok tx) :
    node.Whole tx.params tx.network := by
  unfold checkTransaction at h
  split at h
  · cases h
  · simp only at h
    split at h
    · cases h
    · rename_i type htype
      split at h
      · cases h
      · rename_i hcond
        cases h
        intro hsolana
        by_contra hlength
        exact hcond ⟨Option.some.inj (htype.symm.trans hsolana), hlength⟩

lemma snsTransaction_whole (h : snsTransaction node request = .ok tx) :
    node.Whole tx.params tx.network := by
  unfold snsTransaction at h
  split at h
  · cases h
  · cases h
  · cases h
  · split at h
    · split at h
      · cases h
        exact fun _ => rfl
      · cases h
    · cases h

/-! ## The three ways of a confirmation -/

variable {now : ℕ} {pool : Pool}

/-- The entry is found and removed, or there is none, or the request names none. -/
inductive Confirmation (node : Node) (now : ℕ) (pool : Pool) (request : RPCRequest) :
    Except Reply Call × Pool → Prop
  | found {reqId : JsString} {tx : PendingTx} : request.confirms = some reqId →
      (pool.get now reqId).1 = some tx → Confirmation node now pool request
        (sendTo node request.id tx, ((pool.get now reqId).2.rm reqId).2)
  | missing {reqId : JsString} {r : Reply} : request.confirms = some reqId →
      (pool.get now reqId).1 = none →
      Confirmation node now pool request (.error r, (pool.get now reqId).2)
  | unnamed {r : Reply} : request.confirms = none →
      Confirmation node now pool request (.error r, pool)

/-- What a confirmation does to the pool, case by case. -/
theorem confirmation (node : Node) (now : ℕ) (pool : Pool) (request : RPCRequest) :
    Confirmation node now pool request (confirmTransaction node now pool request) := by
  unfold confirmTransaction
  split
  · rename_i hnone
    exact .unnamed (by rw [RPCRequest.confirms, hnone])
  · rename_i reqId hreqId
    have hconfirms : request.confirms = some reqId := by rw [RPCRequest.confirms, hreqId]
    split
    · rename_i left hget
      have hmissing := @Confirmation.missing node now pool request reqId (notFound (.str reqId))
        hconfirms (congrArg Prod.fst hget)
      rwa [hget] at hmissing
    · rename_i tx left hget
      have hfound := @Confirmation.found node now pool request reqId tx hconfirms
        (congrArg Prod.fst hget)
      rwa [hget] at hfound
  · rename_i reqId hother hreqId
    refine .unnamed ?_
    rw [RPCRequest.confirms, hreqId]
    cases reqId with
    | str reqId => exact absurd rfl (hother reqId)
    | null | bool | num | arr | obj => rfl

/-- What is left in the pool was there, under another key than the one that is confirmed. -/
lemma Confirmation.of_get {result : Except Reply Call × Pool}
    (h : Confirmation node now pool request result) {key : JsString} {e : CacheEntry PendingTx}
    (hget : result.2.cache.get key = some e) :
    pool.cache.get key = some e ∧ request.confirms ≠ some key := by
  cases h with
  | @found reqId tx hconfirms hfound =>
    obtain ⟨hne, hleft⟩ := CacheFactory.of_get_rm hget
    refine ⟨(CacheFactory.of_get_checkExpired hleft).1, ?_⟩
    rw [hconfirms]
    exact fun heq => hne (Option.some.inj heq).symm
  | @missing reqId r hconfirms hmissing =>
    refine ⟨(CacheFactory.of_get_checkExpired hget).1, ?_⟩
    rw [hconfirms]
    intro heq
    obtain rfl := Option.some.inj heq
    have hnone := Option.map_eq_none_iff.mp hmissing
    rw [show (pool.checkExpired now reqId).cache.get reqId = some e from hget] at hnone
    cases hnone
  | unnamed hconfirms =>
    refine ⟨hget, ?_⟩
    rw [hconfirms]
    exact fun heq => (by cases heq)

/-- A confirmation does not change the time to live. -/
lemma Confirmation.ttlMs {result : Except Reply Call × Pool}
    (h : Confirmation node now pool request result) : result.2.ttlMs = pool.ttlMs := by
  cases h with
  | found => exact CacheFactory.ttlMs_checkExpired
  | missing => exact CacheFactory.ttlMs_checkExpired
  | unnamed => rfl

/-- A call is made for an entry that was found and has not expired. -/
lemma Confirmation.of_call {pool' : Pool}
    (h : Confirmation node now pool request (.ok call, pool')) :
    ∃ reqId e, request.confirms = some reqId ∧ pool.cache.get reqId = some e ∧
      (e.exp ≠ 0 → now ≤ e.exp) ∧ sendTo node request.id e.entry = .ok call := by
  generalize hresult : (Except.ok call, pool') = result at h
  cases h with
  | @found reqId tx hconfirms hfound =>
    obtain ⟨e, hget, rfl, hlive⟩ := CacheFactory.of_get hfound
    exact ⟨reqId, e, hconfirms, hget, hlive, (congrArg Prod.fst hresult).symm⟩
  | missing => cases hresult
  | unnamed => cases hresult

/-! ## The invariant -/

variable {s s' : State} {reqId : JsString}

/-- Each entry of the pool is the transaction last stored under its key, not confirmed so far. -/
structure Tracked (node : Node) (s : State) : Prop where
  ttlMs : s.pendingTxs.ttlMs = node.ttlMs
  now_pos : 0 < s.now
  decoding : ∀ tx ∈ s.decoding, node.Whole tx.params tx.network
  numbers : Table.Keyed Stored.number s.stored
  stored : ∀ tx ∈ s.stored, tx.number < s.stored.length ∧ node.Whole tx.params tx.network
  confirmed : ∀ n ∈ s.confirmed, n < s.stored.length
  pending : ∀ reqId e, s.pendingTxs.cache.get reqId = some e → ∃ tx, s.latest reqId = some tx ∧
    e = ⟨tx.time + node.ttlMs, tx.params, tx.network⟩ ∧ 0 < e.exp ∧ tx.number ∉ s.confirmed
  sent : ∀ e ∈ s.sent, ∃ tx ∈ s.stored, e.tx = some tx ∧ tx.number ∈ s.confirmed ∧
    e.time ≤ tx.time + node.ttlMs ∧ Exact tx.params tx.network e.call
  once : (s.sent.map Sent.tx).Nodup

lemma tracked_init (node : Node) : Tracked node node.init where
  ttlMs := rfl
  now_pos := node.start_pos
  decoding := by simp [Node.init]
  numbers := List.nodup_nil
  stored := by simp [Node.init]
  confirmed := by simp [Node.init]
  pending := by simp [Node.init]
  sent := by simp [Node.init]
  once := List.nodup_nil

lemma Tracked.reply (h : Tracked node s) (r : Reply) : Tracked node (s.reply r) := { h with }

lemma mem_of_latest {tx : Stored} (h : s.latest reqId = some tx) : tx ∈ s.stored :=
  List.mem_of_find?_eq_some h

lemma reqId_of_latest {tx : Stored} (h : s.latest reqId = some tx) : tx.reqId = reqId := by
  have hkey := List.find?_some h
  exact of_decide_eq_true hkey

/-- The transaction that was stored last under a request id. -/
lemma latest_add (bytes : Vector UInt8 32) : (s.add tx bytes).latest reqId =
    if generateId bytes = reqId then
      some ⟨s.stored.length, generateId bytes, tx.params, tx.network, s.now⟩
    else s.latest reqId := by
  unfold State.add State.latest
  rw [List.find?_cons]
  by_cases heq : generateId bytes = reqId
  · rw [if_pos heq]
    simp [heq]
  · rw [if_neg heq]
    simp [heq]

/-- A new transaction has a new number and is the last one under its key. -/
lemma Tracked.add (h : Tracked node s) (hone : node.Whole tx.params tx.network)
    (bytes : Vector UInt8 32) : Tracked node (s.add tx bytes) where
  ttlMs := CacheFactory.ttlMs_add.trans h.ttlMs
  now_pos := h.now_pos
  decoding := h.decoding
  numbers := by
    refine List.nodup_cons.mpr ⟨?_, h.numbers⟩
    rintro hmem
    obtain ⟨tx', hmem', hnumber⟩ := List.mem_map.mp hmem
    have hlt := (h.stored tx' hmem').1
    have hlength : tx'.number = s.stored.length := hnumber
    omega
  stored := by
    show ∀ tx' ∈ _ :: s.stored, _ < s.stored.length + 1 ∧ _
    rw [List.forall_mem_cons]
    refine ⟨⟨Nat.lt_succ_self _, hone⟩, ?_⟩
    intro tx' hmem
    exact ⟨Nat.lt_succ_of_lt (h.stored tx' hmem).1, (h.stored tx' hmem).2⟩
  confirmed := fun n hn => Nat.lt_succ_of_lt (h.confirmed n hn)
  pending := by
    intro reqId e hget
    rw [latest_add]
    -- the entry that was added stands for the new transaction, which nobody has confirmed
    rcases CacheFactory.of_get_add hget with ⟨rfl, rfl⟩ | ⟨hne, hold⟩
    · have hpos := h.now_pos
      refine ⟨_, if_pos rfl, ?_, ?_, ?_⟩
      · rw [h.ttlMs]
      · show 0 < s.now + s.pendingTxs.ttlMs
        omega
      · intro hmem
        exact Nat.lt_irrefl _ (h.confirmed _ hmem)
    · rw [if_neg fun heq => hne heq.symm]
      exact h.pending reqId e hold
  sent := by
    intro e he
    obtain ⟨tx', hmem, hrest⟩ := h.sent e he
    exact ⟨tx', List.mem_cons_of_mem _ hmem, hrest⟩
  once := h.once

lemma target_eq_some {tx : Stored} : s.target request = some tx ↔
    ∃ reqId, request.confirms = some reqId ∧ s.latest reqId = some tx := Option.bind_eq_some_iff

/-- The state after `confirmTransaction`, but for the call or the reply. -/
def State.looked (s : State) (pool : Pool) (request : RPCRequest) : State :=
  { s with
    pendingTxs := pool
    confirmed := (s.target request).toList.map Stored.number ++ s.confirmed }

/-- A confirmation adds the transaction that it means. -/
lemma mem_confirmed_looked {n : ℕ} : n ∈ (s.looked pool request).confirmed ↔
    (∃ tx, s.target request = some tx ∧ tx.number = n) ∨ n ∈ s.confirmed := by
  unfold State.looked
  rw [List.mem_append]
  simp

/-- A confirmation leaves only entries of other keys, whose transactions have other numbers. -/
lemma Tracked.looked (h : Tracked node s) {outcome : Except Reply Call}
    (hcon : Confirmation node s.now s.pendingTxs request (outcome, pool)) :
    Tracked node (s.looked pool request) where
  ttlMs := hcon.ttlMs.trans h.ttlMs
  now_pos := h.now_pos
  decoding := h.decoding
  numbers := h.numbers
  stored := h.stored
  confirmed := by
    intro n hn
    rcases mem_confirmed_looked.mp hn with ⟨tx, htarget, rfl⟩ | hold
    · obtain ⟨reqId, -, hlatest⟩ := target_eq_some.mp htarget
      exact (h.stored tx (mem_of_latest hlatest)).1
    · exact h.confirmed n hold
  pending := by
    intro key e hget
    obtain ⟨hold, hother⟩ := hcon.of_get hget
    obtain ⟨tx, hlatest, heq, hpos, hfree⟩ := h.pending key e hold
    refine ⟨tx, hlatest, heq, hpos, ?_⟩
    intro hmem
    -- a transaction is under one key only, and this key was taken out of the pool
    rcases mem_confirmed_looked.mp hmem with ⟨tx', htarget, hnumber⟩ | hconfirmed
    · obtain ⟨reqId, hconfirms, hlatest'⟩ := target_eq_some.mp htarget
      have hsame : tx' = tx :=
        h.numbers.eq (mem_of_latest hlatest') (mem_of_latest hlatest) hnumber
      have hkey : reqId = key := by
        rw [← reqId_of_latest hlatest', ← reqId_of_latest hlatest, hsame]
      exact hother (hkey ▸ hconfirms)
    · exact hfree hconfirmed
  sent := by
    intro e he
    obtain ⟨tx, hmem, htx, hconfirmed, hrest⟩ := h.sent e he
    exact ⟨tx, hmem, htx, mem_confirmed_looked.mpr (.inr hconfirmed), hrest⟩
  once := h.once

/-- The request names a stored transaction that has not expired and was not confirmed before. -/
def State.Open (node : Node) (s : State) (request : RPCRequest) : Prop :=
  ∃ tx, s.target request = some tx ∧ s.now ≤ tx.time + node.ttlMs ∧ tx.number ∉ s.confirmed

/-- What a confirmation sends is the transaction it names. -/
lemma Tracked.of_call (h : Tracked node s)
    (hcon : Confirmation node s.now s.pendingTxs request (.ok call, pool)) :
    ∃ tx ∈ s.stored, s.target request = some tx ∧ s.now ≤ tx.time + node.ttlMs ∧
      tx.number ∉ s.confirmed ∧ Exact tx.params tx.network call := by
  obtain ⟨reqId, e, hconfirms, hget, hlive, hsend⟩ := hcon.of_call
  obtain ⟨tx, hlatest, rfl, hpos, hfree⟩ := h.pending reqId e hget
  have hmem := mem_of_latest hlatest
  exact ⟨tx, hmem, target_eq_some.mpr ⟨reqId, hconfirms, hlatest⟩, hlive hpos.ne', hfree,
    sendTo_exact (h.stored tx hmem).2 hsend⟩

/-- A confirmation keeps the invariant. -/
lemma Tracked.confirm (h : Tracked node s) (request : RPCRequest) :
    Tracked node (node.confirm s request) := by
  have hcon := confirmation node s.now s.pendingTxs request
  unfold Node.confirm
  generalize confirmTransaction node s.now s.pendingTxs request = result at hcon ⊢
  obtain ⟨outcome, pool⟩ := result
  have hlooked := h.looked hcon
  cases outcome with
  | error r => exact hlooked.reply r
  | ok call =>
    obtain ⟨tx, hmem, htarget, hlive, hfree, hexact⟩ := h.of_call hcon
    have htx : (s.looked pool request).target request = some tx := htarget
    have hmarked : tx.number ∈ (s.looked pool request).confirmed :=
      mem_confirmed_looked.mpr (.inl ⟨tx, htarget, rfl⟩)
    refine { hlooked with sent := ?_, once := ?_ }
    · intro e he
      rcases List.mem_cons.mp he with rfl | hold
      · exact ⟨tx, hmem, htx, hmarked, hlive, hexact⟩
      · exact hlooked.sent e hold
    · refine List.nodup_cons.mpr ⟨?_, h.once⟩
      intro hagain
      obtain ⟨e, he, heq⟩ := List.mem_map.mp hagain
      obtain ⟨tx', -, htx', hconfirmed, -⟩ := h.sent e he
      have hsame : some tx' = some tx := htx'.symm.trans (heq.trans htx)
      exact hfree (Option.some.inj hsame ▸ hconfirmed)

/-- The invariant holds in every reachable state. -/
theorem tracked (h : Reach node.step Any node.init s) : Tracked node s := by
  refine h.invariant (tracked_init node) ?_
  intro s e s' hs _ hstep
  cases e with
  | tick ms =>
    cases hstep
    exact { hs with now_pos := Nat.add_pos_left hs.now_pos ms }
  | storeTransaction request =>
    simp only [Node.step] at hstep
    split at hstep
    · rename_i tx htx
      cases hstep
      refine { hs with decoding := ?_ }
      intro tx' hmem
      rcases List.mem_append.mp hmem with hold | hnew
      · exact hs.decoding tx' hold
      · obtain rfl := List.mem_singleton.mp hnew
        exact checkTransaction_whole htx
    · cases hstep
      exact hs.reply _
  | decoded i success bytes =>
    obtain ⟨tx, htx, rfl⟩ := Option.map_eq_some_iff.mp hstep
    -- the request is answered in both cases, so it waits no longer
    have hrest : Tracked node { s with decoding := s.decoding.eraseIdx i } :=
      { hs with decoding := fun tx' hmem => hs.decoding tx' (List.mem_of_mem_eraseIdx hmem) }
    cases success with
    | true => exact hrest.add (hs.decoding tx (List.mem_of_getElem? htx)) bytes
    | false => exact hrest.reply _
  | snsWriteRequest request bytes =>
    simp only [Node.step] at hstep
    split at hstep
    · rename_i tx htx
      cases hstep
      exact hs.add (snsTransaction_whole htx) bytes
    · cases hstep
      exact hs.reply _
  | confirmTransaction request =>
    cases hstep
    exact hs.confirm request

/-- A confirmation of a `reqId` that is unknown, has expired or was confirmed before sends nothing. -/
theorem Tracked.sent_confirm (h : Tracked node s) (hclosed : ¬ s.Open node request) :
    (node.confirm s request).sent = s.sent := by
  have hcon := confirmation node s.now s.pendingTxs request
  unfold Node.confirm
  generalize confirmTransaction node s.now s.pendingTxs request = result at hcon ⊢
  obtain ⟨outcome, pool⟩ := result
  cases outcome with
  | error r => rfl
  | ok call =>
    obtain ⟨tx, -, htarget, hlive, hfree, -⟩ := h.of_call hcon
    exact absurd ⟨tx, htarget, hlive, hfree⟩ hclosed

/-- In every run: each stored transaction is sent at most once, not after it expired, and as it was stored;
a confirmation that names none that is open sends nothing. -/
theorem confirmTransaction_once (h : Reach node.step Any node.init s) :
    ((s.stored.map Stored.number).Nodup ∧ (s.sent.map Sent.tx).Nodup) ∧
      (∀ e ∈ s.sent, ∃ tx ∈ s.stored, e.tx = some tx ∧ e.time ≤ tx.time + node.ttlMs ∧
        Exact tx.params tx.network e.call) ∧
      ∀ request s', node.step s (.confirmTransaction request) = some s' →
        ¬ s.Open node request → s'.sent = s.sent := by
  have htracked := tracked h
  refine ⟨⟨htracked.numbers, htracked.once⟩, ?_, ?_⟩
  · intro e he
    obtain ⟨tx, hmem, htx, -, hrest⟩ := htracked.sent e he
    exact ⟨tx, hmem, htx, hrest⟩
  · intro request s' hstep hclosed
    cases hstep
    exact htracked.sent_confirm hclosed

/-- A node with one network of Ethereum. -/
def Node.small : Node where
  defaultNetwork := js "ynet"
  networkType network := if network = js "ynet" then some .eth else none
  gasPrice _ := some (js "0x1")
  ttlMs := 1000
  publicKey := []
  start := 1
  start_pos := Nat.one_pos

/-- A transaction is stored, and confirmed twice within the time. -/
def confirmedTwice : State :=
  let bytes := Vector.replicate 32 7
  let reqId : Json := .obj [(js "reqId", .str (generateId bytes))]
  after (guarded Node.small.step Any) Node.small.init
    [.storeTransaction ⟨.null, some [.obj [(js "to", .str (js "0xa"))]], none⟩,
      .decoded 0 true bytes, .tick 500, .confirmTransaction ⟨.null, some [reqId], none⟩, .tick 100,
      .confirmTransaction ⟨.null, some [reqId], none⟩]

theorem confirmTransaction_once_twice :
    confirmedTwice.sent.length = 1 ∧ (confirmedTwice.sent.map Sent.tx).Nodup :=
  ⟨by decide +kernel,
    (confirmTransaction_once (.of_after _ (by decide +kernel))).1.2⟩

end PointNetwork.Rpc
