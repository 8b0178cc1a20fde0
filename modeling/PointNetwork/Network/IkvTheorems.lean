import PointNetwork.Network.IkvMachine

/-!
# When a node reads its own writes

`putKeyValue` removes the entry of the key from `keyValueCache`, and no other cache hands out its old value
for long but `zRecordCache`, which `putZRecord` leaves as it is: `not_readsOwnWrites`. In every run in which
the entries that answer are the key's own and not outdated, each call returns what was written
(`readsOwnWrites`). The invariant `Valid` says of each promise in `keyValueCache` that it was made after
the writes of its key that have resolved.
-/

namespace PointNetwork.Network.Ikv

open Js Machine
open Deployer (stripPoint)

variable {node : Node} {s : State node} {cell : Cell} {promise seen n : ℕ}

/-! ## What the chain holds -/

lemma getElem?_append_some {α : Type} {xs : List α} {i : ℕ} {x : α} (h : xs[i]? = some x)
    (ys : List α) : (xs ++ ys)[i]? = some x := by
  rw [List.getElem?_append_left (List.getElem?_eq_some_iff.mp h).1]
  exact h

/-- The n-th write is one to the key. -/
def Written (writes : List Write) (cell : Cell) (n : ℕ) : Prop :=
  ∃ write, writes[n - 1]? = some write ∧ write.cell = cell

/-- What has been written stays written. -/
lemma Written.append {writes : List Write} (h : Written writes cell n) (more : List Write) :
    Written (writes ++ more) cell n := by
  obtain ⟨write, hget, hcell⟩ := h
  exact ⟨write, getElem?_append_some hget more, hcell⟩

/-- What `ikvGet` answers after a write to the key is the value of a write. -/
lemma ikvGet_mem {chain : Cell → JsString} {writes : List Write}
    (h : ∃ write ∈ writes, write.cell = cell) :
    ∃ write ∈ writes, ikvGet chain writes cell = write.value := by
  obtain ⟨write, hmem, hcell⟩ := h
  have hne : writes.filter (fun write => write.cell = cell) ≠ [] :=
    List.ne_nil_of_mem (List.mem_filter.mpr ⟨hmem, decide_eq_true hcell⟩)
  obtain ⟨last, hlast⟩ := Option.ne_none_iff_exists'.mp (mt List.getLast?_eq_none_iff.mp hne)
  refine ⟨last, List.mem_of_mem_filter (List.mem_of_getLast? hlast), ?_⟩
  rw [ikvGet, hlast]
  rfl

/-! ## The invariant -/

/-- The promise looks up the latest version of the key and was made after that many writes. -/
def State.Covers (s : State node) (promise : ℕ) (cell : Cell) (seen : ℕ) : Prop :=
  ∃ p, s.promises[promise]? = some p ∧ p.lookup.cell = cell ∧ p.lookup.version = latest ∧
    seen ≤ p.issued

/-- What holds in runs whose entries are their own and not outdated. -/
structure Valid (s : State node) : Prop where
  visible : ∀ cell, s.visible cell ≤ s.writes.length ∧
    (0 < s.visible cell → Written s.writes cell (s.visible cell))
  writes : ∀ write ∈ s.writes, ¬ copyFromIkv_prolog <+: write.value
  puts : ∀ put ∈ s.puts, ¬ copyFromIkv_prolog <+: put.value ∧
    ∀ n, put.mined = some n → n < s.writes.length ∧ Written s.writes put.cell (n + 1)
  entry : ∀ now key promise, (node.cache ℕ).get s.keyValueCache now key = some promise →
    ∃ p, s.promises[promise]? = some p ∧ p.lookup.cacheKey = key ∧
      (p.lookup.version = latest → s.visible p.lookup.cell ≤ p.issued)
  issued : ∀ p ∈ s.promises, p.issued ≤ s.writes.length
  promises : ∀ p ∈ s.promises, p.lookup.version = latest → ∀ outcome, p.outcome = some outcome →
    ∃ n, p.issued ≤ n ∧ n ≤ s.writes.length ∧
      (outcome = .ok (some (ikvGet node.chain (s.writes.take n) p.lookup.cell)) ∨
        ∀ write ∈ s.writes.take n, write.cell ≠ p.lookup.cell)
  records : ∀ now key record, (node.cache ZRecord).get s.zRecordCache now key = some record →
    record.version = latest → 0 < record.seen → localSuffix.isSuffixOf record.domain = false →
      s.Covers record.promise (stripPoint record.domain, ZDNS_ROUTES_KEY) record.seen
  gets : ∀ call ∈ s.gets, call.version = latest → 0 < call.seen →
    s.Covers call.promise call.asked call.seen ∧ Written s.writes call.asked call.seen

lemma valid_init (node : Node) : Valid node.init where
  visible _ := ⟨le_refl _, fun h => absurd h (Nat.lt_irrefl 0)⟩
  writes := by simp [Node.init]
  puts := by simp [Node.init]
  entry now key promise h := by
    rw [show (node.cache ℕ).get node.init.keyValueCache now key = none from
      (node.cache ℕ).get_empty now key] at h
    cases h
  issued := by simp [Node.init]
  promises := by simp [Node.init]
  records now key record h := by
    rw [show (node.cache ZRecord).get node.init.zRecordCache now key = none from
      (node.cache ZRecord).get_empty now key] at h
    cases h
  gets := by simp [Node.init]

/-- A call is covered also when promises are added. -/
lemma State.Covers.append {t : State node} {more : List Promise} (h : s.Covers promise cell seen)
    (ht : t.promises = s.promises ++ more) : t.Covers promise cell seen := by
  obtain ⟨p, hget, hrest⟩ := h
  refine ⟨p, ?_, hrest⟩
  rw [ht]
  exact getElem?_append_some hget more

/-! ## Looking into the caches -/

/-- A lookup that is started is made after all writes so far. -/
lemma Valid.find (h : Valid s) (lookup : Lookup) : Valid (s.find lookup).2 := by
  unfold State.find
  split
  · exact h
  · refine { h with entry := ?_, issued := ?_, promises := ?_, records := ?_, gets := ?_ }
    · intro now key promise hget
      rcases NodeCache.of_get_set hget with ⟨rfl, rfl⟩ | ⟨-, hold⟩
      · exact ⟨_, List.getElem?_concat_length, rfl, fun _ => (h.visible _).1⟩
      · obtain ⟨p, hp, hrest⟩ := h.entry now key promise hold
        exact ⟨p, getElem?_append_some hp _, hrest⟩
    · intro p hmem
      rcases List.mem_append.mp hmem with hold | hnew
      · exact h.issued p hold
      · obtain rfl := List.mem_singleton.mp hnew
        exact le_refl _
    · intro p hmem
      rcases List.mem_append.mp hmem with hold | hnew
      · exact h.promises p hold
      · obtain rfl := List.mem_singleton.mp hnew
        exact fun _ outcome hnone => (by cases hnone)
    · intro now key record hget hversion hseen hlocal
      exact (h.records now key record hget hversion hseen hlocal).append rfl
    · intro call hcall hversion hseen
      obtain ⟨hcovers, hwritten⟩ := h.gets call hcall hversion hseen
      exact ⟨hcovers.append rfl, hwritten⟩

/-- The cache key of a lookup of the latest version. -/
lemma cacheKey_latest (lookup : Lookup) (h : lookup.version = latest) :
    lookup.cacheKey = lookup.cell.1 ++ js "-" ++ lookup.cell.2 := by
  rw [Lookup.cacheKey, if_pos h]
  rfl

/-- A lookup leaves the chain, the records and the calls alone. -/
lemma find_fields (s : State node) (lookup : Lookup) :
    (s.find lookup).2.visible = s.visible ∧ (s.find lookup).2.writes = s.writes ∧
      (s.find lookup).2.zRecordCache = s.zRecordCache ∧ (s.find lookup).2.now = s.now ∧
        (s.find lookup).2.gets = s.gets := by
  unfold State.find
  split
  · exact ⟨rfl, rfl, rfl, rfl, rfl⟩
  · exact ⟨rfl, rfl, rfl, rfl, rfl⟩

/-- The promise found for a key of whose entry is its own was made after the writes that resolved. -/
lemma Valid.find_covers (h : Valid s) {identity key strategy : JsString}
    (hown : s.OwnPromise identity key) :
    (s.find ⟨identity, key, latest, strategy⟩).2.Covers
      (s.find ⟨identity, key, latest, strategy⟩).1 (identity, key) (s.visible (identity, key)) := by
  have hkey := cacheKey_latest ⟨identity, key, latest, strategy⟩ rfl
  unfold State.find
  split
  · rename_i promise hget
    obtain ⟨p, hp, -, hvisible⟩ := h.entry _ _ _ hget
    obtain ⟨hcell, hversion⟩ := hown promise (hkey ▸ hget) p hp
    refine ⟨p, hp, hcell, hversion, ?_⟩
    rw [← hcell]
    exact hvisible hversion
  · exact ⟨_, List.getElem?_concat_length, rfl, rfl, (h.visible _).1⟩

/-- A call that has seen less is covered. -/
lemma State.Covers.mono {seen' : ℕ} (h : s.Covers promise cell seen) (hle : seen' ≤ seen) :
    s.Covers promise cell seen' := by
  obtain ⟨p, hget, hcell, hversion, hissued⟩ := h
  exact ⟨p, hget, hcell, hversion, hle.trans hissued⟩

/-- Only .local identities are changed. -/
lemma resolved_of_not_local {identity : JsString} (h : localSuffix.isSuffixOf identity = false) :
    resolved identity = identity :=
  withoutLocal_of_not_local fun hlocal => Bool.false_ne_true (h.symm.trans hlocal)

/-- What `zRecordCache` answers for the latest version is a promise made after the writes that resolved,
if its entry is the domain's own and not outdated. -/
lemma Valid.findZRecord (h : Valid s) {domain version : JsString}
    (hcoherent : version = latest → s.visible (stripPoint domain, ZDNS_ROUTES_KEY) = 0 ∨
      localSuffix.isSuffixOf domain = false ∧ s.OwnRecord domain) :
    Valid (s.findZRecord domain version).2 ∧ (version = latest →
      0 < s.visible (stripPoint domain, ZDNS_ROUTES_KEY) →
        (s.findZRecord domain version).2.Covers (s.findZRecord domain version).1.promise
          (stripPoint domain, ZDNS_ROUTES_KEY) (s.visible (stripPoint domain, ZDNS_ROUTES_KEY))) := by
  unfold State.findZRecord
  split
  · rename_i record hget
    refine ⟨h, ?_⟩
    rintro rfl hpos
    obtain ⟨hlocal, hown⟩ := (hcoherent rfl).resolve_left hpos.ne'
    obtain ⟨rfl, hversion, hle⟩ := hown.1 record hget
    exact (h.records _ _ _ hget hversion (hpos.trans_le hle) hlocal).mono hle
  · rename_i hnone
    -- a new record, over a promise of `keyValueCache`
    have hcovers : version = latest → 0 < s.visible (stripPoint domain, ZDNS_ROUTES_KEY) →
        (s.find ⟨stripPoint (resolved domain), ZDNS_ROUTES_KEY, version, js "exact"⟩).2.Covers
          (s.find ⟨stripPoint (resolved domain), ZDNS_ROUTES_KEY, version, js "exact"⟩).1
          (stripPoint domain, ZDNS_ROUTES_KEY)
          (s.visible (stripPoint domain, ZDNS_ROUTES_KEY)) := by
      rintro rfl hpos
      obtain ⟨hlocal, hown⟩ := (hcoherent rfl).resolve_left hpos.ne'
      rw [resolved_of_not_local hlocal]
      exact h.find_covers (hown.2 (by rw [hnone]; rfl))
    refine ⟨?_, hcovers⟩
    have hfind := h.find ⟨stripPoint (resolved domain), ZDNS_ROUTES_KEY, version, js "exact"⟩
    refine { hfind with records := ?_ }
    intro now key record hget hversion hseen hlocal
    rcases NodeCache.of_get_set hget with ⟨-, rfl⟩ | ⟨-, hold⟩
    · exact hcovers hversion hseen
    · exact hfind.records now key record hold hversion hseen hlocal

lemma findZRecord_fields (s : State node) (domain version : JsString) :
    (s.findZRecord domain version).2.writes = s.writes := by
  unfold State.findZRecord
  split
  · rfl
  · exact (find_fields s _).2.1

/-- A call is added whose promise was made after the writes it has to see. -/
lemma Valid.addCall {t : State node} (h : Valid t) {call : GetCall}
    (hcall : call.version = latest → 0 < call.seen →
      t.Covers call.promise call.asked call.seen ∧ Written t.writes call.asked call.seen) :
    Valid { t with gets := t.gets ++ [call] } := by
  refine { h with gets := ?_ }
  intro call' hmem
  rcases List.mem_append.mp hmem with hold | hnew
  · exact h.gets call' hold
  · obtain rfl := List.mem_singleton.mp hnew
    exact hcall

/-- A call of `getKeyValue` keeps the state valid. -/
lemma Valid.getKeyValue (h : Valid s) {identity key version strategy : JsString} {follow : Bool}
    (hcoherent : Coherent s (.getKeyValue identity key version strategy follow)) :
    Valid (s.getKeyValue identity key version strategy follow) := by
  unfold State.getKeyValue
  split
  · refine (h.find _).addCall ?_
    rintro hversion hpos
    obtain rfl : version = latest := hversion
    obtain ⟨hlocal, hown⟩ := (hcoherent rfl).resolve_left hpos.ne'
    refine ⟨?_, ?_⟩
    · rw [resolved_of_not_local hlocal]
      exact h.find_covers hown
    · rw [(find_fields s _).2.1]
      exact (h.visible _).2 hpos
  · exact h

/-- A call of `getZRecord` keeps the state valid. -/
lemma Valid.getZRecord (h : Valid s) {domain version : JsString}
    (hcoherent : Coherent s (.getZRecord domain version)) : Valid (s.getZRecord domain version) := by
  obtain ⟨hfind, hcovers⟩ := h.findZRecord hcoherent
  refine hfind.addCall ?_
  intro hversion hpos
  refine ⟨hcovers hversion hpos, ?_⟩
  rw [findZRecord_fields]
  exact (h.visible _).2 hpos

/-! ## What the chain answers -/

/-- Settling a promise leaves all of it but the outcome, and all others. -/
lemma promises_settle (s : State node) (i j : ℕ) (outcome : Except Failure (Option JsString)) :
    (s.settle i outcome).promises[j]? =
      s.promises[j]?.map fun p => if i = j then { p with outcome := some outcome } else p := by
  show (s.promises.modify i _)[j]? = _
  rw [List.getElem?_modify]
  by_cases hi : i = j
  · simp [hi]
  · simp [hi]

/-- A call is covered also when a promise settles. -/
lemma State.Covers.settle (h : s.Covers promise cell seen) (i : ℕ)
    (outcome : Except Failure (Option JsString)) : (s.settle i outcome).Covers promise cell seen := by
  obtain ⟨p, hget, hcell, hversion, hissued⟩ := h
  have hget' := promises_settle s i promise outcome
  rw [hget] at hget'
  by_cases hi : i = promise
  · exact ⟨_, hget'.trans (congrArg some (if_pos hi)), hcell, hversion, hissued⟩
  · exact ⟨_, hget'.trans (congrArg some (if_neg hi)), hcell, hversion, hissued⟩

/-- A promise is settled by what the chain holds, or fails before anything is written. -/
lemma Valid.settle (h : Valid s) {i : ℕ} {p : Promise} {outcome : Except Failure (Option JsString)}
    (hp : s.promises[i]? = some p) (houtcome : p.lookup.version = latest →
      outcome = .ok (some (ikvGet node.chain s.writes p.lookup.cell)) ∨
        ∀ write ∈ s.writes, write.cell ≠ p.lookup.cell) : Valid (s.settle i outcome) := by
  refine { h with entry := ?_, issued := ?_, promises := ?_, records := ?_, gets := ?_ }
  · intro now key promise hget
    obtain ⟨q, hq, hkey, hvisible⟩ := h.entry now key promise hget
    refine ⟨_, (promises_settle s i promise outcome).trans (congrArg (Option.map _) hq), ?_⟩
    split
    · exact ⟨hkey, hvisible⟩
    · exact ⟨hkey, hvisible⟩
  · intro q hmem
    obtain ⟨j, hj⟩ := List.mem_iff_getElem?.mp hmem
    rw [promises_settle] at hj
    obtain ⟨old, hold, rfl⟩ := Option.map_eq_some_iff.mp hj
    have hissued := h.issued old (List.mem_of_getElem? hold)
    split
    · exact hissued
    · exact hissued
  · intro q hmem
    obtain ⟨j, hj⟩ := List.mem_iff_getElem?.mp hmem
    rw [promises_settle] at hj
    obtain ⟨old, hold, rfl⟩ := Option.map_eq_some_iff.mp hj
    split
    -- only the promise that is settled has a new outcome
    · rename_i hi
      obtain rfl : old = p := Option.some.inj (hold.symm.trans (hi ▸ hp))
      intro hversion outcome' heq
      obtain rfl : outcome = outcome' := Option.some.inj heq
      refine ⟨s.writes.length, h.issued old (List.mem_of_getElem? hold), le_refl _, ?_⟩
      rw [show (s.settle i outcome).writes.take s.writes.length = s.writes from List.take_length]
      exact houtcome hversion
    · exact h.promises old (List.mem_of_getElem? hold)
  · intro now key record hget hversion hseen hlocal
    exact (h.records now key record hget hversion hseen hlocal).settle i outcome
  · intro call hcall hversion hseen
    obtain ⟨hcovers, hwritten⟩ := h.gets call hcall hversion hseen
    exact ⟨hcovers.settle i outcome, hwritten⟩

/-! ## The calls that write -/

/-- A call of `putKeyValue` keeps the state valid. -/
lemma Valid.putKeyValue (h : Valid s) {identity key value version : JsString}
    (hvalue : ¬ copyFromIkv_prolog <+: value) : Valid (s.putKeyValue identity key value version) := by
  refine { h with puts := ?_ }
  intro put hmem
  rcases List.mem_append.mp hmem with hold | hnew
  · exact h.puts put hold
  · obtain rfl := List.mem_singleton.mp hnew
    exact ⟨hvalue, fun n hnone => (by cases hnone)⟩

/-- A transaction that is mined keeps the state valid. -/
lemma Valid.mine (h : Valid s) {i : ℕ} {put : Put} (hput : put ∈ s.puts) :
    Valid (s.mine i put) := by
  have hlength : (s.mine i put).writes.length = s.writes.length + 1 := List.length_append
  have hget : (s.mine i put).writes[s.writes.length]? =
      some ⟨put.cell, put.value, put.version⟩ := List.getElem?_concat_length
  refine { h with visible := ?_, writes := ?_, puts := ?_, issued := ?_, promises := ?_, gets := ?_ }
  · intro cell
    refine ⟨?_, fun hpos => ((h.visible cell).2 hpos).append _⟩
    have hle := (h.visible cell).1
    show s.visible cell ≤ _
    omega
  · intro write hmem
    rcases List.mem_append.mp hmem with hold | hnew
    · exact h.writes write hold
    · obtain rfl := List.mem_singleton.mp hnew
      exact (h.puts put hput).1
  · intro put' hmem
    rcases List.mem_or_eq_of_mem_set hmem with hold | rfl
    · obtain ⟨hvalue, hmined⟩ := h.puts put' hold
      refine ⟨hvalue, ?_⟩
      intro n hn
      obtain ⟨hlt, hwritten⟩ := hmined n hn
      exact ⟨by omega, hwritten.append _⟩
    -- the put now has the number of the new write
    · refine ⟨(h.puts put hput).1, ?_⟩
      intro n hn
      obtain rfl : s.writes.length = n := Option.some.inj hn
      exact ⟨by omega, _, hget, rfl⟩
  · intro p hmem
    have hle := h.issued p hmem
    omega
  · intro p hmem hversion outcome houtcome
    obtain ⟨n, hissued, hn, hrest⟩ := h.promises p hmem hversion outcome houtcome
    refine ⟨n, hissued, by omega, ?_⟩
    -- a promise looked at the writes before this one only
    have htake : (s.mine i put).writes.take n = s.writes.take n := List.take_append_of_le_length hn
    rw [htake]
    exact hrest
  · intro call hcall hversion hseen
    obtain ⟨hcovers, hwritten⟩ := h.gets call hcall hversion hseen
    exact ⟨hcovers, hwritten.append _⟩

/-- The entry of the key is removed, so that no promise is left that was made before the write. -/
lemma Valid.resolve (h : Valid s) {i write : ℕ} {put : Put} (hput : put ∈ s.puts)
    (hmined : put.mined = some write) : Valid (s.resolve i put write) := by
  obtain ⟨hlt, hwritten⟩ := (h.puts put hput).2 write hmined
  refine { h with visible := ?_, puts := ?_, entry := ?_ }
  · intro cell
    obtain ⟨hle, hpos⟩ := h.visible cell
    by_cases hcell : cell = put.cell
    · have hvisible : (s.resolve i put write).visible cell = max (s.visible cell) (write + 1) :=
        if_pos hcell
      rw [hvisible]
      refine ⟨Nat.max_le.mpr ⟨hle, hlt⟩, fun _ => ?_⟩
      rcases Nat.le_total (s.visible cell) (write + 1) with hnew | hold
      · rw [Nat.max_eq_right hnew, hcell]
        exact hwritten
      · rw [Nat.max_eq_left hold]
        exact hpos (by omega)
    · have hvisible : (s.resolve i put write).visible cell = s.visible cell := if_neg hcell
      rw [hvisible]
      exact ⟨hle, hpos⟩
  · intro put' hmem
    exact h.puts put' (List.mem_of_mem_eraseIdx hmem)
  -- the entries that are left do not belong to the cell that was written
  · intro now key promise hget
    have hne : put.cell.1 ++ js "-" ++ put.cell.2 ≠ [] := by
      have hdash : js "-" ≠ [] := by decide
      intro hnil
      exact hdash (List.append_eq_nil_iff.mp (List.append_eq_nil_iff.mp hnil).1).2
    obtain ⟨hpart, hold⟩ := NodeCache.of_get_delStartWith hne hget
    obtain ⟨p, hp, hkey, hvisible⟩ := h.entry now key promise hold
    refine ⟨p, hp, hkey, ?_⟩
    intro hversion
    have hcell : p.lookup.cell ≠ put.cell := by
      intro heq
      rw [cacheKey_latest _ hversion, heq] at hkey
      exact hpart (hkey ▸ List.infix_refl _)
    rw [show (s.resolve i put write).visible p.lookup.cell = s.visible p.lookup.cell from
      if_neg hcell]
    exact hvisible hversion

/-! ## Runs -/

/-- Every reachable state is valid. -/
theorem valid (h : Reach step (fun s e => Assumed s e ∧ Coherent s e) node.init s) : Valid s := by
  refine h.invariant (valid_init node) ?_
  intro s e s' hs hok hstep
  obtain ⟨hassumed, hcoherent⟩ := hok
  cases e with
  | tick ms =>
    cases hstep
    exact { hs with }
  | getKeyValue identity key version strategy follow =>
    cases hstep
    exact hs.getKeyValue hcoherent
  | getZRecord domain version =>
    cases hstep
    exact hs.getZRecord hcoherent
  | read promise =>
    obtain ⟨p, hp, hrest⟩ := Option.bind_eq_some_iff.mp hstep
    split at hrest
    · cases hrest
      exact hs.settle hp fun _ => .inl rfl
    · cases hrest
  | settle promise outcome =>
    obtain ⟨p, hp, hrest⟩ := Option.bind_eq_some_iff.mp hstep
    split at hrest
    · cases hrest
      exact hs.settle hp fun hversion => .inr (hassumed p hp hversion)
    · cases hrest
  | putKeyValue identity key value version =>
    cases hstep
    exact hs.putKeyValue hassumed
  | putZRecord domain routesFile version =>
    cases hstep
    exact hs.putKeyValue hassumed
  | mine i =>
    obtain ⟨put, hput, hrest⟩ := Option.bind_eq_some_iff.mp hstep
    cases hrest
    exact hs.mine (List.mem_of_getElem? hput)
  | resolve i =>
    obtain ⟨put, hput, hrest⟩ := Option.bind_eq_some_iff.mp hstep
    obtain ⟨write, hmined, hresolve⟩ := Option.bind_eq_some_iff.mp hrest
    cases hresolve
    exact hs.resolve (List.mem_of_getElem? hput) hmined
  | reject i =>
    simp only [step] at hstep
    split at hstep
    · cases hstep
      -- a rejected transaction changes nothing that can be read
      exact { hs with puts := fun put hmem => hs.puts put (List.mem_of_mem_eraseIdx hmem) }
    · cases hstep

/-- In a valid state each call reads what was written. -/
lemma Valid.reads_written (h : Valid s) : ReadsOwnWrites s := by
  intro call hcall hversion hseen answer hanswer
  obtain ⟨⟨p, hget, hcell, hlatest, hissued⟩, write, hwrite, hsame⟩ :=
    h.gets call hcall hversion hseen
  unfold State.answer at hanswer
  rw [hget] at hanswer
  obtain ⟨outcome, houtcome, rfl⟩ := Option.map_eq_some_iff.mp hanswer
  obtain ⟨n, hle, hn, hvalue⟩ := h.promises p (List.mem_of_getElem? hget) hlatest outcome houtcome
  -- the write that has to be seen is one of the first n
  have hmem : write ∈ s.writes.take n := by
    have htake : (s.writes.take n)[call.seen - 1]? = some write := by
      rw [List.getElem?_take_of_lt (by omega)]
      exact hwrite
    exact List.mem_of_getElem? htake
  rw [hcell] at hvalue
  obtain rfl := hvalue.resolve_right fun hnone => hnone write hmem hsame
  obtain ⟨last, hlast, heq⟩ := @ikvGet_mem _ node.chain _ ⟨write, hmem, hsame⟩
  refine ⟨n, hissued.trans hle, hn, ?_⟩
  have hplain : copyFromIkv_prolog.isPrefixOf last.value = false := by
    rw [Bool.eq_false_iff, Ne, List.isPrefixOf_iff_prefix]
    exact h.writes last (List.mem_of_mem_take hlast)
  have hfollowed : followed (some last.value) = .ok (some last.value) := by
    rw [followed, hplain]
    rfl
  rw [heq]
  unfold GetCall.shown
  show (do
    let value ← if call.followCopyFromIkv then followed (some last.value) else pure (some last.value)
    pure (if call.isZRecord then value.map withoutHex else value)) = _
  rw [hfollowed]
  cases call.followCopyFromIkv <;> cases call.isZRecord <;> rfl

/-- In every run in which the entries that answer for a written key are its own and not outdated, each call
reads what was written. -/
theorem readsOwnWrites (h : Reach step (fun s e => Assumed s e ∧ Coherent s e) node.init s) :
    ReadsOwnWrites s := (valid h).reads_written

/-! ## Runs on a small node -/

instance (s : State node) (e : Event) : Decidable (Assumed s e) := by
  unfold Assumed
  split <;> infer_instance

instance (s : State node) (identity key : JsString) : Decidable (s.OwnPromise identity key) :=
  inferInstanceAs (Decidable (∀ promise ∈
    (node.cache ℕ).get s.keyValueCache s.now (identity ++ js "-" ++ key),
      ∀ p ∈ s.promises[promise]?, p.lookup.cell = (identity, key) ∧ p.lookup.version = latest))

instance (s : State node) (domain : JsString) : Decidable (s.OwnRecord domain) :=
  inferInstanceAs (Decidable ((∀ record ∈
      (node.cache ZRecord).get s.zRecordCache s.now (zRecordKey domain latest),
    record.domain = domain ∧ record.version = latest ∧
      s.visible (stripPoint domain, ZDNS_ROUTES_KEY) ≤ record.seen) ∧
    (((node.cache ZRecord).get s.zRecordCache s.now (zRecordKey domain latest)).isNone →
      s.OwnPromise (stripPoint domain) ZDNS_ROUTES_KEY)))

instance (s : State node) (e : Event) : Decidable (Coherent s e) := by
  unfold Coherent
  split <;> infer_instance

/-- A node over an empty chain. -/
def Node.small : Node := ⟨NodeCache.stamped, fun _ => [], 0⟩

/-- The routes of a domain are read, written and read again. -/
def routesTwice : State Node.small :=
  after (guarded step Assumed) Node.small.init
    [.getZRecord (js "a.point") latest, .read 0, .putZRecord (js "a.point") (js "0xb") (js "1.0"),
      .mine 0, .resolve 0, .tick 1000, .getZRecord (js "a.point") latest]

/-- The second read in it. -/
def againRead : GetCall := ⟨(js "a", ZDNS_ROUTES_KEY), latest, 1, 0, true, true⟩

/-- `zRecordCache` still has the old routes. -/
theorem not_readsOwnWrites : ¬ ∀ (node : Node) (s : State node),
    Reach step Assumed node.init s → ReadsOwnWrites s := by
  intro h
  have hreads := h .small routesTwice (.of_after _ (by decide +kernel)) againRead
    (by decide +kernel) rfl (by decide) (.ok (some [])) (by decide +kernel)
  obtain ⟨n, hle, hn, heq⟩ := hreads
  have hlength : routesTwice.writes.length = 1 := by decide +kernel
  have hseen : againRead.seen = 1 := rfl
  obtain rfl : n = 1 := by omega
  revert heq
  decide +kernel

/-- A key is written and read. -/
def keyRead : State Node.small :=
  after (guarded step fun s e => Assumed s e ∧ Coherent s e) Node.small.init
    [.putKeyValue (js "a.point") (js "k") (js "v") (js "1.0"), .mine 0, .resolve 0,
      .getKeyValue (js "a") (js "k") latest (js "exact") false, .read 0]

theorem readsOwnWrites_keyRead : keyRead.gets.length = 1 ∧ ReadsOwnWrites keyRead :=
  ⟨by decide +kernel, readsOwnWrites (.of_after _ (by decide +kernel))⟩

end PointNetwork.Network.Ikv
