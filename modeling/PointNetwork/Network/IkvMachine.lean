import PointNetwork.Machine
import PointNetwork.Network.KeyValue
import PointNetwork.NodeCache

/-!
# Reading and writing keys of identities

`getKeyValue`, `putKeyValue`, `getZRecord` and `putZRecord` of `network/providers/ethereum.js` with their
two caches, as a machine. A call that reads looks into the caches and starts what is missing in one go;
what the chain answers comes later. A call that writes is mined, any number of times, before it resolves
and removes entries of `keyValueCache`. What a call returns is settled by the promise it was given
(`getKeyValue_eq` and `getKeyValue_follow` say how).
-/

namespace PointNetwork.Network.Ikv

open Js
open Deployer (stripPoint)

/-- The key of the routes. -/
def ZDNS_ROUTES_KEY : JsString := js "zdns/routes"

/-- An identity, without `.point`, and a key. -/
abbrev Cell := JsString × JsString

/-- The identity and the key that are looked up. -/
def Lookup.cell (lookup : Lookup) : Cell := (lookup.identity, lookup.key)

/-- A call of `ikvPut` that was mined. -/
structure Write where
  cell : Cell
  value : JsString
  version : JsString

/-- `ikvGet` after the given writes. -/
def ikvGet (chain : Cell → JsString) (writes : List Write) (cell : Cell) : JsString :=
  (((writes.filter fun write => write.cell = cell).getLast?).map Write.value).getD (chain cell)

/-- A promise in `keyValueCache`. -/
structure Promise where
  lookup : Lookup
  /-- The number of writes mined when it was made. -/
  issued : ℕ
  /-- `none` as long as it is pending. -/
  outcome : Option (Except Failure (Option JsString))

/-- A promise in `zRecordCache`: it waits for one of `keyValueCache`. -/
structure ZRecord where
  domain : JsString
  version : JsString
  promise : ℕ
  /-- What `visible` was for the routes of the domain when it was made. -/
  seen : ℕ

/-- A call of `putKeyValue` on its way. -/
structure Put where
  cell : Cell
  value : JsString
  version : JsString
  /-- The place of its last write among all that were mined. -/
  mined : Option ℕ

/-- A call that reads: what it was asked for, and the promise that settles it. -/
structure GetCall where
  asked : Cell
  version : JsString
  /-- What `visible` was for the key when the call was made. -/
  seen : ℕ
  promise : ℕ
  followCopyFromIkv : Bool
  isZRecord : Bool
  deriving DecidableEq

/-- The package of the caches, the chain and the time at the start. -/
structure Node where
  cache : (V : Type) → NodeCache V
  chain : Cell → JsString
  start : ℕ

/-- The chain, the caches and the calls of a node. -/
structure State (node : Node) where
  /-- `Date.now()` -/
  now : ℕ
  /-- The writes that were mined, the first one first. -/
  writes : List Write
  keyValueCache : (node.cache ℕ).Store
  zRecordCache : (node.cache ZRecord).Store
  promises : List Promise
  puts : List Put
  /-- The number of writes up to the last one of a key whose call has resolved, 0 if there is none. -/
  visible : Cell → ℕ
  gets : List GetCall

/-- A node over an empty chain. -/
def Node.init (node : Node) : State node :=
  { now := node.start, writes := [], keyValueCache := (node.cache ℕ).empty
    zRecordCache := (node.cache ZRecord).empty, promises := [], puts := [], visible := fun _ => 0
    gets := [] }

/-- What happens to the node and to the chain. -/
inductive Event
  | tick (ms : ℕ)
  | getKeyValue (identity key version versionSearchStrategy : JsString) (followCopyFromIkv : Bool)
  | getZRecord (domain version : JsString)
  /-- `ikvGet` answers. -/
  | read (promise : ℕ)
  /-- `getPastEvents` answers, or a lookup fails. -/
  | settle (promise : ℕ) (outcome : Except Failure (Option JsString))
  | putKeyValue (identity key value version : JsString)
  | putZRecord (domain routesFile version : JsString)
  /-- A transaction of the i-th call on its way is mined. -/
  | mine (i : ℕ)
  /-- `web3send` returns to the i-th call. -/
  | resolve (i : ℕ)
  | reject (i : ℕ)

/-! ## The calls that read -/

/-- `result?.substr(0, 2) === '0x' ? result.substr(2) : result` -/
def withoutHex (result : JsString) : JsString :=
  if result.take 2 = js "0x" then result.drop 2 else result

/-- The cache key of a record. -/
def zRecordKey (domain version : JsString) : JsString :=
  domain ++ js "-" ++ ZDNS_ROUTES_KEY ++ js "-" ++ version

/-- A redirection is looked for, unless the identity ends with `.local`. -/
def follows (identity : JsString) (followCopyFromIkv : Bool) : Bool :=
  followCopyFromIkv && !localSuffix.isSuffixOf identity

variable {node : Node}

namespace State

/-- `keyValueCache.get` -/
def find (s : State node) (lookup : Lookup) : ℕ × State node :=
  match (node.cache ℕ).get s.keyValueCache s.now lookup.cacheKey with
  | some promise => (promise, s)
  | none => (s.promises.length,
    { s with
      promises := s.promises ++ [⟨lookup, s.writes.length, none⟩]
      keyValueCache :=
        (node.cache ℕ).set s.keyValueCache s.now lookup.cacheKey s.promises.length })

/-- `zRecordCache.get` with its store function. -/
def findZRecord (s : State node) (domain version : JsString) : ZRecord × State node :=
  match (node.cache ZRecord).get s.zRecordCache s.now (zRecordKey domain version) with
  | some record => (record, s)
  | none =>
    let (promise, t) :=
      s.find ⟨stripPoint (resolved domain), ZDNS_ROUTES_KEY, version, js "exact"⟩
    let record := ⟨domain, version, promise, s.visible (stripPoint domain, ZDNS_ROUTES_KEY)⟩
    (record, { t with
      zRecordCache := (node.cache ZRecord).set t.zRecordCache t.now (zRecordKey domain version) record })

/-- `getKeyValue` returns `null` at once for an unknown strategy, which is not recorded. -/
def getKeyValue (s : State node) (identity key version versionSearchStrategy : JsString)
    (followCopyFromIkv : Bool) : State node :=
  if version = latest ∨ versionSearchStrategy = js "exact" ∨
      versionSearchStrategy = js "equalOrBefore" then
    let (promise, t) :=
      s.find ⟨stripPoint (resolved identity), key, version, versionSearchStrategy⟩
    let asked := (stripPoint identity, key)
    { t with
      gets := t.gets ++ [⟨asked, version, s.visible asked, promise,
        follows identity followCopyFromIkv, false⟩] }
  else s

/-- A call of `getZRecord`. -/
def getZRecord (s : State node) (domain version : JsString) : State node :=
  let domain := stripPoint domain
  let (record, t) := s.findZRecord domain version
  let asked := (stripPoint domain, ZDNS_ROUTES_KEY)
  { t with
    gets := t.gets ++ [⟨asked, version, s.visible asked, record.promise,
      follows record.domain true, true⟩] }

/-- A pending promise is settled. -/
def settle (s : State node) (promise : ℕ) (outcome : Except Failure (Option JsString)) : State node :=
  { s with promises := s.promises.modify promise fun p => { p with outcome := some outcome } }

/-! ## The calls that write -/

/-- `putKeyValue` up to its transaction. -/
def putKeyValue (s : State node) (identity key value version : JsString) : State node :=
  { s with puts := s.puts ++ [⟨(stripPoint identity, key), value, version, none⟩] }

/-- The transaction is mined. -/
def mine (s : State node) (i : ℕ) (put : Put) : State node :=
  { s with
    writes := s.writes ++ [⟨put.cell, put.value, put.version⟩]
    puts := s.puts.set i { put with mined := some s.writes.length } }

/-- The rest of `putKeyValue`. -/
def resolve (s : State node) (i : ℕ) (put : Put) (write : ℕ) : State node :=
  { s with
    keyValueCache :=
      (node.cache ℕ).delStartWith s.keyValueCache (put.cell.1 ++ js "-" ++ put.cell.2)
    puts := s.puts.eraseIdx i
    visible := fun cell =>
      if cell = put.cell then max (s.visible cell) (write + 1) else s.visible cell }

end State

/-- One event; a promise settles once, and only what has been sent is mined. -/
def step (s : State node) : Event → Option (State node)
  | .tick ms => some { s with now := s.now + ms }
  | .getKeyValue identity key version versionSearchStrategy followCopyFromIkv =>
    some (s.getKeyValue identity key version versionSearchStrategy followCopyFromIkv)
  | .getZRecord domain version => some (s.getZRecord domain version)
  | .read promise => do
    let p ← s.promises[promise]?
    if p.outcome.isNone ∧ p.lookup.version = latest then
      some (s.settle promise (.ok (some (ikvGet node.chain s.writes p.lookup.cell))))
    else none
  | .settle promise outcome => do
    let p ← s.promises[promise]?
    if p.outcome.isNone ∧ (p.lookup.version = latest → outcome = .error .rejected) then
      some (s.settle promise outcome)
    else none
  | .putKeyValue identity key value version => some (s.putKeyValue identity key value version)
  | .putZRecord domain routesFile version =>
    some (s.putKeyValue (stripPoint domain) ZDNS_ROUTES_KEY routesFile version)
  | .mine i => do
    let put ← s.puts[i]?
    some (s.mine i put)
  | .resolve i => do
    let put ← s.puts[i]?
    let write ← put.mined
    some (s.resolve i put write)
  | .reject i => if i < s.puts.length then some { s with puts := s.puts.eraseIdx i } else none

/-- What a call returns, once its promise is settled. -/
def State.answer (s : State node) (call : GetCall) : Option (Except Failure (Option JsString)) :=
  (s.promises[call.promise]?.bind Promise.outcome).map fun outcome => do
    let found ← outcome
    let value ← if call.followCopyFromIkv then followed found else pure found
    pure (if call.isZRecord then value.map withoutHex else value)

/-! ## The property and its condition -/

/-- How a value is returned by the call. -/
def GetCall.shown (call : GetCall) (value : JsString) : JsString :=
  if call.isZRecord then withoutHex value else value

/-- Each call for the latest version of a key that was made after a write to it resolved returns what
the key holds after that write, or after a later one. -/
def ReadsOwnWrites (s : State node) : Prop :=
  ∀ call ∈ s.gets, call.version = latest → 0 < call.seen → ∀ answer, s.answer call = some answer →
    ∃ n, call.seen ≤ n ∧ n ≤ s.writes.length ∧
      answer = .ok (some (call.shown (ikvGet node.chain (s.writes.take n) call.asked)))

/-- No value is a redirection, and `ikvGet` fails for a key only if no write to it was mined. -/
def Assumed (s : State node) : Event → Prop
  | .putKeyValue _ _ value _ => ¬ copyFromIkv_prolog <+: value
  | .putZRecord _ routesFile _ => ¬ copyFromIkv_prolog <+: routesFile
  | .settle promise _ => ∀ p ∈ s.promises[promise]?, p.lookup.version = latest →
      ∀ write ∈ s.writes, write.cell ≠ p.lookup.cell
  | _ => True

/-- An entry of `keyValueCache` for the latest version of a key was stored for this very key. -/
def State.OwnPromise (s : State node) (identity key : JsString) : Prop :=
  ∀ promise ∈ (node.cache ℕ).get s.keyValueCache s.now (identity ++ js "-" ++ key),
    ∀ p ∈ s.promises[promise]?, p.lookup.cell = (identity, key) ∧ p.lookup.version = latest

/-- An entry of `zRecordCache` was stored for this very domain, and no write to its routes has resolved
since; without an entry, the same as for `keyValueCache`. -/
def State.OwnRecord (s : State node) (domain : JsString) : Prop :=
  let found := (node.cache ZRecord).get s.zRecordCache s.now (zRecordKey domain latest)
  (∀ record ∈ found, record.domain = domain ∧ record.version = latest ∧
    s.visible (stripPoint domain, ZDNS_ROUTES_KEY) ≤ record.seen) ∧
  (found.isNone → s.OwnPromise (stripPoint domain) ZDNS_ROUTES_KEY)

/-- A call for the latest version of a key that has been written is not for an identity `.local`, and an
entry of a cache that answers it is its own and not outdated. -/
def Coherent (s : State node) : Event → Prop
  | .getKeyValue identity key version _ _ =>
    version = latest → s.visible (stripPoint identity, key) = 0 ∨
      localSuffix.isSuffixOf identity = false ∧ s.OwnPromise (stripPoint identity) key
  | .getZRecord domain version =>
    version = latest → s.visible (stripPoint (stripPoint domain), ZDNS_ROUTES_KEY) = 0 ∨
      localSuffix.isSuffixOf (stripPoint domain) = false ∧ s.OwnRecord (stripPoint domain)
  | _ => True

end PointNetwork.Network.Ikv
