import PointNetwork.CacheFactory
import PointNetwork.Deployer.KeyValue
import PointNetwork.Machine

/-!
# Transactions that wait for the user's approval

`storeTransaction`, `snsWriteRequest` and `confirmTransaction` of `rpc/rpc-handlers.ts` over the pool
of `permissions/PendingTxs.ts`, and `ethereum.send` as far as it fills in the gas price.

A request to store a transaction is answered after `decodeTxInputData` and `addMetadata`, whose
outcome is an event of its own. A confirmation looks the transaction up, removes it and hands it to
the provider of its network in one go, so it is one event; what the provider answers changes nothing
here. A transaction counts as sent when it is handed to the provider.
-/

namespace PointNetwork.Rpc

open Js
open Deployer (truthy ownProperty toText)

/-- `networks[network].type` -/
inductive NetworkType
  | eth
  | solana
  | other (name : JsString)
  deriving DecidableEq

/-- The configuration of the node, its key and the time at which it starts. -/
structure Node where
  /-- `config.get('network.default_network')` -/
  defaultNetwork : JsString
  /-- The type of `networks[network]`; `none` where there is no such network. -/
  networkType : JsString → Option NetworkType
  /-- `gas_price_wei` of a network in hexadecimal, where it is configured. -/
  gasPrice : JsString → Option JsString
  /-- `EXPIRATION_SECS * 1_000` -/
  ttlMs : ℕ
  /-- `getNetworkPublicKey()` -/
  publicKey : JsString
  start : ℕ
  start_pos : 0 < start

/-- What the handlers read from a request. -/
structure RPCRequest where
  id : Json
  params : Option (List Json)
  network : Option JsString

/-- What is stored of a transaction. -/
structure PendingTx where
  params : List Json
  network : JsString
  deriving DecidableEq

/-- What is handed to a provider. -/
inductive Call
  /-- `currentProvider.send` with the method `eth_sendTransaction`. -/
  | eth (id : Json) (params : List Json) (network : JsString)
  | sendFunds (params : Json)
  | setPointReference (domain : Json) (network : JsString)
  | signAndSendTransaction (id : Json) (txProps : Json) (network : JsString)
  deriving DecidableEq

/-- What a handler answers at once. -/
inductive Reply
  | refused (status : ℕ) (message : JsString)
  /-- An error of the engine or of `decodeTxInputData`, answered with status 400. -/
  | failed
  | stored (reqId : JsString) (params : List Json) (network : JsString)
  deriving DecidableEq

/-! ## `ethereum.send` and the providers of Solana -/

/-- `item.gasPrice = price`, in strict mode. An array has the property beside its elements, where
its text does not show it. -/
def setGasPrice (price : JsString) : Json → Except Reply Json
  | .obj kvs => .ok (.obj (setProp (js "gasPrice") (.str price) kvs))
  | .arr xs => .ok (.arr xs)
  | _ => .error .failed

/-- `ethereum.send` with the method `eth_sendTransaction`. -/
def ethereumSend (node : Node) (id : Json) (params : List Json) (network : JsString) :
    Except Reply Call :=
  match params, node.gasPrice network with
  | item :: rest, some price => do
    let filled ← setGasPrice price item
    pure (.eth id (filled :: rest) network)
  | _, _ => .ok (.eth id params network)

/-- The branch of a Solana network. Only an object has a property `to`. -/
def solanaSend (id : Json) (params : List Json) (network : JsString) : Except Reply Call :=
  match params.head? with
  | none => .error .failed
  | some .null => .error .failed
  | some item =>
    match item, truthy (ownProperty (js "to") item) with
    | .obj kvs, true => .ok (.sendFunds (.obj (setProp (js "network") (.str network) kvs)))
    | _, _ =>
      match ownProperty (js "domain") item with
      | some domain =>
        if truthy (some domain) then .ok (.setPointReference domain network)
        else .ok (.signAndSendTransaction id item network)
      | none => .ok (.signAndSendTransaction id item network)

/-- The switch over the type of the network. -/
def sendTo (node : Node) (id : Json) (tx : PendingTx) : Except Reply Call :=
  match node.networkType tx.network with
  | none => .error .failed
  | some .eth => ethereumSend node id tx.params tx.network
  | some .solana => solanaSend id tx.params tx.network
  | some (.other name) => .error (.refused 400
      (js "Unsupported type " ++ name ++ js " for network " ++ tx.network))

/-! ## The handlers -/

/-- The pool, and `reqId` as hexadecimal of 32 random bytes. -/
abbrev Pool := CacheFactory JsString PendingTx

/-- The id of a request, of 32 random bytes. -/
def generateId (bytes : Vector UInt8 32) : JsString := toHex bytes.toList

/-- `storeTransaction` before it awaits `decodeTxInputData`: the transaction to be stored. -/
def checkTransaction (node : Node) (request : RPCRequest) : Except Reply PendingTx :=
  match request.params with
  | none => .error (.refused 400 (js "Missing \x60params\x60 in request body."))
  | some params =>
    let network := request.network.getD node.defaultNetwork
    match node.networkType network with
    | none => .error .failed
    | some type =>
      if type = .solana ∧ params.length ≠ 1 then
        .error (.refused 400 (js "Wrong number or params for solana transaction, expected 1"))
      else .ok ⟨params, network⟩

/-- The transaction that `snsWriteRequest` stores. -/
def snsTransaction (node : Node) (request : RPCRequest) : Except Reply PendingTx :=
  match request.params with
  | none => .error .failed
  | some [] => .error (.refused 400 (js "Missing params, expected object with \x60domain\x60 key."))
  | some (.null :: _) => .error .failed
  | some (item :: _) =>
    match ownProperty (js "domain") item with
    | some domain =>
      if truthy (some domain) then
        .ok ⟨[.obj [(js "domain", domain), (js "publicKey", .str node.publicKey)]], js "solana"⟩
      else .error (.refused 400 (js "Missing params, expected object with \x60domain\x60 key."))
    | none => .error (.refused 400 (js "Missing params, expected object with \x60domain\x60 key."))

/-- `params[0].reqId`, if it is there and true. -/
def RPCRequest.reqId? (request : RPCRequest) : Option Json :=
  (request.params.bind List.head?).bind fun item =>
    (ownProperty (js "reqId") item).filter fun reqId => truthy (some reqId)

/-- The answer when the transaction is not there any more. -/
def notFound (reqId : Json) : Reply :=
  match toText reqId with
  | .ok text => .refused 404 (js "Tx for request id \"" ++ text ++ js "\" has not been found.")
  | .error _ => .failed

/-- `confirmTransaction`: the call that is made or the reply, and the pool after that. A `reqId` that is
no string is not a key of the pool. -/
def confirmTransaction (node : Node) (now : ℕ) (pool : Pool) (request : RPCRequest) :
    Except Reply Call × Pool :=
  match request.reqId? with
  | none => (.error (.refused 400 (js "Missing \x60params[0].reqId\x60 in request body.")), pool)
  | some (.str reqId) =>
    match pool.get now reqId with
    | (none, pool) => (.error (notFound (.str reqId)), pool)
    | (some tx, pool) => (sendTo node request.id tx, (pool.rm reqId).2)
  | some reqId => (.error (notFound reqId), pool)

/-! ## The machine -/

/-- A transaction that was stored; `number` tells it from all others. -/
structure Stored where
  number : ℕ
  reqId : JsString
  params : List Json
  network : JsString
  time : ℕ
  deriving DecidableEq

/-- A call of a provider, with the transaction last stored under the `reqId` of the confirmation. -/
structure Sent where
  tx : Option Stored
  call : Call
  time : ℕ
  deriving DecidableEq

/-- The pool, and the transactions stored, confirmed and sent so far. -/
structure State where
  /-- `Date.now()` -/
  now : ℕ
  /-- The calls of `storeTransaction` that wait for `decodeTxInputData`. -/
  decoding : List PendingTx
  pendingTxs : Pool
  /-- The transactions stored so far, the last one first. -/
  stored : List Stored
  /-- The numbers of those whose `reqId` has been confirmed since, with success or without. -/
  confirmed : List ℕ
  sent : List Sent
  replies : List Reply

/-- The requests, and the end of the decoding of a transaction. -/
inductive Event
  | tick (ms : ℕ)
  | storeTransaction (request : RPCRequest)
  /-- The i-th call of `storeTransaction` goes on, if decoding succeeded. -/
  | decoded (i : ℕ) (success : Bool) (bytes : Vector UInt8 32)
  | snsWriteRequest (request : RPCRequest) (bytes : Vector UInt8 32)
  | confirmTransaction (request : RPCRequest)

/-- A node that has not been asked for anything. -/
def Node.init (node : Node) : State :=
  { now := node.start, decoding := [], pendingTxs := .new node.ttlMs none, stored := [],
    confirmed := [], sent := [], replies := [] }

namespace State

/-- The transaction last stored under a `reqId`. -/
def latest (s : State) (reqId : JsString) : Option Stored :=
  s.stored.find? fun tx => tx.reqId = reqId

/-- Answers a request. -/
def reply (s : State) (r : Reply) : State := { s with replies := s.replies ++ [r] }

/-- `pendingTxs.add(params, network)` -/
def add (s : State) (tx : PendingTx) (bytes : Vector UInt8 32) : State :=
  { s with
    pendingTxs := s.pendingTxs.add s.now (generateId bytes) tx
    stored := ⟨s.stored.length, generateId bytes, tx.params, tx.network, s.now⟩ :: s.stored
    replies := s.replies ++ [.stored (generateId bytes) tx.params tx.network] }

end State

/-- The `reqId` of a request to confirm, if it is a string. -/
def RPCRequest.confirms (request : RPCRequest) : Option JsString :=
  match request.reqId? with
  | some (.str reqId) => some reqId
  | _ => none

/-- The transaction a request to confirm is about: the one last stored under its `reqId`. -/
def State.target (s : State) (request : RPCRequest) : Option Stored :=
  request.confirms.bind s.latest

/-- The state after `confirmTransaction`. -/
def Node.confirm (node : Node) (s : State) (request : RPCRequest) : State :=
  let (outcome, pool) := confirmTransaction node s.now s.pendingTxs request
  let s := { s with
    pendingTxs := pool
    confirmed := (s.target request).toList.map Stored.number ++ s.confirmed }
  match outcome with
  | .ok call => { s with sent := ⟨s.target request, call, s.now⟩ :: s.sent }
  | .error r => s.reply r

/-- One event of the node. -/
def Node.step (node : Node) (s : State) : Event → Option State
  | .tick ms => some { s with now := s.now + ms }
  | .storeTransaction request =>
    match checkTransaction node request with
    | .ok tx => some { s with decoding := s.decoding ++ [tx] }
    | .error r => some (s.reply r)
  | .decoded i success bytes =>
    s.decoding[i]?.map fun tx =>
      let s := { s with decoding := s.decoding.eraseIdx i }
      if success then s.add tx bytes else s.reply .failed
  | .snsWriteRequest request bytes =>
    match snsTransaction node request with
    | .ok tx => some (s.add tx bytes)
    | .error r => some (s.reply r)
  | .confirmTransaction request => some (node.confirm s request)

end PointNetwork.Rpc
