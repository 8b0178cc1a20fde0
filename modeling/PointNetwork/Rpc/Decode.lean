import PointNetwork.CacheFactory
import PointNetwork.Deployer.KeyValue

/-!
# What a transaction does, for the user who confirms it

`decodeTxInputData` of `rpc/decode.ts`, which decodes the input data of a transaction with the ABI
of the contract that a site names. The package `abi-decoder` keeps one table of methods, by the
first eight digits of the hashes of their signatures; an ABI is added to it unless `abiTracker`
says that this has happened in the last ten minutes.

The package is a parameter, and so are the ABIs of the contracts of the sites. The gas is left out:
whatever goes wrong with it is caught.
-/

namespace PointNetwork.Rpc

open Js
open Deployer (truthy ownProperty)

/-- An input of a method; `κ` is what else an ABI says of it, such as the components of a tuple. -/
structure AbiInput (κ : Type) where
  name : JsString
  type : JsString
  rest : κ
  deriving DecidableEq

/-- A method of an ABI. -/
structure AbiMethod (κ : Type) where
  name : JsString
  inputs : List (AbiInput κ)
  deriving DecidableEq

/-- The methods of a contract. -/
abbrev Abi (κ : Type) := List (AbiMethod κ)

/-- What `abi-decoder` computes of its own: the digits of a signature, and the values of inputs,
one for each, or nothing where the data are not theirs. -/
structure AbiDecoder (κ V : Type) where
  selector : AbiMethod κ → JsString
  decodeParameters : List (AbiInput κ) → JsString → Option (List V)
  length_decodeParameters : ∀ inputs data values, decodeParameters inputs data = some values →
    values.length = inputs.length

/-- A param of the preview. -/
structure Param (V : Type) where
  name : JsString
  value : V
  type : JsString
  deriving DecidableEq

/-- The preview of a transaction. -/
structure DecodedTxInput (V : Type) where
  name : JsString
  params : List (Param V)
  deriving DecidableEq

/-- `methodIDs` of `abi-decoder`. -/
abbrev MethodTable (κ : Type) := Map JsString (AbiMethod κ)

section

variable {κ V : Type}

/-- `abiDecoder.addABI`. -/
def addABI (decoder : AbiDecoder κ V) (table : MethodTable κ) (abi : Abi κ) : MethodTable κ :=
  abi.foldl (fun table method => table.set (decoder.selector method) method) table

/-- `data.slice(2, 10)` -/
def dataSelector (data : JsString) : JsString := (data.drop 2).take 8

/-- `data.slice(10)` -/
def dataArguments (data : JsString) : JsString := data.drop 10

/-- The data as those of a method. -/
def decodeAs (decoder : AbiDecoder κ V) (method : AbiMethod κ) (data : JsString) :
    Except Exception (Option (DecodedTxInput V)) :=
  match decoder.decodeParameters method.inputs (dataArguments data) with
  | none => throw .rejected
  | some values =>
    pure (some ⟨method.name,
      List.zipWith (fun input value => ⟨input.name, value, input.type⟩) method.inputs values⟩)

/-- `abiDecoder.decodeMethod`; `none` is `undefined`. -/
def decodeMethod (decoder : AbiDecoder κ V) (table : MethodTable κ) (data : JsString) :
    Except Exception (Option (DecodedTxInput V)) :=
  match table.get (dataSelector data) with
  | none => pure none
  | some method => decodeAs decoder method data

/-- What the node is surrounded by. -/
structure Sites (κ V : Type) where
  decoder : AbiDecoder κ V
  /-- `new URL(target).host`, which throws where a text is no URL. -/
  urlHost : JsString → Option JsString
  /-- `ethereum.loadWebsiteContract(identity, contract)._jsonInterface` -/
  abiOf : JsString → JsString → Abi κ

/-- A line terminator, which `.` does not match. -/
def isLineTerminator (u : UInt16) : Bool := u = 0x0A || u = 0x0D || u = 0x2028 || u = 0x2029

/-- `host.replace(/.point$/, '')` -/
def removePoint (host : JsString) : JsString :=
  let front := host.take (host.length - 5)
  match front.getLast? with
  | none => host
  | some u =>
    if host.drop (host.length - 5) = js "point" ∧ isLineTerminator u = false then front.dropLast
    else host

/-- The ABI of the contract that a site names. -/
def Sites.ownAbi (sites : Sites κ V) (target contract : JsString) : Option (Abi κ) :=
  (sites.urlHost target).map fun host => sites.abiOf (removePoint host) contract

/-- `abiTracker` and the table. -/
structure DecoderState (κ : Type) where
  tracker : CacheFactory JsString (Abi κ)
  table : MethodTable κ

/-- Ten minutes. -/
def expiration : ℕ := 10 * 60 * 1000

/-- No ABI has been added. -/
def DecoderState.init : DecoderState κ := ⟨.new expiration none, .empty⟩

/-- A call, with the times at which it looks into the tracker, and then reads or adds an entry, and
whether the contract can be loaded. -/
structure DecodeCall where
  target : Option JsString
  contract : Option JsString
  params : Option (List Json)
  checked : ℕ
  later : ℕ
  loads : Bool

/-- `txInputData`; what is not there is `none`. -/
def txInputData (params : Option (List Json)) : Except Exception (Option Json) :=
  match params with
  | some (.null :: _) => throw .typeError
  | some (v :: _) =>
    -- an own property takes the place of the method `hasOwnProperty`
    match ownProperty (js "hasOwnProperty") v with
    | some _ => throw .typeError
    | none => pure (ownProperty (js "data") v)
  | _ => pure none

/-- The decoder on any value; a string is all that has data of a method. -/
def decodeData (decoder : AbiDecoder κ V) (table : MethodTable κ) (data : Json) :
    Except Exception (Option (DecodedTxInput V)) :=
  match data with
  | .str data => decodeMethod decoder table data
  | _ => throw .typeError

/-- The target, the contract and the data of a call that has all three. -/
def DecodeCall.arguments (call : DecodeCall) :
    Except Exception (Option (JsString × JsString × Json)) := do
  let data ← txInputData call.params
  match call.target, call.contract, data with
  | some target, some contract, some data =>
    if target = [] ∨ contract = [] ∨ truthy (some data) = false then pure none
    else pure (some (target, contract, data))
  | _, _, _ => pure none

/-- `${target}:${contract}` -/
def cacheKey (target contract : JsString) : JsString := target ++ js ":" ++ contract

variable (sites : Sites κ V)

/-- Looks for the ABI in the tracker, or loads and adds it: whether the data can be decoded, and
the state in which they are. -/
def prepare (call : DecodeCall) (target contract : JsString) (s : DecoderState κ) :
    Except Exception Bool × DecoderState κ :=
  let key := cacheKey target contract
  let (tracked, tracker) := s.tracker.has call.checked key
  if tracked then
    -- the entry may expire between the two lookups
    match tracker.get call.later key with
    | (none, tracker) => (throw .typeError, { s with tracker })
    | (some _, tracker) => (pure true, { s with tracker })
  else
    match sites.ownAbi target contract, call.loads with
    | some abi, true =>
      (pure true,
        { tracker := tracker.add call.later key abi, table := addABI sites.decoder s.table abi })
    | _, _ => (pure false, { s with tracker })

/-- `decodeTxInputData`: the name and the parameters, or `null`. -/
def decodeTxInputData (call : DecodeCall) (s : DecoderState κ) :
    Except Exception (Option (DecodedTxInput V)) × DecoderState κ :=
  match call.arguments with
  | .error e => (throw e, s)
  | .ok none => (pure none, s)
  | .ok (some (target, contract, data)) =>
    match prepare sites call target contract s with
    | (.error e, s) => (throw e, s)
    | (.ok false, s) => (pure none, s)
    | (.ok true, s) => (decodeData sites.decoder s.table data, s)

/-- The state after a sequence of calls. -/
def DecoderState.after (calls : List DecodeCall) : DecoderState κ :=
  calls.foldl (fun s call => (decodeTxInputData sites call s).2) .init

/-- The methods of the contract that a site names, and of no other. -/
def Sites.ownTable (target contract : JsString) : MethodTable κ :=
  match sites.ownAbi target contract with
  | none => .empty
  | some abi => addABI sites.decoder .empty abi

/-- The data of a call decoded with the ABI of its contract. -/
def ownPreview (call : DecodeCall) : Except Exception (Option (DecodedTxInput V)) := do
  match ← call.arguments with
  | none => pure none
  | some (target, contract, data) => decodeData sites.decoder (sites.ownTable target contract) data

end

end PointNetwork.Rpc
