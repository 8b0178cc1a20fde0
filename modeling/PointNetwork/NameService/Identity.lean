import PointNetwork.CacheFactory
import PointNetwork.Js.Replace

/-!
# Identities and their cache

`getIdentity` of `name_service/identity.ts`, which asks up to three registries and keeps what they
answer for five minutes. The keys of the cache tell the registry and the address, but not the
network in which a Solana or Ethereum domain was looked for.
-/

namespace PointNetwork.NameService

open Js

/-- The network that an identity was found on. -/
inductive Network
  | point
  | solana
  | ethereum
  deriving DecidableEq

/-- `null` is `none`. -/
structure IdentityData where
  identity : Option JsString
  address : JsString
  publicKey : JsString
  network : Network
  deriving DecidableEq

/-- The arguments of `getIdentity`. -/
structure IdentityParams where
  solAddress : Option JsString
  ethAddress : Option JsString
  targets : Option (List JsString)
  solNetwork : Option JsString
  ethNetwork : Option JsString

/-- The keys of the node, and the registries; a lookup that throws is `none`. A public key of Solana
stands as its text, which `toPublicKey` computes of an address unless it throws. -/
structure Registries where
  getNetworkPublicKey : JsString
  getNetworkAddress : JsString
  solanaPublicKey : JsString
  toPublicKey : JsString → Option JsString
  toLowerCase : JsString → JsString
  identityByOwner : JsString → Option (Option JsString)
  solanaDomain : JsString → JsString → Option (Option JsString)
  ethereumDomain : JsString → JsString → Option (Option JsString)

/-- The cache of `getIdentity`. -/
abbrev IdentityCache := CacheFactory JsString IdentityData

/-- Five minutes. -/
def identityExpiration : ℕ := 5 * 60 * 1000

/-- The cache before the first call. -/
def identityCache : IdentityCache := .new identityExpiration none

/-- What is there and not empty. -/
def given : Option JsString → Option JsString
  | some (u :: text) => some (u :: text)
  | _ => none

namespace IdentityParams

variable (params : IdentityParams)

/-- The target is asked for, or no target is. -/
def targeted (target : JsString) : Bool :=
  let targets := params.targets.getD []
  targets.isEmpty || targets.contains target

/-- The network for .sol domains, `solana` when none is given. -/
def solanaNetwork : JsString := (given params.solNetwork).getD (js "solana")

/-- The network for .eth domains, `rinkeby` when none is given. -/
def ethereumNetwork : JsString := (given params.ethNetwork).getD (js "rinkeby")

end IdentityParams

/-- What the cache has under the key, or else what the registry answers, which is then cached. The
outer `none` is a lookup that throws. -/
def lookUp (looked added : ℕ) (key : JsString) (record : Option JsString → IdentityData)
    (answer : Option (Option JsString)) (cache : IdentityCache) :
    Option (Option IdentityData) × IdentityCache :=
  match cache.get looked key with
  | (some data, cache) => (some ((given data.identity).map fun _ => data), cache)
  | (none, cache) =>
    match answer with
    | none => (none, cache)
    | some (some identity) =>
      (some (some (record (some identity))), cache.add added key (record (some identity)))
    | some none => (some none, cache.add added key (record none))

namespace Registries

variable (registries : Registries)

/-- `ethAddress || getNetworkAddress()` -/
def ethereumAddress (params : IdentityParams) : JsString :=
  (given params.ethAddress).getD registries.getNetworkAddress

/-- The cache key of an address on the Point network. -/
def pointKey (address : JsString) : JsString := js "point:" ++ address

/-- What the Point network knows of the address. -/
def pointRecord (address : JsString) (identity : Option JsString) : IdentityData :=
  ⟨identity, address, registries.getNetworkPublicKey, .point⟩

/-- The text without `0x`, in lower case. -/
def bare (text : JsString) : JsString := registries.toLowerCase (replace (js "0x") [] text)

/-- The identity of an address, unless it is the address. -/
def pointAnswer (address : JsString) : Option (Option JsString) :=
  (registries.identityByOwner address).map fun identity =>
    (given identity).filter fun identity => registries.bare identity ≠ registries.bare address

/-- What is returned from the first part of `getIdentity`. -/
def pointIdentity (params : IdentityParams) (clock : ℕ → ℕ) (cache : IdentityCache) :
    Option IdentityData × IdentityCache :=
  if params.targeted (js "point") then
    let address := registries.ethereumAddress params
    let (found, cache) := lookUp (clock 0) (clock 1) (pointKey address)
      (registries.pointRecord address) (registries.pointAnswer address) cache
    (found.getD (some (registries.pointRecord address none)), cache)
  else (none, cache)

/-- The cache key of a Solana address. -/
def solanaKey (publicKey : JsString) : JsString := js "sol:" ++ publicKey

/-- What Solana knows of the address. -/
def solanaRecord (publicKey : JsString) (identity : Option JsString) : IdentityData :=
  ⟨identity, publicKey, publicKey, .solana⟩

/-- The domain of the address, with an empty one as none. -/
def solanaAnswer (publicKey network : JsString) : Option (Option JsString) :=
  (registries.solanaDomain publicKey network).map given

/-- The public key to look for, or that of the node. -/
def solanaKeyOf (params : IdentityParams) : Option JsString :=
  match given params.solAddress with
  | some address => registries.toPublicKey address
  | none => some registries.solanaPublicKey

/-- The second part; what throws is caught. -/
def solanaIdentity (params : IdentityParams) (clock : ℕ → ℕ) (cache : IdentityCache) :
    Option IdentityData × IdentityCache :=
  if params.targeted (js "solana") then
    match registries.solanaKeyOf params with
    | none => (none, cache)
    | some publicKey =>
      let (found, cache) := lookUp (clock 2) (clock 3) (solanaKey publicKey)
        (solanaRecord publicKey) (registries.solanaAnswer publicKey params.solanaNetwork) cache
      (found.join, cache)
  else (none, cache)

/-- The cache key of an Ethereum address. -/
def ethereumKey (address : JsString) : JsString := js "eth:" ++ address

/-- What Ethereum knows of the address. -/
def ethereumRecord (address : JsString) (identity : Option JsString) : IdentityData :=
  ⟨identity, address, registries.getNetworkPublicKey, .ethereum⟩

/-- The domain of the address, with an empty one as none. -/
def ethereumAnswer (address network : JsString) : Option (Option JsString) :=
  (registries.ethereumDomain address network).map given

/-- The third part. -/
def ethereumIdentity (params : IdentityParams) (clock : ℕ → ℕ) (cache : IdentityCache) :
    Option IdentityData × IdentityCache :=
  if params.targeted (js "ethereum") then
    let address := registries.ethereumAddress params
    let (found, cache) := lookUp (clock 4) (clock 5) (ethereumKey address)
      (registries.ethereumRecord address)
      (registries.ethereumAnswer address params.ethereumNetwork) cache
    (found.join, cache)
  else (none, cache)

/-- What is returned when no identity is found anywhere. -/
def emptyIdentity : IdentityData :=
  ⟨none, registries.getNetworkAddress, registries.getNetworkPublicKey, .point⟩

/-- The data, and the cache after the call. `clock` are the readings of the clock, two for each
part. -/
def getIdentity (params : IdentityParams) (clock : ℕ → ℕ) (cache : IdentityCache) :
    IdentityData × IdentityCache :=
  match registries.pointIdentity params clock cache with
  | (some data, cache) => (data, cache)
  | (none, cache) =>
    match registries.solanaIdentity params clock cache with
    | (some data, cache) => (data, cache)
    | (none, cache) =>
      match registries.ethereumIdentity params clock cache with
      | (some data, cache) => (data, cache)
      | (none, cache) => (registries.emptyIdentity, cache)

/-- The cache after a sequence of calls. -/
def cacheAfter (calls : List (IdentityParams × (ℕ → ℕ))) : IdentityCache :=
  calls.foldl (fun cache call => (registries.getIdentity call.1 call.2 cache).2) identityCache

end Registries

end PointNetwork.NameService
