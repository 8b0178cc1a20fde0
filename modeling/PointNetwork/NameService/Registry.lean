import PointNetwork.CookieStringTheorems
import PointNetwork.Deployer.Deploy
import PointNetwork.Encryption.Message

/-!
# The records of domains

`parseDomainRegistry` of `name_service/registry.ts` reads the record of a domain. Two functions write
such records: `editDomainRegistry` of the deployer and `setPointReference` of the provider for
Solana. Both keep what is there: the old content is parsed as a cookie string, merged with the new
data and encoded again.

The reader takes a content that begins with `ipfs://` for the address of a site, the parser of
cookie strings does not. This is where the two writers go wrong.
-/

namespace PointNetwork.NameService

open Js CookieString

/-- `registry` of `parseDomainRegistry`. -/
structure DomainRegistry where
  owner : JsString
  content : Option JsString
  deriving DecidableEq

/-- What the content of a domain says. -/
structure PointDomainData where
  pointAddress : JsString
  pointPublicKey : JsString
  identity : JsString
  isAlias : Bool
  routesId : JsString
  rootDirId : JsString
  deriving DecidableEq

/-- The start of a content that is no cookie string. -/
def ipfs : JsString := js "ipfs://"

/-- `/^(0x)?[a-fA-F0-9]{128}$/`. -/
def isValidPublicKeyString (key : JsString) : Bool :=
  let isKey (digits : JsString) := digits.length = 128 && digits.all isHexDigit
  isKey key || ((js "0x").isPrefixOf key && isKey (key.drop 2))

/-- The hash function and the checksum of addresses. -/
structure Addresses where
  keccak256 : HashFn
  toChecksumAddress : JsString → JsString

/-- `getAddressFromPublicKey` of a text. -/
def getAddressFromPublicKey (addresses : Addresses) (key : JsString) : Bytes :=
  slice (addresses.keccak256.digest (fromHex (Encryption.remove0x key))) (-20) 32

/-- The values of the record; those of `pn_alias: null` are left out. -/
def valuesOf (content : JsString) : Entries :=
  if ipfs.isPrefixOf content then
    [(js "pn_routes", js "ipfs://ignore"), (js "pn_root", content), (js "pn_key", [])]
  else parseCookieString content

/-- A property, or the empty text. -/
def value (values : Entries) (key : JsString) : JsString := (values.lookup key).getD []

/-- The data of a domain; a public key that is none is left out of the address. -/
def parseDomainRegistry (addresses : Addresses) (registry : DomainRegistry) : PointDomainData :=
  let values := valuesOf (registry.content.getD [])
  let pointPublicKey := value values (js "pn_key")
  let isAlias := value values (js "pn_alias") ≠ []
  { pointAddress :=
      if isValidPublicKeyString pointPublicKey then
        addresses.toChecksumAddress
          (js "0x" ++ toHex (getAddressFromPublicKey addresses pointPublicKey))
      else []
    pointPublicKey
    identity := value values (js "pn_alias")
    isAlias
    routesId := if isAlias then [] else value values (js "pn_routes")
    rootDirId := if isAlias then [] else value values (js "pn_root") }

/-- `setPointReference`, from the answers of `requestAccount`, of `resolveDomain` and of the wallet:
the content that it writes, nothing if the name service is disabled. -/
def setPointReference (SNS_ENABLED : Bool) (solDomain solanaAddress : JsString)
    (domainRegistry : DomainRegistry) (publicKey : JsString) :
    Except Deployer.Failure (Option JsString) :=
  if !SNS_ENABLED then .ok none
  else if solanaAddress ≠ domainRegistry.owner then
    .error (.error (Deployer.notOwner .SNS solDomain domainRegistry.owner solanaAddress))
  else
    let preExistingContent :=
      match domainRegistry.content with
      | some content => if trim content ≠ [] then content else []
      | none => []
    .ok (some (encodeCookieString
      (mergeAndResolveConflicts preExistingContent [(js "pn_key", publicKey)])))

end PointNetwork.NameService
