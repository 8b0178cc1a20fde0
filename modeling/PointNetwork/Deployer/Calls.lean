import PointNetwork.CookieString
import PointNetwork.Logged
import PointNetwork.Deployer.Version

/-!
# What a deployment calls

The functions outside the deployer, each with its arguments and the type of its answer. What they
answer is up to a world: a function of the call and of a state, about which nothing is assumed. A
deployment is a computation that logs its calls, in order, and the outcomes of the promises that it
does not await.

Objects of the libraries (contracts, factories, proxies) are handles.
-/

namespace PointNetwork.Deployer

open Js

/-- What is thrown; `rejected` is an error of a function outside the model. -/
inductive Failure
  | error (message : JsString)
  | typeError
  | syntaxError
  | rejected
  deriving DecidableEq

/-- The error of `getBaseVersion` as an error of the deployment. -/
def VersionError.toFailure : VersionError → Failure
  | .blockchain => .rejected
  | e => .error e.message

/-- A contract object of ethers. -/
abbrev Handle := ℕ

/-- The version as an argument: a text, or a promise with the outcome that it will have. -/
inductive VersionArg
  | text (version : Option JsString)
  | promise (outcome : Except Failure (Option JsString))
  deriving DecidableEq

/-- The two services outside the identity contract that have domains. -/
inductive NameService
  | SNS
  | ENS
  deriving DecidableEq

/-- What `uploadData` is given. -/
inductive UploadArg
  | text (data : Option JsString)
  | buffer (data : Bytes)
  deriving DecidableEq

/-- The calls that a deployment makes to the node, the disk and the chains. -/
inductive Call
  -- the identity contract and the wallet
  | getOwner
  | getSigner
  | getNetworkPublicKey
  | ownerByIdentity (identity : JsString)
  | isIdentityDeployer (identity owner : JsString)
  | registerIdentity (identity owner publicKey : JsString)
  | loadIdentityContract
  | getikVersion (identity key : JsString)
  | getKeyValue (identity key : JsString)
  | putKeyValue (identity key : JsString) (value : Option Json) (version : VersionArg)
  | putZRecord (domain routesFile : JsString) (version : VersionArg)
  | deployContract (contract : Handle) (artifacts : Json) (contractName : JsString)
  | sendToContract (target contractName methodName : JsString) (params : List (Option Json))
  -- the name services
  | requestAccount (network : JsString)
  | ethAccounts (network : JsString)
  | resolveDomain (service : NameService) (domain network : JsString)
  | setDomainContent (service : NameService) (domain data : JsString)
  -- the compilers and hardhat
  | compileContract (contractName fileName deployPath : JsString)
  | compile
  | getProxyMetadataFilePath (deployPath : JsString)
  | getContractFactory (contractName : JsString)
  | deployProxy (contractF : Handle) (args : List JsString)
  | upgradeProxy (proxyAddress : JsString) (contractF : Handle)
  | forceImport (proxyAddress : JsString) (contractF : Handle)
  | deployed (proxy : Handle)
  | readArtifact (contractName : JsString)
  -- the storage
  | uploadData (data : UploadArg)
  | uploadDir (path : JsString)
  | waitForDirToUpload (id : JsString)
  | getFile (id : JsString)
  -- the file system and the shell
  | existsSync (path : JsString)
  | readFile (path : JsString)
  | readFileUtf8 (path : JsString)
  | writeFile (path : JsString) (data : Bytes)
  | remove (path : JsString)
  | symlink (target path : JsString)
  | unlink (path : JsString)
  | emptyDir (path : JsString)
  | execSync (command : JsString)
  deriving DecidableEq

/-- What `resolveDomain` answers with. -/
structure DomainRecord where
  owner : Option JsString
  content : Option Json

/-- What a call returns when it succeeds. -/
abbrev Call.Answer : Call → Type
  | getOwner => JsString
  | getSigner => JsString
  | getNetworkPublicKey => JsString
  | ownerByIdentity _ => Option JsString
  | isIdentityDeployer _ _ => Bool
  | loadIdentityContract => JsString
  | getikVersion _ _ => Option JsString
  | getKeyValue _ _ => Option JsString
  | deployContract _ _ _ => Option JsString
  | requestAccount _ => JsString
  | ethAccounts _ => List JsString
  | resolveDomain _ _ _ => DomainRecord
  | compileContract _ _ _ => Handle × Json
  | getProxyMetadataFilePath _ => JsString
  | getContractFactory _ => Handle
  | deployProxy _ _ => Handle
  | upgradeProxy _ _ => Handle
  | deployed _ => JsString
  | readArtifact _ => Json
  | uploadData _ => JsString
  | uploadDir _ => JsString
  | waitForDirToUpload _ => JsString
  | getFile _ => Bytes
  | existsSync _ => Bool
  | readFile _ => Bytes
  | readFileUtf8 _ => JsString
  | execSync _ => JsString
  | _ => Unit

namespace Call

/-- The call uploads a file or a directory, deploys a contract, or writes to the identity contract or
to a name service. -/
def isEffect : Call → Bool
  | putKeyValue _ _ _ _ => true
  | putZRecord _ _ _ => true
  | deployContract _ _ _ => true
  | deployProxy _ _ => true
  | upgradeProxy _ _ => true
  | setDomainContent _ _ _ => true
  | uploadData _ => true
  | uploadDir _ => true
  | _ => false

/-- The version that a write to the identity contract is given. -/
def versionArg : Call → Option VersionArg
  | putKeyValue _ _ _ version => some version
  | putZRecord _ _ version => some version
  | _ => none

end Call

/-- What a deployment logs. -/
inductive Entry
  | call (c : Call)
  /-- The outcome of `_validateDeployConfigOrFail`. -/
  | validated (outcome : Except Failure Unit)
  /-- The outcome of `getVersion`. -/
  | versioned (outcome : Except Failure (Option JsString))
  deriving DecidableEq

/-- What answers the calls: any function of the call and its own state. -/
abbrev World (σ : Type) := (c : Call) → σ → Except Failure c.Answer × σ

/-- A step of the deployment, with the calls that it makes. -/
abbrev Deploy (σ α : Type) := Logged σ Entry Failure α

section

variable {σ α : Type} (world : World σ)

/-- Makes the call, and notes that it did. -/
def call (c : Call) : Deploy σ c.Answer := fun s =>
  ((world c s).1, [.call c], (world c s).2)

/-- `if (b) await m;` -/
def when (b : Bool) (m : Deploy σ Unit) : Deploy σ Unit := if b then m else pure ()

/-- Start an async function without awaiting it: its outcome is logged. -/
def start (m : Deploy σ α) (entry : Except Failure α → Entry) :
    Deploy σ (Except Failure α) := do
  let outcome ← Logged.attempt m
  Logged.tell (entry outcome)
  pure outcome

/-- `Promise.all`: every promise goes on, also after another one has been rejected. -/
def promiseAll (ms : List (Deploy σ Unit)) : Deploy σ Unit :=
  ms.foldr (fun m rest => do
    let outcome ← Logged.attempt m
    rest
    Logged.ofExcept outcome) (pure ())

end

end PointNetwork.Deployer
