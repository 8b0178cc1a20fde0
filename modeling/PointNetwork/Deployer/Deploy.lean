import PointNetwork.Deployer.KeyValue

/-!
# A deployment

`deploy` of `client/zweb/deployer/index.js` with the functions that it calls: the configuration is
loaded and validated, the version computed, the wallet checked against the target; then the routes
and the root directory are uploaded, the contracts deployed, and everything is written to the identity
contract under the version, and for another domain than `.point` to its name service.

`_validateDeployConfigOrFail` and `getVersion` are async functions, and `deploy` awaits neither of
them. What is rejected there ends in the handler of unhandled rejections, which logs it; the version
goes to the writes as the promise that it is.
-/

namespace PointNetwork.Deployer

open Js Logged

/-- What the deployer reads from its configuration and its process. -/
structure Settings where
  DATADIR : JsString
  /-- `process.env.MODE` -/
  MODE : Option JsString
  toLowerCase : JsString → JsString

/-- The arguments of `deploy`. -/
structure DeployParams where
  deployPath : JsString
  deployContracts : Bool
  dev : Bool
  forceDeployProxy : Bool
  config : Option Json

/-- The key of the file id of the proxies' metadata. -/
def PROXY_METADATA_KEY : JsString := js "zweb/contracts/proxy/metadata"

/-- The key of the last commit of the site. -/
def COMMIT_SHA_KEY : JsString := js "zweb/git/commit/sha"

/-- The key of the version of the SDK. -/
def POINT_SDK_VERSION : JsString := js "zweb/point/sdk/version"

/-- The key of the version of the node. -/
def POINT_NODE_VERSION : JsString := js "zweb/point/node/version"

/-- `this.err` logs the message and throws it. -/
def err {α : Type} (errMsg : JsString) : Except Failure α := .error (.error errMsg)

/-! ## The configuration and the version -/

/-- `||` stops at the first property that is missing. -/
def hasAll (deployConfig : Json) : List JsString → Except Failure Bool
  | [] => .ok true
  | key :: keys => do
    if ← hasOwnProperty deployConfig key then hasAll deployConfig keys else pure false

/-- Four properties have to be in the file, with whatever value. -/
def _validateDeployConfigOrFail (deployConfig : Json) : Except Failure Unit := do
  if ← hasAll deployConfig [js "version", js "target", js "keyvalue", js "contracts"] then pure ()
  else
    err (js "Missing entry in point.deploy.json file. The following properties must be present in " ++
      js "the file: version, target, keyvalue and contracts. Fill them with empty values if needed.")

/-- The target of the configuration and the identity that it stands for. -/
structure Target where
  target : JsString
  isPointTarget : Bool
  identity : JsString
  isAlias : Bool
  deriving DecidableEq

/-- A .sol or .eth target has an alias for an identity, and needs it for contracts; any other is a
.point target. -/
def _getTargetAndIdentity (settings : Settings) (config : Json) (contracts dev : Bool) :
    Except Failure Target := do
  let configTarget ← asString (← get (some config) (js "target"))
  if (js ".sol").isSuffixOf configTarget || (js ".eth").isSuffixOf configTarget then
    if dev then
      err (js "\"dev\" deployments are only supported for .point domains at the moment (trying to " ++
        js "deploy " ++ configTarget ++ js ")")
    else
      let configAlias ← get (some config) (js "alias")
      if !truthy configAlias && contracts then
        err (js "Contracts is an advanced Point functionality only supported by .point domains at " ++
          js "the moment. You need to specify a Point identity in the \"alias\" key in your deployment " ++
          js "config")
      else
        -- If the config does not include an alias, the domain will be used as identity.
        let identity ←
          if truthy configAlias then stripPoint <$> asString configAlias else pure configTarget
        pure ⟨settings.toLowerCase configTarget, false, identity, truthy configAlias⟩
  else
    let target :=
      if dev then replaceSuffix configTarget (js ".point") (js "dev") ++ js ".point"
      else configTarget
    pure ⟨settings.toLowerCase target, true, stripPoint target, false⟩

/-- The version of the configuration as `toString` of `getBaseVersion` sees it. -/
def cfgVersionOf : Option Json → Except Failure CfgVersion
  | some (.num n) => .ok (.number n.text)
  | some .null => .error .typeError
  | some v => CfgVersion.string <$> toText v
  | none => .error .typeError

/-- An outcome of the functions that compute the version. -/
def liftVersion {α : Type} : Except VersionError α → Except Failure α
  | .ok a => .ok a
  | .error e => .error e.toFailure

section

variable {σ : Type} (world : World σ) (settings : Settings)

/-- Reads `point.deploy.json`. -/
def _loadDeployConfig (deployPath : JsString) : Deploy σ Json := do
  let deployConfigFile ← call world (.readFileUtf8 (Path.join [deployPath, js "point.deploy.json"]))
  ofExcept (parseJson deployConfigFile)

/-- `getVersion` as an async function: the last version comes from the identity contract. -/
def getVersionAsync (cfgVersion : Option Json) (identity : JsString) (isPointTarget isAlias : Bool) :
    Deploy σ (Option JsString) := do
  if !isPointTarget && !isAlias then pure none
  else
    let cfgVersion ← ofExcept (cfgVersionOf cfgVersion)
    let _ ← ofExcept (liftVersion (getBaseVersion cfgVersion))
    let lastVersion ← call world (.getikVersion identity (js "::rootDir"))
    ofExcept (liftVersion (getVersion cfgVersion (.ok lastVersion) isPointTarget isAlias))

/-! ## The checks of the wallet -/

/-- Fails unless the address may deploy on the identity. -/
def ensureIsDeployerOrFail (identity owner : JsString) : Deploy σ Unit := do
  if ← call world (.isIdentityDeployer identity owner) then pure ()
  else
    ofExcept (err (js "The address " ++ owner ++ js " is not allowed to deploy on " ++ identity ++
      js " identity"))

/-- Registers the identity with the owner and the public key of the wallet. -/
def registerNewIdentity (identity owner : JsString) : Deploy σ Unit := do
  let publicKey ← call world .getNetworkPublicKey
  call world (.registerIdentity identity owner publicKey)

/-- The name service of a domain that does not end in .point. -/
def getNameService (domain : JsString) : NameService :=
  if (js ".sol").isSuffixOf domain then .SNS else .ENS

/-- The text of the error for a domain that another address owns. -/
def notOwner (service : NameService) (target domainOwner address : JsString) : JsString :=
  let coin := match service with
    | .SNS => js "SOL"
    | .ENS => js "ETH"
  js "\"" ++ target ++ js "\" is owned by " ++ domainOwner ++
    js ", you need to transfer it to your Point Wallet (" ++ address ++
    js "). Also, please make sure you have some " ++ coin ++
    js " in your Point Wallet to cover transaction fees."

/-- The content of the record of the domain, if its owner is the wallet. -/
def ensureIsDomainOwner (target : JsString) : Deploy σ (Option Json) :=
  match getNameService target with
  | .SNS => do
    let solanaAddress ← call world (.requestAccount (js "solana"))
    let record ← call world (.resolveDomain .SNS target (js "solana"))
    if some solanaAddress ≠ record.owner then
      ofExcept (err (notOwner .SNS target (record.owner.getD (js "undefined")) solanaAddress))
    else pure record.content
  | .ENS => do
    let result ← call world (.ethAccounts (js "rinkeby"))
    match result with
    | [] => fail (.error (js "Could not find any ethereum addresses."))
    | ethereumAddress :: _ =>
      if ethereumAddress = [] then fail (.error (js "Could not find any ethereum addresses."))
      else
        let record ← call world (.resolveDomain .ENS target (js "rinkeby"))
        let domainOwner := record.owner.map settings.toLowerCase
        if some ethereumAddress ≠ domainOwner then
          ofExcept (err (notOwner .ENS target (domainOwner.getD (js "false")) ethereumAddress))
        else pure record.content

/-- The checks for a `.point` domain. -/
def checkIdentity (identity : JsString) : Deploy σ Unit := do
  let owner ← call world .getOwner
  let sigAddr ← call world .getSigner
  if owner ≠ sigAddr then
    fail (.error (js "Invalid config, aborting. The wallet address " ++ owner ++
      js " is different than ethers default signer " ++ sigAddr ++ js "."))
  else
    let registeredOwner ← call world (.ownerByIdentity identity)
    let identityIsRegistered := registeredOwner.getD [] ≠ [] ∧
      registeredOwner ≠ some (js "0x0000000000000000000000000000000000000000")
    if identityIsRegistered then ensureIsDeployerOrFail world identity owner
    else if settings.MODE = some (js "zappdev") then registerNewIdentity world identity owner
    else
      fail (.error (js "You must register " ++ identity ++
        js " before you can make a deployment. Start Point, head over to https://point in Point " ++
          js "Browser, register " ++ identity ++ js " and then retry the deploy command."))

/-- The content of the domain registry that is kept, or an empty text. -/
def preExistingDomainContent (content : Option Json) : JsString :=
  match content with
  | some (.str s) => if trim s ≠ [] then s else []
  | _ => []

/-! ## The uploads -/

/-- The routes, before they are uploaded. -/
def readRoutes (deployPath : JsString) : Deploy σ Json := do
  let routesFile ← call world (.readFileUtf8 (Path.join [deployPath, js "routes.json"]))
  ofExcept (parseJson routesFile)

/-- Reads the routes and uploads their text. -/
def uploadRoutes (deployPath : JsString) : Deploy σ JsString := do
  let routes ← readRoutes world deployPath
  call world (.uploadData (.text (some routes.stringify)))

/-- Uploads the root directory and waits for it to be COMPLETED. -/
def uploadRootDir (deployPath : JsString) (rootDir : Option Json) : Deploy σ JsString := do
  let rootDir ← ofExcept (asString (some (rootDir.getD (.str (js "public")))))
  let publicDirId ← call world (.uploadDir (Path.join [deployPath, rootDir]))
  let dir_ul_status ← call world (.waitForDirToUpload publicDirId)
  if dir_ul_status ≠ js "COMPLETED" then
    fail (.error (js "Root dir upload status: " ++ dir_ul_status))
  else pure publicDirId

/-! ## The contracts -/

/-- `config.hasOwnProperty('upgradable') && config.upgradable` -/
def upgradable (config : Json) : Except Failure Json := do
  if ← hasOwnProperty config (js "upgradable") then
    pure ((ownProperty (js "upgradable") config).getD .null)
  else pure (.bool false)

/-- The name of a contract that is listed by its name or as an object. -/
def contractName : Json → Except Failure JsString
  | .str s => .ok s
  | contract => do textOf (← get (some contract) (js "name"))

/-- `contractMap`: the entries of the contracts, those of the old format as objects. -/
def contractMap (config : Json) : List Json → List (JsString × Json) →
    Except Failure (List (JsString × Json))
  | [], map => .ok map
  | .str name :: contracts, map => do
    let flag ← upgradable config
    contractMap config contracts (setProp name (.obj [(js "upgradable", flag)]) map)
  | contract :: contracts, map => do
    let name ← contractName contract
    contractMap config contracts (setProp name contract map)

/-- `config.contracts || []` -/
def contractsOf (config : Json) : Except Failure (List Json) := do
  let contracts ← get (some config) (js "contracts")
  if truthy contracts then
    match contracts with
    | some (.arr xs) => pure xs
    | _ => .error .typeError
  else pure []

/-- The contract has an `exclude` that is `true`. -/
def isExcluded (contract : Json) : Except Failure Bool := do
  if ← hasOwnProperty contract (js "exclude") then
    pure (ownProperty (js "exclude") contract == some (.bool true))
  else pure false

/-- Removes what is at the path, if anything. -/
def removeExisting (path : JsString) : Deploy σ Unit := do
  let isThere ← call world (.existsSync path)
  when isThere (call world (.remove path))

/-- Compile the upgradable contracts; the path of the metadata of the proxies. -/
def compileUpgradable (deployPath : JsString) : Deploy σ JsString := do
  let proxyMetadataFilePath ← call world (.getProxyMetadataFilePath deployPath)
  let nodeModulesPath := Path.join [settings.DATADIR, js "hardhat", js "node_modules"]
  let contractsPath := Path.join [settings.DATADIR, js "hardhat", js "contracts"]
  removeExisting world nodeModulesPath
  removeExisting world contractsPath
  call world (.symlink (Path.join [deployPath, js "node_modules"]) nodeModulesPath)
  call world (.symlink (Path.join [deployPath, js "contracts"]) contractsPath)
  call world .compile
  promiseAll [call world (.unlink nodeModulesPath), call world (.unlink contractsPath)]
  pure proxyMetadataFilePath

/-- The path of the artifacts of a contract in the project of an IDE. -/
def abiPathOf (useIDE : Option Json) (deployPath contractName : JsString) :
    Except Failure JsString := do
  let name ← get useIDE (js "name")
  if name = some (.str (js "truffle")) then
    let projectDir ← asString (← get useIDE (js "projectDir"))
    pure (Path.join [deployPath, projectDir, js "build", js "contracts", contractName ++ js ".json"])
  else if name = some (.str (js "hardhat")) then
    let projectDir ← asString (← get useIDE (js "projectDir"))
    pure (Path.join [deployPath, projectDir, js "build", js "contracts",
      contractName ++ js ".sol", contractName ++ js ".json"])
  else pure []

/-- The artifacts that have been compiled before, if there are any. -/
def readAbi (abiPath : JsString) : Deploy σ (Option Json) :=
  if abiPath = [] then pure none
  else do
    let isThere ← call world (.existsSync abiPath)
    if isThere then
      let abiFile ← call world (.readFileUtf8 abiPath)
      let artifacts ← ofExcept (parseJson abiFile)
      pure (some artifacts)
    else pure none

/-- The artifacts and the address of a contract that an IDE has deployed. -/
def fromIDE (config : Json) (deployPath contractName : JsString) :
    Deploy σ (Option Json × Option Json) := do
  let useIDE := ownProperty (js "useIDE") config
  let abiPath ← ofExcept (abiPathOf useIDE deployPath contractName)
  let artifacts ← readAbi world abiPath
  let addresses ← ofExcept (get useIDE (js "addresses"))
  let address ← ofExcept (get addresses contractName)
  pure (artifacts, address)

/-- A new proxy, without parameters if it cannot be deployed with them. -/
def deployNewProxy (contractF : Handle) (identity : JsString) : Deploy σ Handle := do
  let idContract ← call world .loadIdentityContract
  recover (call world (.deployProxy contractF [idContract, identity]))
    (call world (.deployProxy contractF []))

/-- Upgrades the proxy with its old metadata, which are imported anew when that fails. -/
def upgradeOldProxy (contractF : Handle) (proxyAddress proxyDescriptionFileId : JsString)
    (proxyMetadataFilePath : JsString) : Deploy σ Handle := do
  let file ← call world (.getFile proxyDescriptionFileId)
  call world (.writeFile proxyMetadataFilePath file)
  recover (call world (.upgradeProxy proxyAddress contractF)) do
    -- the metadata file can be corrupted: it is made again
    call world (.remove proxyMetadataFilePath)
    call world (.forceImport proxyAddress contractF)
    call world (.upgradeProxy proxyAddress contractF)

/-- Deploys a proxy when there is none, when its metadata are lost, or when it is asked for. -/
def deployOrUpgrade (contractF : Handle) (proxyAddress proxyDescriptionFileId identity : JsString)
    (proxyMetadataFilePath : JsString) (force_deploy_proxy : Bool) : Deploy σ Handle :=
  if proxyAddress = [] ∨ proxyDescriptionFileId = [] ∨ force_deploy_proxy then
    deployNewProxy world contractF identity
  else upgradeOldProxy world contractF proxyAddress proxyDescriptionFileId proxyMetadataFilePath

/-- The artifacts and the address of an upgradable contract. -/
def deployUpgradable (contractName target identity proxyMetadataFilePath : JsString)
    (force_deploy_proxy : Bool) : Deploy σ (Option Json × Option Json) := do
  let proxyAddress ← call world (.getKeyValue target (js "zweb/contracts/address/" ++ contractName))
  let proxyDescriptionFileId ← call world (.getKeyValue target PROXY_METADATA_KEY)
  let contractF ← call world (.getContractFactory contractName)
  let proxy ← deployOrUpgrade world contractF (proxyAddress.getD [])
    (proxyDescriptionFileId.getD []) identity proxyMetadataFilePath force_deploy_proxy
  let address ← call world (.deployed proxy)
  let artifacts ← call world (.readArtifact contractName)
  pure (some artifacts, some (.str address))

/-- The artifacts and the address of a contract. -/
def deployContract (config contract : Json) (deployPath contractName target : JsString)
    (proxyMetadataFilePath : JsString) (force_deploy_proxy : Bool) :
    Deploy σ (Option Json × Option Json) := do
  let hasIDE ← ofExcept (hasOwnProperty config (js "useIDE"))
  if hasIDE then
    fromIDE world config deployPath contractName
  else
    let flag ← ofExcept (upgradable config)
    if flag = .bool true ∧ truthy (ownProperty (js "upgradable") contract) then
      deployUpgradable world contractName target (stripPoint target) proxyMetadataFilePath
        force_deploy_proxy
    else
      let fileName := Path.join [deployPath, js "contracts", contractName ++ js ".sol"]
      let (handle, artifacts) ← call world (.compileContract contractName fileName deployPath)
      let address ← call world (.deployContract handle artifacts contractName)
      pure (some artifacts, address.map Json.str)

/-- The artifacts are uploaded, before anything is written. -/
def uploadArtifacts (artifacts : Option Json) : Deploy σ JsString :=
  call world (.uploadData (.text (artifacts.map Json.stringify)))

/-- Uploads the artifacts, then writes the address and the ABI of the contract. -/
def storeContractArtifacts (artifacts : Option Json) (contractName : JsString)
    (version : VersionArg) (address : Option Json) (target : JsString) : Deploy σ Unit := do
  let artifactsStorageId ← uploadArtifacts world artifacts
  call world (.putKeyValue target (js "zweb/contracts/address/" ++ contractName) address version)
  call world (.putKeyValue target (js "zweb/contracts/abi/" ++ contractName)
    (some (.str artifactsStorageId)) version)

/-- Deploys one contract and stores what is known of it. -/
def deployAndStore (config contract : Json) (deployPath name : JsString) (version : VersionArg)
    (target proxyMetadataFilePath : JsString) (force_deploy_proxy : Bool) : Deploy σ Unit := do
  let (artifacts, address) ← deployContract world config contract deployPath name target
    proxyMetadataFilePath force_deploy_proxy
  storeContractArtifacts world artifacts name version address target

/-- The contracts that are not excluded, in turn. -/
def deployEach (config : Json) (map : List (JsString × Json)) (deployPath : JsString)
    (version : VersionArg) (target proxyMetadataFilePath : JsString) (force_deploy_proxy : Bool) :
    List JsString → Deploy σ Unit
  | [] => pure ()
  | name :: names => do
    let contract := (map.lookup name).getD .null
    let excluded ← ofExcept (isExcluded contract)
    when (!excluded) (deployAndStore world config contract deployPath name version target
      proxyMetadataFilePath force_deploy_proxy)
    deployEach config map deployPath version target proxyMetadataFilePath force_deploy_proxy names

/-- The metadata of the proxies are uploaded, before anything is written. -/
def uploadProxyMetadata (proxyMetadataFilePath : JsString) : Deploy σ JsString := do
  let proxyMetadataFile ← call world (.readFileUtf8 proxyMetadataFilePath)
  let proxyMetadata ← ofExcept (parseJson proxyMetadataFile)
  call world (.uploadData (.text (some proxyMetadata.stringify)))

/-- Writes the file id of the metadata. -/
def updateProxyMetadata (host id : JsString) (version : VersionArg) : Deploy σ Unit :=
  call world (.putKeyValue (stripPoint host) PROXY_METADATA_KEY (some (.str id)) version)

/-- Uploads the metadata, writes their id, and empties the folders of hardhat. -/
def storeProxyMetadata (target proxyMetadataFilePath : JsString) (version : VersionArg) :
    Deploy σ Unit := do
  let proxyMetadataFileUploadedId ← uploadProxyMetadata world proxyMetadataFilePath
  updateProxyMetadata world target proxyMetadataFileUploadedId version
  promiseAll [call world (.emptyDir (Path.join [settings.DATADIR, js "hardhat", js "build"])),
    call world (.emptyDir (Path.join [settings.DATADIR, js "hardhat", js "cache"])),
    call world (.emptyDir (Path.join [settings.DATADIR, js ".openzeppelin"]))]

/-- The names of the contracts, their entries, and the flag `upgradable`. -/
def contractTable (config : Json) :
    Except Failure (List JsString × List (JsString × Json) × Json) := do
  let contracts ← contractsOf config
  let names ← contracts.mapM contractName
  let map ← contractMap config contracts []
  let flag ← upgradable config
  pure (names, map, flag)

/-- The path of the metadata of the proxies, if there are upgradable contracts. -/
def prepareProxies (flag : Json) (deployPath : JsString) : Deploy σ JsString :=
  if truthy (some flag) then compileUpgradable world settings deployPath else pure []

/-- Deploys the contracts of the configuration one after the other. -/
def deployContracts (config : Json) (deployPath : JsString) (version : VersionArg)
    (target : JsString) (force_deploy_proxy : Bool) : Deploy σ Unit := do
  let (names, map, flag) ← ofExcept (contractTable config)
  let proxyMetadataFilePath ← prepareProxies world settings flag deployPath
  deployEach world config map deployPath version target proxyMetadataFilePath force_deploy_proxy
    names
  when (flag = .bool true) (storeProxyMetadata world settings target proxyMetadataFilePath version)

/-! ## The other writes -/

/-- Writes the routes of the host. -/
def updateZDNS (host id : JsString) (version : VersionArg) : Deploy σ Unit :=
  call world (.putZRecord (stripPoint host) (js "0x" ++ id) version)

/-- `execCommand`: `false` if the command fails. -/
def execCommand (command : JsString) : Deploy σ (Option JsString) :=
  recover (do
    let output ← call world (.execSync command)
    pure (some output)) (pure none)

/-- Writes the last commit, if git knows one. -/
def updateCommitSha (host deployPath : JsString) (version : VersionArg) : Deploy σ Unit := do
  let _ ← execCommand world (js "cd " ++ deployPath ++ js " && git status --porcelain")
  let lastCommitSha ← execCommand world (js "cd " ++ deployPath ++ js " && git rev-parse HEAD")
  when (lastCommitSha.getD [] ≠ []) (call world
    (.putKeyValue (stripPoint host) COMMIT_SHA_KEY (lastCommitSha.map Json.str) version))

/-- Writes one of the two versions. -/
def updatePointVersionTag (host key : JsString) (value : Option Json) (version : VersionArg) :
    Deploy σ Unit :=
  call world (.putKeyValue (stripPoint host) key value version)

/-- Writes the content of the domain: merged with what it had for SNS, and instead of it for ENS. -/
def editDomainRegistry (domain : JsString) (data : CookieString.Entries)
    (preExistingData : JsString) : Deploy σ Unit :=
  match getNameService domain with
  | .SNS => call world (.setDomainContent .SNS domain
      (CookieString.encodeCookieString (CookieString.mergeAndResolveConflicts preExistingData data)))
  | .ENS => call world (.setDomainContent .ENS domain (CookieString.encodeCookieString data))

/-! ## `deploy` -/

/-- What the checks hand to the rest of the deployment. -/
structure Admission where
  deployConfig : Json
  validation : Except Failure Unit
  version : Except Failure (Option JsString)
  target : Target
  preExistingDomainContent : JsString

/-- The configuration that is given, or that of the file. -/
def configOf (p : DeployParams) : Deploy σ Json :=
  if truthy p.config then pure (p.config.getD .null) else _loadDeployConfig world p.deployPath

/-- The checks for the target; the content of its record that is kept. -/
def checkTarget (t : Target) : Deploy σ JsString :=
  if t.isPointTarget then do
    checkIdentity world settings t.identity
    pure []
  else do
    let content ← ensureIsDomainOwner world settings t.target
    pure (preExistingDomainContent content)

/-- Up to the first upload. -/
def admission (p : DeployParams) : Deploy σ Admission := do
  let deployConfig ← configOf world p
  let validation ← start (ofExcept (_validateDeployConfigOrFail deployConfig)) .validated
  let t ← ofExcept (_getTargetAndIdentity settings deployConfig p.deployContracts p.dev)
  let version ← start (getVersionAsync world (ownProperty (js "version") deployConfig) t.identity
    t.isPointTarget t.isAlias) .versioned
  let content ← checkTarget world settings t
  pure ⟨deployConfig, validation, version, t, content⟩

/-- The entry of the configuration is written if it is there. -/
def updateTagOf (deployConfig : Json) (name host key : JsString) (version : VersionArg) :
    Deploy σ Unit := do
  let isThere ← ofExcept (hasOwnProperty deployConfig name)
  when isThere (updatePointVersionTag world host key (ownProperty name deployConfig) version)

/-- Everything that is written to the identity contract. -/
def writeIdentity (p : DeployParams) (a : Admission) (routeFileUploadedId publicDirId : JsString) :
    Deploy σ Unit := do
  let pointIdentity := if a.target.isAlias then a.target.identity else a.target.target
  -- the promise itself
  let version := VersionArg.promise a.version
  when p.deployContracts (deployContracts world settings a.deployConfig p.deployPath version
    pointIdentity p.forceDeployProxy)
  updateKeyValue world pointIdentity (some (.obj [(js "::rootDir", .str publicDirId)])) p.deployPath
    p.deployContracts version
  updateZDNS world pointIdentity routeFileUploadedId version
  updateKeyValue world pointIdentity (ownProperty (js "keyvalue") a.deployConfig) p.deployPath
    p.deployContracts version
  updateCommitSha world pointIdentity p.deployPath version
  updateTagOf world a.deployConfig (js "pointSDKVersion") pointIdentity POINT_SDK_VERSION version
  updateTagOf world a.deployConfig (js "pointNodeVersion") pointIdentity POINT_NODE_VERSION version

/-- What is written to the registry of a domain that is not a `.point` domain. -/
def domainRegistryData (t : Target) (routeFileUploadedId publicDirId : JsString) :
    CookieString.Entries :=
  if t.isAlias then [(js "pn_alias", t.identity)]
  else [(js "pn_routes", routeFileUploadedId), (js "pn_root", publicDirId)]

/-- `deploy`: the checks, the uploads, what is written for the identity and what for the domain. -/
def deploy (p : DeployParams) : Deploy σ Unit := do
  let a ← admission world settings p
  let routeFileUploadedId ← uploadRoutes world p.deployPath
  let publicDirId ← uploadRootDir world p.deployPath (ownProperty (js "rootDir") a.deployConfig)
  when (a.target.isPointTarget || a.target.isAlias)
    (writeIdentity world settings p a routeFileUploadedId publicDirId)
  when (!a.target.isPointTarget) (editDomainRegistry world a.target.target
    (domainRegistryData a.target routeFileUploadedId publicDirId) a.preExistingDomainContent)

end

end PointNetwork.Deployer
