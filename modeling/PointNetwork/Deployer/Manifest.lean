import PointNetwork.Js.JsonLayout
import PointNetwork.Js.Map

/-!
# The manifest of the deployed contracts

`network/deployer/manifest.ts` and the lenses of `network/deployer/fetchOrDeploy.ts`: the file under
`.openzeppelin` that records, for one chain, the proxy admin, the implementations by the hash of
their bytecode, and the proxies.

A `Deployment` has the fields that some function here reads or writes; `normalizeDeployment` picks
among them. Whatever else an object carries (`abi`, `deployTransaction`) is never read and never
written. The `compare-versions` package is the field `compareVersions` of a `Chain`.
-/

namespace PointNetwork.Manifest

open Js

/-- The version that a manifest is written in. -/
def currentManifestVersion : JsString := js "3.2"

/-- A value that JavaScript can hold. -/
abbrev Value := {v : Json // v.canonical = true}

/-- `version.linkedWithoutMetadata`: the 64 digits of a hash. -/
structure VersionHash where
  text : JsString
  length_eq : text.length = 64
  deriving DecidableEq

/-- The text as a version hash, when it has 64 digits. -/
def VersionHash.of? (text : JsString) : Option VersionHash :=
  if h : text.length = 64 then some ⟨text, h⟩ else none

/-- The kinds of proxies. -/
inductive Kind
  | uups
  | transparent
  | beacon
  deriving DecidableEq

/-- The text of a kind in a manifest. -/
def Kind.text : Kind → JsString
  | uups => js "uups"
  | transparent => js "transparent"
  | beacon => js "beacon"

/-- The kind of a text. -/
def Kind.of? (text : JsString) : Option Kind :=
  if text = js "uups" then some .uups
  else if text = js "transparent" then some .transparent
  else if text = js "beacon" then some .beacon
  else none

/-- `Deployment`, `ImplDeployment` and `ProxyDeployment`: `none` is a missing property. -/
structure Deployment where
  address : JsString
  txHash : Option JsString
  kind : Option Kind
  layout : Option Value
  allAddresses : Option (List JsString)
  deriving DecidableEq

/-- The deployments on one chain. -/
structure ManifestData where
  manifestVersion : JsString
  admin : Option Deployment
  /-- An entry may hold `undefined`. -/
  impls : Map VersionHash (Option Deployment)
  proxies : List Deployment

/-- The manifest of a chain whose file is not there. -/
def defaultManifest : ManifestData := ⟨currentManifestVersion, none, .empty, []⟩

/-! ## Normal form -/

/-- The fields that `normalizeDeployment` keeps for some deployments only. -/
inductive Field
  | kind
  | layout
  | allAddresses
  deriving DecidableEq

/-- `pick(input, ['address', 'txHash', ...include])` -/
def normalizeDeployment (input : Deployment) (fields : List Field) : Deployment where
  address := input.address
  txHash := input.txHash
  kind := if .kind ∈ fields then input.kind else none
  layout := if .layout ∈ fields then input.layout else none
  allAddresses := if .allAddresses ∈ fields then input.allAddresses else none

/-- The manifest with the fields that are written. -/
def normalizeManifestData (input : ManifestData) : ManifestData where
  manifestVersion := input.manifestVersion
  admin := input.admin.map fun admin => normalizeDeployment admin []
  proxies := input.proxies.map fun p => normalizeDeployment p [.kind]
  impls := input.impls.mapValues fun i =>
    i.map fun i => normalizeDeployment i [.layout, .allAddresses]

/-! ## As JSON -/

/-- A property that `JSON.stringify` drops if it is `undefined`. -/
def optional (key : JsString) (value : Option Json) : List (JsString × Json) :=
  (value.map fun value => (key, value)).toList

/-- The properties of a deployment, without those that are `undefined`. -/
def Deployment.properties (d : Deployment) : List (JsString × Json) :=
  (js "address", .str d.address) :: (optional (js "txHash") (d.txHash.map .str) ++
    (optional (js "kind") (d.kind.map fun kind => .str kind.text) ++
      (optional (js "layout") (d.layout.map Subtype.val) ++
        optional (js "allAddresses") (d.allAddresses.map fun all => .arr (all.map .str)))))

/-- The object that is written for a deployment. -/
def Deployment.toJson (d : Deployment) : Json := .obj d.properties

/-- The implementations that are not `undefined`. -/
def implsJson (impls : List (VersionHash × Option Deployment)) : List (JsString × Json) :=
  impls.filterMap fun entry => entry.2.map fun d => (entry.1.text, d.toJson)

/-- The properties of a manifest, in the order in which they are written. -/
def ManifestData.properties (data : ManifestData) : List (JsString × Json) :=
  (js "manifestVersion", .str data.manifestVersion) ::
    (optional (js "admin") (data.admin.map Deployment.toJson) ++
      [(js "proxies", .arr (data.proxies.map Deployment.toJson)),
        (js "impls", .obj (implsJson data.impls.entries))])

/-- The object that is written for a manifest. -/
def ManifestData.toJson (data : ManifestData) : Json := .obj data.properties

/-- A string. -/
def readString : Json → Option JsString
  | .str s => some s
  | _ => none

/-- An array of strings. -/
def readStrings : Json → Option (List JsString)
  | .arr xs => xs.mapM readString
  | _ => none

/-- A string that is a kind. -/
def readKind (v : Json) : Option Kind := (readString v).bind Kind.of?

/-- Any value whose text is read back. -/
def readValue (v : Json) : Option Value :=
  if h : v.canonical = true then some ⟨v, h⟩ else none

/-- A property that may be missing. -/
def readOptional {α : Type} (read : Json → Option α) (key : JsString)
    (kvs : List (JsString × Json)) : Option (Option α) :=
  match kvs.lookup key with
  | none => some none
  | some value => (read value).map some

/-- The value as an object of the type that the source casts it to. -/
def Deployment.of? : Json → Option Deployment
  | .obj kvs => do
    let address ← (kvs.lookup (js "address")).bind readString
    let txHash ← readOptional readString (js "txHash") kvs
    let kind ← readOptional readKind (js "kind") kvs
    let layout ← readOptional readValue (js "layout") kvs
    let allAddresses ← readOptional readStrings (js "allAddresses") kvs
    pure { address, txHash, kind, layout, allAddresses }
  | _ => none

/-- The implementations of an object, under version hashes. -/
def implsOf? (kvs : List (JsString × Json)) : Option (Map VersionHash (Option Deployment)) := do
  let entries ← kvs.mapM fun kv => do
    pure (← VersionHash.of? kv.1, some (← Deployment.of? kv.2))
  Map.of? entries

/-- An array of deployments. -/
def readDeployments : Json → Option (List Deployment)
  | .arr xs => xs.mapM Deployment.of?
  | _ => none

/-- An object of implementations. -/
def readImpls : Json → Option (Map VersionHash (Option Deployment))
  | .obj kvs => implsOf? kvs
  | _ => none

/-- The manifest that a value has the shape of. -/
def ManifestData.of? : Json → Option ManifestData
  | .obj kvs => do
    let manifestVersion ← (kvs.lookup (js "manifestVersion")).bind readString
    let admin ← readOptional Deployment.of? (js "admin") kvs
    let proxies ← (kvs.lookup (js "proxies")).bind readDeployments
    let impls ← (kvs.lookup (js "impls")).bind readImpls
    pure { manifestVersion, admin, impls, proxies }
  | _ => none

/-! ## The files -/

/-- The chain of a `Manifest`. Without a name in `networkNames`, `file` and `fallbackFile` are one
file. -/
structure Chain where
  named : Bool
  /-- `isDevelopmentNetwork(provider)` -/
  development : Bool
  /-- `compareVersions(a, b, '<')`; `none` is a throw. -/
  compareVersions : JsString → JsString → Option Bool
  compare_oldest : compareVersions currentManifestVersion (js "3.0") = some false
  compare_current : compareVersions currentManifestVersion currentManifestVersion = some false

/-- The contents of the file and of its fallback. -/
structure Disk where
  file : Option Bytes
  fallbackFile : Option Bytes

/-- What keeps a manifest from being read. -/
inductive ReadError
  | ENOENT
  | twoFiles
  | syntaxError
  | typeError
  | missingVersion
  | invalidVersion
  | cliManifest
  | noMigration
  | unknownVersion (version : JsString)
  /-- A value of another type than the source casts it to. -/
  | otherShape
  deriving DecidableEq

section Chain

variable (chain : Chain)

/-- The content of the file or of its fallback; a chain with a name must not have both. -/
def readFile (disk : Disk) : Except ReadError Bytes :=
  if chain.named then
    match disk.file, disk.fallbackFile with
    | some _, some _ => .error .twoFiles
    | _, some content => .ok content
    | some content, none => .ok content
    | none, none => .error .ENOENT
  else
    match disk.file with
    | some content => .ok content
    | none => .error .ENOENT

/-- Moves the fallback to the place of the file. -/
def renameFileIfRequired (disk : Disk) : Disk :=
  if chain.named && disk.fallbackFile.isSome then ⟨disk.fallbackFile, none⟩ else disk

/-- Writes the file, after the fallback has been moved. -/
def writeFile (disk : Disk) (content : Bytes) : Disk :=
  { renameFileIfRequired chain disk with file := some content }

/-- A manifest of 3.0 or 3.1 has no proxies yet. -/
def migrateManifest (manifestVersion : JsString) (kvs : List (JsString × Json)) :
    Except ReadError Json :=
  if manifestVersion = js "3.0" ∨ manifestVersion = js "3.1" then
    .ok (.obj (setProp (js "proxies") (.arr [])
      (setProp (js "manifestVersion") (.str currentManifestVersion) kvs)))
  else .error .noMigration

/-- Refuses the versions that are not known, and migrates the older ones. -/
def validateOrUpdateManifestVersion : Json → Except ReadError Json
  | .null => .error .typeError
  | .obj kvs =>
    match kvs.lookup (js "manifestVersion") with
    | some (.str manifestVersion) =>
      match chain.compareVersions manifestVersion (js "3.0") with
      | none => .error .invalidVersion
      | some true => .error .cliManifest
      | some false =>
        match chain.compareVersions manifestVersion currentManifestVersion with
        | none => .error .invalidVersion
        | some true => migrateManifest manifestVersion kvs
        | some false =>
          if manifestVersion = currentManifestVersion then .ok (.obj kvs)
          else .error (.unknownVersion manifestVersion)
    | _ => .error .missingVersion
  | _ => .error .missingVersion

/-- The manifest of a content. -/
def parseManifest (content : Bytes) : Except ReadError ManifestData :=
  match Json.decode content with
  | none => .error .syntaxError
  | some value => do
    let value ← validateOrUpdateManifestVersion chain value
    match ManifestData.of? value with
    | some data => pure data
    | none => .error .otherShape

/-- The manifest on the disk, or an empty one where there is no file. -/
def read (disk : Disk) : Except ReadError ManifestData :=
  match readFile chain disk with
  | .error .ENOENT => .ok defaultManifest
  | .error e => .error e
  | .ok content => parseManifest chain content

/-- `JSON.stringify(normalized, null, 2) + '\n'` -/
def manifestText (data : ManifestData) : Bytes :=
  bufferFrom ((normalizeManifestData data).toJson.stringifyIndent ++ [0x0A])

/-- `write`, under the lock. -/
def write (disk : Disk) (data : ManifestData) : Disk := writeFile chain disk (manifestText data)

end Chain

/-! ## Queries -/

/-- The deployment is at the address, now or earlier. -/
def ManifestData.hasAddress (address : JsString) (d : Option Deployment) : Bool :=
  match d with
  | some d => d.address = address || (d.allAddresses.getD []).contains address
  | none => false

/-- `getDeploymentFromAddress`; `none` is `DeploymentNotFound`. -/
def getDeploymentFromAddress (data : ManifestData) (address : JsString) : Option Deployment :=
  (data.impls.entries.find? fun entry => ManifestData.hasAddress address entry.2).bind Prod.snd

/-- `getProxyFromAddress`; `none` is `DeploymentNotFound`. -/
def getProxyFromAddress (data : ManifestData) (address : JsString) : Option Deployment :=
  data.proxies.find? fun p => p.address = address

/-- `addProxy`, between its reading and its writing. -/
def addProxy (data : ManifestData) (proxy : Deployment) : ManifestData :=
  { data with
    proxies := data.proxies.eraseP (fun p => p.address = proxy.address) ++ [proxy] }

/-! ## Lenses -/

/-- `adminLens` and `implLens(version)`. -/
inductive Lens
  | admin
  | impl (version : VersionHash)
  deriving DecidableEq

/-- The deployment that a lens looks at. -/
def Lens.get (data : ManifestData) : Lens → Option Deployment
  | admin => data.admin
  | impl version => (data.impls.get version).join

/-- The manifest with another deployment under the lens. -/
def Lens.set (data : ManifestData) (value : Option Deployment) : Lens → ManifestData
  | admin => { data with admin := value }
  | impl version => { data with impls := data.impls.set version value }

/-- The fields that `normalizeManifestData` picks of a deployment under a lens. -/
def Lens.fields : Lens → List Field
  | admin => []
  | impl _ => [.layout, .allAddresses]

/-- The `allAddresses` of `mergeAddresses`: a `Set` in the order of insertion. -/
def mergeAddresses (existing value : Deployment) : List JsString :=
  Table.insertIgnore id (existing.address :: value.address ::
    (existing.allAddresses.getD [] ++ value.allAddresses.getD [])) []

/-- `merge` of `implLens(version)`. -/
def mergeImpl (data : ManifestData) (value : Deployment) (version : VersionHash) : ManifestData :=
  match Lens.get data (.impl version) with
  | some existing =>
    Lens.set data (some { existing with allAddresses := some (mergeAddresses existing value) })
      (.impl version)
  | none => Lens.set data (some value) (.impl version)

/-- `lens.merge`; the lens of the admin has none. -/
def Lens.merge (data : ManifestData) (value : Deployment) : Lens → Option ManifestData
  | admin => none
  | impl version => some (mergeImpl data value version)

/-- The lens of the deployment at an address. -/
def lookupDeployment (data : ManifestData) (address : JsString) (checkAllAddresses : Bool) :
    Option Lens :=
  if data.admin.map Deployment.address = some address then some .admin
  else
    (data.impls.entries.find? fun entry => match entry.2 with
      | some d => d.address = address ||
        (checkAllAddresses && (d.allAddresses.getD []).contains address)
      | none => false).map fun entry => .impl entry.1

/-- `checkForAddressClash`; `none` is a throw. -/
def checkForAddressClash (development : Bool) (data : ManifestData) (updated : Deployment)
    (checkAllAddresses : Bool) : Option ManifestData :=
  match lookupDeployment data updated.address checkAllAddresses with
  | none => some data
  | some clash => if development then some (clash.set data none) else none

/-- What `fetchOrDeployGeneric` does with a deployment that is not the stored one. -/
def recordDeployment (development : Bool) (data : ManifestData) (lens : Lens) (merge : Bool)
    (updated : Deployment) : Option ManifestData :=
  if merge then (checkForAddressClash development data updated false).bind fun data =>
    lens.merge data updated
  else (checkForAddressClash development data updated true).map fun data =>
    lens.set data (some updated)

end PointNetwork.Manifest
