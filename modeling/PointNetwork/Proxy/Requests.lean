import PointNetwork.Logged
import PointNetwork.NameService.Registry
import PointNetwork.Proxy.LocalRoot
import PointNetwork.Proxy.RouteRewriting
import PointNetwork.Storage.Directory
import PointNetwork.Storage.Stream

/-!
# Requests to the proxy

`client/proxy/handlers/common.ts`: how the proxy answers a request to a site. The routes and the root
directory of the site come from the chain or from the record of a domain. The path is matched against
the routes, which may rewrite it; then a file is looked for under the root, and a template is
rendered if there is none.

* `getFileIdByPath`: the lookup on whatever JSON texts the storage holds;
* `tryFulfillStaticRequest`, `tryFulfillZhtmlRequest` and `fulfillRequest`;
* `fulfillLocalRequest`, `fulfillPointRequest` and `fulfillExtRequest`, the branches for sites;
* `getHttpRequestHandler`, the entry point.

A `Handler` works on the storage of the node and logs the headers that it sets. The engine for
templates, the chain, the disk and IPFS are parameters.
-/

namespace PointNetwork.Proxy

open Js Storage Logged
open Deployer (truthy)
open NameService (DomainRegistry parseDomainRegistry)

/-- An object that is no class of the source's: its properties in order. -/
abbrev Props := List (JsString × Json)

/-! ## Requests and answers -/

/-- What the proxy reads of a request: the headers `host` and `range`, the parts of its URL and its
body. -/
structure Request where
  host : JsString
  urlPath : JsString
  queryParams : Props := []
  body : Props := []
  range : Option JsString := none

/-- What a handler throws. -/
inductive Failure
  | thrown (e : Exception)
  /-- `HttpForbiddenError` -/
  | forbidden (message : String)
  /-- No error: the request goes on when the download of a file that is under way ends. -/
  | waits
  deriving DecidableEq

/-- `e.httpStatusCode || 500` -/
def Failure.status : Failure → ℕ
  | .thrown (.httpNotFound _) => 404
  | .forbidden _ => 403
  | _ => 500

/-- An error that is answered with 404. -/
def notFound (message : String) : Failure := .thrown (.httpNotFound message)

/-- The name and the value of a header. -/
abbrev Header := JsString × JsString

/-- A step of the handler, with the headers that it sets. -/
abbrev Handler := Logged Storage.Node Header Failure

/-- What a request is answered with. -/
inductive Answer
  /-- A stream out of the storage. -/
  | stored (file : ReadStream)
  /-- A stream of a local file. -/
  | local (fullPath : JsString)
  /-- The contents of a stream from IPFS. -/
  | ipfs (contents : Bytes)
  | rendered (page : JsString)
  | redirect (location : JsString)
  deriving DecidableEq

/-- The arguments of `fulfillRequest`. -/
structure RequestFulfillmentConfig where
  isLocal : Bool
  routes : Json
  path : JsString
  localRootDirPath : Option JsString := none
  remoteRootDirId : Option JsString := none
  rewriteHost : Option JsString := none

/-- What the handlers use of the rest of the node and of libraries. -/
structure Env where
  H : HashFn
  CHUNK_SIZE : ℕ
  /-- What the download of a chunk gives while the request is handled. -/
  getChunkBinary : JsString → Except Exception Bytes
  /-- `match` of node-match-path -/
  pathMatch : Match
  /-- `lookup` of mime-types -/
  lookup : JsString → Option JsString
  /-- `renderer.render(templateId, templateFileContents, host, params)` for the root of a site -/
  render : RequestFulfillmentConfig → Option JsString → JsString → JsString → Props → Handler JsString
  exist : JsString → Bool
  isFile : JsString → Bool
  readFile : JsString → Except Failure Bytes
  getIPFSFileAsStream : JsString → Except Failure Bytes
  getZRecord : (domain version : JsString) → Except Failure (Option JsString)
  getKeyValue : (identity key version : JsString) → (followCopyFromIkv : Bool) →
    Except Failure (Option JsString)
  /-- The answer of the node's own API to `identity/resolve`. -/
  resolve : JsString → Except Failure DomainRegistry
  addresses : NameService.Addresses
  /-- `config.get('mode')` -/
  mode : JsString
  /-- `config.get('zappsdir')`, or the empty text. -/
  zappsdir : JsString
  /-- `__dirname` -/
  dirname : JsString
  /-- `process.cwd()` -/
  cwd : JsString
  /-- The hosts of the other branches: the home page, IPFS and the rest of the web. -/
  elsewhere : Request → Handler Answer

/-! ## Parts of a request -/

/-- The part behind the last splitter. -/
def splitAndTakeLastPart (s : JsString) (splitter : UInt16)
    (defaultIfSplitterNotFound : Option JsString) : Option JsString :=
  let parts := s.splitOn splitter
  if parts.length ≤ 1 then defaultIfSplitterNotFound else parts.getLast?

/-- `ext` of `parseRequestForProxy`: of the path as it was requested. -/
def Request.ext (req : Request) : Option JsString :=
  let fileName := (splitAndTakeLastPart req.urlPath Path.slash (some req.urlPath)).getD []
  splitAndTakeLastPart fileName dot none

/-- `queryParams.__point_version ?? 'latest'`; a version that is no text is read as its text. -/
def Request.version (req : Request) : JsString :=
  match req.queryParams.lookup (js "__point_version") with
  | none => js "latest"
  | some .null => js "latest"
  | some v => v.toText

/-- `{...routeParams, ...queryParams, ...req.body}` -/
def Request.params (req : Request) (routeParams : Option Params) : Props :=
  ofEntries ((routeParams.getD []).map (fun param => (param.1, Json.str param.2)) ++
    req.queryParams ++ req.body)

/-! ## Routes -/

/-- The properties that `for (const k in value)` goes through. -/
def forIn : Json → Props
  | .obj kvs => kvs
  | .arr xs => xs.mapIdx fun i x => (natText i, x)
  | .str s => s.mapIdx fun i u => (natText i, .str [u])
  | _ => []

/-- `matchRouteAndParams` for routes that are any JSON value. A template that is no text ends the
matching with an error, `null` leaves the path without a template. -/
def matchRoutes (pathMatch : Match) (routes : Json) (path : JsString) :
    Except Failure MatchedRoute :=
  match (forIn routes).find? fun route => (pathMatch route.1 path).isSome with
  | none => .ok ⟨none, none, path⟩
  | some (k, .str template) => .ok (matchRouteAndParams pathMatch [(k, template)] path)
  | some (k, .null) => .ok ⟨(pathMatch k path).getD none, none, path⟩
  | some _ => .error (.thrown .typeError)

variable (env : Env)

/-! ## The storage -/

/-- `rawId.startsWith` needs a text. -/
def idText : Option Json → Except Failure JsString
  | some (.str id) => .ok id
  | _ => .error (.thrown .typeError)

/-- `getFile` -/
def getFile (rawId : JsString) : Handler Bytes := fun node =>
  match Storage.getFile env.H env.CHUNK_SIZE env.getChunkBinary rawId true node with
  | (none, node) => (.error .waits, [], node)
  | (some (.error e), node) => (.error (.thrown e), [], node)
  | (some (.ok contents), node) => (.ok contents, [], node)

/-- A text that is there and not empty. -/
def given : Option JsString → Option JsString
  | some [] => none
  | text => text

/-- `getFileAsReadStream` with the header `range`, whose start decides on nothing but what is sent. -/
def getFileAsReadStream (rawId : JsString) (range : Option JsString) : Handler ReadStream :=
  fun node =>
    let start := (given range).map rangeStart
    match Storage.getFileAsReadStream env.H env.CHUNK_SIZE env.getChunkBinary rawId start.join
      node with
    | (.error e, node) => (.error (.thrown e), [], node)
    | (.ok file, node) => (.ok (if start = some none then .unmodelled else file), [], node)

/-- A file of the storage as JSON. -/
def getJSON (rawId : Option Json) : Handler Json := do
  let rawId ← ofExcept (idText rawId)
  let file ← getFile env rawId
  match Json.decode file with
  | some value => pure value
  | none => fail (.thrown .syntaxError)

/-- `value[key]` -/
def field (value : Json) (key : JsString) : Except Failure (Option Json) :=
  (readField value key).mapError .thrown

/-- `files.find(f => f.name === segment)`; the segment is `undefined` if there is none. -/
def findNamed (segment : Option JsString) : List Json → Except Failure (Option Json)
  | [] => .ok none
  | f :: rest => do
    let name ← field f (js "name")
    if name = segment.map .str then pure (some f) else findNamed segment rest

/-- `directory.files.find(...)`, if it is a value that counts as true. -/
def findInDirectory (directory : Json) (segment : Option JsString) :
    Except Failure (Option Json) := do
  match ← field directory (js "files") with
  | some (.arr files) =>
    let nextFileOrDir ← findNamed segment files
    pure (nextFileOrDir.filter fun f => truthy (some f))
  | _ => throw (.thrown .typeError)

/-- The error for a path that is not in the directory. -/
def lookupFailed (filePath dirId : JsString) (reason : String) : Failure :=
  notFound ("Failed to find file " ++ messageText filePath ++ " in directory " ++
    messageText dirId ++ ": " ++ reason)

/-- `getFileIdByPath` on whatever texts the storage holds. The fuel bounds the number of listings
that are read. -/
def getFileIdByPathFuel : ℕ → Option Json → JsString → Handler (Option Json)
  | 0, _, _ => fail (.thrown .outOfFuel)
  | fuel + 1, dirId, filePath => do
    let directory ← getJSON env dirId
    let dirText ← ofExcept (idText dirId)
    let segments := Storage.segments filePath
    match ← ofExcept (findInDirectory directory segments.head?) with
    | none => fail (lookupFailed filePath dirText "not found")
    | some nextFileOrDir =>
      let id ← ofExcept (field nextFileOrDir (js "id"))
      let type ← ofExcept (field nextFileOrDir (js "type"))
      if segments.length = 1 then pure id
      else if type = some (.str FileType.fileptr.text) then
        fail (lookupFailed filePath dirText
          (messageText (segments.head?.getD (js "undefined")) ++ " is not a directory"))
      else getFileIdByPathFuel fuel id (Path.join segments.tail)

/-- `getFileIdByPath`: the path gets shorter with every listing, from the second one on. -/
def getFileIdByPath (dirId : Option JsString) (filePath : JsString) : Handler (Option Json) :=
  getFileIdByPathFuel env ((Storage.segments filePath).length + 2) (dirId.map .str) filePath

/-! ## Files and templates -/

/-- The content type of an extension, with that of HTML for templates. -/
def getContentTypeFromExt (ext : JsString) : Option JsString :=
  let ext := if ext = js "zhtml" then js "html" else ext
  env.lookup (dot :: ext)

/-- `((ext) ? getContentTypeFromExt(ext) : false) || 'application/octet-stream'` -/
def staticContentType (ext : Option JsString) : JsString :=
  let found := ext.bind fun ext => if ext = [] then none else getContentTypeFromExt env ext
  match found with
  | some type => if type = [] then js "application/octet-stream" else type
  | none => js "application/octet-stream"

/-- The content type of a rendered template. -/
def templateContentType (ext : Option JsString) : JsString :=
  if ext = some (js "css") then js "text/css"
  else if ext = some (js "js") then js "text/javascript"
  else js "text/html"

/-- The header of a content type. -/
def contentType (value : JsString) : Header := (js "Content-Type", value)

/-- `remoteRootDirId?.startsWith('ipfs://')` -/
def ipfsRoot (cfg : RequestFulfillmentConfig) : Option JsString :=
  cfg.remoteRootDirId.filter NameService.ipfs.isPrefixOf

/-- `if (!fileId) throw new HttpNotFoundError(message)` -/
def foundId (message : String) (fileId : Option Json) : Handler JsString :=
  if truthy fileId then ofExcept (idText fileId) else fail (notFound message)

/-- `file` of `tryFulfillStaticRequest`. -/
def readStatic (req : Request) (cfg : RequestFulfillmentConfig) (urlPath : JsString) :
    Handler Answer :=
  if cfg.isLocal then
    match given cfg.localRootDirPath with
    | none => fail (.thrown (.error "localRootDirPath cannot be empty"))
    | some localRootDirPath =>
      let filePath := Path.join [localRootDirPath, urlPath]
      if !env.exist filePath then fail (notFound "Not Found")
      else if !env.isFile filePath then fail (.forbidden "Directory listing not allowed")
      else do
        let fullPath ← ofExcept
          ((getFullPathFromLocalRoot env.exist localRootDirPath urlPath).mapError .thrown)
        pure (.local fullPath)
  else
    match ipfsRoot cfg with
    | some root => do
      let file ← ofExcept (env.getIPFSFileAsStream (root ++ urlPath))
      pure (.ipfs file)
    | none => do
      let found ← getFileIdByPath env cfg.remoteRootDirId urlPath
      let fileId ← foundId "File not found by this path" found
      let file ← getFileAsReadStream env fileId req.range
      pure (.stored file)

/-- Answers with the file at the path. -/
def tryFulfillStaticRequest (req : Request) (cfg : RequestFulfillmentConfig) (urlPath : JsString) :
    Handler Answer := do
  let file ← readStatic env req cfg urlPath
  tell (contentType (staticContentType env req.ext))
  pure file

/-- `templateId` and `templateFileContents`. -/
def readTemplate (cfg : RequestFulfillmentConfig) (templateFilename : JsString) :
    Handler (Option JsString × JsString) :=
  if cfg.isLocal then
    match given cfg.localRootDirPath with
    | none => fail (.thrown (.error "localRootDirPath cannot be empty"))
    | some localRootDirPath => do
      let fullPath ← ofExcept
        ((getFullPathFromLocalRoot env.exist localRootDirPath templateFilename).mapError .thrown)
      let contents ← ofExcept (env.readFile fullPath)
      pure (some templateFilename, bufferToString contents)
  else
    match ipfsRoot cfg with
    | some root => do
      let contents ← ofExcept
        (env.getIPFSFileAsStream (root ++ [Path.slash] ++ templateFilename))
      pure (none, bufferToString contents)
    | none => do
      let found ← getFileIdByPath env cfg.remoteRootDirId templateFilename
      let templateId ← foundId ("Cannot getFileIdByPath: " ++ messageText templateFilename) found
      let contents ← getFile env templateId
      pure (some templateId, bufferToString contents)

/-- Answers with the rendered template. -/
def tryFulfillZhtmlRequest (req : Request) (cfg : RequestFulfillmentConfig)
    (templateFilename : JsString) (routeParams : Option Params) (host : JsString) :
    Handler Answer := do
  let template ← readTemplate env cfg templateFilename
  let page ← env.render cfg template.1 template.2 host (req.params routeParams)
  tell (contentType (templateContentType req.ext))
  pure (.rendered page)

/-- What makes `fulfillRequest` try the template. -/
def Failure.isHttp : Failure → Bool
  | .thrown (.httpNotFound _) => true
  | .forbidden _ => true
  | _ => false

/-- A static file comes first, then the template of the route. -/
def fulfillRequest (req : Request) (cfg : RequestFulfillmentConfig) : Handler Answer := do
  let host := (given cfg.rewriteHost).getD req.host
  let matched ← ofExcept (matchRoutes env.pathMatch cfg.routes cfg.path)
  match ← attempt (tryFulfillStaticRequest env req cfg matched.possiblyRewrittenUrlPath) with
  | .ok file => pure file
  | .error e =>
    match given matched.templateFilename with
    | some templateFilename =>
      if e.isHttp then tryFulfillZhtmlRequest env req cfg templateFilename matched.routeParams host
      else fail e
    | none => fail e

/-! ## Sites -/

/-- `getJSON` of routes that are no value that counts as false. -/
def getRoutes (routesId : JsString) : Handler Json := do
  let routes ← getJSON env (some (.str routesId))
  if truthy (some routes) then pure routes
  else fail (notFound ("Cannot parse json of zrouteId " ++ messageText routesId))

/-- The answer of the chain, if it counts as true. -/
def ofChain (message : String) (found : Except Failure (Option JsString)) : Handler JsString := do
  match given (← ofExcept found) with
  | some id => pure id
  | none => fail (notFound message)

/-- The message for a domain without routes. -/
def noRouteFile : String := "Domain not found (Route file not specified for this domain)"

/-- The message for a host without root directory. -/
def noRootDir (host : JsString) : String := "Root dir id not found for host " ++ messageText host

/-! ## Local sites -/

/-- `fs.promises.readFile` and `JSON.parse` -/
def readJSON (path : JsString) : Handler Json := do
  let file ← ofExcept (env.readFile path)
  match Json.decode file with
  | some value => pure value
  | none => fail (.thrown .syntaxError)

/-- `rootDirPath`. A root directory that is no text fails when the public path is put together; an
own property `hasOwnProperty` hides the method. -/
def rootDirPath : Json → Except Failure JsString
  | .null => .error (.thrown .typeError)
  | .obj deployConfig =>
    if (deployConfig.lookup (js "hasOwnProperty")).isSome then .error (.thrown .typeError)
    else
      match deployConfig.lookup (js "rootDir") with
      | none => .ok (js "public")
      | some (.str rootDir) => .ok (if rootDir = [] then js "public" else rootDir)
      | some _ => .error (.thrown .typeError)
  | _ => .ok (js "public")

/-- `zappName`: what stands before the first `dev`, if the host ends in `dev`. -/
def zappName (host : JsString) : JsString :=
  if (js "dev").isSuffixOf host then ((splitFirst (js "dev") host).elim host (·.1)) ++ js ".point"
  else host

/-- `zappDir` -/
def zappDir (host : JsString) : JsString :=
  let up := js "../../../../"
  if env.zappsdir = [] then
    Path.resolve env.cwd [env.dirname, up ++ js "example/" ++ zappName host]
  else if (js "/").isPrefixOf env.zappsdir || (js "~").isPrefixOf env.zappsdir then
    Path.resolve env.cwd [env.zappsdir, zappName host]
  else
    Path.resolve env.cwd [env.dirname, up ++ env.zappsdir ++ js "/" ++ zappName host]

/-- The branch of `getHttpRequestHandler` for sites that lie on the disk of the node. -/
def fulfillLocalRequest (req : Request) : Handler Answer := do
  let routesId ← ofExcept (env.getZRecord req.host req.version)
  if given routesId = none ∧ ¬ (js ".local").isSuffixOf req.host then fail (notFound noRouteFile)
  else
    let zappDir := zappDir env req.host
    let deployConfig ← readJSON env (Path.resolve env.cwd [zappDir, js "point.deploy.json"])
    let rootDirPath ← ofExcept (rootDirPath deployConfig)
    let publicPath := Path.resolve env.cwd [zappDir, rootDirPath]
    let routesJsonPath := Path.resolve env.cwd [zappDir, js "routes.json"]
    if !env.exist publicPath then
      fail (.thrown (.error ("Public path " ++ messageText publicPath ++ " doesn't exist")))
    else if !env.exist routesJsonPath then
      fail (.thrown (.error ("Routes file " ++ messageText routesJsonPath ++ " doesn't exist")))
    else do
      let routes ← readJSON env routesJsonPath
      fulfillRequest env req
        { isLocal := true, routes, path := req.urlPath, localRootDirPath := some publicPath }

/-- The host is served from the disk: it is local, or a `.point` domain under development. -/
def servedLocally (host : JsString) : Bool :=
  (js ".local").isSuffixOf host || (env.mode = js "zappdev" && (js ".point").isSuffixOf host)

/-! ## Sites in the storage -/

/-- The branch of `getHttpRequestHandler` for `.point` domains. -/
def fulfillPointRequest (req : Request) : Handler Answer := do
  let zrouteId ← ofChain noRouteFile (env.getZRecord req.host req.version)
  let routes ← getRoutes env zrouteId
  let rootDirId ← ofChain (noRootDir req.host)
    (env.getKeyValue req.host (js "::rootDir") req.version true)
  fulfillRequest env req
    { isLocal := false, routes, path := req.urlPath, remoteRootDirId := some rootDirId }

/-- The files that a domain points to, and its identity. -/
structure DomainInfoPointers where
  routesId : JsString
  rootDirId : JsString
  identity : JsString
  deriving DecidableEq

/-- The pointers of a domain whose record is an alias, from the chain. -/
def queryAlias (identity version : JsString) : Handler DomainInfoPointers := do
  let routesId ← ofChain noRouteFile (env.getZRecord identity version)
  let rootDirId ← ofChain (noRootDir identity)
    (env.getKeyValue identity (js "::rootDir") version false)
  pure ⟨routesId, rootDirId, identity⟩

/-- The pointers of a .sol or .eth domain. -/
def queryExtDomain (host version : JsString) : Handler DomainInfoPointers := do
  let registry ← ofExcept (env.resolve host)
  let domainData := parseDomainRegistry env.addresses registry
  let identity := if domainData.identity = [] then host else domainData.identity ++ js ".point"
  let info := Json.obj [(js "host", .str host), (js "identity", .str identity),
    (js "routesId", .str domainData.routesId), (js "rootDirId", .str domainData.rootDirId),
    (js "isAlias", .bool domainData.isAlias)]
  if trim (registry.content.getD []) = [] then
    fail (notFound ("No Point data found in the domain registry for \"" ++ messageText host ++
      "\"."))
  else if domainData.isAlias then queryAlias env identity version
  else if domainData.routesId = [] ∨ domainData.rootDirId = [] then
    fail (notFound ("Missing Point information in \"" ++ messageText host ++
      "\" domain registry. : " ++ messageText info.stringify))
  else pure ⟨domainData.routesId, domainData.rootDirId, identity⟩

/-- `rootDirId?.replace(/\/$/, '')` -/
def stripSlash (rootDirId : JsString) : JsString :=
  if rootDirId.getLast? = some Path.slash then rootDirId.dropLast else rootDirId

/-- The routes of a site on IPFS, or those of the record. -/
def getExtRoutes (routesId : JsString) : Handler Json :=
  if routesId = js "ipfs://ignore" then pure (.obj [(js "/", .str (js "index.html"))])
  else getRoutes env routesId

/-- The branch of `getHttpRequestHandler` for `.sol` and `.eth` domains. -/
def fulfillExtRequest (req : Request) : Handler Answer := do
  let pointers ← queryExtDomain env req.host req.version
  let routes ← getExtRoutes env pointers.routesId
  fulfillRequest env req
    { isLocal := false, routes, path := req.urlPath,
      remoteRootDirId := some (stripSlash pointers.rootDirId),
      rewriteHost := some pointers.identity }

/-- `getHttpRequestHandler`, up to the answer to an error. -/
def getHttpRequestHandler (req : Request) : Handler Answer :=
  if req.host = [] then fail (.thrown (.error "Host cannot be empty"))
  else if (js ".z").isSuffixOf req.host then do
    let location := js "https://" ++ replace (js ".z") (js ".point") req.host
    tell (js "Location", location)
    pure (.redirect location)
  else if req.host = js "point" then env.elsewhere req
  else if servedLocally env req.host then fulfillLocalRequest env req
  else if (js ".point").isSuffixOf req.host then fulfillPointRequest env req
  else if (js ".sol").isSuffixOf req.host ∨ (js ".eth").isSuffixOf req.host then
    fulfillExtRequest env req
  else env.elsewhere req

end PointNetwork.Proxy
