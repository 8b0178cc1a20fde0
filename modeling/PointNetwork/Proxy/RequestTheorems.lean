import PointNetwork.NameService.RegistryTheorems
import PointNetwork.Proxy.RequestReads

/-!
# What a site answers

If the files and the listings of a site can be downloaded, a request to it is answered as the
uploaded tree says: with the file that is there, with the text of the listing of the directory that
is there, with the template of the route, or with a not-found error. A file is served with the type
of the path that was requested, also where a route has rewritten it.

* `Site.gives_fulfillRequest`: requests to the root of a site;
* `site_answers`: requests to a `.point` domain;
* `ext_site_answers`: requests to a domain of another name service.
-/

namespace PointNetwork.Proxy

open Js Storage Logged Machine

variable {env : Env} {content : JsString → Bytes} {req : Request}

/-! ## Sites -/

/-- A site: its root directory, the order in which the uploads of the entries of each directory got
done, and its routes. -/
structure Site where
  entries : List (JsString × Tree)
  σ : Schedule
  routes : Params
  distinct : (Tree.dir entries).NamesDistinct
  ordered : orderedKeys routes = true

namespace Site

variable (site : Site) (H : HashFn) (C : ℕ)

/-- The routes as they are uploaded. -/
def routesJson : Json := .obj (site.routes.map fun route => (route.1, .str route.2))

/-- The id of the routes. -/
def routesId : JsString := fileId H C site.routesJson.encode

/-- The id of the root directory. -/
def rootDirId : JsString := (uploadDir H C site.σ [] site.entries).1

/-- The listing of the directory at a path. -/
def listing (names : List JsString) (entries : List (JsString × Tree)) : DirInfo :=
  ⟨site.σ.pushed names (uploadEntries H C site.σ names entries).1⟩

/-- The bytes behind an entry: a file itself, or the text of a listing. -/
def bytesAt (names : List JsString) : Tree → Bytes
  | .file contents => contents
  | .dir entries => (site.listing H C names entries).toJson.encode

/-- What there is at a path. -/
def resource (filePath : JsString) : Option Bytes :=
  (findEntry site.entries (Storage.segments filePath)).map
    (site.bytesAt H C (Storage.segments filePath))

/-- All that was uploaded can be downloaded. -/
structure Available (getChunkBinary : JsString → Except Exception Bytes) : Prop where
  files : ∀ names contents, findEntry site.entries names = some (.file contents) →
    Stored H C getChunkBinary contents
  listings : ∀ info ∈ (uploadDir H C site.σ [] site.entries).2,
    Stored H C getChunkBinary info.toJson.encode
  routes : Stored H C getChunkBinary site.routesJson.encode

variable {site H C}

/-- The bytes behind an entry are stored under the id of the entry. -/
lemma fileId_bytesAt (names : List JsString) (t : Tree) :
    fileId H C (site.bytesAt H C names t) = treeId H C site.σ names t := by
  cases t <;> rfl

/-- The listing of every directory below a directory is uploaded with it. -/
lemma listing_mem {path names : List JsString} {entries entries' : List (JsString × Tree)}
    (h : findEntry entries names = some (.dir entries')) :
    site.listing H C (path ++ names) entries' ∈ (uploadDir H C site.σ path entries).2 := by
  induction names generalizing path entries with
  | nil => cases entries <;> cases h
  | cons name names ih =>
    refine List.mem_cons_of_mem _ ?_
    cases names with
    | nil =>
      have hlookup : entries.lookup name = some (.dir entries') := h
      exact uploadEntries_listings (Js.mem_of_lookup hlookup) _ List.mem_cons_self
    | cons name' names =>
      unfold findEntry at h
      split at h
      · rename_i entries'' hlookup
        have hrest : site.listing H C ((path ++ [name]) ++ (name' :: names)) entries' ∈
            (uploadDir H C site.σ (path ++ [name]) entries'').2 := ih h
        rw [List.append_assoc] at hrest
        exact uploadEntries_listings (Js.mem_of_lookup hlookup) _ hrest
      · cases h

/-- Whatever entry a path leads to can be downloaded. -/
lemma Available.stored {getChunkBinary : JsString → Except Exception Bytes}
    (h : site.Available H C getChunkBinary) {names : List JsString} {t : Tree}
    (hfound : findEntry site.entries names = some t) :
    Stored H C getChunkBinary (site.bytesAt H C names t) := by
  cases t with
  | file contents => exact h.files names contents hfound
  | dir entries =>
    have hmem : site.listing H C ([] ++ names) entries ∈ (uploadDir H C site.σ [] site.entries).2 :=
      listing_mem hfound
    exact h.listings _ hmem

/-- Listings that can be downloaded are told apart by their ids. -/
lemma Available.listed {getChunkBinary : JsString → Except Exception Bytes}
    (h : site.Available H C getChunkBinary) (hC : 0 < C) {info : DirInfo}
    (hinfo : info ∈ (uploadDir H C site.σ [] site.entries).2) :
    listed H C (uploadDir H C site.σ [] site.entries).2 (dirId H C info) = .ok info := by
  unfold Storage.listed
  cases hfind : (uploadDir H C site.σ [] site.entries).2.find?
      fun info' => dirId H C info' = dirId H C info with
  | none => simpa using List.find?_eq_none.mp hfind info hinfo
  | some info' =>
    have hid : dirId H C info' = dirId H C info := by
      simpa using List.find?_some hfind
    have hencode := (h.listings _ (List.mem_of_find?_eq_some hfind)).unique (h.listings _ hinfo) hC
      hid
    have hdecode := decode_encode info'.canonical_toJson
    rw [hencode, decode_encode info.canonical_toJson, Option.some_inj] at hdecode
    rw [DirInfo.toJson_injective hdecode]

/-- Without a name in it, a path leads nowhere. -/
lemma resolved_nil {listing : JsString → Except Exception DirInfo} {dirId filePath : JsString}
    {info : DirInfo} (hget : listing dirId = .ok info) (hnames : Storage.segments filePath = []) :
    Resolved (Storage.getFileIdByPath listing dirId filePath) none := by
  unfold Storage.getFileIdByPath Storage.getFileIdByPathFuel
  rw [hget, ok_bind, hnames]
  exact ⟨_, rfl⟩

/-- The lookup of a path on the listings of the site. -/
lemma Available.resolved {getChunkBinary : JsString → Except Exception Bytes}
    (h : site.Available H C getChunkBinary) (hC : 0 < C) {filePath : JsString}
    (hplain : ∀ name ∈ Storage.segments filePath, Path.Plain name) :
    Resolved (Storage.getFileIdByPath (Storage.listed H C (uploadDir H C site.σ [] site.entries).2)
      (site.rootDirId H C) filePath) ((site.resource H C filePath).map (fileId H C)) := by
  have hids : (site.resource H C filePath).map (fileId H C) =
      (findEntry site.entries (Storage.segments filePath)).map
        (treeId H C site.σ (Storage.segments filePath)) := by
    unfold resource
    rw [Option.map_map]
    exact congrFun (congrArg _ (funext (fileId_bytesAt _))) _
  rw [hids]
  have hget : ∀ info ∈ (uploadDir H C site.σ [] site.entries).2,
      Storage.listed H C (uploadDir H C site.σ [] site.entries).2 (dirId H C info) = .ok info :=
    fun info hinfo => h.listed hC hinfo
  by_cases hne : Storage.segments filePath = []
  · have hnone : findEntry site.entries [] = none := by
      cases site.entries <;> rfl
    rw [hne, hnone]
    exact resolved_nil (hget _ List.mem_cons_self) hne
  · exact getFileIdByPathFuel_uploadDir site.distinct hget rfl hne hplain (Nat.lt_succ_self _)

end Site

/-- What a search comes to: a value for the bytes that are there, or a not-found error. -/
def Finds {α : Type} (P : Bytes → α → Prop) (result : Except Failure α) : Option Bytes → Prop
  | some buf => ∃ a, result = .ok a ∧ P buf a
  | none => ∃ message, result = .error (notFound message)

/-- A search goes on with what it has found. -/
lemma finds_bind {α β : Type} {inv : Storage.Node → Prop} {m : Handler α} {f : α → Handler β}
    {P : Bytes → α → Prop} {Q : Bytes → β → Prop} {contents : Option Bytes}
    (hm : Gives inv m fun r w => Finds P r contents ∧ w = [])
    (hf : ∀ buf a, contents = some buf → P buf a →
      Gives inv (f a) fun r w => Finds Q r (some buf) ∧ w = []) :
    Gives inv (m >>= f) fun r w => Finds Q r contents ∧ w = [] := by
  cases contents with
  | none =>
    refine hm.bind ?_ ?_
    · rintro a w ⟨⟨message, hmessage⟩, -⟩
      cases hmessage
    · rintro e w ⟨⟨message, hmessage⟩, rfl⟩
      cases hmessage
      exact ⟨⟨message, rfl⟩, rfl⟩
  | some buf =>
    refine hm.bind ?_ ?_
    · rintro a w ⟨⟨a', ha, hP⟩, rfl⟩
      cases ha
      exact hf buf a rfl hP
    · rintro e w ⟨⟨a, ha, -⟩, -⟩
      cases ha

lemma known_of_resolved {result : Except Exception JsString} {id : Option JsString}
    (h : Resolved result id) : Known result := by
  intro e he
  cases id with
  | some id =>
    rw [he] at h
    cases h
  | none =>
    obtain ⟨message, hmessage⟩ := h
    rw [he] at hmessage
    cases hmessage
    exact ⟨message, rfl⟩

/-- What a path resolves to is found. -/
lemma finds_of_resolved {H : HashFn} {C : ℕ} {result : Except Exception JsString}
    {contents : Option Bytes} (h : Resolved result (contents.map (fileId H C))) :
    Finds (fun buf found => found = some (.str (fileId H C buf))) (asFound result) contents := by
  cases contents with
  | some buf =>
    have hresult : result = .ok (fileId H C buf) := h
    rw [hresult]
    exact ⟨_, rfl, rfl⟩
  | none =>
    obtain ⟨message, hmessage⟩ := h
    rw [hmessage]
    exact ⟨message, rfl⟩

/-- A lookup under the root of a site. -/
theorem Site.gives_getFileIdByPath {site : Site} (henv : env.Honest content)
    (hC : 0 < env.CHUNK_SIZE)
    (havailable : site.Available env.H env.CHUNK_SIZE env.getChunkBinary) {filePath : JsString}
    (hplain : ∀ name ∈ Storage.segments filePath, Path.Plain name) :
    Gives (Inv env content)
      (getFileIdByPath env (some (site.rootDirId env.H env.CHUNK_SIZE)) filePath) fun r w =>
        Finds (fun buf found => found = some (.str (fileId env.H env.CHUNK_SIZE buf))) r
          (site.resource env.H env.CHUNK_SIZE filePath) ∧ w = [] := by
  have hresolved := havailable.resolved hC hplain
  refine (gives_getFileIdByPathFuel _ ?_ ?_ (Nat.le_succ _) (known_of_resolved hresolved)).mono ?_
  · intro id e he
    unfold Storage.listed at he
    split at he
    · cases he
    · cases he
      rintro ⟨message, hmessage⟩
      cases hmessage
  · intro id info hinfo
    unfold Storage.listed at hinfo
    split at hinfo
    · rename_i info' hfind
      cases hinfo
      have hid : dirId env.H env.CHUNK_SIZE info = id := by
        simpa using List.find?_some hfind
      rw [← hid]
      exact gives_getJSON henv hC info.canonical_toJson
        (havailable.listings _ (List.mem_of_find?_eq_some hfind))
    · cases hinfo
  · rintro r w ⟨hr, rfl⟩
    rw [hr]
    exact ⟨finds_of_resolved hresolved, rfl⟩

/-! ## Answers -/

/-- Routes that were uploaded are matched as the routes themselves. -/
lemma matchRoutes_routesJson (pathMatch : Match) (site : Site) (path : JsString) :
    matchRoutes pathMatch site.routesJson path =
      .ok (matchRouteAndParams pathMatch site.routes path) := by
  unfold Site.routesJson
  induction site.routes with
  | nil => rfl
  | cons route routes ih =>
    cases hmatch : pathMatch route.1 path with
    | none =>
      have hfirst : firstMatch pathMatch path (route :: routes) = firstMatch pathMatch path routes := by
        simp [firstMatch, hmatch]
      unfold matchRouteAndParams at ih ⊢
      rw [hfirst, ← ih]
      simp [matchRoutes, forIn, hmatch]
    | some params =>
      have hfirst : firstMatch pathMatch path (route :: routes) =
          firstMatch pathMatch path [route] := by
        simp [firstMatch, hmatch]
      unfold matchRouteAndParams
      rw [hfirst]
      simp [matchRoutes, forIn, hmatch, matchRouteAndParams]

/-- An id is a text of hexadecimal digits. -/
lemma fileId_digits (H : HashFn) (C : ℕ) (buf : Bytes) :
    (fileId H C buf).length = 64 ∧ (fileId H C buf).all isHexDigit = true := by
  obtain ⟨b, hb⟩ := exists_fileChunks_eq H C buf
  have hid : fileId H C buf = H.id b := hb
  rw [hid]
  exact ⟨H.length_id b, all_isHexDigit_toHex _⟩

lemma fileId_ne_nil (H : HashFn) (C : ℕ) (buf : Bytes) : fileId H C buf ≠ [] := by
  have hlength := (fileId_digits H C buf).1
  intro hnil
  rw [hnil] at hlength
  cases hlength

/-- No id begins like an address of IPFS. -/
lemma ipfs_prefix_fileId (H : HashFn) (C : ℕ) (buf : Bytes) :
    NameService.ipfs.isPrefixOf (fileId H C buf) = false := by
  have hdigits := (fileId_digits H C buf).2
  generalize fileId H C buf = id at hdigits ⊢
  cases id with
  | nil => rfl
  | cons u rest =>
    have hu : isHexDigit u = true := by
      simp only [List.all_cons, Bool.and_eq_true] at hdigits
      exact hdigits.1
    have hi : (0x69 : UInt16) ≠ u := by
      rintro rfl
      exact absurd hu (by decide)
    have hipfs : NameService.ipfs = 0x69 :: js "pfs://" := by decide
    rw [hipfs, List.isPrefixOf_cons_cons, beq_false_of_ne hi]
    rfl

/-- An id that is found is returned. -/
lemma gives_foundId {inv : Storage.Node → Prop} (message : String) {id : JsString} (hid : id ≠ []) :
    Gives inv (foundId message (some (.str id))) fun r w => r = .ok id ∧ w = [] := by
  have htruthy : Deployer.truthy (some (.str id)) = true := by simpa [Deployer.truthy] using hid
  unfold foundId
  rw [if_pos htruthy]
  exact .ofExcept ⟨rfl, rfl⟩

section Answers

variable (site : Site) (env) (content) (req) (cfg : RequestFulfillmentConfig)

/-- The routes of the site at work. -/
def Site.matched : MatchedRoute := matchRouteAndParams env.pathMatch site.routes cfg.path

/-- The host that templates get. -/
def hostOf : JsString := (given cfg.rewriteHost).getD req.host

/-- A page gets a content type. -/
def pageHeaders : Except Failure JsString → List Header
  | .ok _ => [contentType (templateContentType req.ext)]
  | .error _ => []

/-- The answers that the uploaded tree allows: what is there at the path, else what the engine makes
of the template, else a not-found error. -/
inductive Site.Answers : Except Failure Answer → List Header → Prop
  | resource {buf : Bytes} {file : ReadStream}
      (hfound : site.resource env.H env.CHUNK_SIZE
        (site.matched env cfg).possiblyRewrittenUrlPath = some buf)
      (hdelivers : Delivers env.CHUNK_SIZE env.getChunkBinary buf file) :
      Answers (.ok (.stored file)) [contentType (staticContentType env req.ext)]
  | template {templateFilename : JsString} {text : Bytes} {node node' : Storage.Node}
      {page : Except Failure JsString} {headers : List Header}
      (hnone : site.resource env.H env.CHUNK_SIZE
        (site.matched env cfg).possiblyRewrittenUrlPath = none)
      (htemplate : given (site.matched env cfg).templateFilename = some templateFilename)
      (hfound : site.resource env.H env.CHUNK_SIZE templateFilename = some text)
      (hnode : Inv env content node)
      (hrender : env.render cfg (some (fileId env.H env.CHUNK_SIZE text)) (bufferToString text)
        (hostOf req cfg) (req.params (site.matched env cfg).routeParams) node =
          (page, headers, node')) :
      Answers (page.map .rendered) (headers ++ pageHeaders req page)
  | missing {message : String}
      (hnone : site.resource env.H env.CHUNK_SIZE
        (site.matched env cfg).possiblyRewrittenUrlPath = none)
      (htemplate : ∀ templateFilename,
        given (site.matched env cfg).templateFilename = some templateFilename →
          site.resource env.H env.CHUNK_SIZE templateFilename = none) :
      Answers (.error (notFound message)) []

/-- The paths of a request lead through plain names. -/
structure Site.PlainPaths : Prop where
  path : ∀ name ∈ Storage.segments (site.matched env cfg).possiblyRewrittenUrlPath, Path.Plain name
  template : ∀ templateFilename,
    given (site.matched env cfg).templateFilename = some templateFilename →
      ∀ name ∈ Storage.segments templateFilename, Path.Plain name

/-- The configuration is one for the site. -/
structure Site.Serves : Prop where
  isLocal : cfg.isLocal = false
  routes : cfg.routes = site.routesJson
  root : cfg.remoteRootDirId = some (site.rootDirId env.H env.CHUNK_SIZE)

end Answers

section Serving

variable {site : Site} {cfg : RequestFulfillmentConfig} (henv : env.Honest content)
  (hC : 0 < env.CHUNK_SIZE) (havailable : site.Available env.H env.CHUNK_SIZE env.getChunkBinary)
  (hserves : site.Serves env cfg)

include henv hC havailable hserves

omit henv hC havailable in
lemma ipfsRoot_of_serves : ipfsRoot cfg = none := by
  have hroot : NameService.ipfs.isPrefixOf (site.rootDirId env.H env.CHUNK_SIZE) = false :=
    ipfs_prefix_fileId env.H env.CHUNK_SIZE _
  rw [ipfsRoot, hserves.root, Option.filter_some, hroot]
  rfl

/-- The lookup of a path and the check of what it found. -/
lemma gives_lookup (message : String) {filePath : JsString}
    (hplain : ∀ name ∈ Storage.segments filePath, Path.Plain name) :
    Gives (Inv env content)
      (getFileIdByPath env cfg.remoteRootDirId filePath >>= foundId message) fun r w =>
        Finds (fun buf id => id = fileId env.H env.CHUNK_SIZE buf) r
          (site.resource env.H env.CHUNK_SIZE filePath) ∧ w = [] := by
  rw [hserves.root]
  refine finds_bind (site.gives_getFileIdByPath henv hC havailable hplain) ?_
  rintro buf found - rfl
  refine (gives_foundId message (fileId_ne_nil _ _ _)).mono ?_
  rintro r w ⟨rfl, rfl⟩
  exact ⟨⟨_, rfl, rfl⟩, rfl⟩

omit henv hC hserves in
/-- The resources of a site are stored. -/
lemma stored_of_resource {filePath : JsString} {buf : Bytes}
    (h : site.resource env.H env.CHUNK_SIZE filePath = some buf) :
    Stored env.H env.CHUNK_SIZE env.getChunkBinary buf := by
  obtain ⟨t, ht, rfl⟩ := Option.map_eq_some_iff.mp h
  exact havailable.stored ht

/-- A static file is the one at the path of the site. -/
lemma gives_readStatic (hrange : req.range = none) {urlPath : JsString}
    (hplain : ∀ name ∈ Storage.segments urlPath, Path.Plain name) :
    Gives (Inv env content) (readStatic env req cfg urlPath) fun r w =>
      Finds (fun buf answer => ∃ file, answer = .stored file ∧
          Delivers env.CHUNK_SIZE env.getChunkBinary buf file) r
        (site.resource env.H env.CHUNK_SIZE urlPath) ∧ w = [] := by
  unfold readStatic
  simp only [hserves.isLocal, Bool.false_eq_true, if_false, ipfsRoot_of_serves hserves]
  rw [← bind_assoc]
  refine finds_bind (gives_lookup henv hC havailable hserves _ hplain) ?_
  rintro buf id hresource rfl
  rw [hrange]
  refine ((stored_of_resource havailable hresource).gives_stream hC).bind ?_ ?_
  · rintro file w ⟨⟨file', hfile, hdelivers⟩, rfl⟩
    cases hfile
    exact .pure ⟨⟨_, rfl, file, rfl, hdelivers⟩, rfl⟩
  · rintro e w ⟨⟨file', hfile, -⟩, -⟩
    cases hfile

/-- A template is the one at the path of the site. -/
lemma gives_readTemplate {templateFilename : JsString}
    (hplain : ∀ name ∈ Storage.segments templateFilename, Path.Plain name) :
    Gives (Inv env content) (readTemplate env cfg templateFilename) fun r w =>
      Finds (fun buf template => template = (some (fileId env.H env.CHUNK_SIZE buf),
        bufferToString buf)) r (site.resource env.H env.CHUNK_SIZE templateFilename) ∧ w = [] := by
  unfold readTemplate
  simp only [hserves.isLocal, Bool.false_eq_true, if_false, ipfsRoot_of_serves hserves]
  rw [← bind_assoc]
  refine finds_bind (gives_lookup henv hC havailable hserves _ hplain) ?_
  rintro buf id hresource rfl
  refine Gives.bind_ok ((stored_of_resource havailable hresource).gives_file henv hC) ?_
  exact .pure ⟨⟨_, rfl, rfl⟩, rfl⟩

/-- A static answer has its header, a failure none. -/
lemma gives_tryFulfillStaticRequest (hrange : req.range = none) {urlPath : JsString}
    (hplain : ∀ name ∈ Storage.segments urlPath, Path.Plain name) :
    Gives (Inv env content) (tryFulfillStaticRequest env req cfg urlPath) fun r w =>
      (∃ buf file, site.resource env.H env.CHUNK_SIZE urlPath = some buf ∧
        Delivers env.CHUNK_SIZE env.getChunkBinary buf file ∧
        r = .ok (.stored file) ∧ w = [contentType (staticContentType env req.ext)]) ∨
      (site.resource env.H env.CHUNK_SIZE urlPath = none ∧
        ∃ message, r = .error (notFound message) ∧ w = []) := by
  refine (gives_readStatic henv hC havailable hserves hrange hplain).bind ?_ ?_
  · rintro answer w ⟨hfinds, rfl⟩
    cases hresource : site.resource env.H env.CHUNK_SIZE urlPath with
    | none =>
      rw [hresource] at hfinds
      obtain ⟨message, hmessage⟩ := hfinds
      cases hmessage
    | some buf =>
      rw [hresource] at hfinds
      obtain ⟨answer', ha, file, rfl, hdelivers⟩ := hfinds
      cases ha
      refine Gives.bind (Q := fun r w => r = .ok () ∧
        w = [contentType (staticContentType env req.ext)]) (.tell ⟨rfl, rfl⟩) ?_ ?_
      · rintro _ w ⟨-, rfl⟩
        exact .pure (.inl ⟨buf, file, rfl, hdelivers, rfl, rfl⟩)
      · rintro e w ⟨he, -⟩
        cases he
  · rintro e w ⟨hfinds, rfl⟩
    cases hresource : site.resource env.H env.CHUNK_SIZE urlPath with
    | none =>
      rw [hresource] at hfinds
      obtain ⟨message, hmessage⟩ := hfinds
      cases hmessage
      exact .inr ⟨rfl, message, rfl, rfl⟩
    | some buf =>
      rw [hresource] at hfinds
      obtain ⟨answer, ha, -⟩ := hfinds
      cases ha

omit hC havailable hserves in
/-- What the engine makes of a template is the answer, whatever it does. -/
lemma gives_page {templateFilename : JsString} {text : Bytes}
    (hnone : site.resource env.H env.CHUNK_SIZE
      (site.matched env cfg).possiblyRewrittenUrlPath = none)
    (htemplate : given (site.matched env cfg).templateFilename = some templateFilename)
    (hfound : site.resource env.H env.CHUNK_SIZE templateFilename = some text) :
    Gives (Inv env content)
      (env.render cfg (some (fileId env.H env.CHUNK_SIZE text)) (bufferToString text)
        (hostOf req cfg) (req.params (site.matched env cfg).routeParams) >>= fun page =>
          (tell (contentType (templateContentType req.ext)) >>= fun _ => pure (.rendered page)))
      (site.Answers env content req cfg) := by
  intro node hnode
  refine ⟨?_, (Keeps.bind (keeps_render henv _ _ _ _ _) fun page =>
    (Keeps.tell _).bind fun _ => .pure _) node hnode |>.2⟩
  rcases hrender : env.render cfg (some (fileId env.H env.CHUNK_SIZE text)) (bufferToString text)
    (hostOf req cfg) (req.params (site.matched env cfg).routeParams) node with
    ⟨e | page, headers, node'⟩
  · have hanswers := Site.Answers.template hnone htemplate hfound hnode hrender
    unfold log
    rw [bind_of_error hrender]
    rw [pageHeaders, List.append_nil] at hanswers
    exact hanswers
  · have hanswers := Site.Answers.template hnone htemplate hfound hnode hrender
    unfold log
    rw [bind_of_ok hrender]
    exact hanswers

/-- If nothing is there at the path, the template of the route answers, or it is missing too. -/
lemma gives_tryFulfillZhtmlRequest {templateFilename : JsString}
    (hnone : site.resource env.H env.CHUNK_SIZE
      (site.matched env cfg).possiblyRewrittenUrlPath = none)
    (htemplate : given (site.matched env cfg).templateFilename = some templateFilename)
    (hplain : ∀ name ∈ Storage.segments templateFilename, Path.Plain name) :
    Gives (Inv env content)
      (tryFulfillZhtmlRequest env req cfg templateFilename (site.matched env cfg).routeParams
        (hostOf req cfg)) (site.Answers env content req cfg) := by
  have hread := gives_readTemplate henv hC havailable hserves hplain
  cases hresource : site.resource env.H env.CHUNK_SIZE templateFilename with
  | none =>
    have hmissing : ∀ templateFilename', given (site.matched env cfg).templateFilename =
        some templateFilename' →
        site.resource env.H env.CHUNK_SIZE templateFilename' = none := by
      intro templateFilename' h
      rw [htemplate, Option.some_inj] at h
      rw [← h, hresource]
    refine hread.bind ?_ ?_
    · rintro template w ⟨hfinds, -⟩
      rw [hresource] at hfinds
      obtain ⟨message, hmessage⟩ := hfinds
      cases hmessage
    · rintro e w ⟨hfinds, rfl⟩
      rw [hresource] at hfinds
      obtain ⟨message, hmessage⟩ := hfinds
      cases hmessage
      exact .missing hnone hmissing
  | some text =>
    refine Gives.bind_ok (a := (some (fileId env.H env.CHUNK_SIZE text), bufferToString text))
      (hread.mono ?_) (gives_page henv hnone htemplate hresource)
    rintro r w ⟨hfinds, rfl⟩
    rw [hresource] at hfinds
    obtain ⟨template, hr, rfl⟩ := hfinds
    exact ⟨hr, rfl⟩

/-- A request to the root of a site is answered as the uploaded tree says. -/
theorem Site.gives_fulfillRequest (hrange : req.range = none) (hpaths : site.PlainPaths env cfg) :
    Gives (Inv env content) (fulfillRequest env req cfg) (site.Answers env content req cfg) := by
  unfold fulfillRequest
  dsimp only
  rw [hserves.routes, matchRoutes_routesJson]
  refine Gives.bind_ok (.ofExcept ⟨rfl, rfl⟩) ?_
  refine (Gives.attempt (gives_tryFulfillStaticRequest henv hC havailable hserves hrange
    hpaths.path)).bind ?_ ?_
  · rintro outcome w ⟨outcome', houtcome, hstatic⟩
    cases houtcome
    obtain ⟨buf, file, hfound, hdelivers, rfl, rfl⟩ | ⟨hnone, message, rfl, rfl⟩ := hstatic
    · exact .pure (.resource hfound hdelivers)
    · dsimp only
      cases htemplate : given (site.matched env cfg).templateFilename with
      | none =>
        have hmissing : ∀ templateFilename, given (site.matched env cfg).templateFilename =
            some templateFilename →
            site.resource env.H env.CHUNK_SIZE templateFilename = none := by
          intro templateFilename h
          rw [htemplate] at h
          cases h
        unfold Site.matched at htemplate
        rw [htemplate]
        exact .fail (.missing hnone hmissing)
      | some templateFilename =>
        have hgiven : given (matchRouteAndParams env.pathMatch site.routes cfg.path).templateFilename =
            some templateFilename := htemplate
        rw [hgiven]
        exact gives_tryFulfillZhtmlRequest henv hC havailable hserves hnone htemplate
          (hpaths.template templateFilename htemplate)
  · rintro e w ⟨outcome, houtcome, -⟩
    cases houtcome

end Serving

/-! ## Hosts -/

/-- A text that ends in one way does not end in another one. -/
lemma not_suffix {s ending : JsString} (other : JsString) (h : ending.isSuffixOf s = true)
    (h1 : other.isSuffixOf ending = false) (h2 : ending.isSuffixOf other = false) :
    other.isSuffixOf s = false := by
  rw [Bool.eq_false_iff]
  intro hother
  obtain hsuffix | hsuffix := List.suffix_or_suffix_of_suffix
    (List.isSuffixOf_iff_suffix.mp h) (List.isSuffixOf_iff_suffix.mp hother)
  · rw [List.isSuffixOf_iff_suffix.mpr hsuffix] at h2
    cases h2
  · rw [List.isSuffixOf_iff_suffix.mpr hsuffix] at h1
    cases h1

/-- The configuration of a request to a site that is not local. -/
def Site.config (site : Site) (env : Env) (req : Request) (rewriteHost : Option JsString) :
    RequestFulfillmentConfig where
  isLocal := false
  routes := site.routesJson
  path := req.urlPath
  remoteRootDirId := some (site.rootDirId env.H env.CHUNK_SIZE)
  rewriteHost

lemma Site.serves_config (site : Site) (rewriteHost : Option JsString) :
    site.Serves env (site.config env req rewriteHost) := ⟨rfl, rfl, rfl⟩

/-- An id that the chain gives is returned. -/
lemma gives_ofChain {inv : Storage.Node → Prop} (message : String) {found : Except Failure (Option JsString)}
    {id : JsString} (hfound : found = .ok (some id)) (hid : id ≠ []) :
    Gives inv (ofChain message found) fun r w => r = .ok id ∧ w = [] := by
  subst hfound
  refine Gives.bind_ok (.ofExcept ⟨rfl, rfl⟩) ?_
  cases id with
  | nil => exact absurd rfl hid
  | cons u rest => exact .pure ⟨rfl, rfl⟩

section Hosts

variable {site : Site} (henv : env.Honest content) (hC : 0 < env.CHUNK_SIZE)
  (havailable : site.Available env.H env.CHUNK_SIZE env.getChunkBinary)

include henv hC havailable

/-- The routes of the site are read back. -/
lemma gives_getRoutes :
    Gives (Inv env content) (getRoutes env (site.routesId env.H env.CHUNK_SIZE))
      fun r w => r = .ok site.routesJson ∧ w = [] := by
  have hcanonical : site.routesJson.canonical = true := by
    refine canonical_obj.mpr ⟨?_, ?_⟩
    · rw [← site.ordered]
      exact orderedKeys_congr (by simp)
    · intro kv hkv
      obtain ⟨route, -, rfl⟩ := List.mem_map.mp hkv
      rfl
  refine Gives.bind_ok (gives_getJSON henv hC hcanonical havailable.routes) ?_
  exact .pure ⟨rfl, rfl⟩

/-- The branch for `.point` domains. -/
lemma gives_fulfillPointRequest
    (hroutes : env.getZRecord req.host req.version =
      .ok (some (site.routesId env.H env.CHUNK_SIZE)))
    (hroot : env.getKeyValue req.host (js "::rootDir") req.version true =
      .ok (some (site.rootDirId env.H env.CHUNK_SIZE)))
    (hrange : req.range = none) (hpaths : site.PlainPaths env (site.config env req none)) :
    Gives (Inv env content) (fulfillPointRequest env req)
      (site.Answers env content req (site.config env req none)) := by
  refine Gives.bind_ok (gives_ofChain _ hroutes (fileId_ne_nil _ _ _)) ?_
  refine Gives.bind_ok (gives_getRoutes henv hC havailable) ?_
  refine Gives.bind_ok (gives_ofChain _ hroot (fileId_ne_nil _ _ _)) ?_
  exact site.gives_fulfillRequest henv hC havailable (site.serves_config none) hrange hpaths

omit henv hC havailable in
/-- A record that was merged and written is not blank. -/
lemma trim_encode_ne_nil {map : CookieString.Entries} (hmap : map ≠ []) :
    trim (CookieString.encodeCookieString map) ≠ [] := by
  intro htrim
  have hmem : CookieString.equalsSign ∈ CookieString.encodeCookieString map := by
    rw [CookieString.encodeCookieString_eq]
    cases map with
    | nil => exact absurd rfl hmap
    | cons entry map => cases map <;> simp [CookieString.pairText]
  exact absurd (isSpace_of_trim_eq_nil htrim hmem) (by decide)

/-- The data of a record leads to the site: by its ids, or by those of the identity on the chain. -/
def Site.PointedTo (site : Site) (env : Env) (version : JsString) : NameService.DomainData → Prop
  | .pnRoot routes root =>
    routes.1 = site.routesId env.H env.CHUNK_SIZE ∧ root.1 = site.rootDirId env.H env.CHUNK_SIZE
  | .pnAlias identity =>
    env.getZRecord (identity.1 ++ js ".point") version =
        .ok (some (site.routesId env.H env.CHUNK_SIZE)) ∧
      env.getKeyValue (identity.1 ++ js ".point") (js "::rootDir") version false =
        .ok (some (site.rootDirId env.H env.CHUNK_SIZE))

/-- The host that templates get on such a domain. -/
def identityOf (host : JsString) : NameService.DomainData → JsString
  | .pnRoot _ _ => host
  | .pnAlias identity => identity.1 ++ js ".point"

/-- The content that `editDomainRegistry` writes over an old one. -/
def recordOf (old : JsString) (data : NameService.DomainData) : JsString :=
  CookieString.encodeCookieString (CookieString.mergeAndResolveConflicts old data.entries)

omit henv hC havailable in
/-- What is written for a domain is never empty. -/
lemma merged_ne_nil (old : JsString) (data : NameService.DomainData) :
    CookieString.mergeAndResolveConflicts old data.entries ≠ [] := by
  intro hnil
  cases data with
  | pnAlias identity =>
    have hlookup := NameService.DomainData.lookup_pnAlias old identity
    rw [hnil] at hlookup
    cases hlookup
  | pnRoot routes root =>
    have hlookup := (NameService.DomainData.lookup_pnRoot old routes root hnil.symm).2.2
    cases hlookup

omit henv hC havailable in
/-- The pointers of a domain are those that were written for the site. -/
lemma gives_queryExtDomain {inv : Storage.Node → Prop} {host owner old version : JsString}
    {data : NameService.DomainData} (hpoints : site.PointedTo env version data)
    (hrecord : env.resolve host = .ok ⟨owner, some (recordOf old data)⟩)
    (hipfs : ¬ NameService.StartsWithIpfs (CookieString.kept old data.entries)) :
    Gives inv (queryExtDomain env host version) fun r w =>
      r = .ok ⟨site.routesId env.H env.CHUNK_SIZE, site.rootDirId env.H env.CHUNK_SIZE,
        identityOf host data⟩ ∧ w = [] := by
  have hseen : data.SeenIn (NameService.parseDomainRegistry env.addresses
      ⟨owner, some (recordOf old data)⟩) :=
    (NameService.DomainData.seenIn_encode_iff old data).mpr hipfs
  have htrim : trim (recordOf old data) ≠ [] := trim_encode_ne_nil (merged_ne_nil old data)
  unfold queryExtDomain
  rw [hrecord]
  refine Gives.bind_ok (.ofExcept ⟨rfl, rfl⟩) ?_
  dsimp only
  rw [Option.getD_some, if_neg htrim]
  -- without an alias there is no identity in the record either
  have hidentity : (NameService.parseDomainRegistry env.addresses
      ⟨owner, some (recordOf old data)⟩).isAlias = false →
      (NameService.parseDomainRegistry env.addresses
        ⟨owner, some (recordOf old data)⟩).identity = [] := by
    intro hisAlias
    simpa [NameService.parseDomainRegistry] using hisAlias
  generalize NameService.parseDomainRegistry env.addresses _ = domainData at hseen hidentity ⊢
  cases data with
  | pnAlias identity =>
    obtain ⟨hid, hisAlias, -⟩ := hseen
    have hne : domainData.identity ≠ [] := by
      rw [hid]
      exact identity.2.ne_nil
    rw [if_pos hisAlias, if_neg hne, hid]
    refine Gives.bind_ok (gives_ofChain _ hpoints.1 (fileId_ne_nil _ _ _)) ?_
    refine Gives.bind_ok (gives_ofChain _ hpoints.2 (fileId_ne_nil _ _ _)) ?_
    exact .pure ⟨rfl, rfl⟩
  | pnRoot routes root =>
    obtain ⟨hisAlias, hroutes, hroot⟩ := hseen
    have hgiven : ¬ (domainData.routesId = [] ∨ domainData.rootDirId = []) := by
      rw [hroutes, hroot]
      exact fun h => h.elim routes.2.ne_nil root.2.ne_nil
    rw [if_neg (by simp [hisAlias]), if_pos (hidentity hisAlias), if_neg hgiven, hroutes, hroot,
      hpoints.1, hpoints.2]
    exact .pure ⟨rfl, rfl⟩

omit henv hC havailable in
/-- No id ends in a slash. -/
lemma stripSlash_fileId (H : HashFn) (C : ℕ) (buf : Bytes) :
    stripSlash (fileId H C buf) = fileId H C buf := by
  have hdigits := (fileId_digits H C buf).2
  unfold stripSlash
  rw [if_neg]
  intro hlast
  have hslash := List.all_eq_true.mp hdigits _ (List.mem_of_getLast? hlast)
  exact absurd hslash (by decide)

/-- The routes of the site are read back. -/
lemma gives_getExtRoutes :
    Gives (Inv env content) (getExtRoutes env (site.routesId env.H env.CHUNK_SIZE))
      fun r w => r = .ok site.routesJson ∧ w = [] := by
  have hne : site.routesId env.H env.CHUNK_SIZE ≠ js "ipfs://ignore" := by
    intro heq
    have hlength := (fileId_digits env.H env.CHUNK_SIZE site.routesJson.encode).1
    rw [show fileId _ _ _ = _ from heq] at hlength
    exact absurd hlength (by decide)
  unfold getExtRoutes
  rw [if_neg hne]
  exact gives_getRoutes henv hC havailable

/-- The branch for other domains. -/
lemma gives_fulfillExtRequest {owner old : JsString} {data : NameService.DomainData}
    (hpoints : site.PointedTo env req.version data)
    (hrecord : env.resolve req.host = .ok ⟨owner, some (recordOf old data)⟩)
    (hipfs : ¬ NameService.StartsWithIpfs (CookieString.kept old data.entries))
    (hrange : req.range = none)
    (hpaths : site.PlainPaths env (site.config env req (some (identityOf req.host data)))) :
    Gives (Inv env content) (fulfillExtRequest env req)
      (site.Answers env content req (site.config env req (some (identityOf req.host data)))) := by
  refine Gives.bind_ok (gives_queryExtDomain hpoints hrecord hipfs) ?_
  refine Gives.bind_ok (gives_getExtRoutes henv hC havailable) ?_
  dsimp only
  rw [show stripSlash (site.rootDirId env.H env.CHUNK_SIZE) = site.rootDirId env.H env.CHUNK_SIZE
    from stripSlash_fileId _ _ _]
  exact site.gives_fulfillRequest henv hC havailable (site.serves_config _) hrange hpaths

end Hosts

/-! ## The answers of sites -/

/-- However a run of uploads, reads and requests has gone, a request to a `.point` domain whose routes
and root on the chain are those of a site is answered as the uploaded tree says. A node under
development answers from its disk instead. -/
theorem site_answers {site : Site} {node : Storage.Node}
    (hrun : Reach (serverStep env.H env.CHUNK_SIZE)
      (fun _ op => op.Honest env.H env.CHUNK_SIZE content) Storage.Node.empty node)
    (henv : env.Honest content) (hC : 0 < env.CHUNK_SIZE)
    (havailable : site.Available env.H env.CHUNK_SIZE env.getChunkBinary)
    (hhost : (js ".point").isSuffixOf req.host = true) (hmode : env.mode ≠ js "zappdev")
    (hroutes : env.getZRecord req.host req.version =
      .ok (some (site.routesId env.H env.CHUNK_SIZE)))
    (hroot : env.getKeyValue req.host (js "::rootDir") req.version true =
      .ok (some (site.rootDirId env.H env.CHUNK_SIZE)))
    (hrange : req.range = none) (hpaths : site.PlainPaths env (site.config env req none)) :
    site.Answers env content req (site.config env req none) (getHttpRequestHandler env req node).1
      ((getHttpRequestHandler env req).log node) := by
  have hbranch : getHttpRequestHandler env req = fulfillPointRequest env req := by
    have hz := not_suffix (js ".z") hhost (by decide) (by decide)
    have hlocal := not_suffix (js ".local") hhost (by decide) (by decide)
    have hpoint : req.host ≠ js "point" := by
      intro heq
      rw [heq] at hhost
      exact absurd hhost (by decide)
    have hne : req.host ≠ [] := by
      intro heq
      rw [heq] at hhost
      exact absurd hhost (by decide)
    have hstored : servedLocally env req.host = false := by
      simp [servedLocally, hlocal, hmode]
    unfold getHttpRequestHandler
    rw [if_neg hne, if_neg (by rw [hz]; decide), if_neg hpoint, if_neg (by rw [hstored]; decide),
      if_pos hhost]
  rw [hbranch]
  exact (gives_fulfillPointRequest henv hC havailable hroutes hroot hrange hpaths node
    (NodeInv.serve hrun)).1

/-- A site of a template and, in a directory, of a file of two chunks. -/
def smallSite : Site where
  entries := [(js "a", .file [0x68, 0x69]), (js "d", .dir [(js "b", .file (List.replicate 301 0x62))])]
  σ := .inOrder
  routes := [(js "/", js "a")]
  distinct := ⟨by decide, trivial, ⟨by decide, trivial, trivial⟩, trivial⟩
  ordered := by decide

/-- All that is uploaded for the site. -/
def smallBuffers : List Bytes :=
  [[0x68, 0x69], List.replicate 301 0x62, smallSite.routesJson.encode] ++
    (uploadDir lastBytes 300 smallSite.σ [] smallSite.entries).2.map fun info => info.toJson.encode

/-- The chunks of the site. -/
def smallChunk (id : JsString) : Except Exception Bytes :=
  match (smallBuffers.flatMap fun buf => (fileChunks lastBytes 300 buf).2).find?
      fun b => lastBytes.id b = id with
  | some b => .ok b
  | none => .error .rejected

/-- The ids of the site as they stand in the record of a domain. -/
def smallData : NameService.DomainData :=
  .pnRoot ⟨smallSite.routesId lastBytes 300, by decide +kernel⟩
    ⟨smallSite.rootDirId lastBytes 300, by decide +kernel⟩

/-- A node whose engine returns templates as they are; `a.sol` is a domain with the ids of the site. -/
def smallEnv : Env where
  H := lastBytes
  CHUNK_SIZE := 300
  getChunkBinary := smallChunk
  pathMatch route path := if route = path then some none else none
  lookup ext := if ext = js ".css" then some (js "text/css") else none
  render _ _ contents _ _ := pure contents
  exist _ := false
  isFile _ := false
  readFile _ := .error (notFound "")
  getIPFSFileAsStream _ := .error (notFound "")
  getZRecord _ _ := .ok (some (smallSite.routesId lastBytes 300))
  getKeyValue _ _ _ _ := .ok (some (smallSite.rootDirId lastBytes 300))
  resolve _ := .ok ⟨js "owner", some (recordOf (js "x=1") smallData)⟩
  addresses := .small
  mode := js "zappdeploy"
  zappsdir := []
  dirname := js "/app/dist/client/proxy/handlers"
  cwd := js "/app"
  elsewhere _ := fail (notFound "")

/-- What the ids of the site stand for. -/
def smallContent (id : JsString) : Bytes := (smallChunk id).toOption.getD []

/-- The chunks are given as they are stored. -/
lemma honest_smallEnv : smallEnv.Honest smallContent where
  downloads id x h := by
    have hchunk : smallChunk id = .ok x := h
    simp [smallContent, hchunk, Except.toOption]
  render _ _ _ _ _ _ := .init
  elsewhere _ _ := .init

/-- All files of the small site are stored. -/
lemma available_smallSite : smallSite.Available lastBytes 300 smallChunk := by
  have hstored : ∀ buf ∈ smallBuffers, Stored lastBytes 300 smallChunk buf := by
    have hchunks : ∀ buf ∈ smallBuffers, ∀ c ∈ (fileChunks lastBytes 300 buf).2,
        smallChunk (lastBytes.id c) = .ok c := by decide +kernel
    have hnonzero : ∀ buf ∈ smallBuffers, isZeroStorageId (fileId lastBytes 300 buf) = false := by
      decide +kernel
    have hplain : ∀ buf ∈ smallBuffers, buf.length ≤ 300 → isChunkInfo buf = false := by
      decide +kernel
    exact fun buf hbuf => ⟨hchunks buf hbuf, hnonzero buf hbuf, hplain buf hbuf⟩
  have hfiles : ∀ contents ∈ Tree.filesOf smallSite.entries, contents ∈ smallBuffers := by
    decide +kernel
  exact
    { files := fun names contents h => hstored _ (hfiles _ (Tree.mem_filesOf h))
      listings := fun info hinfo =>
        hstored _ (List.mem_append_right _ (List.mem_map_of_mem hinfo))
      routes := hstored _ (List.mem_append_left _ (.tail _ (.tail _ (.head _)))) }

/-- The node after the upload of a file and a request for another one. -/
def visitedNode : Storage.Node :=
  (getHttpRequestHandler smallEnv ⟨js "a.point", js "/d/b", [], [], none⟩
    (uploadData lastBytes 300 [0x68, 0x69] Storage.Node.empty).2).2.2

lemma reach_visitedNode : Reach (serverStep lastBytes 300)
    (fun _ op => op.Honest lastBytes 300 smallContent) Storage.Node.empty visitedNode := by
  have hupload : ServerOp.Honest lastBytes 300 smallContent
      (.storage (.uploadData [0x68, 0x69])) := trivial
  have hrequest : ServerOp.Honest lastBytes 300 smallContent
      (.request smallEnv ⟨js "a.point", js "/d/b", [], [], none⟩) := ⟨rfl, rfl, honest_smallEnv⟩
  exact .step (.step .init hupload rfl) hrequest rfl

/-- The request to `/` leads to the template. -/
theorem site_answers_page :
    smallSite.Answers smallEnv smallContent ⟨js "a.point", js "/", [], [], none⟩
      (smallSite.config smallEnv ⟨js "a.point", js "/", [], [], none⟩ none)
      (getHttpRequestHandler smallEnv ⟨js "a.point", js "/", [], [], none⟩ visitedNode).1
      ((getHttpRequestHandler smallEnv ⟨js "a.point", js "/", [], [], none⟩).log visitedNode) :=
  site_answers reach_visitedNode honest_smallEnv (by decide) available_smallSite (by decide)
    (by decide) rfl rfl rfl ⟨by decide +kernel, fun t ht => by
      have htemplate : t = js "a" := by
        have hgiven : given (smallSite.matched smallEnv
          (smallSite.config smallEnv ⟨js "a.point", js "/", [], [], none⟩ none)).templateFilename =
            some (js "a") := by decide +kernel
        exact Option.some_inj.mp (ht.symm.trans hgiven)
      rw [htemplate]
      decide +kernel⟩

/-- So is a request to a `.sol` or `.eth` domain whose record the deployer has written over old
content that does not begin with a key `ipfs://…`: with the ids of the site in it, or as an alias of
an identity that has them on the chain. -/
theorem ext_site_answers {site : Site} {node : Storage.Node} {owner old : JsString}
    {data : NameService.DomainData}
    (hrun : Reach (serverStep env.H env.CHUNK_SIZE)
      (fun _ op => op.Honest env.H env.CHUNK_SIZE content) Storage.Node.empty node)
    (henv : env.Honest content) (hC : 0 < env.CHUNK_SIZE)
    (havailable : site.Available env.H env.CHUNK_SIZE env.getChunkBinary)
    (hhost : (js ".sol").isSuffixOf req.host = true ∨ (js ".eth").isSuffixOf req.host = true)
    (hrecord : env.resolve req.host = .ok ⟨owner, some (recordOf old data)⟩)
    (hipfs : ¬ NameService.StartsWithIpfs (CookieString.kept old data.entries))
    (hpoints : site.PointedTo env req.version data) (hrange : req.range = none)
    (hpaths : site.PlainPaths env (site.config env req (some (identityOf req.host data)))) :
    site.Answers env content req (site.config env req (some (identityOf req.host data)))
      (getHttpRequestHandler env req node).1 ((getHttpRequestHandler env req).log node) := by
  -- a host that ends in `.sol` or `.eth` ends in no other of the names that are told apart before
  have hnot : ∀ other : JsString, other.isSuffixOf (js ".sol") = false →
      other.isSuffixOf (js ".eth") = false → (js ".sol").isSuffixOf other = false →
      (js ".eth").isSuffixOf other = false → other.isSuffixOf req.host = false :=
    fun other h1 h2 h3 h4 => hhost.elim (fun h => not_suffix other h h1 h3) fun h => not_suffix other h h2 h4
  have hbranch : getHttpRequestHandler env req = fulfillExtRequest env req := by
    have hz := hnot (js ".z") (by decide) (by decide) (by decide) (by decide)
    have hlocal := hnot (js ".local") (by decide) (by decide) (by decide) (by decide)
    have hpoint := hnot (js ".point") (by decide) (by decide) (by decide) (by decide)
    have hhome : req.host ≠ js "point" := by
      intro heq
      rw [heq] at hhost
      exact absurd hhost (by decide)
    have hne : req.host ≠ [] := by
      intro heq
      rw [heq] at hhost
      exact absurd hhost (by decide)
    have hstored : servedLocally env req.host = false := by
      simp [servedLocally, hlocal, hpoint]
    unfold getHttpRequestHandler
    rw [if_neg hne, if_neg (by rw [hz]; decide), if_neg hhome, if_neg (by rw [hstored]; decide),
      if_neg (by rw [hpoint]; decide), if_pos hhost]
  rw [hbranch]
  exact (gives_fulfillExtRequest henv hC havailable hpoints hrecord hipfs hrange hpaths node
    (NodeInv.serve hrun)).1

/-- The request for the file in the directory, on a Solana domain with a record from before. -/
theorem ext_site_answers_file :
    smallSite.Answers smallEnv smallContent ⟨js "a.sol", js "/d/b", [], [], none⟩
      (smallSite.config smallEnv ⟨js "a.sol", js "/d/b", [], [], none⟩
        (some (identityOf (js "a.sol") smallData)))
      (getHttpRequestHandler smallEnv ⟨js "a.sol", js "/d/b", [], [], none⟩ visitedNode).1
      ((getHttpRequestHandler smallEnv ⟨js "a.sol", js "/d/b", [], [], none⟩).log visitedNode) := by
  have hrecord : smallEnv.resolve (js "a.sol") =
      .ok ⟨js "owner", some (recordOf (js "x=1") smallData)⟩ := rfl
  have hipfs : ¬ NameService.StartsWithIpfs
      (CookieString.kept (js "x=1") smallData.entries) := by
    unfold NameService.StartsWithIpfs
    decide +kernel
  have hgiven : given (smallSite.matched smallEnv
      (smallSite.config smallEnv ⟨js "a.sol", js "/d/b", [], [], none⟩
        (some (identityOf (js "a.sol") smallData)))).templateFilename = none := by decide +kernel
  have hH : smallEnv.H = lastBytes := rfl
  have hC : smallEnv.CHUNK_SIZE = 300 := rfl
  have hpoints : ∀ version, smallSite.PointedTo smallEnv version smallData := by
    intro version
    unfold smallData Site.PointedTo
    simp only [hH, hC, and_self]
  have hpath : ∀ name ∈ Storage.segments (smallSite.matched smallEnv
      (smallSite.config smallEnv ⟨js "a.sol", js "/d/b", [], [], none⟩
        (some (identityOf (js "a.sol") smallData)))).possiblyRewrittenUrlPath,
      Path.Plain name := by decide +kernel
  refine ext_site_answers reach_visitedNode honest_smallEnv (by decide) available_smallSite
    (by decide) hrecord hipfs (hpoints _) rfl ⟨hpath, fun t ht => ?_⟩
  cases ht.symm.trans hgiven

end PointNetwork.Proxy
