import PointNetwork.Proxy.Requests
import PointNetwork.Storage.DirectoryTheorems
import PointNetwork.Storage.ReadStreamTheorems

/-!
# The storage under requests

A node runs through uploads, reads and requests to the proxy. Every request keeps what reads rely on,
whatever it asks for and however it ends. Under this invariant the reads of the handlers are settled:
an uploaded buffer comes back as a file and as a stream, and the lookup on JSON texts is the lookup on
the listings that they stand for.

* `serverStep`: the run; `NodeInv.serve`: the invariant in every state;
* `Stored.gives_file` and `Stored.gives_stream`: the reads of an uploaded buffer;
* `gives_getFileIdByPathFuel`: the lookup of a path.
-/

namespace PointNetwork.Proxy

open Js Storage Logged Machine

variable {env : Env} {content : JsString → Bytes} {req : Request}

/-! ## Runs -/

/-- Downloads are honest, and what the model leaves open works on the storage through its
functions. -/
structure Env.Honest (env : Env) (content : JsString → Bytes) : Prop where
  downloads : Storage.Honest content env.getChunkBinary
  render : ∀ cfg templateId contents host params node,
    Reach (nodeStep env.H env.CHUNK_SIZE) (fun _ op => op.Honest content) node
      (env.render cfg templateId contents host params node).2.2
  elsewhere : ∀ req node,
    Reach (nodeStep env.H env.CHUNK_SIZE) (fun _ op => op.Honest content) node
      (env.elsewhere req node).2.2

/-- What happens to a node: a call of the storage or a request to the proxy. -/
inductive ServerOp
  | storage (op : NodeOp)
  | request (env : Env) (req : Request)

/-- An operation of the storage, or a request. -/
def serverStep (H : HashFn) (C : ℕ) (node : Storage.Node) : ServerOp → Option Storage.Node
  | .storage op => nodeStep H C node op
  | .request env req => some (getHttpRequestHandler env req node).2.2

/-- The sources give no other bytes under an id than its content. -/
def ServerOp.Honest (H : HashFn) (C : ℕ) (content : JsString → Bytes) : ServerOp → Prop
  | .storage op => op.Honest content
  | .request env _ => env.H = H ∧ env.CHUNK_SIZE = C ∧ env.Honest content

/-! ## The invariant of the storage -/

section Keeps

/-- The invariant of the storage, for the hash function and the chunk size of the handlers. -/
abbrev Inv (env : Env) (content : JsString → Bytes) : Storage.Node → Prop :=
  NodeInv env.H env.CHUNK_SIZE content

variable (henv : env.Honest content)

include henv

/-- Reading a file keeps the invariant. -/
lemma keeps_getFile (rawId : JsString) : Keeps (Inv env content) (getFile env rawId) := by
  intro node hnode
  have hkept := hnode.getFile henv.downloads rawId true
  unfold getFile
  split <;> simp_all

omit henv in
/-- Opening a stream keeps the invariant. -/
lemma keeps_getFileAsReadStream (rawId : JsString) (range : Option JsString) :
    Keeps (Inv env content) (getFileAsReadStream env rawId range) := by
  intro node hnode
  have hkept : Inv env content (Storage.getFileAsReadStream env.H env.CHUNK_SIZE env.getChunkBinary
    rawId ((given range).map rangeStart).join node).2 := hnode.getFileAsReadStream rawId _
  unfold getFileAsReadStream
  dsimp only
  split <;> simp_all

lemma keeps_getJSON (rawId : Option Json) : Keeps (Inv env content) (getJSON env rawId) := by
  unfold getJSON
  refine (Keeps.ofExcept _).bind fun id => ?_
  refine (keeps_getFile henv id).bind fun file => ?_
  split
  · exact .pure _
  · exact .fail _

/-- Resolving a path keeps the invariant. -/
lemma keeps_getFileIdByPathFuel (fuel : ℕ) (dirId : Option Json) (filePath : JsString) :
    Keeps (Inv env content) (getFileIdByPathFuel env fuel dirId filePath) := by
  induction fuel generalizing dirId filePath with
  | zero => exact .fail _
  | succ fuel ih =>
    refine (keeps_getJSON henv dirId).bind fun directory => ?_
    refine (Keeps.ofExcept _).bind fun dirText => ?_
    refine (Keeps.ofExcept _).bind fun found => ?_
    cases found with
    | none => exact .fail _
    | some nextFileOrDir =>
      refine (Keeps.ofExcept _).bind fun id => ?_
      refine (Keeps.ofExcept _).bind fun type => ?_
      split_ifs
      · exact .pure _
      · exact .fail _
      · exact ih _ _

omit henv in
lemma keeps_foundId (message : String) (fileId : Option Json) :
    Keeps (Inv env content) (foundId message fileId) := by
  unfold foundId
  split_ifs
  · exact .ofExcept _
  · exact .fail _

/-- Reading a static file keeps the invariant. -/
lemma keeps_readStatic (cfg : RequestFulfillmentConfig) (urlPath : JsString) :
    Keeps (Inv env content) (readStatic env req cfg urlPath) := by
  unfold readStatic
  split
  · split
    · exact .fail _
    · dsimp only
      split_ifs
      · exact .fail _
      · exact .fail _
      · exact (Keeps.ofExcept _).bind fun _ => .pure _
  · split
    · exact (Keeps.ofExcept _).bind fun _ => .pure _
    · refine (keeps_getFileIdByPathFuel henv _ _ _).bind fun found => ?_
      refine (keeps_foundId _ found).bind fun fileId => ?_
      exact (keeps_getFileAsReadStream fileId _).bind fun _ => .pure _

lemma keeps_tryFulfillStaticRequest (cfg : RequestFulfillmentConfig) (urlPath : JsString) :
    Keeps (Inv env content) (tryFulfillStaticRequest env req cfg urlPath) :=
  (keeps_readStatic henv cfg urlPath).bind fun _ => (Keeps.tell _).bind fun _ => .pure _

/-- Reading a template keeps the invariant. -/
lemma keeps_readTemplate (cfg : RequestFulfillmentConfig) (templateFilename : JsString) :
    Keeps (Inv env content) (readTemplate env cfg templateFilename) := by
  unfold readTemplate
  split
  · split
    · exact .fail _
    · exact (Keeps.ofExcept _).bind fun _ => (Keeps.ofExcept _).bind fun _ => .pure _
  · split
    · exact (Keeps.ofExcept _).bind fun _ => .pure _
    · refine (keeps_getFileIdByPathFuel henv _ _ _).bind fun found => ?_
      refine (keeps_foundId _ found).bind fun templateId => ?_
      exact (keeps_getFile henv templateId).bind fun _ => .pure _

lemma keeps_render (cfg : RequestFulfillmentConfig) (templateId : Option JsString)
    (contents host : JsString) (params : Props) :
    Keeps (Inv env content) (env.render cfg templateId contents host params) :=
  fun node hnode => ⟨trivial, hnode.reach (henv.render cfg templateId contents host params node)⟩

lemma keeps_elsewhere : Keeps (Inv env content) (env.elsewhere req) :=
  fun node hnode => ⟨trivial, hnode.reach (henv.elsewhere req node)⟩

/-- Fulfilling a request keeps the invariant. -/
lemma keeps_fulfillRequest (cfg : RequestFulfillmentConfig) :
    Keeps (Inv env content) (fulfillRequest env req cfg) := by
  unfold fulfillRequest
  refine (Keeps.ofExcept _).bind fun matched => ?_
  refine Keeps.bind (.attempt (keeps_tryFulfillStaticRequest henv _ _)) fun outcome => ?_
  cases outcome with
  | ok file => exact .pure _
  | error e =>
    dsimp only
    split
    · split_ifs
      · refine (keeps_readTemplate henv _ _).bind fun template => ?_
        refine (keeps_render henv _ _ _ _ _).bind fun page => ?_
        exact (Keeps.tell _).bind fun _ => .pure _
      · exact .fail _
    · exact .fail _

omit henv in
lemma keeps_ofChain (message : String) (found : Except Failure (Option JsString)) :
    Keeps (Inv env content) (ofChain message found) := by
  refine (Keeps.ofExcept found).bind fun found => ?_
  split
  · exact .pure _
  · exact .fail _

lemma keeps_getRoutes (routesId : JsString) : Keeps (Inv env content) (getRoutes env routesId) := by
  refine (keeps_getJSON henv _).bind fun routes => ?_
  split_ifs
  · exact .pure _
  · exact .fail _

omit henv in
/-- Asking for a domain keeps the invariant. -/
lemma keeps_queryExtDomain (host version : JsString) :
    Keeps (Inv env content) (queryExtDomain env host version) := by
  refine (Keeps.ofExcept _).bind fun registry => ?_
  dsimp only
  generalize NameService.parseDomainRegistry env.addresses registry = domainData
  generalize (if domainData.identity = [] then host else domainData.identity ++ js ".point") =
    identity
  split_ifs
  · exact .fail _
  · refine (keeps_ofChain _ _).bind fun routesId => ?_
    exact (keeps_ofChain _ _).bind fun rootDirId => .pure _
  · exact .fail _
  · exact .pure _

omit henv in
lemma keeps_readJSON (path : JsString) : Keeps (Inv env content) (readJSON env path) := by
  refine (Keeps.ofExcept _).bind fun file => ?_
  split
  · exact .pure _
  · exact .fail _

/-- A site on the disk changes nothing of the storage either, up to what its templates do. -/
lemma keeps_fulfillLocalRequest : Keeps (Inv env content) (fulfillLocalRequest env req) := by
  refine (Keeps.ofExcept _).bind fun routesId => ?_
  split_ifs
  · exact .fail _
  · refine (keeps_readJSON _).bind fun deployConfig => ?_
    refine (Keeps.ofExcept _).bind fun rootDirPath => ?_
    dsimp only
    split_ifs
    · exact .fail _
    · exact .fail _
    · exact (keeps_readJSON _).bind fun routes => keeps_fulfillRequest henv _

/-- Every request keeps the invariant. -/
theorem keeps_getHttpRequestHandler : Keeps (Inv env content) (getHttpRequestHandler env req) := by
  unfold getHttpRequestHandler
  split_ifs
  · exact .fail _
  · exact (Keeps.tell _).bind fun _ => .pure _
  · exact keeps_elsewhere henv
  · exact keeps_fulfillLocalRequest henv
  · refine (keeps_ofChain _ _).bind fun zrouteId => ?_
    refine (keeps_getRoutes henv zrouteId).bind fun routes => ?_
    exact (keeps_ofChain _ _).bind fun rootDirId => keeps_fulfillRequest henv _
  · refine (keeps_queryExtDomain _ _).bind fun pointers => ?_
    refine Keeps.bind ?_ fun routes => keeps_fulfillRequest henv _
    unfold getExtRoutes
    split_ifs
    · exact .pure _
    · exact keeps_getRoutes henv _
  · exact keeps_elsewhere henv

end Keeps

/-- What holds of the storage in every state of a run. -/
theorem NodeInv.serve {H : HashFn} {C : ℕ} {node : Storage.Node}
    (h : Reach (serverStep H C) (fun _ op => op.Honest H C content) Storage.Node.empty node) :
    NodeInv H C content node := by
  refine h.invariant NodeInv.empty fun node op node' hnode hop hs => ?_
  cases op with
  | storage op => exact hnode.step hop hs
  | request env req =>
    obtain ⟨rfl, rfl, henv⟩ := hop
    cases hs
    exact (keeps_getHttpRequestHandler henv node hnode).2

/-! ## Reading what is stored -/

/-- The chunks of an uploaded buffer can be downloaded, its id is not all zeros, and it does not read
as an info chunk if it is stored as it is. -/
structure Stored (H : HashFn) (C : ℕ) (getChunkBinary : JsString → Except Exception Bytes)
    (buf : Bytes) : Prop where
  chunks : ∀ c ∈ (fileChunks H C buf).2, getChunkBinary (H.id c) = .ok c
  nonzero : isZeroStorageId (fileId H C buf) = false
  plain : buf.length ≤ C → isChunkInfo buf = false

/-- However the consumer reads, a stream that ends has delivered these contents, and it can end. -/
def Delivers (C : ℕ) (getChunkBinary : JsString → Except Exception Bytes) (contents : Bytes) :
    ReadStream → Prop
  | .whole reply pushed =>
    pushed.flatten = contents ∧ reply.contentLength = natText contents.length
  | .chunked reply cs =>
    reply.contentLength = sizeText (some (.num (.ofInt contents.length))) ∧
      (∃ st, Reach (streamStep C getChunkBinary cs) Any cs.initial st ∧ st.ended = true) ∧
      ∀ st, Reach (streamStep C getChunkBinary cs) Any cs.initial st → st.ended = true →
        st.pushed.flatten = contents
  | .unmodelled => False

section Stored

variable {H : HashFn} {C : ℕ} {getChunkBinary : JsString → Except Exception Bytes} {buf : Bytes}

/-- The id of what is stored is valid. -/
lemma Stored.valid (h : Stored H C getChunkBinary buf) :
    normalizeId (fileId H C buf) = fileId H C buf ∧
      validateStorageId (fileId H C buf) = .ok () := by
  obtain ⟨b, hb⟩ := exists_fileChunks_eq H C buf
  have hid : fileId H C buf = H.id b := hb
  have hnonzero := h.nonzero
  rw [hid] at hnonzero ⊢
  exact ⟨normalizeId_id H b, validateStorageId_id hnonzero⟩

/-- A buffer of several chunks is stored under the id of its info chunk. -/
lemma Stored.info (h : Stored H C getChunkBinary buf) (hC : 0 < C) (hlen : C < buf.length) :
    getChunkBinary (fileId H C buf) = .ok (createChunkInfoChunk H C (chunkify C buf)) ∧
      ∀ c ∈ chunkify C buf, getChunkBinary (H.id c) = .ok c := by
  have hchunks := h.chunks
  unfold fileId
  rw [fileChunks_of_lt H hC hlen] at hchunks ⊢
  exact ⟨hchunks _ (by simp), fun c hc => hchunks c (by simp [hc])⟩

/-- A shorter one is stored as it is. -/
lemma Stored.single (h : Stored H C getChunkBinary buf) (hC : 0 < C) (hlen : buf.length ≤ C) :
    getChunkBinary (fileId H C buf) = .ok buf := by
  have hchunks := h.chunks
  unfold fileId
  rw [fileChunks_of_le H hC hlen] at hchunks ⊢
  exact hchunks buf (by simp)

/-- What is stored is decoded from its chunks. -/
lemma Stored.decode (h : Stored H C getChunkBinary buf) (hC : 0 < C) :
    (getChunkBinary (fileId H C buf) >>= decodeFile H C getChunkBinary) = .ok buf := by
  by_cases hlen : C < buf.length
  · obtain ⟨hinfo, hchunks⟩ := h.info hC hlen
    rw [hinfo, ok_bind]
    exact decodeFile_createChunkInfoChunk H hC hlen hchunks
  · have hle : buf.length ≤ C := by omega
    rw [h.single hC hle, ok_bind, decodeFile, if_neg (by simp [h.plain hle])]
    rfl

/-- An id stands for one buffer. -/
lemma Stored.unique {buf' : Bytes} (h : Stored H C getChunkBinary buf)
    (h' : Stored H C getChunkBinary buf') (hC : 0 < C) (hid : fileId H C buf = fileId H C buf') :
    buf = buf' := by
  have hdecode := h.decode hC
  rw [hid, h'.decode hC] at hdecode
  cases hdecode
  rfl

lemma mapM_stored {chunks : List Bytes} (h : ∀ c ∈ chunks, getChunkBinary (H.id c) = .ok c) :
    (chunks.map H.id).mapM getChunkBinary = .ok chunks := by
  induction chunks with
  | nil => rfl
  | cons c chunks ih =>
    rw [List.map_cons, List.mapM_cons, h c (by simp), ih fun d hd => h d (by simp [hd])]
    rfl

/-- The stream of a stored buffer delivers it. -/
lemma Stored.delivers (h : Stored H C getChunkBinary buf) (hC : 0 < C) (node : Storage.Node) :
    ∃ file, (Storage.getFileAsReadStream H C getChunkBinary (fileId H C buf) none node).1 =
      .ok file ∧ Delivers C getChunkBinary buf file := by
  obtain ⟨hnormal, hvalid⟩ := h.valid
  rw [← hnormal] at hvalid
  by_cases hlen : C < buf.length
  · obtain ⟨hinfo, hchunks⟩ := h.info hC hlen
    rw [← hnormal] at hinfo
    obtain ⟨cs, hstream, hended, hpushed⟩ := getFileAsReadStream_chunks hvalid hinfo
      (isChunkInfo_createChunkInfoChunk H C _) (parseChunkInfo_createChunkInfoChunk H C _)
      (mapM_stored hchunks) node
    refine ⟨_, hstream, ?_, hended, fun st hst hend => ?_⟩
    · simp only [chunksToTotalLength_chunkify hC hlen]
    · rw [hpushed st hst hend, flatten_chunkify hC]
  · have hle : buf.length ≤ C := by omega
    refine ⟨.whole { contentLength := natText buf.length } [buf], ?_, by simp, rfl⟩
    simp only [Storage.getFileAsReadStream, hvalid]
    rw [hnormal]
    simp only [h.single hC hle, h.plain hle, Bool.false_eq_true, if_false]
    rfl

end Stored

/-! ## Reads of the handlers -/

section Reads

variable {buf : Bytes} (henv : env.Honest content) (hC : 0 < env.CHUNK_SIZE)

include henv hC

/-- The file itself, from the cache or not. -/
lemma Stored.gives_file (h : Stored env.H env.CHUNK_SIZE env.getChunkBinary buf) :
    Gives (Inv env content) (getFile env (fileId env.H env.CHUNK_SIZE buf))
      fun r w => r = .ok buf ∧ w = [] := by
  intro node hnode
  refine ⟨?_, (keeps_getFile henv _ node hnode).2⟩
  obtain ⟨hnormal, hvalid⟩ := h.valid
  rw [← hnormal] at hvalid
  have hread := getFile_of_inv hnode henv.downloads hvalid true (hnormal.symm ▸ h.decode hC)
  unfold getFile log
  split <;> simp_all

omit henv in
/-- Its stream, if no range is asked for. -/
lemma Stored.gives_stream (h : Stored env.H env.CHUNK_SIZE env.getChunkBinary buf) :
    Gives (Inv env content) (getFileAsReadStream env (fileId env.H env.CHUNK_SIZE buf) none)
      fun r w => (∃ file, r = .ok file ∧ Delivers env.CHUNK_SIZE env.getChunkBinary buf file) ∧
        w = [] := by
  intro node hnode
  refine ⟨?_, (keeps_getFileAsReadStream _ _ node hnode).2⟩
  obtain ⟨file, hfile, hdelivers⟩ := h.delivers hC node
  unfold getFileAsReadStream log given
  dsimp only [Option.map_none, Option.join_none]
  split <;> simp_all

/-- A value that was uploaded as a text. -/
lemma gives_getJSON {value : Json} (hvalue : value.canonical = true)
    (h : Stored env.H env.CHUNK_SIZE env.getChunkBinary value.encode) :
    Gives (Inv env content) (getJSON env (some (.str (fileId env.H env.CHUNK_SIZE value.encode))))
      fun r w => r = .ok value ∧ w = [] := by
  refine Gives.bind_ok (.ofExcept ⟨rfl, rfl⟩) ?_
  refine Gives.bind_ok (h.gives_file henv hC) ?_
  simp only [decode_encode hvalue]
  exact .pure ⟨rfl, rfl⟩

end Reads

/-! ## Listings as JSON texts -/

section Lookup

@[simp] lemma field_name (f : FileInfo) : field f.toJson (js "name") = .ok (some (.str f.name)) := rfl

@[simp] lemma field_id (f : FileInfo) : field f.toJson (js "id") = .ok (some (.str f.id)) := rfl

@[simp] lemma field_type (f : FileInfo) :
    field f.toJson (js "type") = .ok (some (.str f.type.text)) := rfl

/-- A name is found in the listing when an entry has it. -/
lemma findNamed_listing (segment : JsString) (files : List FileInfo) :
    findNamed (some segment) (files.map FileInfo.toJson) =
      .ok ((files.find? fun f => f.name = segment).map FileInfo.toJson) := by
  induction files with
  | nil => rfl
  | cons f files ih =>
    rw [List.map_cons, findNamed, field_name, ok_bind, List.find?_cons]
    by_cases hname : f.name = segment
    · simp [hname, pure, Except.pure]
    · simp [hname, ih]

/-- Every entry has a name. -/
lemma findNamed_none (files : List FileInfo) :
    findNamed none (files.map FileInfo.toJson) = .ok none := by
  induction files with
  | nil => rfl
  | cons f files ih =>
    rw [List.map_cons, findNamed, field_name, ok_bind]
    simpa using ih

/-- The entry of a segment in the listing of a directory. -/
lemma findInDirectory_listing (info : DirInfo) (segment : Option JsString) :
    findInDirectory info.toJson segment = .ok ((segment.bind fun segment =>
      info.files.find? fun f => f.name = segment).map FileInfo.toJson) := by
  have hfiles : field info.toJson (js "files") =
      .ok (some (.arr (info.files.map FileInfo.toJson))) := rfl
  rw [findInDirectory, hfiles, ok_bind]
  cases segment with
  | none =>
    simp only [findNamed_none, ok_bind]
    rfl
  | some segment =>
    simp only [findNamed_listing, ok_bind, Option.bind_some]
    cases info.files.find? fun f => f.name = segment <;> rfl

/-- What the lookup on listings gives, as the lookup on texts returns it. -/
def asFound (result : Except Exception JsString) : Except Failure (Option Json) :=
  (result.map fun id => some (.str id)).mapError .thrown

/-- The result does not come from a listing that is not there. -/
def Known (result : Except Exception JsString) : Prop :=
  ∀ e, result = .error e → ∃ message, e = .httpNotFound message

variable (listing : JsString → Except Exception DirInfo)
  (herror : ∀ id e, listing id = .error e → ¬ ∃ message, e = .httpNotFound message)
  (hlisting : ∀ id info, listing id = .ok info →
    Gives (Inv env content) (getJSON env (some (.str id))) fun r w => r = .ok info.toJson ∧ w = [])

include herror hlisting

/-- The lookup on texts is the one on listings. -/
theorem gives_getFileIdByPathFuel {fuel fuel' : ℕ} {dirId filePath : JsString}
    (hfuel : fuel ≤ fuel')
    (hknown : Known (Storage.getFileIdByPathFuel listing fuel dirId filePath)) :
    Gives (Inv env content) (getFileIdByPathFuel env fuel' (some (.str dirId)) filePath)
      fun r w => r = asFound (Storage.getFileIdByPathFuel listing fuel dirId filePath) ∧ w = [] := by
  induction fuel generalizing fuel' dirId filePath with
  | zero =>
    -- a search that is known has not run out of fuel
    obtain ⟨message, hmessage⟩ := hknown .outOfFuel rfl
    cases hmessage
  | succ fuel ih =>
    obtain ⟨fuel', rfl⟩ := Nat.exists_eq_add_of_le' (Nat.lt_of_lt_of_le (Nat.succ_pos _) hfuel)
    unfold Storage.getFileIdByPathFuel at hknown ⊢
    cases hget : listing dirId with
    | error e =>
      rw [hget] at hknown
      exact absurd (hknown e rfl) (herror _ _ hget)
    | ok info =>
      rw [hget, ok_bind] at hknown
      rw [ok_bind]
      refine Gives.bind_ok (hlisting _ _ hget) ?_
      refine Gives.bind_ok (a := dirId) (.ofExcept ⟨rfl, rfl⟩) ?_
      dsimp only
      rw [findInDirectory_listing]
      refine Gives.bind_ok (.ofExcept ⟨rfl, rfl⟩) ?_
      generalize Storage.segments filePath = segments at hknown ⊢
      cases segments with
      | nil => exact .fail ⟨rfl, rfl⟩
      | cons segment rest =>
        rw [List.head?_cons, Option.bind_some]
        dsimp only at hknown ⊢
        cases hfind : info.files.find? fun f => f.name = segment with
        | none => exact .fail ⟨rfl, rfl⟩
        | some f =>
          rw [hfind] at hknown
          rw [Option.map_some]
          refine Gives.bind_ok (.ofExcept ⟨field_id f, rfl⟩) ?_
          refine Gives.bind_ok (.ofExcept ⟨field_type f, rfl⟩) ?_
          dsimp only at hknown ⊢
          by_cases hrest : rest = []
          · rw [if_pos (by rw [hrest]; rfl), if_pos hrest]
            exact .pure ⟨rfl, rfl⟩
          · have hlength : (segment :: rest).length ≠ 1 := by
              simpa using hrest
            rw [if_neg hrest] at hknown
            rw [if_neg hlength, if_neg hrest]
            -- the path goes on behind a file, or in a directory
            by_cases htype : f.type = .fileptr
            · rw [if_pos (by rw [htype]), if_pos htype]
              exact .fail ⟨rfl, rfl⟩
            · have htext : some (Json.str f.type.text) ≠ some (.str FileType.fileptr.text) := by
                cases hf : f.type with
                | fileptr => exact absurd hf htype
                | dirptr => decide
              rw [if_neg htype] at hknown
              rw [if_neg htext, if_neg htype]
              exact ih (by omega) hknown

end Lookup

end PointNetwork.Proxy
