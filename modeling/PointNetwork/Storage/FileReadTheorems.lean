import PointNetwork.Storage.ChunkInfoTheorems
import PointNetwork.Storage.Stream

/-!
# Files are read back as they were uploaded

* `decodeFile_uploadData`: the chunks that `uploadData` stores for a file of several chunks
  decode to the file;
* `NodeOp`, `nodeStep`: runs of uploads and reads; `NodeInv` holds in every state of a run:
  a cached file is what its id decodes to;
* `getFile_reach`: a read in a run gives what its id decodes to, from the cache or not;
* `read_uploadData`: data of one chunk is read back unless it starts with the prologue of an
  info chunk, which `getFile` takes it for then.
-/

namespace PointNetwork.Storage

open Js Machine

/-! ## Ids -/

lemma toLower_hexDigitUnit {d : ℕ} (hd : d < 16) : toLower (hexDigitUnit d) = hexDigitUnit d := by
  interval_cases d <;> decide

lemma hexDigitUnit_ne_x {d : ℕ} (hd : d < 16) : hexDigitUnit d ≠ 0x78 := by
  interval_cases d <;> decide

/-- An id is in normal form. -/
lemma normalizeId_toHex (b : Bytes) : normalizeId (toHex b) = toHex b := by
  have hlower : ∀ b : Bytes, (toHex b).map toLower = toHex b := by
    intro b
    induction b with
    | nil => rfl
    | cons x b ih =>
      have hx := x.toNat_lt
      have hcons : toHex (x :: b)
          = hexDigitUnit (x.toNat / 16) :: hexDigitUnit (x.toNat % 16) :: toHex b := rfl
      rw [hcons, List.map_cons, List.map_cons, ih, toLower_hexDigitUnit (by omega),
        toLower_hexDigitUnit (by omega)]
  unfold normalizeId
  split
  · rename_i rest heq
    cases b with
    | nil => cases heq
    | cons x b =>
      have hx := x.toNat_lt
      have hsecond : hexDigitUnit (x.toNat % 16) = 0x78 := (List.cons.inj (List.cons.inj heq).2).1
      exact absurd hsecond (hexDigitUnit_ne_x (by omega))
  · exact hlower b

/-- The id of a chunk is in normal form. -/
lemma normalizeId_id (H : HashFn) (b : Bytes) : normalizeId (H.id b) = H.id b :=
  normalizeId_toHex _

/-- An id that is not zero is valid. -/
lemma validateStorageId_id {H : HashFn} {b : Bytes} (h : isZeroStorageId (H.id b) = false) :
    validateStorageId (H.id b) = .ok () := by
  unfold validateStorageId
  rw [H.isValidStorageId_id, h]
  rfl

/-! ## Storing chunks -/

section Chunks

variable {H : HashFn} {S : Set Bytes} {node : Node}

/-- Every file of the cache folder is named after the hash of its contents, which are in
`S`. -/
def CacheOk (H : HashFn) (S : Set Bytes) (node : Node) : Prop :=
  ∀ id x, node.chunkCache id = some x → x ∈ S ∧ H.id x = id

/-- No two byte strings of `S` have the same digest. -/
def NoCollision (H : HashFn) (S : Set Bytes) : Prop := Set.InjOn H.digest S

/-- Chunks with one id are the same. -/
lemma NoCollision.id_inj (hS : NoCollision H S) {x y : Bytes} (hx : x ∈ S) (hy : y ∈ S)
    (h : H.id x = H.id y) : x = y := hS hx hy (toHex_injective h)

lemma cacheChunks_cons (c : Bytes) (cs : List Bytes) (node : Node) :
    cacheChunks H (c :: cs) node = cacheChunks H cs (cacheChunks H [c] node) := rfl

/-- Caching chunks leaves the files alone. -/
lemma cacheChunks_files (chunks : List Bytes) (node : Node) :
    (cacheChunks H chunks node).files = node.files ∧
      (cacheChunks H chunks node).filesDir = node.filesDir := by
  induction chunks generalizing node with
  | nil => exact ⟨rfl, rfl⟩
  | cons c cs ih =>
    rw [cacheChunks_cons, (ih _).1, (ih _).2]
    simp only [cacheChunks, List.foldl_cons, List.foldl_nil]
    split <;> exact ⟨rfl, rfl⟩

/-- Storing one chunk. -/
lemma cacheChunks_single (hS : NoCollision H S) (hnode : CacheOk H S node) {c : Bytes}
    (hc : c ∈ S) :
    CacheOk H S (cacheChunks H [c] node) ∧
      (cacheChunks H [c] node).chunkCache (H.id c) = some c ∧
      ∀ id x, node.chunkCache id = some x → (cacheChunks H [c] node).chunkCache id = some x := by
  simp only [cacheChunks, List.foldl_cons, List.foldl_nil]
  cases hcached : node.chunkCache (H.id c) with
  | some x =>
    obtain ⟨hx, hid⟩ := hnode _ x hcached
    refine ⟨hnode, ?_, fun _ _ h => h⟩
    rw [hcached, hS.id_inj hx hc hid]
  | none =>
    refine ⟨?_, Function.update_self .., ?_⟩
    · intro id x hx
      by_cases hid : id = H.id c
      · subst hid
        simp only [Function.update_self, Option.some.injEq] at hx
        exact hx ▸ ⟨hc, rfl⟩
      · simp only [Function.update_of_ne hid] at hx
        exact hnode id x hx
    · intro id x hx
      have hid : id ≠ H.id c := by
        rintro rfl
        rw [hcached] at hx
        cases hx
      simpa only [Function.update_of_ne hid] using hx

/-- Stored chunks are found under their ids. -/
lemma cacheChunks_lookup (hS : NoCollision H S) {chunks : List Bytes} (hsub : ∀ c ∈ chunks, c ∈ S)
    (hnode : CacheOk H S node) :
    (∀ c ∈ chunks, (cacheChunks H chunks node).chunkCache (H.id c) = some c) ∧
      ∀ id x, node.chunkCache id = some x → (cacheChunks H chunks node).chunkCache id = some x := by
  induction chunks generalizing node with
  | nil => exact ⟨by simp, fun _ _ h => h⟩
  | cons c cs ih =>
    obtain ⟨hok, hnew, hold⟩ := cacheChunks_single hS hnode (hsub c (by simp))
    obtain ⟨hcs, hkeep⟩ := ih (fun d hd => hsub d (by simp [hd])) hok
    rw [cacheChunks_cons]
    refine ⟨?_, fun id x hx => hkeep _ _ (hold _ _ hx)⟩
    intro d hd
    rcases List.mem_cons.mp hd with rfl | hd
    · exact hkeep _ _ hnew
    · exact hcs d hd

/-- The download of a chunk that is in the cache folder. -/
def cachedChunk (node : Node) (chunkId : JsString) : Except Exception Bytes :=
  match node.chunkCache chunkId with
  | some chunk => pure chunk
  | none => throw (.error "Chunk not found")

/-- A file that is longer than a chunk has an info chunk. -/
lemma fileChunks_of_lt (H : HashFn) {C : ℕ} (hC : 0 < C) {buf : Bytes} (h : C < buf.length) :
    fileChunks H C buf = (H.id (createChunkInfoChunk H C (chunkify C buf)),
      chunkify C buf ++ [createChunkInfoChunk H C (chunkify C buf)]) := by
  have hlen : ¬ (chunkify C buf).length ≤ 1 := by
    have := one_lt_totalChunks hC h
    rw [length_chunkify hC h]
    omega
  exact if_neg hlen

/-- A file that fits into a chunk is one. -/
lemma fileChunks_of_le (H : HashFn) {C : ℕ} (hC : 0 < C) {buf : Bytes} (h : buf.length ≤ C) :
    fileChunks H C buf = (H.id buf, [buf]) := by
  unfold fileChunks
  rw [chunkify_of_le hC h]
  rfl

/-- A file of several chunks, stored by `uploadData` in a folder without hash collisions, is
decoded from the chunk under its id. -/
theorem decodeFile_uploadData {C : ℕ} (hC : 0 < C) {buf : Bytes} (h : C < buf.length)
    (hnode : CacheOk H S node) (hsub : ∀ c ∈ (fileChunks H C buf).2, c ∈ S)
    (hS : NoCollision H S) :
    ∃ chunkInfo,
      cachedChunk (uploadData H C buf node).2 (uploadData H C buf node).1 = .ok chunkInfo ∧
      isChunkInfo chunkInfo = true ∧
      decodeFile H C (cachedChunk (uploadData H C buf node).2) chunkInfo = .ok buf := by
  have hcreate : CacheOk H S (findByIdOrCreate (fileChunks H C buf).1 node).2 := hnode
  have hstored := (cacheChunks_lookup hS hsub hcreate).1
  have hget : ∀ c ∈ (fileChunks H C buf).2,
      cachedChunk (uploadData H C buf node).2 (H.id c) = .ok c := by
    intro c hc
    unfold cachedChunk
    rw [show (uploadData H C buf node).2.chunkCache (H.id c) = some c from hstored c hc]
    rfl
  rw [fileChunks_of_lt H hC h] at hget
  have hid : (uploadData H C buf node).1 = H.id (createChunkInfoChunk H C (chunkify C buf)) := by
    rw [show (uploadData H C buf node).1 = (fileChunks H C buf).1 from rfl, fileChunks_of_lt H hC h]
  refine ⟨createChunkInfoChunk H C (chunkify C buf), ?_, isChunkInfo_createChunkInfoChunk H C _, ?_⟩
  · rw [hid]
    exact hget _ (by simp)
  · exact decodeFile_createChunkInfoChunk H hC h fun c hc => hget c (by simp [hc])

/-- Three bytes in chunks of two. -/
theorem decodeFile_uploadData_three :
    ∃ chunkInfo,
      cachedChunk (uploadData .firstBytes 2 [1, 2, 3] Node.empty).2
          (uploadData .firstBytes 2 [1, 2, 3] Node.empty).1 = .ok chunkInfo ∧
      isChunkInfo chunkInfo = true ∧
      decodeFile .firstBytes 2 (cachedChunk (uploadData .firstBytes 2 [1, 2, 3] Node.empty).2)
        chunkInfo = .ok [1, 2, 3] :=
  decodeFile_uploadData (S := {c | c ∈ (fileChunks .firstBytes 2 [1, 2, 3]).2}) (by decide)
    (by decide) (fun _ _ h => nomatch h) (fun _ h => h)
    (fun x hx y hy h => by
      have hall : ∀ x ∈ (fileChunks .firstBytes 2 [1, 2, 3]).2,
          ∀ y ∈ (fileChunks .firstBytes 2 [1, 2, 3]).2,
          HashFn.firstBytes.digest x = HashFn.firstBytes.digest y → x = y := by decide +kernel
      exact hall x hx y hy h)

end Chunks

/-! ## Runs of uploads and reads -/

/-- A call; `getChunkBinary` is what downloads give during it. -/
inductive NodeOp
  | uploadData (buf : Bytes)
  | getFile (rawId : JsString) (useCache : Bool)
      (getChunkBinary : JsString → Except Exception Bytes)
  | getFileAsReadStream (rawId : JsString) (range : Option ℕ)
      (getChunkBinary : JsString → Except Exception Bytes)

section Runs

variable {H : HashFn} {C : ℕ} {content : JsString → Bytes} {node node' : Node}
  {getChunkBinary : JsString → Except Exception Bytes}

/-- The state after a call. -/
def nodeStep (H : HashFn) (C : ℕ) (node : Node) : NodeOp → Option Node
  | .uploadData buf => some (uploadData H C buf node).2
  | .getFile rawId useCache getChunkBinary =>
    some (getFile H C getChunkBinary rawId useCache node).2
  | .getFileAsReadStream rawId range getChunkBinary =>
    some (getFileAsReadStream H C getChunkBinary rawId range node).2

/-- Downloads that succeed give the bytes the id stands for. -/
def Honest (content : JsString → Bytes) (getChunkBinary : JsString → Except Exception Bytes) :
    Prop :=
  ∀ id x, getChunkBinary id = .ok x → x = content id

/-- The cache gives what it has. -/
lemma honest_cachedChunk (node : Node) :
    Honest (fun id => (node.chunkCache id).getD []) (cachedChunk node) := by
  intro id x hx
  unfold cachedChunk at hx
  cases hc : node.chunkCache id with
  | none =>
    rw [hc] at hx
    cases hx
  | some y =>
    rw [hc] at hx
    cases hx
    simp [hc]

/-- The downloads of a call are honest. -/
def NodeOp.Honest (content : JsString → Bytes) : NodeOp → Prop
  | .uploadData _ => True
  | .getFile _ _ getChunkBinary => Storage.Honest content getChunkBinary
  | .getFileAsReadStream _ _ getChunkBinary => Storage.Honest content getChunkBinary

/-- What an id decodes to when every download succeeds. -/
def decoded (H : HashFn) (C : ℕ) (content : JsString → Bytes) (id : JsString) :
    Except Exception Bytes :=
  decodeFile H C (fun chunkId => .ok (content chunkId)) (content id)

/-- No download is in progress between calls, and a cached file is what its id decodes to. -/
structure NodeInv (H : HashFn) (C : ℕ) (content : JsString → Bytes) (node : Node) : Prop where
  idle : ∀ id file, node.files id = some file → file.dl_status ≠ .inProgress
  cached : ∀ id x, node.filesDir id = some x → decoded H C content id = .ok x

lemma NodeInv.empty : NodeInv H C content Node.empty :=
  ⟨fun _ _ h => (nomatch h), fun _ _ h => (nomatch h)⟩

/-- Honest downloads that all succeed are the contents. -/
lemma mapM_honest (hget : Honest content getChunkBinary) {ids : List JsString} {xs : List Bytes}
    (h : ids.mapM getChunkBinary = .ok xs) :
    ids.mapM (fun id => (.ok (content id) : Except Exception Bytes)) = .ok xs := by
  induction ids generalizing xs with
  | nil => exact h
  | cons id ids ih =>
    rw [List.mapM_cons] at h ⊢
    cases hx : getChunkBinary id with
    | error e =>
      rw [hx] at h
      cases h
    | ok x =>
      cases hxs : ids.mapM getChunkBinary with
      | error e =>
        rw [hx, hxs] at h
        cases h
      | ok ys =>
        rw [hx, hxs] at h
        rw [ih hxs, ← hget id x hx]
        exact h

/-- A read through honest downloads gives what the id decodes to. -/
lemma decoded_of_download (hget : Honest content getChunkBinary) {id : JsString} {x : Bytes}
    (h : (getChunkBinary id >>= decodeFile H C getChunkBinary) = .ok x) :
    decoded H C content id = .ok x := by
  cases hinfo : getChunkBinary id with
  | error e =>
    rw [hinfo] at h
    cases h
  | ok info =>
    rw [hinfo] at h
    have h : decodeFile H C getChunkBinary info = .ok x := h
    rw [decoded, ← hget id info hinfo]
    unfold decodeFile at h ⊢
    split_ifs at h ⊢ with hchunk
    · cases hparsed : parseChunkInfo H info with
      | error e =>
        rw [hparsed] at h
        cases h
      | ok parsed =>
        rw [hparsed] at h
        cases hxs : parsed.chunkIds.mapM getChunkBinary with
        | error e =>
          simp only [bind, Except.bind, hxs] at h
          cases h
        | ok xs =>
          simp only [bind, Except.bind, hxs] at h
          simp only [bind, Except.bind, mapM_honest hget hxs]
          exact h
    · exact h

/-- A row that is created keeps the invariant. -/
lemma NodeInv.findByIdOrCreate (h : NodeInv H C content node) (id : JsString) :
    NodeInv H C content (findByIdOrCreate id node).2 ∧
      (Storage.findByIdOrCreate id node).1.dl_status ≠ .inProgress := by
  have hfile : ((node.files id).getD {}).dl_status ≠ .inProgress := by
    cases hf : node.files id with
    | none => simp
    | some file => exact h.idle id file hf
  refine ⟨⟨?_, h.cached⟩, hfile⟩
  intro id' file hf
  simp only [Storage.findByIdOrCreate, Function.update_apply] at hf
  split_ifs at hf
  · cases hf
    exact hfile
  · exact h.idle id' file hf

/-- A status that ends a download keeps the invariant. -/
lemma NodeInv.setDownloadStatus (h : NodeInv H C content node) {status : FileStatus}
    (hstatus : status ≠ .inProgress) (id : JsString) :
    NodeInv H C content (setDownloadStatus status id node) := by
  refine ⟨?_, h.cached⟩
  intro id' file hf
  simp only [Storage.setDownloadStatus] at hf
  split_ifs at hf with hid
  · obtain ⟨file', hf', rfl⟩ := Option.map_eq_some_iff.mp hf
    split_ifs
    · exact h.idle _ _ hf'
    · exact hstatus
  · exact h.idle id' file hf

/-- A later status replaces the mark of a running download. -/
lemma setDownloadStatus_markFileAsInProgressDownload (status : FileStatus) (id : JsString)
    (node : Node) : setDownloadStatus status id (markFileAsInProgressDownload id node)
      = setDownloadStatus status id node := by
  simp only [markFileAsInProgressDownload, setDownloadStatus, Node.mk.injEq, and_true]
  funext id'
  by_cases hid : id' = id
  · simp only [if_pos hid, Option.map_map]
    congr 1
    funext file
    by_cases hdone : file.dl_status = .completed <;> simp [hdone]
  · simp only [if_neg hid]

/-- An upload keeps the invariant. -/
lemma NodeInv.uploadData (h : NodeInv H C content node) (buf : Bytes) :
    NodeInv H C content (uploadData H C buf node).2 := by
  have hcreate := (h.findByIdOrCreate (fileChunks H C buf).1).1
  have hfiles := cacheChunks_files (H := H) (fileChunks H C buf).2
    (Storage.findByIdOrCreate (fileChunks H C buf).1 node).2
  refine ⟨?_, ?_⟩
  · intro id file hf
    simp only [Storage.uploadData, markFileAsBeingUploaded, hfiles.1] at hf
    split_ifs at hf with hid
    · obtain ⟨file', hf', rfl⟩ := Option.map_eq_some_iff.mp hf
      split_ifs
      · exact hcreate.idle _ file' hf'
      · exact hcreate.idle _ file' hf'
    · exact hcreate.idle id file hf
  · intro id x hx
    simp only [Storage.uploadData, markFileAsBeingUploaded, hfiles.2] at hx
    exact hcreate.cached id x hx

/-- A download keeps the invariant. -/
lemma NodeInv.downloadFile (h : NodeInv H C content node) (hget : Honest content getChunkBinary)
    (id : JsString) : NodeInv H C content (downloadFile H C getChunkBinary id node).2 := by
  cases hx : getChunkBinary id >>= decodeFile H C getChunkBinary with
  | error e =>
    simp only [Storage.downloadFile, hx, markFileAsFailedDownload,
      setDownloadStatus_markFileAsInProgressDownload]
    exact h.setDownloadStatus (by decide) id
  | ok x =>
    have hnode : NodeInv H C content
        { node with filesDir := Function.update node.filesDir id (some x) } := by
      refine ⟨h.idle, ?_⟩
      intro id' x' hx'
      simp only [Function.update_apply] at hx'
      split_ifs at hx' with hid
      · cases hx'
        rw [hid]
        exact decoded_of_download hget hx
      · exact h.cached id' x' hx'
    simp only [Storage.downloadFile, hx, markFileAsCompletedDownload]
    have hmark := setDownloadStatus_markFileAsInProgressDownload .completed id
      { node with filesDir := Function.update node.filesDir id (some x) }
    exact hmark ▸ hnode.setDownloadStatus (by decide) id

/-- A call of `getFile` on an id that is refused. -/
lemma getFile_invalid {rawId : JsString} {e : Exception}
    (hvalid : validateStorageId (normalizeId rawId) = .error e) (useCache : Bool) :
    getFile H C getChunkBinary rawId useCache node = (some (.error e), node) := by
  simp only [getFile, hvalid]

variable (getChunkBinary) in
/-- Between downloads, a call of `getFile` takes the file from the cache or downloads it. -/
lemma getFile_valid (h : NodeInv H C content node) {rawId : JsString}
    (hvalid : validateStorageId (normalizeId rawId) = .ok ()) (useCache : Bool) :
    let node₁ := (Storage.findByIdOrCreate (normalizeId rawId) node).2
    (∃ x, node.filesDir (normalizeId rawId) = some x ∧
      getFile H C getChunkBinary rawId useCache node = (some (.ok x), node₁)) ∨
    getFile H C getChunkBinary rawId useCache node
      = (some (downloadFile H C getChunkBinary (normalizeId rawId) node₁).1,
        (downloadFile H C getChunkBinary (normalizeId rawId) node₁).2) := by
  intro node₁
  have hidle := (h.findByIdOrCreate (normalizeId rawId)).2
  simp only [getFile, hvalid, if_neg hidle]
  split_ifs with hcached
  · cases hx : node.filesDir (normalizeId rawId) with
    | some x =>
      have hx₁ : node₁.filesDir (normalizeId rawId) = some x := hx
      exact .inl ⟨x, rfl, by simp only [node₁, hx₁]⟩
    | none =>
      have hx₁ : node₁.filesDir (normalizeId rawId) = none := hx
      exact .inr (by simp only [node₁, hx₁])
  · exact .inr rfl

/-- Reading a file keeps the invariant. -/
lemma NodeInv.getFile (h : NodeInv H C content node) (hget : Honest content getChunkBinary)
    (rawId : JsString) (useCache : Bool) :
    NodeInv H C content (getFile H C getChunkBinary rawId useCache node).2 := by
  cases hvalid : validateStorageId (normalizeId rawId) with
  | error e =>
    rw [getFile_invalid hvalid]
    exact h
  | ok u =>
    have hcreate := (h.findByIdOrCreate (normalizeId rawId)).1
    rcases getFile_valid getChunkBinary h hvalid useCache with
      ⟨x, -, heq⟩ | heq
    · rw [heq]
      exact hcreate
    · rw [heq]
      exact hcreate.downloadFile hget _

/-- Opening a stream keeps the invariant. -/
lemma NodeInv.getFileAsReadStream (h : NodeInv H C content node) (rawId : JsString)
    (range : Option ℕ) :
    NodeInv H C content (getFileAsReadStream H C getChunkBinary rawId range node).2 := by
  have hcreate := (h.findByIdOrCreate (normalizeId rawId)).1
  unfold Storage.getFileAsReadStream
  simp only
  split
  · exact h
  · split
    · exact hcreate
    · split_ifs
      · split <;> exact hcreate
      · exact hcreate.setDownloadStatus (by decide) _

/-- Every call keeps the invariant. -/
theorem NodeInv.step (h : NodeInv H C content node) {op : NodeOp} (hop : op.Honest content)
    (hs : nodeStep H C node op = some node') : NodeInv H C content node' := by
  cases op with
  | uploadData buf =>
    cases hs
    exact h.uploadData buf
  | getFile rawId useCache getChunkBinary =>
    cases hs
    exact h.getFile hop rawId useCache
  | getFileAsReadStream rawId range getChunkBinary =>
    cases hs
    exact h.getFileAsReadStream rawId range

/-- The invariant holds at every later point. -/
theorem NodeInv.reach (h : NodeInv H C content node)
    (hreach : Reach (nodeStep H C) (fun _ op => op.Honest content) node node') :
    NodeInv H C content node' :=
  hreach.invariant h fun _ _ _ hp hop hs => hp.step hop hs

/-- A read gives what the id decodes to, from the cache or not. -/
theorem getFile_of_inv (h : NodeInv H C content node) (hget : Honest content getChunkBinary)
    {rawId : JsString} (hvalid : validateStorageId (normalizeId rawId) = .ok ())
    (useCache : Bool) {x : Bytes}
    (hx : (getChunkBinary (normalizeId rawId) >>= decodeFile H C getChunkBinary) = .ok x) :
    (getFile H C getChunkBinary rawId useCache node).1 = some (.ok x) := by
  rcases getFile_valid getChunkBinary h hvalid useCache with
    ⟨y, hy, heq⟩ | heq
  · rw [heq]
    have hxy : (.ok y : Except Exception Bytes) = .ok x :=
      (h.cached _ y hy).symm.trans (decoded_of_download hget hx)
    rw [hxy]
  · rw [heq]
    simp only [Storage.downloadFile, hx]

/-- Data of one chunk that does not read as an info chunk is read back, at any later point of
a run, as a file and as a stream. -/
theorem read_uploadData (hC : 0 < C) {buf : Bytes} (hlen : buf.length ≤ C)
    (hplain : isChunkInfo buf = false) (hzero : isZeroStorageId (H.id buf) = false)
    (hbefore : Reach (nodeStep H C) (fun _ op => op.Honest content) Node.empty node)
    (hafter : Reach (nodeStep H C) (fun _ op => op.Honest content) (uploadData H C buf node).2 node')
    (hget : Honest content getChunkBinary)
    (hchunk : getChunkBinary (uploadData H C buf node).1 = .ok buf) (useCache : Bool) :
    (getFile H C getChunkBinary (uploadData H C buf node).1 useCache node').1 = some (.ok buf) ∧
      (getFileAsReadStream H C getChunkBinary (uploadData H C buf node).1 none node').1
        = .ok (.whole { contentLength := natText buf.length } [buf]) := by
  have hid : (uploadData H C buf node).1 = H.id buf := by
    rw [show (uploadData H C buf node).1 = (fileChunks H C buf).1 from rfl, fileChunks_of_le H hC hlen]
  rw [hid] at hchunk ⊢
  have hvalid : validateStorageId (normalizeId (H.id buf)) = .ok () := by
    rw [normalizeId_id]
    exact validateStorageId_id hzero
  have hinv := ((NodeInv.empty.reach hbefore).uploadData buf).reach hafter
  have hdecode : decodeFile H C getChunkBinary buf = .ok buf := by
    unfold decodeFile
    rw [if_neg (by simp [hplain])]
    rfl
  constructor
  · refine getFile_of_inv hinv hget hvalid useCache ?_
    rw [normalizeId_id, hchunk]
    exact hdecode
  · simp only [getFileAsReadStream, validateStorageId_id hzero, normalizeId_id, hchunk, hplain,
      Bool.false_eq_true, if_false]
    rfl

/-- Three bytes stored as a single chunk are read back. -/
theorem read_uploadData_three :
    (getFile .firstBytes 4 (fun _ => .ok [1, 2, 3])
        (uploadData .firstBytes 4 [1, 2, 3] Node.empty).1 true
        (uploadData .firstBytes 4 [1, 2, 3] Node.empty).2).1 = some (.ok [1, 2, 3]) :=
  have hget : Honest (fun _ => [1, 2, 3]) (fun _ => .ok [1, 2, 3]) :=
    fun _ _ h => (Except.ok.inj h).symm
  (read_uploadData (by decide) (by decide) (by decide +kernel) (by decide +kernel) .init .init
    hget rfl true).1

/-- Data that starts with the prologue is taken for an info chunk, on both reading paths. -/
theorem read_prologue_fails :
    let buf := bufferFrom CHUNKINFO_PROLOGUE
    let up := uploadData .firstBytes 1024 buf Node.empty
    buf.length ≤ 1024 ∧
      (getFile .firstBytes 1024 (fun _ => .ok buf) up.1 true up.2).1
        = some (.error .syntaxError) ∧
      (getFileAsReadStream .firstBytes 1024 (fun _ => .ok buf) up.1 none up.2).1
        = .error .syntaxError := by
  decide +kernel

end Runs

end PointNetwork.Storage
