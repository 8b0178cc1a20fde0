import PointNetwork.Storage.FileReadTheorems
import PointNetwork.Storage.StreamTheorems

/-!
# Streams against whole files

Without a range the stream pushes whole chunks and announces the file size of the info chunk,
whereas `getFile` cuts the last chunk to that size: `stream_agrees_iff`.

With a range the slice of a chunk is taken at the offset `start - chunkIdx * CHUNK_SIZE`, which
is negative for every chunk after the first of the range. A negative offset counts from the end
of the chunk: for the second chunk of the range it lies inside the chunk unless the range starts
at a chunk boundary or the chunk is short.

* `wanted`: what a chunk has of the range; `flatten_wanted`: together that is the range;
* `slice_chunk`: what is pushed of a chunk, `skipped` bytes of the second one being left out;
* `flatten_pieces_eq_iff`: when the pieces make up the range, and `rangeRead_iff` for the call.
-/

namespace PointNetwork.Storage

open Js Machine

/-! ## Whole files -/

section Whole

variable {C : ℕ} {getChunkBinary : JsString → Except Exception Bytes}

/-- Downloads that all succeed, one by one. -/
lemma mapM_getElem? {ids : List JsString} {chunks : List Bytes}
    (h : ids.mapM getChunkBinary = .ok chunks) :
    ids.length = chunks.length ∧ ∀ i (hi : i < chunks.length),
      ∃ id, ids[i]? = some id ∧ getChunkBinary id = .ok chunks[i] := by
  induction ids generalizing chunks with
  | nil =>
    cases h
    exact ⟨rfl, fun i hi => absurd hi (Nat.not_lt_zero i)⟩
  | cons id ids ih =>
    rw [List.mapM_cons] at h
    cases hx : getChunkBinary id with
    | error e =>
      rw [hx] at h
      cases h
    | ok x =>
      cases hxs : ids.mapM getChunkBinary with
      | error e =>
        rw [hx, hxs] at h
        cases h
      | ok xs =>
        rw [hx, hxs] at h
        cases h
        obtain ⟨hlen, hget⟩ := ih hxs
        refine ⟨by simp [hlen], ?_⟩
        intro i hi
        cases i with
        | zero => exact ⟨id, rfl, hx⟩
        | succ i => exact hget i (by simpa using hi)

/-- Cutting a chunk leaves it whole when the cut lies behind it. -/
lemma slice_zero_eq_iff (b : Bytes) (stop : ℤ) :
    slice b 0 stop = b ↔ b = [] ∨ (b.length : ℤ) ≤ stop := by
  have hzero : adjustOffset 0 b.length = 0 := by simp [adjustOffset]
  have hlen : b = [] ↔ b.length = 0 := List.length_eq_zero_iff.symm
  unfold slice
  rw [hzero, List.drop_zero, List.take_eq_self_iff, hlen]
  unfold adjustOffset
  split <;> omega

/-- The size of the file that an info chunk gives, as a whole number. -/
def fileSize (filesize : Option Json) : ℤ :=
  match filesize.map Json.toNumber with
  | some (.fin n) => n.truncSub 0
  | _ => 0

/-- When the header is the length of the chunks, cutting the last one to the file size changes
nothing exactly if the chunks before it, counted as full ones, leave room for it. -/
lemma concatChunks_eq_flatten_iff {chunks : List Bytes} {filesize : Option Json}
    (hsize : sizeText filesize = natText chunks.flatten.length) :
    chunks.flatten = concatChunks C chunks filesize ↔
      (chunks.getLastD [] = [] ∨
        ((chunks.length - 1) * C + (chunks.getLastD []).length : ℕ) ≤ fileSize filesize) := by
  rcases List.eq_nil_or_concat chunks with rfl | ⟨front, last, rfl⟩
  · simp [concatChunks]
  · obtain ⟨v, rfl⟩ : ∃ v, filesize = some v := by
      cases filesize with
      | some v => exact ⟨v, rfl⟩
      | none => exact absurd hsize.symm (natText_ne_nil _)
    -- what is printed with digits only is a whole number
    obtain ⟨m, hnumber⟩ := toNumber_of_toText (v := v) hsize
    have hfile : fileSize (some v) = m := by
      simp only [fileSize, Option.map_some, hnumber, Number.truncSub_ofInt, sub_zero]
    rw [hfile]
    simp only [List.concat_eq_append, concatChunks, List.getLast?_concat, List.dropLast_concat,
      List.flatten_append, List.flatten_singleton, sliceTo, Option.map_some, hnumber,
      Number.truncSub_ofInt, List.append_cancel_left_eq, List.getLastD_concat, List.length_append,
      List.length_singleton, Nat.add_sub_cancel]
    rw [eq_comm, slice_zero_eq_iff]
    refine or_congr Iff.rfl ?_
    push_cast
    omega

variable {H : HashFn} {content : JsString → Bytes} {node : Node}

/-- Without a range the stream can end, and has then pushed the listed chunks. -/
lemma getFileAsReadStream_chunks {rawId : JsString}
    (hvalid : validateStorageId (normalizeId rawId) = .ok ()) {chunkInfo : Bytes}
    (hinfo : getChunkBinary (normalizeId rawId) = .ok chunkInfo)
    (hchunk : isChunkInfo chunkInfo = true) {parsed : ParsedChunkInfo}
    (hparsed : parseChunkInfo H chunkInfo = .ok parsed) {chunks : List Bytes}
    (hchunks : parsed.chunkIds.mapM getChunkBinary = .ok chunks) (node : Node) :
    ∃ cs, (getFileAsReadStream H C getChunkBinary rawId none node).1 =
        .ok (.chunked { contentLength := sizeText parsed.filesize } cs) ∧
      (∃ st, Reach (streamStep C getChunkBinary cs) Any cs.initial st ∧ st.ended = true) ∧
      ∀ st, Reach (streamStep C getChunkBinary cs) Any cs.initial st → st.ended = true →
        st.pushed = chunks := by
  obtain ⟨hlen, hids⟩ := mapM_getElem? hchunks
  let cs : ChunkStream := { chunkIds := parsed.chunkIds, range := none, startChunkIdx := 0,
                            endChunkIdx := parsed.chunkIds.length - 1 }
  have hat : ∀ i (hi : i < chunks.length), chunkAt getChunkBinary cs (i : ℤ) = .ok chunks[i] := by
    intro i hi
    obtain ⟨id, hid, hx⟩ := hids i hi
    unfold chunkAt
    rw [if_neg (by omega), Int.toNat_natCast, hid]
    exact hx
  refine ⟨cs, ?_, ?_, ?_⟩
  · simp only [getFileAsReadStream, hvalid, hinfo, hchunk, if_true, hparsed]
    rfl
  -- every chunk can be downloaded, so that the stream comes to its end
  · refine exists_ended (fun _ _ => trivial) ?_
    intro i h0 hi
    have h0 : 0 ≤ i := h0
    have hi : i ≤ (parsed.chunkIds.length : ℤ) - 1 := hi
    have hi' := hat i.toNat (by omega)
    rw [Int.toNat_of_nonneg h0] at hi'
    exact ⟨_, hi'⟩
  · intro st hst hend
    have hle : cs.startChunkIdx ≤ cs.endChunkIdx + 1 := by
      simp only [cs]
      omega
    rw [pushed_of_ended hle hst hend]
    -- without a range each piece is its whole chunk
    refine List.ext_getElem ?_ ?_
    · simp only [pieces, List.length_map, List.length_range, cs]
      omega
    · intro i h1 h2
      simp only [pieces, List.getElem_map, List.getElem_range, piece]
      have hi : chunkAt getChunkBinary cs (cs.startChunkIdx + (i : ℤ)) = .ok chunks[i] := by
        simpa [cs] using hat i h2
      rw [hi]
      rfl

/-- A stream without a range agrees with `getFile`, in the bytes and in the announced length,
exactly if the header is the total length of the listed chunks and the last one is not cut: it is
empty, or the file size leaves room for it behind the others, counted as full ones. -/
theorem stream_agrees_iff
    (hreach : Reach (nodeStep H C) (fun _ op => op.Honest content) Node.empty node)
    (hget : Honest content getChunkBinary) {rawId : JsString}
    (hvalid : validateStorageId (normalizeId rawId) = .ok ()) {chunkInfo : Bytes}
    (hinfo : getChunkBinary (normalizeId rawId) = .ok chunkInfo)
    (hchunk : isChunkInfo chunkInfo = true) {parsed : ParsedChunkInfo}
    (hparsed : parseChunkInfo H chunkInfo = .ok parsed) {chunks : List Bytes}
    (hchunks : parsed.chunkIds.mapM getChunkBinary = .ok chunks) (useCache : Bool) :
    ∃ fileBuffer reply cs,
      (getFile H C getChunkBinary rawId useCache node).1 = some (.ok fileBuffer) ∧
      (getFileAsReadStream H C getChunkBinary rawId none node).1 = .ok (.chunked reply cs) ∧
      (∃ st, Reach (streamStep C getChunkBinary cs) Any cs.initial st ∧ st.ended = true) ∧
      ((∀ st, Reach (streamStep C getChunkBinary cs) Any cs.initial st → st.ended = true →
          st.pushed.flatten = fileBuffer ∧ reply.contentLength = natText st.pushed.flatten.length) ↔
        (sizeText parsed.filesize = natText chunks.flatten.length ∧
          (chunks.getLastD [] = [] ∨
            ((chunks.length - 1) * C + (chunks.getLastD []).length : ℕ) ≤
              fileSize parsed.filesize))) := by
  -- both readers get the same chunks, and differ in where they cut them
  have hdecode : (getChunkBinary (normalizeId rawId) >>= decodeFile H C getChunkBinary)
      = .ok (concatChunks C chunks parsed.filesize) := by
    rw [hinfo]
    simp only [bind, Except.bind, decodeFile, hchunk, if_true, hparsed, hchunks]
    rfl
  obtain ⟨cs, hstream, hended, hpushed⟩ :=
    getFileAsReadStream_chunks hvalid hinfo hchunk hparsed hchunks node
  refine ⟨concatChunks C chunks parsed.filesize, { contentLength := sizeText parsed.filesize }, cs,
    getFile_of_inv (NodeInv.empty.reach hreach) hget hvalid useCache hdecode, hstream, hended, ?_⟩
  constructor
  · intro h
    obtain ⟨st, hst, hend⟩ := hended
    obtain ⟨hbytes, hlength⟩ := h st hst hend
    rw [hpushed st hst hend] at hbytes hlength
    exact ⟨hlength, (concatChunks_eq_flatten_iff hlength).mp hbytes⟩
  · rintro ⟨hlength, hcut⟩ st hst hend
    rw [hpushed st hst hend]
    exact ⟨(concatChunks_eq_flatten_iff hlength).mpr hcut, hlength⟩

/-- The stream of a file of three bytes in chunks of two agrees. -/
theorem stream_agrees_iff_three :
    let node := (uploadData .firstBytes 2 [1, 2, 3] Node.empty).2
    ∃ fileBuffer reply cs,
      (getFile .firstBytes 2 (cachedChunk node)
        (fileChunks .firstBytes 2 [1, 2, 3]).1 true Node.empty).1 = some (.ok fileBuffer) ∧
      (getFileAsReadStream .firstBytes 2 (cachedChunk node)
        (fileChunks .firstBytes 2 [1, 2, 3]).1 none Node.empty).1 = .ok (.chunked reply cs) ∧
      ∀ st, Reach (streamStep 2 (cachedChunk node) cs) Any cs.initial st → st.ended = true →
        st.pushed.flatten = fileBuffer ∧ reply.contentLength = natText st.pushed.flatten.length := by
  intro node
  have hvalid : validateStorageId (normalizeId (fileChunks .firstBytes 2 [1, 2, 3]).1)
      = .ok () := by decide +kernel
  have hinfo : cachedChunk node (normalizeId (fileChunks .firstBytes 2 [1, 2, 3]).1)
      = .ok (createChunkInfoChunk .firstBytes 2 [[1, 2], [3]]) := by decide +kernel
  have hchunks : ([[1, 2], [3]].map HashFn.firstBytes.id).mapM (cachedChunk node)
      = .ok [[1, 2], [3]] := by decide +kernel
  obtain ⟨fileBuffer, reply, cs, hfile, hstream, -, hiff⟩ :=
    stream_agrees_iff (H := .firstBytes) (C := 2) .init (honest_cachedChunk node) hvalid hinfo
      (isChunkInfo_createChunkInfoChunk _ _ _) (parseChunkInfo_createChunkInfoChunk _ _ _)
      hchunks true
  exact ⟨fileBuffer, reply, cs, hfile, hstream, hiff.mpr ⟨by decide +kernel, by decide⟩⟩

/-- The chunk downloads of an info chunk that lists two chunks of two bytes under the announced
size 3. -/
def twoChunks (id : JsString) : Except Exception Bytes :=
  if id = HashFn.firstBytes.id [1, 2] then .ok [1, 2]
  else if id = HashFn.firstBytes.id [3, 4] then .ok [3, 4]
  else .ok (createChunkInfoChunk .firstBytes 1 [[1, 2], [3, 4]])

/-- `getFile` cuts the last chunk to the announced size, the stream pushes all of it. -/
theorem stream_disagrees :
    let id := HashFn.firstBytes.id (createChunkInfoChunk .firstBytes 1 [[1, 2], [3, 4]])
    let cs : ChunkStream :=
      { chunkIds := [HashFn.firstBytes.id [1, 2], HashFn.firstBytes.id [3, 4]], range := none
        startChunkIdx := 0, endChunkIdx := 1 }
    (getFile .firstBytes 2 twoChunks id true Node.empty).1 = some (.ok [1, 2, 3]) ∧
      (getFileAsReadStream .firstBytes 2 twoChunks id none Node.empty).1
        = .ok (.chunked { contentLength := natText 3 } cs) ∧
      ∃ st, Reach (streamStep 2 twoChunks cs) Any cs.initial st ∧ st.ended = true ∧
        st.pushed.flatten = [1, 2, 3, 4] := by
  intro id cs
  refine ⟨by decide +kernel, by decide +kernel, { ended := true, pushed := [[1, 2], [3, 4]] }, ?_,
    rfl, rfl⟩
  exact Reach.of_run [.arrive 0 false, .arrive 1 false] (by decide +kernel)

end Whole

/-! ## Ranges -/

section Range

variable (C : ℕ) (buf : Bytes) (s e : ℕ)

/-- The bytes `s`, …, `e` of the file that lie in a chunk. -/
def wanted (i : ℕ) : Bytes := (buf.take (min (e + 1) ((i + 1) * C))).drop (max s (i * C))

/-- How many bytes of the second chunk of the range are left out. -/
def skipped : ℕ := s % C + min C (buf.length - (s / C + 1) * C) - C

variable {C buf s e}

/-- Two pieces that meet are one. -/
lemma drop_take_append {α : Type*} (l : List α) {a b c : ℕ} (hab : a ≤ b) (hbc : b ≤ c) :
    (l.take b).drop a ++ (l.take c).drop b = (l.take c).drop a := by
  have hfront : l.take b = (l.take c).take b := by rw [List.take_take, Nat.min_eq_left hbc]
  have hrest : (l.take c).drop b = ((l.take c).drop a).drop (b - a) := by
    rw [List.drop_drop, Nat.add_sub_cancel' hab]
  rw [hfront, hrest, List.drop_take, List.take_append_drop]

/-- The bytes of the range in the first `k` chunks from its start. -/
lemma flatten_wanted (hC : 0 < C) (hse : s ≤ e) (k : ℕ) (hk : k = 0 ∨ s / C + (k - 1) ≤ e / C) :
    ((List.range k).map fun i => wanted C buf s e (s / C + i)).flatten
      = (buf.take (min (e + 1) ((s / C + k) * C))).drop s := by
  induction k with
  | zero =>
    have h := Nat.div_mul_le_self s C
    have hnil : (buf.take (min (e + 1) ((s / C + 0) * C))).drop s = [] := by
      rw [Nat.add_zero (s / C)]
      refine List.drop_eq_nil_of_le ?_
      rw [List.length_take]
      omega
    rw [hnil]
    rfl
  | succ k ih =>
    rw [List.range_succ, List.map_append, List.flatten_append, ih (by omega)]
    simp only [List.map_cons, List.map_nil, List.flatten_cons, List.flatten_nil, List.append_nil]
    have hstart : (s / C + k) * C ≤ e := by
      have hle : s / C + k ≤ e / C := by omega
      exact (Nat.mul_le_mul_right C hle).trans (Nat.div_mul_le_self e C)
    have hnext : (s / C + k) * C ≤ (s / C + k + 1) * C := Nat.mul_le_mul_right C (by omega)
    have hsucc : s / C + (k + 1) = s / C + k + 1 := rfl
    rw [wanted, hsucc, Nat.min_eq_right (by omega : (s / C + k) * C ≤ e + 1)]
    rcases Nat.eq_zero_or_pos k with rfl | hpos
    · -- the range starts in this chunk
      have hle := Nat.div_mul_le_self s C
      rw [Nat.add_zero, Nat.max_eq_left hle]
      have hnil : (buf.take (s / C * C)).drop s = [] := by
        refine List.drop_eq_nil_of_le ?_
        rw [List.length_take]
        omega
      rw [hnil, List.nil_append]
    · have hs : s ≤ (s / C + k) * C := by
        have hlt := Nat.lt_div_mul_add (a := s) hC
        have hmul : s / C * C + C ≤ (s / C + k) * C := by
          rw [Nat.add_mul]
          have : C ≤ k * C := Nat.le_mul_of_pos_left C hpos
          omega
        omega
      rw [Nat.max_eq_right hs]
      exact drop_take_append buf hs (by omega)

/-- The bytes of the range in all of its chunks. -/
lemma flatten_wanted_all (hC : 0 < C) (hse : s ≤ e) :
    ((List.range (e / C + 1 - s / C)).map fun j => wanted C buf s e (s / C + j)).flatten
      = (buf.take (e + 1)).drop s := by
  have hdiv : s / C ≤ e / C := Nat.div_le_div_right hse
  rw [flatten_wanted hC hse _ (by omega)]
  have hlt := Nat.lt_div_mul_add (a := e) hC
  have hmul : (s / C + (e / C + 1 - s / C)) * C = e / C * C + C := by
    rw [Nat.add_sub_cancel' (by omega)]
    ring
  rw [hmul, Nat.min_eq_left (by omega)]

/-- The offset of the range in a chunk after the first is negative. -/
lemma adjustOffset_chunk (hC : 0 < C) (hs : s < buf.length) {i : ℕ} (hi : s / C ≤ i) :
    i * C + adjustOffset ((s : ℤ) - (i * C : ℕ)) (min C (buf.length - i * C))
      = max s (i * C) + if i = s / C + 1 then skipped C buf s else 0 := by
  have hdiv := Nat.div_add_mod' s C
  have hmod := Nat.mod_lt s hC
  obtain ⟨j, rfl⟩ := Nat.exists_eq_add_of_le hi
  unfold adjustOffset skipped
  rcases j with _ | _ | j
  · rw [Nat.add_zero, if_neg (by omega), if_neg (by omega)]
    omega
  · simp only [Nat.zero_add, Nat.add_mul, Nat.one_mul, if_true]
    rw [if_pos (by omega)]
    omega
  · have hj : 0 ≤ j * C := Nat.zero_le _
    simp only [Nat.add_mul, Nat.one_mul]
    rw [if_pos (by omega), if_neg (by omega)]
    omega

/-- What is pushed of a chunk of the range. -/
lemma slice_chunk (hC : 0 < C) (hs : s < buf.length) {i : ℕ} (hi : s / C ≤ i) (hie : i ≤ e / C) :
    slice (slice buf (i * C : ℕ) ((i + 1) * C : ℕ)) ((s : ℤ) - (i * C : ℕ))
        ((e : ℤ) - (i * C : ℕ) + 1)
      = (wanted C buf s e i).drop (if i = s / C + 1 then skipped C buf s else 0) := by
  have hstart : i * C ≤ e := (Nat.mul_le_mul_right C hie).trans (Nat.div_mul_le_self e C)
  have hstop : (e : ℤ) - (i * C : ℕ) + 1 = ((e + 1 - i * C : ℕ) : ℤ) := by omega
  have hlength : (slice buf (i * C : ℕ) ((i + 1) * C : ℕ)).length = min C (buf.length - i * C) := by
    rw [slice_nat, List.length_drop, List.length_take, Nat.add_mul, Nat.one_mul]
    omega
  -- the end of the slice is that of the range or of the chunk
  have htake : (slice buf (i * C : ℕ) ((i + 1) * C : ℕ)).take (e + 1 - i * C)
      = (buf.take (min (e + 1) ((i + 1) * C))).drop (i * C) := by
    rw [slice_nat, List.take_drop, List.take_take, Nat.add_sub_cancel' (by omega)]
  rw [hstop, slice_stop_nat, htake, hlength, wanted, List.drop_drop, List.drop_drop,
    adjustOffset_chunk hC hs hi]

/-- What a chunk of the range has of it is not empty. -/
lemma wanted_ne_nil (hC : 0 < C) (hse : s ≤ e) (he : e < buf.length) {i : ℕ} (hi : s / C ≤ i)
    (hie : i ≤ e / C) : wanted C buf s e i ≠ [] := by
  have hstart : i * C ≤ e := (Nat.mul_le_mul_right C hie).trans (Nat.div_mul_le_self e C)
  have hs : s < (i + 1) * C := by
    have hlt := Nat.lt_div_mul_add (a := s) hC
    have hmul := Nat.mul_le_mul_right C hi
    rw [Nat.add_mul, Nat.one_mul]
    omega
  have hsucc : (i + 1) * C = i * C + C := by ring
  intro hnil
  have hlen : (wanted C buf s e i).length = 0 := by rw [hnil]; rfl
  rw [wanted, List.length_drop, List.length_take] at hlen
  omega

/-- Leaving out bytes of the second chunk is seen in the length. -/
theorem flatten_pieces_eq_iff (hC : 0 < C) (hse : s ≤ e) (he : e < buf.length) :
    (((List.range (e / C + 1 - s / C)).map fun j =>
        (wanted C buf s e (s / C + j)).drop (if s / C + j = s / C + 1 then skipped C buf s else 0)
      ).flatten = (buf.take (e + 1)).drop s) ↔ (e / C = s / C ∨ skipped C buf s = 0) := by
  have hdiv : s / C ≤ e / C := Nat.div_le_div_right hse
  rw [← flatten_wanted_all hC hse]
  obtain ⟨n, hn⟩ := Nat.exists_eq_add_of_le hdiv
  rcases n with _ | n
  · have hone : e / C + 1 - s / C = 1 := by omega
    rw [hone]
    simp [hn]
  · have hcount : e / C + 1 - s / C = n + 1 + 1 := by omega
    have hne : wanted C buf s e (s / C + 1) ≠ [] :=
      wanted_ne_nil hC hse he (by omega) (by omega)
    rw [hcount, List.range_succ_eq_map, List.range_succ_eq_map]
    simp only [List.map_cons, List.map_map, List.flatten_cons, Function.comp_def, Nat.add_zero,
      Nat.succ_eq_add_one, Nat.zero_add, if_true, if_neg (show ¬ s / C = s / C + 1 by omega),
      List.drop_zero, List.append_cancel_left_eq]
    have hrest : ∀ j, (if s / C + (j + 1 + 1) = s / C + 1 then skipped C buf s else 0) = 0 :=
      fun j => if_neg (by omega)
    simp only [hrest, List.drop_zero, List.append_cancel_right_eq]
    constructor
    · intro h
      refine Or.inr ?_
      have hlen := congrArg List.length h
      have hpos := List.length_pos_of_ne_nil hne
      rw [List.length_drop] at hlen
      omega
    · intro h
      have h0 : skipped C buf s = 0 := h.resolve_left (by omega)
      rw [h0, List.drop_zero]

variable {H : HashFn} {getChunkBinary : JsString → Except Exception Bytes}

/-- The announced end of a range. -/
lemma rangeEnd_eq {size : ℕ} (hs : s < size) :
    rangeEnd s size = min (s + 1048576) (size - 1) := by
  unfold rangeEnd
  omega

/-! ### The stream of a range -/

/-- The stream of a range request on an uploaded file of several chunks. -/
def rangeStream (H : HashFn) (C : ℕ) (buf : Bytes) (s e : ℕ) : ChunkStream where
  chunkIds := (chunkify C buf).map H.id
  range := some (s, e)
  startChunkIdx := (s / C : ℕ)
  endChunkIdx := (e / C : ℕ)

/-- The chunks of the file can be downloaded. -/
lemma chunkAt_rangeStream (hC : 0 < C) (hlen : C < buf.length)
    (hget : ∀ c ∈ chunkify C buf, getChunkBinary (H.id c) = .ok c) {i : ℕ}
    (hi : i < totalChunks C buf.length) :
    chunkAt getChunkBinary (rangeStream H C buf s e) (i : ℤ)
      = .ok (slice buf (i * C : ℕ) ((i + 1) * C : ℕ)) := by
  have hmem : slice buf (i * C : ℕ) ((i + 1) * C : ℕ) ∈ chunkify C buf := by
    rw [chunkify_of_lt hC hlen]
    exact List.mem_map.mpr ⟨i, List.mem_range.mpr hi, rfl⟩
  have hid : (rangeStream H C buf s e).chunkIds[i]?
      = some (H.id (slice buf (i * C : ℕ) ((i + 1) * C : ℕ))) := by
    simp only [rangeStream, chunkify_of_lt hC hlen, List.map_map]
    rw [List.getElem?_map, List.getElem?_range hi]
    rfl
  unfold chunkAt
  rw [if_neg (by omega), Int.toNat_natCast, hid]
  exact hget _ hmem

/-- The reply and the stream of a range request. -/
lemma getFileAsReadStream_range (hC : 0 < C) (hlen : C < buf.length)
    (hzero : isZeroStorageId (fileChunks H C buf).1 = false)
    (hget : ∀ c ∈ (fileChunks H C buf).2, getChunkBinary (H.id c) = .ok c) (s : ℕ) (node : Node) :
    (getFileAsReadStream H C getChunkBinary (fileChunks H C buf).1 (some s) node).1
      = .ok (.chunked (rangeReply s buf.length)
          (rangeStream H C buf s (rangeEnd s buf.length))) := by
  rw [fileChunks_of_lt H hC hlen] at hzero hget ⊢
  have hchunk := isChunkInfo_createChunkInfoChunk H C (chunkify C buf)
  have hinfo := hget (createChunkInfoChunk H C (chunkify C buf)) (by simp)
  simp only [getFileAsReadStream, normalizeId_id, validateStorageId_id hzero, hinfo, hchunk,
    if_true, parseChunkInfo_createChunkInfoChunk, chunksToTotalLength_chunkify hC hlen,
    createReadableStream, Option.map_some, Json.toNumber]
  simp [natural?, Number.ofInt, Decimal.ofInt, rangeStream]

/-- Each byte is in one of the chunks. -/
lemma div_lt_totalChunks (hC : 0 < C) (he : e < buf.length) : e / C < totalChunks C buf.length := by
  have hb := totalChunks_bounds hC buf.length
  rw [Nat.div_lt_iff_lt_mul hC]
  omega

/-- The end of a range that starts inside the file is inside it. -/
lemma rangeEnd_bounds (hs : s < buf.length) :
    s ≤ rangeEnd s buf.length ∧ rangeEnd s buf.length < buf.length := by
  rw [rangeEnd_eq hs]
  omega

/-- The chunks of the data are given as they are stored. -/
lemma get_chunkify (hC : 0 < C) (hlen : C < buf.length)
    (hget : ∀ c ∈ (fileChunks H C buf).2, getChunkBinary (H.id c) = .ok c) :
    ∀ c ∈ chunkify C buf, getChunkBinary (H.id c) = .ok c := by
  intro c hc
  rw [fileChunks_of_lt H hC hlen] at hget
  exact hget c (List.mem_append_left _ hc)

/-- All chunks of a range inside the file can be downloaded. -/
lemma exists_chunkAt_rangeStream (hC : 0 < C) (hlen : C < buf.length) (he : e < buf.length)
    (hget : ∀ c ∈ chunkify C buf, getChunkBinary (H.id c) = .ok c) (i : ℤ)
    (h0 : (rangeStream H C buf s e).startChunkIdx ≤ i)
    (hi : i ≤ (rangeStream H C buf s e).endChunkIdx) :
    ∃ chunk, chunkAt getChunkBinary (rangeStream H C buf s e) i = .ok chunk := by
  have h0 : ((s / C : ℕ) : ℤ) ≤ i := h0
  have hi : i ≤ ((e / C : ℕ) : ℤ) := hi
  obtain ⟨j, rfl⟩ := Int.eq_ofNat_of_zero_le ((Int.natCast_nonneg (s / C)).trans h0)
  have htotal := div_lt_totalChunks hC he
  exact ⟨_, chunkAt_rangeStream hC hlen hget (by omega)⟩

/-- The chunks of a range do not end before they start. -/
lemma rangeStream_bounds (H : HashFn) (C : ℕ) (buf : Bytes) (hse : s ≤ e) :
    (rangeStream H C buf s e).startChunkIdx ≤ (rangeStream H C buf s e).endChunkIdx + 1 ∧
      ((rangeStream H C buf s e).endChunkIdx + 1 - (rangeStream H C buf s e).startChunkIdx).toNat
        = e / C + 1 - s / C := by
  have hdiv : s / C ≤ e / C := Nat.div_le_div_right hse
  simp only [rangeStream]
  omega

/-- What is pushed of the chunks of a range. -/
lemma pieces_rangeStream (hC : 0 < C) (hlen : C < buf.length) (hse : s ≤ e) (he : e < buf.length)
    (hget : ∀ c ∈ chunkify C buf, getChunkBinary (H.id c) = .ok c) :
    pieces C getChunkBinary (rangeStream H C buf s e) (e / C + 1 - s / C)
      = (List.range (e / C + 1 - s / C)).map fun j => (wanted C buf s e (s / C + j)).drop
          (if s / C + j = s / C + 1 then skipped C buf s else 0) := by
  have htotal := div_lt_totalChunks hC he
  refine List.map_congr_left ?_
  intro j hj
  have hj := List.mem_range.mp hj
  have hi : chunkAt getChunkBinary (rangeStream H C buf s e)
      ((rangeStream H C buf s e).startChunkIdx + (j : ℤ))
      = .ok (slice buf ((s / C + j) * C : ℕ) ((s / C + j + 1) * C : ℕ)) := by
    have := chunkAt_rangeStream (s := s) (e := e) hC hlen hget (i := s / C + j) (by omega)
    rwa [Nat.cast_add] at this
  have hle₁ : s / C ≤ s / C + j := by omega
  have hle₂ : s / C + j ≤ e / C := by omega
  rw [piece, hi, ← slice_chunk hC (by omega) hle₁ hle₂]
  simp [dataToPush, rangeStream]

/-- What is pushed of a range once its stream has ended. -/
lemma pushed_rangeStream (hC : 0 < C) (hlen : C < buf.length) (hse : s ≤ e) (he : e < buf.length)
    (hget : ∀ c ∈ chunkify C buf, getChunkBinary (H.id c) = .ok c) {st : StreamState}
    (hst : Reach (streamStep C getChunkBinary (rangeStream H C buf s e)) Any
      (rangeStream H C buf s e).initial st) (hend : st.ended = true) :
    st.pushed = (List.range (e / C + 1 - s / C)).map fun j => (wanted C buf s e (s / C + j)).drop
      (if s / C + j = s / C + 1 then skipped C buf s else 0) := by
  have hbounds := rangeStream_bounds H C buf hse
  rw [pushed_of_ended hbounds.1 hst hend, hbounds.2]
  exact pieces_rangeStream hC hlen hse he hget

/-- Nothing is skipped when the first chunk that is asked for ends within one chunk size. -/
lemma skipped_eq_zero_iff :
    skipped C buf s = 0 ↔ s % C + min C (buf.length - (s / C + 1) * C) ≤ C := by
  unfold skipped
  omega

/-- A range request on a file of several chunks gives the announced bytes, and those that the
same contents in a single chunk would give, exactly if the range ends in the chunk it starts
in, or no byte of its second chunk is left out. -/
theorem rangeRead_iff (hC : 0 < C) (hlen : C < buf.length) (hs : s < buf.length)
    (hzero : isZeroStorageId (fileChunks H C buf).1 = false)
    (hget : ∀ c ∈ (fileChunks H C buf).2, getChunkBinary (H.id c) = .ok c) (node : Node) :
    ∃ reply cs,
      (getFileAsReadStream H C getChunkBinary (fileChunks H C buf).1 (some s) node).1
        = .ok (.chunked reply cs) ∧
      reply = (serveReadableStreamWithFullData buf (some s)).1 ∧
      reply.contentRange = some (js "bytes " ++ natText s ++ js "-" ++
        natText (min (s + 1048576) (buf.length - 1)) ++ js "/" ++ natText buf.length) ∧
      (∃ st, Reach (streamStep C getChunkBinary cs) Any cs.initial st ∧ st.ended = true) ∧
      ((∀ st, Reach (streamStep C getChunkBinary cs) Any cs.initial st → st.ended = true →
          st.pushed.flatten = (buf.take (min (s + 1048576) (buf.length - 1) + 1)).drop s ∧
          st.pushed.flatten = (serveReadableStreamWithFullData buf (some s)).2.flatten) ↔
        (min (s + 1048576) (buf.length - 1) / C = s / C ∨
          s % C + min C (buf.length - (s / C + 1) * C) ≤ C)) := by
  rw [← rangeEnd_eq hs]
  generalize he : rangeEnd s buf.length = e
  have hse : s ≤ e ∧ e < buf.length := he ▸ rangeEnd_bounds hs
  have hsingle : (serveReadableStreamWithFullData buf (some s)).2.flatten
      = (buf.take (e + 1)).drop s := by
    simp only [serveReadableStreamWithFullData, List.flatten_singleton, he, slice_nat]
  have hchunks := get_chunkify hC hlen hget
  let cs := rangeStream H C buf s e
  have hended : ∃ st, Reach (streamStep C getChunkBinary cs) Any cs.initial st ∧ st.ended = true :=
    exists_ended (fun _ _ => trivial) (exists_chunkAt_rangeStream hC hlen hse.2 hchunks)
  have hpushed : ∀ st, Reach (streamStep C getChunkBinary cs) Any cs.initial st →
      st.ended = true → st.pushed = _ := fun st hst hend =>
    pushed_rangeStream hC hlen hse.1 hse.2 hchunks hst hend
  refine ⟨rangeReply s buf.length, cs, ?_, rfl, ?_, hended, ?_⟩
  · have hrange := getFileAsReadStream_range hC hlen hzero hget s node
    rwa [he] at hrange
  · rw [rangeReply, he]
  -- whether the pieces make up the range depends on what the second chunk leaves out
  · have hiff := flatten_pieces_eq_iff hC hse.1 hse.2
    rw [skipped_eq_zero_iff] at hiff
    rw [hsingle, ← hiff]
    constructor
    · intro h
      obtain ⟨st, hst, hend⟩ := hended
      rw [← hpushed st hst hend]
      exact (h st hst hend).1
    · intro h st hst hend
      rw [hpushed st hst hend]
      exact ⟨h, h⟩

/-- Two of three bytes in chunks of two. -/
theorem rangeRead_iff_three :
    let node := (uploadData .firstBytes 2 [1, 2, 3] Node.empty).2
    ∃ reply cs,
      (getFileAsReadStream .firstBytes 2 (cachedChunk node) (fileChunks .firstBytes 2 [1, 2, 3]).1
        (some 1) node).1 = .ok (.chunked reply cs) ∧
      ∀ st, Reach (streamStep 2 (cachedChunk node) cs) Any cs.initial st → st.ended = true →
        st.pushed.flatten = [2, 3] := by
  intro node
  have hget : ∀ c ∈ (fileChunks .firstBytes 2 [1, 2, 3]).2,
      cachedChunk node (HashFn.firstBytes.id c) = .ok c := by decide +kernel
  obtain ⟨reply, cs, hstream, -, -, -, hiff⟩ :=
    rangeRead_iff (s := 1) (by decide) (by decide) (by decide) (by decide +kernel) hget node
  exact ⟨reply, cs, hstream, fun st hst hend => (hiff.mpr (by decide) st hst hend).1⟩

/-- A range from the second byte on loses the first byte of the second chunk. -/
theorem rangeRead_loses_byte :
    let node := (uploadData .firstBytes 2 [1, 2, 3, 4, 5] Node.empty).2
    let cs : ChunkStream :=
      { chunkIds := [[1, 2], [3, 4], [5]].map HashFn.firstBytes.id, range := some (1, 4)
        startChunkIdx := 0, endChunkIdx := 2 }
    (getFileAsReadStream .firstBytes 2 (cachedChunk node)
        (fileChunks .firstBytes 2 [1, 2, 3, 4, 5]).1 (some 1) node).1
      = .ok (.chunked (rangeReply 1 5) cs) ∧
    (serveReadableStreamWithFullData [1, 2, 3, 4, 5] (some 1)).2.flatten = [2, 3, 4, 5] ∧
    ∃ st, Reach (streamStep 2 (cachedChunk node) cs) Any cs.initial st ∧ st.ended = true ∧
      st.pushed.flatten = [2, 4, 5] := by
  intro node cs
  refine ⟨by decide +kernel, by decide, { ended := true, pushed := [[2], [4], [5]] }, ?_,
    rfl, rfl⟩
  exact Reach.of_run [.arrive 0 false, .arrive 1 false, .arrive 2 false] (by decide +kernel)

end Range

end PointNetwork.Storage
