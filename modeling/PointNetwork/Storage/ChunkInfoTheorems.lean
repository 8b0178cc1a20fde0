import PointNetwork.Storage.ChunkInfo

/-!
# A chunked file is read back

* `flatten_chunkify` / `chunksToTotalLength_chunkify`: the chunks are the file, in order, and
  the size written into the info chunk is the file's;
* `parseChunkInfo_createChunkInfoChunk`: an info chunk is parsed to the fields it was made of;
* `decodeFile_createChunkInfoChunk`: `getFile` decodes the info chunk to the file.
-/

namespace PointNetwork.Storage

open Js

/-! ## Pieces of a buffer -/

/-- Consecutive pieces of `C` bytes make up the front of the buffer. -/
lemma flatten_slices (b : Bytes) (C n : ℕ) :
    ((List.range n).map fun i => slice b (i * C : ℕ) ((i + 1) * C : ℕ)).flatten
      = b.take (n * C) := by
  induction n with
  | zero => simp
  | succ n ih =>
    rw [List.range_succ, List.map_append, List.flatten_append, ih]
    simp only [List.map_cons, List.map_nil, List.flatten_cons, List.flatten_nil, List.append_nil]
    rw [slice_nat]
    have htake : b.take (n * C) = (b.take ((n + 1) * C)).take (n * C) := by
      rw [List.take_take, Nat.min_eq_left (Nat.mul_le_mul_right C (by omega))]
    rw [htake, List.take_append_drop]

section Chunkify

variable {C : ℕ}

/-- The number of chunks is the quotient rounded up. -/
lemma totalChunks_bounds (hC : 0 < C) (length : ℕ) :
    length ≤ totalChunks C length * C ∧ totalChunks C length * C < length + C := by
  unfold totalChunks
  have hdiv := Nat.div_add_mod (length + C - 1) C
  have hmod := Nat.mod_lt (length + C - 1) hC
  rw [Nat.mul_comm] at hdiv
  omega

/-- A buffer longer than a chunk has at least two chunks. -/
lemma one_lt_totalChunks (hC : 0 < C) {length : ℕ} (h : C < length) :
    1 < totalChunks C length := by
  have hb := totalChunks_bounds hC length
  by_contra hle
  have : totalChunks C length * C ≤ 1 * C := Nat.mul_le_mul_right C (by omega)
  omega

/-- A buffer that is longer than a chunk is cut into slices. -/
lemma chunkify_of_lt (hC : 0 < C) {buf : Bytes} (h : C < buf.length) :
    chunkify C buf = (List.range (totalChunks C buf.length)).map fun i =>
      slice buf (i * C : ℕ) ((i + 1) * C : ℕ) := by
  have := one_lt_totalChunks hC h
  unfold chunkify
  rw [if_neg (by omega)]

/-- There are as many chunks as the length needs. -/
lemma length_chunkify (hC : 0 < C) {buf : Bytes} (h : C < buf.length) :
    (chunkify C buf).length = totalChunks C buf.length := by
  rw [chunkify_of_lt hC h, List.length_map, List.length_range]

/-- A buffer that is no longer than a chunk is one. -/
lemma chunkify_of_le (hC : 0 < C) {buf : Bytes} (h : buf.length ≤ C) : chunkify C buf = [buf] := by
  have hb := totalChunks_bounds hC buf.length
  unfold chunkify
  rw [if_pos]
  by_contra hle
  have : 2 * C ≤ totalChunks C buf.length * C := Nat.mul_le_mul_right C (by omega)
  omega

/-- The chunks of a buffer, one after the other. -/
lemma flatten_chunkify (hC : 0 < C) (buf : Bytes) : (chunkify C buf).flatten = buf := by
  by_cases h : C < buf.length
  · rw [chunkify_of_lt hC h, flatten_slices,
      List.take_of_length_le (totalChunks_bounds hC buf.length).1]
  · rw [chunkify_of_le hC (by omega)]
    simp

/-- The last chunk starts after the full ones. -/
lemma chunkify_split (hC : 0 < C) {buf : Bytes} (h : C < buf.length) :
    ∃ front, chunkify C buf = front ++ [buf.drop ((totalChunks C buf.length - 1) * C)] ∧
      front.length = totalChunks C buf.length - 1 ∧
      front.flatten = buf.take ((totalChunks C buf.length - 1) * C) := by
  obtain ⟨n, hn⟩ : ∃ n, totalChunks C buf.length = n + 1 :=
    ⟨_, (Nat.succ_pred_eq_of_pos (by have := one_lt_totalChunks hC h; omega)).symm⟩
  have hb := (totalChunks_bounds hC buf.length).1
  rw [hn] at hb
  refine ⟨(List.range n).map fun i => slice buf (i * C : ℕ) ((i + 1) * C : ℕ), ?_, ?_, ?_⟩
  · rw [chunkify_of_lt hC h, hn, List.range_succ, List.map_append, List.map_singleton, slice_nat,
      List.take_of_length_le hb, Nat.add_sub_cancel]
  · simp [hn]
  · rw [flatten_slices, hn, Nat.add_sub_cancel]

/-- The size the info chunk announces is the size of the file. -/
lemma chunksToTotalLength_chunkify (hC : 0 < C) {buf : Bytes} (h : C < buf.length) :
    chunksToTotalLength C (chunkify C buf) = buf.length := by
  obtain ⟨front, hfront, hlen, -⟩ := chunkify_split hC h
  have hb := totalChunks_bounds hC buf.length
  have h1 := one_lt_totalChunks hC h
  have hsub : (totalChunks C buf.length - 1) * C = totalChunks C buf.length * C - C := by
    rw [Nat.sub_mul, Nat.one_mul]
  unfold chunksToTotalLength
  rw [hfront, List.getLastD_concat, List.length_append, List.length_drop, hlen, List.length_singleton,
    Nat.add_sub_cancel, hsub]
  have : C ≤ totalChunks C buf.length * C := Nat.le_mul_of_pos_left C (by omega)
  omega

/-- Concatenating the chunks under the announced size gives the file. -/
theorem concatChunks_chunkify (hC : 0 < C) {buf : Bytes} (h : C < buf.length) :
    concatChunks C (chunkify C buf) (some (.num (.ofInt buf.length))) = buf := by
  obtain ⟨front, hfront, hlen, hflat⟩ := chunkify_split hC h
  have hb := totalChunks_bounds hC buf.length
  have hsub : (totalChunks C buf.length - 1) * C = totalChunks C buf.length * C - C := by
    rw [Nat.sub_mul, Nat.one_mul]
  have hle : (totalChunks C buf.length - 1) * C ≤ buf.length := by omega
  have hlast : (buf.drop ((totalChunks C buf.length - 1) * C)).take
      (buf.length - (totalChunks C buf.length - 1) * C)
      = buf.drop ((totalChunks C buf.length - 1) * C) :=
    List.take_of_length_le (by rw [List.length_drop])
  unfold concatChunks
  rw [hfront, List.getLast?_concat]
  simp only [List.dropLast_concat, List.length_append, List.length_singleton, Nat.add_sub_cancel,
    hlen, hflat, sliceTo, Option.map_some, Json.toNumber, Number.truncSub_ofInt]
  rw [← Nat.cast_sub hle, ← Nat.cast_zero (R := ℤ), slice_nat, List.drop_zero,
    hlast, List.take_append_drop]

end Chunkify

/-! ## The info chunk -/

section Info

variable (H : HashFn) (C : ℕ) (chunks : List Bytes)

lemma canonicalList_str {α : Type*} (f : α → JsString) (xs : List α) :
    canonicalList (xs.map fun x => .str (f x)) = true := by
  induction xs with
  | nil => rfl
  | cons x xs ih => simp [canonicalList, Json.canonical, ih]

/-- The content of the info chunk can be read back. -/
lemma canonical_chunkInfoContents : (chunkInfoContents H C chunks).canonical = true := by
  have hkeys : ∀ a b c d e : Json, orderedKeys [(js "type", a), (js "chunks", b), (js "hash", c),
      (js "filesize", d), (js "merkle", e)] = true := by
    intro a b c d e
    have hunit : orderedKeys [(js "type", ()), (js "chunks", ()), (js "hash", ()),
      (js "filesize", ()), (js "merkle", ())] = true := by decide
    rw [← hunit]
    exact orderedKeys_congr rfl
  simp only [chunkInfoContents, Json.canonical, canonicalProps, hkeys, canonicalList_str,
    Bool.and_self]

/-- The info chunk is text, so that it is decoded to what was encoded. -/
lemma bufferToString_createChunkInfoChunk :
    bufferToString (createChunkInfoChunk H C chunks)
      = CHUNKINFO_PROLOGUE ++ (chunkInfoContents H C chunks).stringify := by
  have hprologue : WellFormed CHUNKINFO_PROLOGUE := by decide
  exact (hprologue.append (wellFormed_stringify _)).bufferToString_eq

/-- An info chunk passes the prologue test. -/
theorem isChunkInfo_createChunkInfoChunk :
    isChunkInfo (createChunkInfoChunk H C chunks) = true := by
  rw [isChunkInfo, bufferToString_createChunkInfoChunk, List.isPrefixOf_iff_prefix]
  exact List.prefix_append _ _

lemma stringElements_str (ss : List JsString) :
    stringElements (some (.arr (ss.map Json.str))) = .ok ss := by
  unfold stringElements
  simp only
  induction ss with
  | nil => rfl
  | cons s ss ih =>
    rw [List.map_cons, List.mapM_cons, ih]
    rfl

/-- An info chunk is parsed to the fields it was made of. -/
theorem parseChunkInfo_createChunkInfoChunk :
    parseChunkInfo H (createChunkInfoChunk H C chunks) = .ok
      { type := js "file", hashType := js "keccak256", chunkIds := chunks.map H.id,
        filesize := some (.num (.ofInt (chunksToTotalLength C chunks))),
        merkle := some (.arr ((merkle H.digest (buffersToHashes H chunks)).map
          fun x => .str (toHex x))), isValid := true } := by
  have hids : (chunks.map H.id).map fromHex = buffersToHashes H chunks := by
    simp [buffersToHashes, HashFn.id, Function.comp_def]
  have hchunks : (buffersToHashes H chunks).map (fun b => Json.str (toHex b))
      = (chunks.map H.id).map Json.str := by
    simp [buffersToHashes, HashFn.id, Function.comp_def]
  generalize hm : merkle H.digest (buffersToHashes H chunks) = m
  have hfields : ∀ key v, [(js "type", Json.str (js "file")),
      (js "chunks", .arr ((chunks.map H.id).map Json.str)),
      (js "hash", .str (js "keccak256")),
      (js "filesize", .num (.ofInt (chunksToTotalLength C chunks))),
      (js "merkle", .arr (m.map fun x => .str (toHex x)))].lookup key = v →
      readField (chunkInfoContents H C chunks) key = .ok v := by
    intro key v hv
    rw [chunkInfoContents, hchunks, hm, readField, hv]
    rfl
  have hequal : areScalarArraysEqual (m.map toHex) (some (.arr (m.map fun x => .str (toHex x))))
      = .ok true := by
    simp only [areScalarArraysEqual, List.map_map, Function.comp_def, decide_true]
    rfl
  unfold parseChunkInfo
  simp only [bufferToString_createChunkInfoChunk, List.drop_left,
    parse_stringify (canonical_chunkInfoContents H C chunks)]
  rw [hfields (js "type") (some (.str (js "file"))) rfl,
    hfields (js "hash") (some (.str (js "keccak256"))) rfl,
    hfields (js "chunks") (some (.arr ((chunks.map H.id).map Json.str))) rfl,
    hfields (js "filesize") (some (.num (.ofInt (chunksToTotalLength C chunks)))) rfl,
    hfields (js "merkle") (some (.arr (m.map fun x => .str (toHex x)))) rfl]
  simp only [bind, Except.bind, stringElements_str, hids, hm, hequal]
  rfl

end Info

/-! ## Decoding -/

/-- The info chunk of a file is decoded to the file, whatever the store holds besides its
chunks. -/
theorem decodeFile_createChunkInfoChunk (H : HashFn) {C : ℕ} (hC : 0 < C) {buf : Bytes}
    (h : C < buf.length) {getChunkBinary : JsString → Except Exception Bytes}
    (hget : ∀ c ∈ chunkify C buf, getChunkBinary (H.id c) = .ok c) :
    decodeFile H C getChunkBinary (createChunkInfoChunk H C (chunkify C buf)) = .ok buf := by
  have hchunks : ∀ cs : List Bytes, (∀ c ∈ cs, getChunkBinary (H.id c) = .ok c) →
      (cs.map H.id).mapM getChunkBinary = .ok cs := by
    intro cs
    induction cs with
    | nil => intro _; rfl
    | cons c cs ih =>
      intro hcs
      rw [List.map_cons, List.mapM_cons, hcs c (by simp), ih fun d hd => hcs d (by simp [hd])]
      rfl
  unfold decodeFile
  rw [if_pos (isChunkInfo_createChunkInfoChunk H C _), parseChunkInfo_createChunkInfoChunk]
  simp only [bind, Except.bind, hchunks _ hget, chunksToTotalLength_chunkify hC h,
    concatChunks_chunkify hC h]
  rfl

end PointNetwork.Storage
