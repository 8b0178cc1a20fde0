import PointNetwork.Storage.ReadStreamTheorems

/-!
# The announced length of a range

A range request is answered with the length from the start to the end of the range, where an end
before the start is moved to it; a range that starts behind the last byte is so announced with one
byte, and has none. In a file of several chunks the bytes that are left out of the second chunk of
the range are announced too.

* `Delivers`: what is announced is what is pushed, or nothing is announced;
* `finished_run`: a stream that nothing disturbs, to its end;
* `contentLength_iff`: when a range request delivers.
-/

namespace PointNetwork.Storage

open Js Machine

/-! ## Requests and their length -/

/-- No download is cut off and the client stays. -/
def Faultless (_ : StreamState) : StreamEvent → Prop
  | .arrive _ _ | .read => True
  | .fail _ | .close => False

/-- Nothing more will be pushed. -/
def StreamState.Finished (st : StreamState) : Prop := st.ended = true ∨ st.failed = true

/-- The announced length of a reply is that of all that its stream pushes; or the request is
rejected. -/
def Delivers (C : ℕ) (getChunkBinary : JsString → Except Exception Bytes) :
    Except Exception ReadStream → Prop
  | .error _ => True
  | .ok (.whole reply pushed) => reply.contentLength = natText pushed.flatten.length
  | .ok (.chunked reply cs) =>
    (∃ st, Reach (streamStep C getChunkBinary cs) Faultless cs.initial st ∧ st.Finished) ∧
      ∀ st, Reach (streamStep C getChunkBinary cs) Faultless cs.initial st → st.Finished →
        reply.contentLength = natText st.pushed.flatten.length
  | .ok .unmodelled => False

/-- The files that are asked for: the data of one chunk, or of an uploaded file of several. -/
inductive Held (H : HashFn) (C : ℕ) (getChunkBinary : JsString → Except Exception Bytes)
    (buf : Bytes) : Bool → JsString → Prop
  | single {rawId : JsString} (hvalid : validateStorageId (normalizeId rawId) = .ok ())
      (hget : getChunkBinary (normalizeId rawId) = .ok buf) (hplain : isChunkInfo buf = false) :
      Held H C getChunkBinary buf false rawId
  | chunked (hlen : C < buf.length) (hzero : isZeroStorageId (fileChunks H C buf).1 = false)
      (hget : ∀ c ∈ (fileChunks H C buf).2, getChunkBinary (H.id c) = .ok c) :
      Held H C getChunkBinary buf true (fileChunks H C buf).1

/-! ## Lengths of a range -/

section

variable {C : ℕ} {buf : Bytes} {s e : ℕ}

/-- A range that starts behind the last byte ends where it starts. -/
lemma rangeEnd_of_le {size : ℕ} (hs : size ≤ s) : rangeEnd s size = s := by
  unfold rangeEnd
  omega

/-- What one chunk has of a range is as long as announced exactly when the range starts in it. -/
theorem length_whole_iff :
    (slice buf s (rangeEnd s buf.length + 1 : ℕ)).length = rangeEnd s buf.length - s + 1 ↔
      s < buf.length := by
  rw [slice_nat, List.length_drop, List.length_take]
  rcases Nat.lt_or_ge s buf.length with hs | hs
  · rw [rangeEnd_eq hs]
    omega
  · rw [rangeEnd_of_le hs]
    omega

/-- Leaving something out of parts of a list. -/
lemma flatten_map_sublist {α β : Type*} {f g : α → List β} (l : List α) (h : ∀ a, (f a).Sublist (g a)) :
    (l.map f).flatten.Sublist (l.map g).flatten := by
  induction l with
  | nil => exact List.Sublist.refl _
  | cons a l ih => exact (h a).append ih

/-- Bytes that are left out of the second chunk are missing in the length. -/
theorem length_flatten_pieces_iff (hC : 0 < C) (hse : s ≤ e) (he : e < buf.length) :
    ((List.range (e / C + 1 - s / C)).map fun j =>
        (wanted C buf s e (s / C + j)).drop (if s / C + j = s / C + 1 then skipped C buf s else 0)
      ).flatten.length = e - s + 1 ↔ e / C = s / C ∨ skipped C buf s = 0 := by
  rw [← flatten_pieces_eq_iff hC hse he]
  have hlength : ((buf.take (e + 1)).drop s).length = e - s + 1 := by
    rw [List.length_drop, List.length_take]
    omega
  have htotal : ((List.range (e / C + 1 - s / C)).map fun j => wanted C buf s e (s / C + j)).flatten
      = (buf.take (e + 1)).drop s := flatten_wanted_all hC hse
  constructor
  · intro h
    have hsub := flatten_map_sublist (List.range (e / C + 1 - s / C)) fun j =>
      List.drop_sublist (if s / C + j = s / C + 1 then skipped C buf s else 0)
        (wanted C buf s e (s / C + j))
    rw [← htotal]
    exact hsub.eq_of_length (by rw [h, htotal, hlength])
  · intro h
    rw [h, hlength]

end

/-! ## Streams without faults -/

section

variable {H : HashFn} {C : ℕ} {getChunkBinary : JsString → Except Exception Bytes}
  {cs : ChunkStream} {st : StreamState} {buf : Bytes} {s : ℕ}

/-- A download does not fail where the chunks are there. -/
theorem not_failed (hle : cs.startChunkIdx ≤ cs.endChunkIdx + 1)
    (hget : ∀ i, cs.startChunkIdx ≤ i → i ≤ cs.endChunkIdx →
      ∃ chunk, chunkAt getChunkBinary cs i = .ok chunk)
    (h : Reach (streamStep C getChunkBinary cs) Faultless cs.initial st) : st.failed = false := by
  have hkept : ∀ i (st : StreamState), (downloadChunk cs i st).failed = st.failed := by
    intro i st
    unfold downloadChunk
    split <;> rfl
  refine h.invariant_of_reach (P := fun st => st.failed = false) (hkept _ _) ?_
  intro st e st' hst hfailed hok hs
  cases e with
  | arrive i r =>
    rcases Option.ite_none_right_eq_some.mp hs with ⟨hmem, hs⟩
    -- the chunk is one of the range
    rcases StreamInv.reach hle (hst.mono fun _ _ _ => trivial) with ⟨k, -, hphase⟩
    have hrange : i = cs.startChunkIdx + k ∧ i ≤ cs.endChunkIdx := by
      cases hphase with
      | fetching hactive _ _ hle =>
        obtain rfl : i = cs.startChunkIdx + k := by simpa [hactive] using hmem
        exact ⟨rfl, hle⟩
      | paused hactive => simp [hactive] at hmem
      | ended hactive => simp [hactive] at hmem
      | stopped hactive => simp [hactive] at hmem
    rcases hget i (by omega) hrange.2 with ⟨chunk, hchunk⟩
    simp only [hchunk, Option.some.injEq] at hs
    rw [← hs]
    split
    · rw [hkept]
      cases r <;> exact hfailed
    · cases r <;> exact hfailed
  | fail i => exact hok.elim
  | read =>
    rcases Option.ite_none_left_eq_some.mp hs with ⟨-, hs⟩
    split at hs
    · cases hs
      rw [hkept]
      exact hfailed
    · cases hs
      exact hfailed
  | close => exact hok.elim

/-- A range inside the file: its stream ends, and has then pushed the pieces of its chunks. -/
theorem finished_inside {e : ℕ} (hC : 0 < C) (hlen : C < buf.length) (hs : s < buf.length)
    (hend : rangeEnd s buf.length = e)
    (hget : ∀ c ∈ chunkify C buf, getChunkBinary (H.id c) = .ok c) :
    let cs := rangeStream H C buf s e
    (∃ st, Reach (streamStep C getChunkBinary cs) Faultless cs.initial st ∧ st.Finished) ∧
      ∀ st, Reach (streamStep C getChunkBinary cs) Faultless cs.initial st → st.Finished →
        st.pushed = (List.range (e / C + 1 - s / C)).map fun j =>
          (wanted C buf s e (s / C + j)).drop
            (if s / C + j = s / C + 1 then skipped C buf s else 0) := by
  intro cs
  have hse : s ≤ e ∧ e < buf.length := hend ▸ rangeEnd_bounds hs
  have hle := (rangeStream_bounds H C buf hse.1).1
  have hchunks := exists_chunkAt_rangeStream (s := s) hC hlen hse.2 hget
  refine ⟨?_, ?_⟩
  · have hok : ∀ st i, Faultless st (.arrive i false) := fun _ _ => trivial
    rcases exists_ended (C := C) hok hchunks with ⟨st, hst, hdone⟩
    exact ⟨st, hst, Or.inl hdone⟩
  · intro st hst hfinished
    have hdone : st.ended = true := by
      rcases hfinished with hdone | hfail
      · exact hdone
      · simp [not_failed hle hchunks hst] at hfail
    exact pushed_rangeStream hC hlen hse.1 hse.2 hget (hst.mono fun _ _ _ => trivial) hdone

/-- A range behind the last byte: its stream can finish with nothing pushed. -/
theorem finished_behind (hC : 0 < C) (hlen : C < buf.length) (hs : buf.length ≤ s)
    (hget : ∀ c ∈ chunkify C buf, getChunkBinary (H.id c) = .ok c) :
    let cs := rangeStream H C buf s s
    ∃ st, Reach (streamStep C getChunkBinary cs) Faultless cs.initial st ∧ st.Finished ∧
      st.pushed.flatten = [] := by
  intro cs
  obtain ⟨i, hi⟩ : ∃ i : ℤ, i = (s / C : ℕ) := ⟨_, rfl⟩
  have hend : cs.endChunkIdx = i := hi.symm
  have hinitial : cs.initial = { active := [i] } := by
    simp [ChunkStream.initial, downloadChunk, hend, show cs.startChunkIdx = i from hi.symm]
  have hok : Faultless cs.initial (.arrive i false) := trivial
  rcases Nat.lt_or_ge (s / C) (totalChunks C buf.length) with hlt | hge
  · -- the range starts in what the last chunk could still hold
    obtain ⟨chunk, hchunk, hnil⟩ : ∃ chunk, chunkAt getChunkBinary cs i = .ok chunk ∧
        dataToPush C cs i chunk = [] := by
      refine ⟨_, hi ▸ chunkAt_rangeStream hC hlen hget hlt, ?_⟩
      have hstart := Nat.div_mul_le_self s C
      have hfrom : (s : ℤ) - i * C = (s - s / C * C : ℕ) := by
        rw [hi]
        push_cast [hstart]
        rfl
      show slice _ ((s : ℤ) - i * C) ((s : ℤ) - i * C + 1) = []
      rw [hfrom, ← Nat.cast_succ, slice_nat, slice_nat]
      refine List.drop_eq_nil_of_le ?_
      rw [List.length_take, List.length_drop, List.length_take]
      omega
    have hstep : streamStep C getChunkBinary cs cs.initial (.arrive i false)
        = some { active := [], ended := true, pushed := [[]] } := by
      rw [hinitial]
      simp [streamStep, hchunk, pushChunk, hnil, downloadChunk, hend]
    exact ⟨_, Reach.init.step hok hstep, Or.inl rfl, rfl⟩
  · -- there is no such chunk
    have hchunk : chunkAt getChunkBinary cs i = .error .rejected := by
      have hnone : cs.chunkIds[s / C]? = none := by
        refine List.getElem?_eq_none ?_
        rw [show cs.chunkIds = (chunkify C buf).map H.id from rfl, List.length_map,
          length_chunkify hC hlen]
        exact hge
      unfold chunkAt
      rw [hi, if_neg (by omega), Int.toNat_natCast, hnone]
      rfl
    have hstep : streamStep C getChunkBinary cs cs.initial (.arrive i false)
        = some { active := [], failed := true } := by
      rw [hinitial]
      simp [streamStep, hchunk]
    exact ⟨_, Reach.init.step hok hstep, Or.inr rfl, rfl⟩

/-- A range request delivers what it announces exactly when the range starts inside the file and,
in a file of several chunks, ends in the chunk it starts in or loses nothing of the second one. -/
theorem contentLength_iff (hC : 0 < C) {chunked : Bool} {rawId : JsString}
    (hheld : Held H C getChunkBinary buf chunked rawId) (s : ℕ) (node : Node) :
    Delivers C getChunkBinary (getFileAsReadStream H C getChunkBinary rawId (some s) node).1 ↔
      s < buf.length ∧ (chunked = true →
        min (s + 1048576) (buf.length - 1) / C = s / C ∨
          s % C + min C (buf.length - (s / C + 1) * C) ≤ C) := by
  cases hheld with
  | single hvalid hget hplain =>
    have hwhole : (getFileAsReadStream H C getChunkBinary rawId (some s) node).1 =
        .ok (.whole (rangeReply s buf.length)
          [slice buf s (rangeEnd s buf.length + 1 : ℕ)]) := by
      simp only [getFileAsReadStream, hvalid, hget, hplain]
      rfl
    rw [hwhole]
    simp only [Delivers, rangeReply, natText_inj, List.flatten_singleton, Bool.false_eq_true,
      false_implies, and_true]
    rw [← length_whole_iff, eq_comm]
  | chunked hlen hzero hget =>
    have hchunks := get_chunkify hC hlen hget
    rw [getFileAsReadStream_range hC hlen hzero hget s node]
    rcases Nat.lt_or_ge s buf.length with hs | hs
    · rcases rangeEnd_bounds hs with ⟨hse, he⟩
      rcases finished_inside (H := H) hC hlen hs rfl hchunks with ⟨⟨st, hst, hdone⟩, hall⟩
      have hiff := length_flatten_pieces_iff hC hse he
      rw [← rangeEnd_eq hs, ← skipped_eq_zero_iff]
      simp only [hs, true_and, forall_const]
      rw [← hiff]
      constructor
      · rintro ⟨-, h⟩
        have hlength := natText_inj.mp (h st hst hdone)
        rw [hall st hst hdone] at hlength
        exact hlength.symm
      · intro h
        refine ⟨⟨st, hst, hdone⟩, ?_⟩
        intro st' hst' hdone'
        rw [hall st' hst' hdone', h]
        rfl
    · rcases finished_behind (H := H) hC hlen hs hchunks with ⟨st, hst, hdone, hnil⟩
      rw [rangeEnd_of_le hs]
      refine iff_of_false ?_ fun h => absurd h.1 (by omega)
      rintro ⟨-, h⟩
      have hlength := natText_inj.mp (h st hst hdone)
      rw [hnil] at hlength
      simp at hlength

/-- The last two of three bytes in chunks of two. -/
theorem contentLength_iff_three :
    let node := (uploadData .firstBytes 2 [1, 2, 3] Node.empty).2
    Delivers 2 (cachedChunk node) (getFileAsReadStream .firstBytes 2 (cachedChunk node)
      (fileChunks .firstBytes 2 [1, 2, 3]).1 (some 1) node).1 := by
  intro node
  have hget : ∀ c ∈ (fileChunks .firstBytes 2 [1, 2, 3]).2,
      cachedChunk node (HashFn.firstBytes.id c) = .ok c := by decide +kernel
  have hheld : Held .firstBytes 2 (cachedChunk node) [1, 2, 3] true
      (fileChunks .firstBytes 2 [1, 2, 3]).1 := .chunked (by decide) (by decide +kernel) hget
  have hiff := contentLength_iff (by decide) hheld 1 node
  rw [hiff]
  refine ⟨by decide, fun _ => Or.inr ?_⟩
  decide

/-- A range that starts right behind three bytes is announced with one byte, and has none. -/
theorem contentLength_differs :
    let get := fun _ => Except.ok [1, 2, 3]
    let id := HashFn.firstBytes.id [1, 2, 3]
    (getFileAsReadStream .firstBytes 4 get id (some 3) Node.empty).1 = .ok (.whole
        { contentLength := js "1", contentRange := some (js "bytes 3-3/3")
          acceptRanges := some (js "bytes"), code := 206 } [[]]) ∧
      ¬ Delivers 4 get (getFileAsReadStream .firstBytes 4 get id (some 3) Node.empty).1 := by
  intro get id
  have hstream : (getFileAsReadStream .firstBytes 4 get id (some 3) Node.empty).1 = .ok (.whole
      { contentLength := js "1", contentRange := some (js "bytes 3-3/3")
        acceptRanges := some (js "bytes"), code := 206 } [[]]) := by
    decide +kernel
  refine ⟨hstream, ?_⟩
  rw [hstream]
  intro hlength
  have hne : js "1" ≠ natText 0 := by decide +kernel
  exact hne hlength

end

end PointNetwork.Storage
