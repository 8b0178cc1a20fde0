import PointNetwork.Storage.ChunkInfoTheorems
import PointNetwork.Storage.Stream

/-!
# Streams push the pieces of their chunks in order

* `StreamInv`: what has been pushed is the pieces of the first chunks, and at most one
  download runs, of the next chunk; `StreamInv.step` is one event, `StreamInv.reach` a run;
* `pushed_of_ended`: a stream that has ended has pushed a piece of every chunk of its range;
* `exists_ended`: a stream whose chunks can be downloaded can end.
-/

namespace PointNetwork.Storage

open Js Machine

section Run

variable {C : ℕ} {getChunkBinary : JsString → Except Exception Bytes} {cs : ChunkStream}

/-- The piece of a chunk that goes into the stream. -/
def piece (C : ℕ) (getChunkBinary : JsString → Except Exception Bytes) (cs : ChunkStream)
    (chunkIdx : ℤ) : Bytes :=
  match chunkAt getChunkBinary cs chunkIdx with
  | .ok chunk => dataToPush C cs chunkIdx chunk
  | .error _ => []

/-- The pieces of the first `k` chunks from the start of the range. -/
def pieces (C : ℕ) (getChunkBinary : JsString → Except Exception Bytes) (cs : ChunkStream)
    (k : ℕ) : List Bytes :=
  (List.range k).map fun i : ℕ => piece C getChunkBinary cs (cs.startChunkIdx + i)

/-- The next piece comes behind the first ones. -/
lemma pieces_succ (k : ℕ) : pieces C getChunkBinary cs (k + 1)
    = pieces C getChunkBinary cs k ++ [piece C getChunkBinary cs (cs.startChunkIdx + k)] := by
  rw [pieces, List.range_succ, List.map_append]
  rfl

/-- Where a stream stands whose next chunk is `next`. -/
inductive Phase (cs : ChunkStream) (next : ℤ) (st : StreamState) : Prop
  /-- The chunk is being downloaded. -/
  | fetching (hactive : st.active = [next]) (hended : st.ended = false)
      (hgoing : st.downloading = true ∨ st.closed = true) (hle : next ≤ cs.endChunkIdx)
  /-- A push that returned true has paused the download. -/
  | paused (hactive : st.active = []) (hended : st.ended = false)
      (hpaused : st.downloading = false) (hlast : st.lastChunkIdx + 1 = next)
      (hle : next ≤ cs.endChunkIdx + 1)
  | ended (hactive : st.active = []) (hended : st.ended = true)
      (heq : next = cs.endChunkIdx + 1)
  /-- A download has failed or the client has gone. -/
  | stopped (hactive : st.active = []) (hended : st.ended = false)
      (hgoing : st.downloading = true ∨ st.closed = true)

/-- What holds of a stream at any time. -/
def StreamInv (C : ℕ) (getChunkBinary : JsString → Except Exception Bytes) (cs : ChunkStream)
    (st : StreamState) : Prop :=
  ∃ k : ℕ, st.pushed = pieces C getChunkBinary cs k ∧ Phase cs (cs.startChunkIdx + k) st

/-- Starting the download of the next chunk, or ending the stream. -/
lemma phase_downloadChunk {st : StreamState} {next : ℤ} (hactive : st.active = [])
    (hended : st.ended = false) (hgoing : st.downloading = true)
    (hle : next ≤ cs.endChunkIdx + 1) : Phase cs next (downloadChunk cs next st) := by
  unfold downloadChunk
  by_cases h : next > cs.endChunkIdx
  · rw [if_pos h]
    exact .ended hactive rfl (by omega)
  · rw [if_neg h]
    exact .fetching (by simp [hactive]) hended (.inl hgoing) (by omega)

@[simp] lemma pushed_downloadChunk (chunkIdx : ℤ) (st : StreamState) :
    (downloadChunk cs chunkIdx st).pushed = st.pushed := by
  unfold downloadChunk
  split <;> rfl

theorem StreamInv.initial (hle : cs.startChunkIdx ≤ cs.endChunkIdx + 1) :
    StreamInv C getChunkBinary cs cs.initial := by
  refine ⟨0, by simp [ChunkStream.initial, pieces], ?_⟩
  rw [Nat.cast_zero, add_zero]
  exact phase_downloadChunk rfl rfl rfl hle

/-- A chunk has arrived. -/
lemma StreamInv.arrive {st : StreamState} {k : ℕ} {r : Bool} {chunk : Bytes}
    (hpushed : st.pushed = pieces C getChunkBinary cs k)
    (hactive : st.active = [cs.startChunkIdx + k]) (hended : st.ended = false)
    (hgoing : st.downloading = true ∨ st.closed = true)
    (hle : cs.startChunkIdx + k ≤ cs.endChunkIdx)
    (hchunk : chunkAt getChunkBinary cs (cs.startChunkIdx + k) = .ok chunk) :
    let st' := pushChunk C cs (cs.startChunkIdx + k) chunk r
      { st with active := st.active.erase (cs.startChunkIdx + k) }
    StreamInv C getChunkBinary cs
      (if st'.downloading then downloadChunk cs (cs.startChunkIdx + k + 1) st' else st') := by
  have hpiece : pieces C getChunkBinary cs (k + 1)
      = st.pushed ++ [dataToPush C cs (cs.startChunkIdx + k) chunk] := by
    rw [pieces_succ, hpushed, piece, hchunk]
  have hnext : cs.startChunkIdx + ((k + 1 : ℕ) : ℤ) = cs.startChunkIdx + k + 1 := by
    push_cast
    ring
  refine ⟨k + 1, ?_, ?_⟩
  · rw [hpiece]
    cases r <;> cases st.downloading <;> simp [pushChunk]
  · rw [hnext]
    cases r with
    | true => exact .paused (by simp [pushChunk, hactive]) hended rfl rfl (by omega)
    | false =>
      cases hd : st.downloading with
      | true =>
        simp only [pushChunk, Bool.false_eq_true, if_false, if_true]
        exact phase_downloadChunk (by simp [hactive]) hended rfl (by omega)
      | false =>
        have hclosed : st.closed = true := hgoing.resolve_left (by simp [hd])
        simp only [pushChunk, Bool.false_eq_true, if_false]
        exact .stopped (by simp [hactive]) hended (.inr hclosed)

/-- Every event keeps the invariant. -/
theorem StreamInv.step {st st' : StreamState} {e : StreamEvent}
    (h : StreamInv C getChunkBinary cs st)
    (hs : streamStep C getChunkBinary cs st e = some st') :
    StreamInv C getChunkBinary cs st' := by
  obtain ⟨k, hpushed, hphase⟩ := h
  cases e with
  | arrive chunkIdx r =>
    obtain ⟨hmem, hs⟩ := Option.ite_none_right_eq_some.mp hs
    cases hphase with
    -- one chunk at most is on its way
    | fetching hactive hended hgoing hle =>
      obtain rfl : chunkIdx = cs.startChunkIdx + k := by simpa [hactive] using hmem
      cases hchunk : chunkAt getChunkBinary cs (cs.startChunkIdx + k) with
      | ok chunk =>
        simp only [hchunk, Option.some.injEq] at hs
        rw [← hs]
        exact StreamInv.arrive hpushed hactive hended hgoing hle hchunk
      | error err =>
        simp only [hchunk, Option.some.injEq] at hs
        rw [← hs]
        exact ⟨k, hpushed, .stopped (by simp [hactive]) hended hgoing⟩
    | paused hactive => simp [hactive] at hmem
    | ended hactive => simp [hactive] at hmem
    | stopped hactive => simp [hactive] at hmem
  | fail chunkIdx =>
    obtain ⟨hmem, hs⟩ := Option.ite_none_right_eq_some.mp hs
    cases hphase with
    | fetching hactive hended hgoing hle =>
      cases hs
      obtain rfl : chunkIdx = cs.startChunkIdx + k := by simpa [hactive] using hmem
      exact ⟨k, hpushed, .stopped (by simp [hactive]) hended hgoing⟩
    | paused hactive => simp [hactive] at hmem
    | ended hactive => simp [hactive] at hmem
    | stopped hactive => simp [hactive] at hmem
  | read =>
    obtain ⟨hended', hs⟩ := Option.ite_none_left_eq_some.mp hs
    by_cases hresume : (!st.downloading && !st.closed) = true
    · rw [if_pos hresume] at hs
      cases hs
      simp only [Bool.and_eq_true, Bool.not_eq_true'] at hresume
      cases hphase with
      | fetching _ _ hgoing => simp [hresume.1, hresume.2] at hgoing
      -- a paused stream goes on behind the chunk that it has pushed last
      | paused hactive hended _ hlast hle =>
        refine ⟨k, by simpa using hpushed, ?_⟩
        rw [hlast]
        exact phase_downloadChunk hactive hended rfl hle
      | ended _ hended => exact absurd hended hended'
      | stopped _ _ hgoing => simp [hresume.1, hresume.2] at hgoing
    · rw [if_neg hresume] at hs
      cases hs
      exact ⟨k, hpushed, hphase⟩
  | close =>
    cases hs
    refine ⟨k, hpushed, ?_⟩
    cases hphase with
    | fetching hactive hended _ hle => exact .fetching hactive hended (.inr rfl) hle
    | paused hactive hended _ hlast hle => exact .paused hactive hended rfl hlast hle
    | ended hactive hended heq => exact .ended hactive hended heq
    | stopped hactive hended _ => exact .stopped hactive hended (.inr rfl)

/-- The invariant holds in every reachable state. -/
theorem StreamInv.reach {st : StreamState} (hle : cs.startChunkIdx ≤ cs.endChunkIdx + 1)
    (h : Reach (streamStep C getChunkBinary cs) Any cs.initial st) :
    StreamInv C getChunkBinary cs st :=
  h.invariant (StreamInv.initial hle) fun _ _ _ hp _ hs => hp.step hs

/-- A stream that has ended has pushed a piece of every chunk of its range, in order. -/
theorem pushed_of_ended {st : StreamState} (hle : cs.startChunkIdx ≤ cs.endChunkIdx + 1)
    (h : Reach (streamStep C getChunkBinary cs) Any cs.initial st) (hended : st.ended = true) :
    st.pushed = pieces C getChunkBinary cs (cs.endChunkIdx + 1 - cs.startChunkIdx).toNat := by
  obtain ⟨k, hpushed, hphase⟩ := StreamInv.reach hle h
  have hk : (cs.endChunkIdx + 1 - cs.startChunkIdx).toNat = k := by
    cases hphase with
    | fetching _ h' => simp [hended] at h'
    | paused _ h' => simp [hended] at h'
    | ended _ _ heq => omega
    | stopped _ h' => simp [hended] at h'
  rw [hk, hpushed]

/-- From the download of any chunk on, a stream whose chunks can be downloaded can end. -/
lemma exists_ended_from {ok : StreamState → StreamEvent → Prop}
    (hok : ∀ st i, ok st (.arrive i false)) (hget : ∀ i, cs.startChunkIdx ≤ i → i ≤ cs.endChunkIdx →
    ∃ chunk, chunkAt getChunkBinary cs i = .ok chunk) (n : ℕ) :
    ∀ (st : StreamState) (next : ℤ), (cs.endChunkIdx - next).toNat = n →
      cs.startChunkIdx ≤ next → next ≤ cs.endChunkIdx → st.active = [next] →
      st.downloading = true →
      ∃ st', Reach (streamStep C getChunkBinary cs) ok st st' ∧ st'.ended = true := by
  induction n with
  | zero =>
    intro st next hn hstart hle hactive hgoing
    obtain ⟨chunk, hchunk⟩ := hget next hstart hle
    have hlast : next + 1 > cs.endChunkIdx := by omega
    have hstep : streamStep C getChunkBinary cs st (.arrive next false)
        = some { st with active := [], ended := true
                         pushed := st.pushed ++ [dataToPush C cs next chunk] } := by
      simp [streamStep, hactive, hchunk, pushChunk, hgoing, downloadChunk, hlast]
    exact ⟨_, Reach.init.step (hok _ _) hstep, rfl⟩
  | succ n ih =>
    intro st next hn hstart hle hactive hgoing
    obtain ⟨chunk, hchunk⟩ := hget next hstart hle
    have hmore : ¬ (next + 1 > cs.endChunkIdx) := by omega
    have hstep : streamStep C getChunkBinary cs st (.arrive next false)
        = some { st with active := [next + 1]
                         pushed := st.pushed ++ [dataToPush C cs next chunk] } := by
      simp [streamStep, hactive, hchunk, pushChunk, hgoing, downloadChunk, hmore]
    obtain ⟨st', hreach, hended⟩ := ih { st with active := [next + 1]
                                                 pushed := st.pushed ++ [dataToPush C cs next chunk] }
      (next + 1) (by omega) (by omega) (by omega) rfl hgoing
    exact ⟨st', (Reach.init.step (hok _ _) hstep).trans hreach, hended⟩

/-- A stream whose chunks can be downloaded can end, with nothing but arrivals. -/
theorem exists_ended {ok : StreamState → StreamEvent → Prop}
    (hok : ∀ st i, ok st (.arrive i false)) (hget : ∀ i, cs.startChunkIdx ≤ i → i ≤ cs.endChunkIdx →
    ∃ chunk, chunkAt getChunkBinary cs i = .ok chunk) :
    ∃ st, Reach (streamStep C getChunkBinary cs) ok cs.initial st ∧ st.ended = true := by
  by_cases h : cs.startChunkIdx > cs.endChunkIdx
  · exact ⟨cs.initial, .init, by simp [ChunkStream.initial, downloadChunk, h]⟩
  · exact exists_ended_from hok hget _ cs.initial cs.startChunkIdx rfl (by omega) (by omega)
      (by simp [ChunkStream.initial, downloadChunk, h])
      (by simp [ChunkStream.initial, downloadChunk, h])

end Run

end PointNetwork.Storage
