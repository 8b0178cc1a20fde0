import PointNetwork.Fairness
import PointNetwork.Storage.StreamTheorems

/-!
# When the chunks of a stream are downloaded

The loop of `createReadableStream` goes from `downloadChunk` to `pushChunk` and back, or pauses
until `read` takes it up again. A `StreamSchedule` keeps every push and its result in order;
forgetting the results makes it the stream: `StreamSchedule.step_forget`.
-/

namespace PointNetwork.Storage

open Js Machine

/-- A call of `readable.push`, with its result; `eof` is `push(null)`. -/
inductive Push
  | chunk (chunkIdx : ℤ) (pushResult : Bool)
  | eof
  deriving DecidableEq

/-- The chunk of a push, `none` for the end of the stream. -/
def Push.chunkIdx : Push → Option ℤ
  | .chunk chunkIdx _ => some chunkIdx
  | .eof => none

/-- The variables of `createReadableStream`, the calls of `downloadChunk` that wait for a chunk, and
what has been pushed. -/
structure StreamSchedule where
  downloading : Bool := true
  closed : Bool := false
  lastChunkIdx : ℤ := -1
  active : List ℤ := []
  pushes : List Push := []
  failed : Bool := false
  deriving DecidableEq

namespace StreamSchedule

/-! ## The loop -/

section

variable (cs : ChunkStream)

/-- `downloadChunk` up to its first suspension. -/
def downloadChunk (chunkIdx : ℤ) (st : StreamSchedule) : StreamSchedule :=
  if chunkIdx > cs.endChunkIdx then { st with pushes := st.pushes ++ [.eof] }
  else { st with active := st.active ++ [chunkIdx] }

/-- `pushChunk`: a push that returned true pauses the download. -/
def pushChunk (chunkIdx : ℤ) (pushResult : Bool) (st : StreamSchedule) : StreamSchedule :=
  let st := { st with pushes := st.pushes ++ [.chunk chunkIdx pushResult] }
  if pushResult then { st with downloading := false, lastChunkIdx := chunkIdx } else st

/-- The stream as `createReadableStream` returns it. -/
def initial : StreamSchedule := downloadChunk cs cs.startChunkIdx {}

/-- The step on an event; `read` may be called at any time. -/
def step (st : StreamSchedule) : StreamEvent → Option StreamSchedule
  | .arrive chunkIdx pushResult =>
    if chunkIdx ∈ st.active then
      let st := pushChunk chunkIdx pushResult { st with active := st.active.erase chunkIdx }
      some (if st.downloading then downloadChunk cs (chunkIdx + 1) st else st)
    else none
  | .fail chunkIdx =>
    if chunkIdx ∈ st.active then
      some { st with active := st.active.erase chunkIdx, failed := true }
    else none
  | .read =>
    if !st.downloading && !st.closed then
      some (downloadChunk cs (st.lastChunkIdx + 1) { st with downloading := true })
    else some st
  | .close => some { st with downloading := false, closed := true }

end

/-- No download fails and the client stays. -/
def Undisturbed (_ : StreamSchedule) : StreamEvent → Prop
  | .arrive _ _ | .read => True
  | .fail _ | .close => False

/-- The chunks that were pushed, in order, and the ends of the stream. -/
def outputs (st : StreamSchedule) : List (Option ℤ) := st.pushes.map Push.chunkIdx

/-- The last push asked for more data. -/
def Asked (st : StreamSchedule) : Prop := ∃ chunkIdx, st.pushes.getLast? = some (.chunk chunkIdx true)

/-! ## The stream of a schedule -/

/-- What is pushed into the stream. -/
def pushedBytes (C : ℕ) (getChunkBinary : JsString → Except Exception Bytes) (cs : ChunkStream) :
    Push → Option Bytes
  | .chunk chunkIdx _ => some (piece C getChunkBinary cs chunkIdx)
  | .eof => none

/-- The stream without the results of its pushes. -/
def forget (C : ℕ) (getChunkBinary : JsString → Except Exception Bytes) (cs : ChunkStream)
    (st : StreamSchedule) : StreamState where
  downloading := st.downloading
  closed := st.closed
  lastChunkIdx := st.lastChunkIdx
  active := st.active
  pushed := st.pushes.filterMap (pushedBytes C getChunkBinary cs)
  ended := st.pushes.contains .eof
  failed := st.failed

section

variable {C : ℕ} {getChunkBinary : JsString → Except Exception Bytes} {cs : ChunkStream}

/-- A download that starts is the one of the stream. -/
lemma forget_downloadChunk (chunkIdx : ℤ) (st : StreamSchedule) :
    (downloadChunk cs chunkIdx st).forget C getChunkBinary cs =
      Storage.downloadChunk cs chunkIdx (st.forget C getChunkBinary cs) := by
  unfold downloadChunk Storage.downloadChunk
  split
  · simp [forget, pushedBytes]
  · rfl

/-- A chunk that is pushed is the one of the stream. -/
lemma forget_pushChunk {chunkIdx : ℤ} {chunk : Bytes}
    (hchunk : chunkAt getChunkBinary cs chunkIdx = .ok chunk) (r : Bool) (st : StreamSchedule) :
    (pushChunk chunkIdx r st).forget C getChunkBinary cs =
      Storage.pushChunk C cs chunkIdx chunk r (st.forget C getChunkBinary cs) := by
  have hpiece : piece C getChunkBinary cs chunkIdx = dataToPush C cs chunkIdx chunk := by
    unfold piece
    rw [hchunk]
  cases r <;> simp [pushChunk, Storage.pushChunk, forget, pushedBytes, hpiece]

lemma forget_initial : (initial cs).forget C getChunkBinary cs = cs.initial :=
  forget_downloadChunk _ _

/-- A step of the schedule is one of the stream, as long as the chunks that arrive are there. -/
theorem step_forget {st st' : StreamSchedule} {e : StreamEvent} (hs : step cs st e = some st')
    (hchunk : ∀ i r, e = .arrive i r → ∃ chunk, chunkAt getChunkBinary cs i = .ok chunk)
    (hread : e = .read → Push.eof ∉ st.pushes) :
    streamStep C getChunkBinary cs (st.forget C getChunkBinary cs) e =
      some (st'.forget C getChunkBinary cs) := by
  cases e with
  | arrive i r =>
    rcases hchunk i r rfl with ⟨chunk, hchunk⟩
    rcases Option.ite_none_right_eq_some.mp hs with ⟨hmem, hs⟩
    cases hs
    have hpush := forget_pushChunk (C := C) hchunk r { st with active := st.active.erase i }
    have hmem' : i ∈ (st.forget C getChunkBinary cs).active := hmem
    simp only [streamStep, if_pos hmem', hchunk]
    refine congrArg some ?_
    rw [apply_ite (forget C getChunkBinary cs), forget_downloadChunk, hpush]
    -- both go on, or both pause
    have hgoing := congrArg StreamState.downloading hpush
    exact if_congr (iff_of_eq (congrArg (· = true) hgoing.symm)) rfl rfl
  | fail i =>
    rcases Option.ite_none_right_eq_some.mp hs with ⟨hmem, hs⟩
    cases hs
    exact if_pos hmem
  | read =>
    have hended : ¬ (st.forget C getChunkBinary cs).ended = true := by
      simpa [forget] using hread rfl
    refine (if_neg hended).trans ?_
    have hs : (if !st.downloading && !st.closed then
      some (downloadChunk cs (st.lastChunkIdx + 1) { st with downloading := true })
      else some st) = some st' := hs
    split at hs
    · rename_i hresume
      cases hs
      refine (if_pos hresume).trans ?_
      rw [forget_downloadChunk]
      rfl
    · rename_i hresume
      cases hs
      exact if_neg hresume
  | close =>
    cases hs
    rfl

end

end StreamSchedule

end PointNetwork.Storage
