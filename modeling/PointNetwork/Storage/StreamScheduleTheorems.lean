import PointNetwork.Storage.StreamSchedule

/-!
# Chunks are pushed in order, and all of them

Nothing fails and the client stays. Then one chunk is being downloaded, or the last push asked for
more data and the next `read` goes on with the next chunk, or everything has been pushed
(`StreamSchedule.Inv`). Each event does one of four things (`StreamSchedule.Change`).

* `StreamSchedule.reach_forget`: the states of a schedule are those of its stream;
* `StreamSchedule.schedule_in_order`: what has been pushed at any time, and in the end of a fair
  execution.
-/

namespace PointNetwork.Storage

open Js Machine

/-- The first `k` chunks of the range. -/
def ChunkStream.firstChunks (cs : ChunkStream) (k : ℕ) : List (Option ℤ) :=
  (List.range k).map fun i : ℕ => some (cs.startChunkIdx + i)

/-- All chunks of the range, and the end of the stream. -/
def ChunkStream.inOrder (cs : ChunkStream) : List (Option ℤ) :=
  cs.firstChunks (cs.endChunkIdx + 1 - cs.startChunkIdx).toNat ++ [none]

namespace StreamSchedule

variable {cs : ChunkStream} {st st' : StreamSchedule} {e : StreamEvent} {k : ℕ}

/-- The next chunk comes behind the first ones. -/
lemma firstChunks_succ (k : ℕ) :
    cs.firstChunks (k + 1) = cs.firstChunks k ++ [some (cs.startChunkIdx + k)] := by
  unfold ChunkStream.firstChunks
  rw [List.range_succ, List.map_append]
  rfl

@[simp] lemma length_firstChunks (k : ℕ) : (cs.firstChunks k).length = k := by
  simp [ChunkStream.firstChunks]

lemma none_notMem_firstChunks (k : ℕ) : none ∉ cs.firstChunks k := by
  simp [ChunkStream.firstChunks]

/-- The first chunks are the beginning of all. -/
lemma firstChunks_prefix_inOrder (hle : cs.startChunkIdx + k ≤ cs.endChunkIdx + 1) :
    cs.firstChunks k <+: cs.inOrder := by
  have hk : k ≤ (cs.endChunkIdx + 1 - cs.startChunkIdx).toNat := by omega
  unfold ChunkStream.inOrder ChunkStream.firstChunks
  rcases Nat.exists_eq_add_of_le hk with ⟨n, hn⟩
  rw [hn, List.range_add, List.map_append, List.append_assoc]
  exact List.prefix_append _ _

/-! ## One event -/

/-- Where a schedule stands that has pushed `k` chunks. -/
inductive Phase (cs : ChunkStream) (k : ℕ) (st : StreamSchedule) : Prop
  /-- The next chunk is being downloaded. -/
  | fetching (hactive : st.active = [cs.startChunkIdx + k]) (hpushed : st.outputs = cs.firstChunks k)
      (hgoing : st.downloading = true) (hle : cs.startChunkIdx + k ≤ cs.endChunkIdx)
  /-- The last push asked for more. -/
  | paused (hactive : st.active = []) (hpushed : st.outputs = cs.firstChunks k)
      (hpaused : st.downloading = false) (hasked : st.Asked)
      (hlast : st.lastChunkIdx + 1 = cs.startChunkIdx + k)
      (hle : cs.startChunkIdx + k ≤ cs.endChunkIdx + 1)
  | ended (hactive : st.active = []) (hpushed : st.outputs = cs.inOrder)
      (hgoing : st.downloading = true)

/-- What holds of a schedule at any time. -/
structure Inv (cs : ChunkStream) (st : StreamSchedule) : Prop where
  opened : st.closed = false
  phase : ∃ k, Phase cs k st

/-- The download of the next chunk, or the end. -/
lemma phase_downloadChunk (hactive : st.active = []) (hpushed : st.outputs = cs.firstChunks k)
    (hgoing : st.downloading = true) (hle : k ≤ (cs.endChunkIdx + 1 - cs.startChunkIdx).toNat) :
    Phase cs k (downloadChunk cs (cs.startChunkIdx + k) st) := by
  unfold downloadChunk
  split
  · rename_i hend
    have hk : k = (cs.endChunkIdx + 1 - cs.startChunkIdx).toNat := by omega
    refine .ended hactive ?_ hgoing
    unfold outputs at hpushed ⊢
    rw [List.map_append, hpushed, hk]
    rfl
  · exact .fetching (by simp [hactive]) hpushed hgoing (by omega)

@[simp] lemma closed_downloadChunk (chunkIdx : ℤ) (st : StreamSchedule) :
    (downloadChunk cs chunkIdx st).closed = st.closed := by
  unfold downloadChunk
  split <;> rfl

@[simp] lemma downloading_downloadChunk (chunkIdx : ℤ) (st : StreamSchedule) :
    (downloadChunk cs chunkIdx st).downloading = st.downloading := by
  unfold downloadChunk
  split <;> rfl

theorem Inv.initial : Inv cs (initial cs) := by
  refine ⟨closed_downloadChunk _ _, 0, ?_⟩
  have h : Phase cs 0 (downloadChunk cs (cs.startChunkIdx + (0 : ℕ)) {}) :=
    phase_downloadChunk rfl rfl rfl (Nat.zero_le _)
  rwa [Nat.cast_zero, add_zero] at h

/-- What an event does. -/
inductive Change (cs : ChunkStream) (st : StreamSchedule) : StreamEvent → StreamSchedule → Prop
  /-- The chunk is pushed and the next one is downloaded at once. -/
  | goOn (k : ℕ) (h : Phase cs k st) (hactive : st.active = [cs.startChunkIdx + k]) :
      Change cs st (.arrive (cs.startChunkIdx + k) false)
        (downloadChunk cs (cs.startChunkIdx + (k + 1 : ℕ)) { st with
          active := [], pushes := st.pushes ++ [.chunk (cs.startChunkIdx + k) false] })
  /-- The chunk is pushed, and more data are asked for. -/
  | pause (k : ℕ) (h : Phase cs k st) (hactive : st.active = [cs.startChunkIdx + k]) :
      Change cs st (.arrive (cs.startChunkIdx + k) true)
        { st with active := [], pushes := st.pushes ++ [.chunk (cs.startChunkIdx + k) true]
                  downloading := false, lastChunkIdx := cs.startChunkIdx + k }
  | resume (k : ℕ) (h : Phase cs k st) (hpaused : st.downloading = false) :
      Change cs st .read (downloadChunk cs (cs.startChunkIdx + k) { st with downloading := true })
  | ignore (hgoing : st.downloading = true) : Change cs st .read st

/-- Every event is one of the four. -/
theorem Inv.change (h : Inv cs st) (hok : Undisturbed st e) (hs : step cs st e = some st') :
    Change cs st e st' := by
  rcases h with ⟨hopen, k, hphase⟩
  cases e with
  | arrive i r =>
    rcases Option.ite_none_right_eq_some.mp hs with ⟨hmem, hs⟩
    cases hs
    cases hphase with
    | fetching hactive hpushed hgoing hle =>
      obtain rfl : i = cs.startChunkIdx + k := by simpa [hactive] using hmem
      have hphase : Phase cs k st := .fetching hactive hpushed hgoing hle
      cases r with
      | false =>
        have hchange := Change.goOn k hphase hactive
        rw [Nat.cast_add, Nat.cast_one, ← add_assoc] at hchange
        simpa [pushChunk, hgoing, hactive] using hchange
      | true => simpa [pushChunk, hactive] using Change.pause k hphase hactive
    -- otherwise no chunk is on its way
    | paused hactive => simp [hactive] at hmem
    | ended hactive => simp [hactive] at hmem
  | fail i => exact hok.elim
  | read =>
    have hs : (if !st.downloading && !st.closed then
      some (downloadChunk cs (st.lastChunkIdx + 1) { st with downloading := true })
      else some st) = some st' := hs
    rcases hgoing : st.downloading
    · have hresume : (!st.downloading && !st.closed) = true := by
        rw [hgoing, hopen]
        rfl
      rw [if_pos hresume] at hs
      cases hs
      -- only a paused stream resumes, behind the chunk that it has pushed last
      have hlast : st.lastChunkIdx + 1 = cs.startChunkIdx + k := by
        cases hphase with
        | fetching _ _ hgoing' => simp [hgoing] at hgoing'
        | paused _ _ _ _ hlast => exact hlast
        | ended _ _ hgoing' => simp [hgoing] at hgoing'
      rw [hlast]
      exact Change.resume k hphase hgoing
    · rw [hgoing] at hs
      cases hs
      exact Change.ignore hgoing
  | close => exact hok.elim

/-- The outputs when a chunk is pushed. -/
lemma outputs_push {active : List ℤ} {downloading : Bool} {lastChunkIdx : ℤ} {r : Bool}
    (hpushed : st.outputs = cs.firstChunks k) :
    outputs { st with active, downloading, lastChunkIdx
                      pushes := st.pushes ++ [.chunk (cs.startChunkIdx + k) r] } =
      cs.firstChunks (k + 1) := by
  rw [firstChunks_succ, ← hpushed]
  simp [outputs, Push.chunkIdx]

/-- What is known while a chunk is being downloaded. -/
lemma Phase.of_active (h : Phase cs k st) (hactive : st.active = [cs.startChunkIdx + k]) :
    st.outputs = cs.firstChunks k ∧ st.downloading = true ∧
      cs.startChunkIdx + k ≤ cs.endChunkIdx := by
  cases h with
  | fetching _ hpushed hgoing hle => exact ⟨hpushed, hgoing, hle⟩
  | paused hactive' => simp [hactive] at hactive'
  | ended hactive' => simp [hactive] at hactive'

/-- What is known during a pause. -/
lemma Phase.of_paused (h : Phase cs k st) (hpaused : st.downloading = false) :
    st.active = [] ∧ st.outputs = cs.firstChunks k ∧ st.Asked ∧
      cs.startChunkIdx + k ≤ cs.endChunkIdx + 1 := by
  cases h with
  | fetching _ _ hgoing => simp [hpaused] at hgoing
  | paused hactive hpushed _ hasked _ hle => exact ⟨hactive, hpushed, hasked, hle⟩
  | ended _ _ hgoing => simp [hpaused] at hgoing

/-- Every event keeps the invariant. -/
theorem Inv.step (h : Inv cs st) (hok : Undisturbed st e) (hs : step cs st e = some st') :
    Inv cs st' := by
  cases h.change hok hs with
  | goOn k hphase hactive =>
    rcases hphase.of_active hactive with ⟨hpushed, hgoing, hle⟩
    refine ⟨(closed_downloadChunk _ _).trans h.opened, k + 1, ?_⟩
    exact phase_downloadChunk rfl (outputs_push hpushed) hgoing (by omega)
  | pause k hphase hactive =>
    rcases hphase.of_active hactive with ⟨hpushed, hgoing, hle⟩
    refine ⟨h.opened, k + 1, ?_⟩
    exact .paused rfl (outputs_push hpushed) rfl ⟨_, List.getLast?_concat⟩
      (by push_cast; ring) (by push_cast; omega)
  | resume k hphase hpaused =>
    rcases hphase.of_paused hpaused with ⟨hactive, hpushed, -, hle⟩
    refine ⟨(closed_downloadChunk _ _).trans h.opened, k, ?_⟩
    exact phase_downloadChunk hactive hpushed rfl (by omega)
  | ignore _ => exact h

/-- The invariant holds in every reachable state. -/
theorem Inv.reach (h : Reach (StreamSchedule.step cs) Undisturbed (StreamSchedule.initial cs) st) :
    Inv cs st :=
  h.invariant Inv.initial fun _ _ _ hp hok hs => hp.step hok hs

/-- When the chunks of the range can be downloaded, forgetting the results of the pushes leads to
the states of the stream. -/
theorem reach_forget {C : ℕ} {getChunkBinary : JsString → Except Exception Bytes}
    (hget : ∀ i, cs.startChunkIdx ≤ i → i ≤ cs.endChunkIdx →
      ∃ chunk, chunkAt getChunkBinary cs i = .ok chunk)
    (h : Reach (StreamSchedule.step cs) Undisturbed (StreamSchedule.initial cs) st) :
    Reach (streamStep C getChunkBinary cs) Any cs.initial (st.forget C getChunkBinary cs) := by
  induction h with
  | init =>
    rw [forget_initial]
    exact .init
  | @step st st' e hst hok hs ih =>
    cases (Inv.reach hst).change hok hs with
    | goOn k hphase hactive | pause k hphase hactive =>
      have hle := (hphase.of_active hactive).2.2
      refine ih.step trivial (step_forget hs ?_ (by simp))
      intro i r he
      cases he
      exact hget _ (by omega) hle
    | resume k hphase hpaused =>
      refine ih.step trivial (step_forget hs (by simp) fun _ => ?_)
      -- the stream has not ended
      intro heof
      have hnone : none ∈ st.outputs := List.mem_map.mpr ⟨_, heof, rfl⟩
      rw [(hphase.of_paused hpaused).2.1] at hnone
      exact none_notMem_firstChunks _ hnone
    | ignore _ => exact ih

/-! ## Whole executions -/

/-- Downloads end, and a push that asks for more is followed by a `read`. -/
structure Fair (x : Execution (StreamSchedule.step cs) Undisturbed (StreamSchedule.initial cs)) : Prop where
  arrives : ∀ n, ∀ i ∈ (x.state n).active, ∃ m, n ≤ m ∧ ∃ r, x.event m = some (.arrive i r)
  reads : ∀ n i, x.event n = some (.arrive i true) → ∃ m, n < m ∧ x.event m = some .read

variable {x : Execution (StreamSchedule.step cs) Undisturbed (StreamSchedule.initial cs)}

/-- A pause has begun with a push that asked for more, and there was no `read` since. -/
lemma paused_since (n : ℕ) (hpaused : (x.state n).downloading = false) :
    ∃ m, m < n ∧ (∃ i, x.event m = some (.arrive i true)) ∧
      ∀ l, m < l → l < n → x.event l ≠ some .read := by
  induction n with
  | zero =>
    rw [x.start] at hpaused
    simp [StreamSchedule.initial] at hpaused
  | succ n ih =>
    -- the pause has begun before, and nothing has ended it now
    have hbefore : (x.state n).downloading = false → x.event n ≠ some .read →
        ∃ m, m < n + 1 ∧ (∃ i, x.event m = some (.arrive i true)) ∧
          ∀ l, m < l → l < n + 1 → x.event l ≠ some .read := by
      intro h hread
      rcases ih h with ⟨m, hm, hasked, hno⟩
      refine ⟨m, by omega, hasked, ?_⟩
      intro l hml hln
      rcases Nat.lt_succ_iff_lt_or_eq.mp hln with hlt | rfl
      · exact hno l hml hlt
      · exact hread
    rcases he : x.event n with _ | e
    · rw [x.idle n he] at hpaused
      exact hbefore hpaused (by simp [he])
    · rcases x.next n e he with ⟨hok, hs⟩
      have hchange := (Inv.reach (x.reach n)).change hok hs
      generalize x.state (n + 1) = st' at hchange hpaused
      cases hchange with
      | goOn k hphase hactive =>
        have hgoing := (hphase.of_active hactive).2.1
        rw [downloading_downloadChunk] at hpaused
        simp [hgoing] at hpaused
      | pause k hphase hactive =>
        exact ⟨n, Nat.lt_succ_self n, ⟨_, he⟩, fun l hml hln => absurd hln (by omega)⟩
      | resume k hphase _ =>
        rw [downloading_downloadChunk] at hpaused
        cases hpaused
      | ignore hgoing => simp [hgoing] at hpaused

/-- How much there is to do: two for each push, and one for the end of a pause. -/
def rank (cs : ChunkStream) (st : StreamSchedule) : ℕ :=
  2 * (cs.inOrder.length - st.outputs.length) + if st.downloading then 0 else 1

/-- A download that starts makes the rank no higher. -/
lemma rank_downloadChunk_le (chunkIdx : ℤ) (st : StreamSchedule) :
    rank cs (downloadChunk cs chunkIdx st) ≤ rank cs st := by
  unfold downloadChunk
  split
  · simp only [rank, outputs, List.map_append, List.length_append]
    omega
  · exact le_refl _

/-- Every event but a `read` that is ignored leaves less to do. -/
lemma Change.rank_lt (h : Change cs st e st') : rank cs st' < rank cs st ∨
    e = .read ∧ st.downloading = true ∧ st' = st := by
  have hlength : cs.inOrder.length = (cs.endChunkIdx + 1 - cs.startChunkIdx).toNat + 1 := by
    simp [ChunkStream.inOrder]
  cases h with
  | goOn k hphase hactive =>
    rcases hphase.of_active hactive with ⟨hpushed, hgoing, hle⟩
    refine Or.inl ((rank_downloadChunk_le _ _).trans_lt ?_)
    simp only [rank, outputs_push hpushed, hpushed, length_firstChunks, hgoing, if_true]
    omega
  | pause k hphase hactive =>
    rcases hphase.of_active hactive with ⟨hpushed, hgoing, hle⟩
    refine Or.inl ?_
    simp only [rank, outputs_push hpushed, hpushed, length_firstChunks, hgoing, if_true]
    simp only [Bool.false_eq_true, if_false]
    omega
  | resume k hphase hpaused =>
    refine Or.inl ((rank_downloadChunk_le _ _).trans_lt ?_)
    simp [rank, hpaused, outputs]
  | ignore hgoing => exact Or.inr ⟨rfl, hgoing, rfl⟩

/-- The stream waits for a chunk, or for a `read`. -/
def Waits : Bool → StreamSchedule → Prop
  | true, st => st.active ≠ []
  | false, st => st.downloading = false

/-- What the stream waits for happens. -/
def Comes : Bool → StreamEvent → Prop
  | true, .arrive _ _ | false, .read => True
  | _, _ => False

/-- A fair execution is weakly fair for the pushes. -/
lemma Fair.weaklyFair (hfair : Fair x) (b : Bool) : x.WeaklyFair (Waits b) (Comes b) := by
  intro n hwaits
  cases b with
  | true =>
    rcases List.exists_mem_of_ne_nil _ (hwaits n le_rfl) with ⟨i, hi⟩
    rcases hfair.arrives n i hi with ⟨m, hm, r, he⟩
    exact ⟨m, hm, _, he, trivial⟩
  | false =>
    rcases paused_since n (hwaits n le_rfl) with ⟨l, hl, ⟨i, hi⟩, hno⟩
    rcases hfair.reads l i hi with ⟨m, hm, he⟩
    -- the `read` is not one of those before the pause is looked at
    have hnm : n ≤ m := Nat.le_of_not_lt fun hlt => hno m hm hlt he
    exact ⟨m, hnm, _, he, trivial⟩

/-- In the end of every fair execution all chunks and the end of the stream have been pushed. -/
theorem eventually_inOrder (hfair : Fair x) : ∃ n, (x.state n).outputs = cs.inOrder := by
  refine x.eventually (rank cs) hfair.weaklyFair (P := fun st => st.outputs = cs.inOrder) ?_ ?_
  · intro st hst hnot
    rcases (Inv.reach hst).phase with ⟨k, hphase⟩
    cases hphase with
    | fetching hactive => exact ⟨true, by simp [Waits, hactive]⟩
    | paused _ _ hpaused => exact ⟨false, hpaused⟩
    | ended _ hpushed => exact absurd hpushed hnot
  · intro st e st' b hst _ hwaits hok hs
    rcases ((Inv.reach hst).change hok hs).rank_lt with hlt | ⟨rfl, hgoing, rfl⟩
    · exact Or.inl hlt
    · refine Or.inr ⟨rfl, hwaits, ?_⟩
      cases b with
      | true => exact id
      | false =>
        -- a `read` during a pause is not ignored
        simp [Waits, hgoing] at hwaits

/-- What has been pushed is the first chunks of the range, or all of it. -/
lemma Phase.outputs_grow (h : Phase cs k st) : st.outputs <+: cs.inOrder := by
  cases h with
  | fetching _ hpushed _ hle =>
    rw [hpushed]
    exact firstChunks_prefix_inOrder (by omega)
  | paused _ hpushed _ _ _ hle =>
    rw [hpushed]
    exact firstChunks_prefix_inOrder hle
  | ended _ hpushed =>
    rw [hpushed]

/-- A download that starts takes no output away. -/
lemma outputs_downloadChunk {outs : List (Option ℤ)} {chunkIdx : ℤ} (h : outs <+: st.outputs) :
    outs <+: (downloadChunk cs chunkIdx st).outputs := by
  refine h.trans ?_
  unfold downloadChunk
  split
  · simp [outputs]
  · exact List.prefix_refl _

/-- What has been pushed stays pushed. -/
lemma Change.outputs_grow (h : Change cs st e st') : st.outputs <+: st'.outputs := by
  have hpush : ∀ push : Push, st.outputs <+: (st.pushes ++ [push]).map Push.chunkIdx := by
    intro push
    rw [List.map_append]
    exact List.prefix_append _ _
  cases h with
  | goOn k => exact outputs_downloadChunk (hpush _)
  | pause k => exact hpush _
  | resume k => exact outputs_downloadChunk (List.prefix_refl _)
  | ignore _ => exact List.prefix_refl _

/-- Nothing is pushed after the end of the stream. -/
lemma outputs_of_inOrder {n m : ℕ} (h : (x.state n).outputs = cs.inOrder) (hnm : n ≤ m) :
    (x.state m).outputs = cs.inOrder := by
  have hkept : cs.inOrder <+: (x.state m).outputs := by
    induction m, hnm using Nat.le_induction with
    | base => rw [h]
    | succ m _ ih =>
      rcases he : x.event m with _ | e
      · rwa [x.idle m he]
      · rcases x.next m e he with ⟨hok, hs⟩
        exact ih.trans ((Inv.reach (x.reach m)).change hok hs).outputs_grow
  rcases (Inv.reach (x.reach m)).phase with ⟨k, hphase⟩
  exact hphase.outputs_grow.eq_of_length_le hkept.length_le

/-- While no download fails and the client stays, whatever the pushes return and whenever `read` is
called: at most one chunk is being downloaded, the next one; the chunks are pushed in order and once
each, and then the end of the stream; before it a chunk is being downloaded, or the last push asked
for more and the `read` that follows goes on with the next chunk. When downloads end and the `read`s
come, everything is pushed. -/
theorem schedule_in_order (cs : ChunkStream) :
    (∀ st, Reach (StreamSchedule.step cs) Undisturbed (StreamSchedule.initial cs) st →
      st.outputs <+: cs.inOrder ∧
      (st.active = [] ∨ st.active = [cs.startChunkIdx + st.outputs.length]) ∧
      (none ∉ st.outputs →
        st.active = [cs.startChunkIdx + st.outputs.length] ∨
        st.Asked ∧ StreamSchedule.step cs st .read = some (downloadChunk cs
          (cs.startChunkIdx + st.outputs.length) { st with downloading := true }))) ∧
    ∀ x : Execution (StreamSchedule.step cs) Undisturbed (StreamSchedule.initial cs), Fair x →
      ∃ n, ∀ m, n ≤ m → (x.state m).outputs = cs.inOrder := by
  refine ⟨?_, ?_⟩
  · intro st hst
    rcases Inv.reach hst with ⟨hopen, k, hphase⟩
    refine ⟨hphase.outputs_grow, ?_⟩
    cases hphase with
    | fetching hactive hpushed hgoing hle =>
      rw [hpushed, length_firstChunks]
      exact ⟨Or.inr hactive, fun _ => Or.inl hactive⟩
    | paused hactive hpushed hpaused hasked hlast hle =>
      rw [hpushed, length_firstChunks]
      refine ⟨Or.inl hactive, fun _ => Or.inr ⟨hasked, ?_⟩⟩
      have hresume : (!st.downloading && !st.closed) = true := by
        rw [hpaused, hopen]
        rfl
      rw [← hlast]
      exact if_pos hresume
    | ended hactive hpushed hgoing =>
      refine ⟨Or.inl hactive, fun hend => absurd ?_ hend⟩
      simp [hpushed, ChunkStream.inOrder]
  · intro x hfair
    rcases eventually_inOrder hfair with ⟨n, hn⟩
    exact ⟨n, fun m hnm => outputs_of_inOrder hn hnm⟩

/-- A stream of two chunks. -/
def twoChunks : ChunkStream :=
  { chunkIds := [js "first", js "second"], range := none, startChunkIdx := 0, endChunkIdx := 1 }

/-- After the push of the first chunk the second one is downloaded at once; the push of this one asks
for more, and the `read` ends the stream. -/
def twoChunksExecution :
    Execution (StreamSchedule.step twoChunks) Undisturbed (StreamSchedule.initial twoChunks) where
  state
    | 0 => StreamSchedule.initial twoChunks
    | 1 => ⟨true, false, -1, [1], [.chunk 0 false], false⟩
    | 2 => ⟨false, false, 1, [], [.chunk 0 false, .chunk 1 true], false⟩
    | _ => ⟨true, false, 1, [], [.chunk 0 false, .chunk 1 true, .eof], false⟩
  event
    | 0 => some (.arrive 0 false)
    | 1 => some (.arrive 1 true)
    | 2 => some .read
    | _ => none
  start := rfl
  idle := by
    intro n hn
    match n with
    | 0 => cases hn
    | 1 => cases hn
    | 2 => cases hn
    | _ + 3 => rfl
  next := by
    intro n e hn
    match n with
    | 0 =>
      cases hn
      exact ⟨trivial, by decide⟩
    | 1 =>
      cases hn
      exact ⟨trivial, by decide⟩
    | 2 =>
      cases hn
      exact ⟨trivial, by decide⟩
    | _ + 3 => cases hn

theorem schedule_in_order_two :
    ∃ n, ∀ m, n ≤ m → (twoChunksExecution.state m).outputs = [some 0, some 1, none] := by
  have hfair : Fair twoChunksExecution := by
    refine ⟨?_, ?_⟩
    · intro n i hi
      match n with
      | 0 =>
        obtain rfl : i = 0 := List.mem_singleton.mp hi
        exact ⟨0, le_rfl, false, rfl⟩
      | 1 =>
        obtain rfl : i = 1 := List.mem_singleton.mp hi
        exact ⟨1, le_rfl, true, rfl⟩
      | 2 => cases hi
      | _ + 3 => cases hi
    · intro n i hi
      match n with
      | 0 => cases hi
      | 1 => exact ⟨2, Nat.one_lt_two, rfl⟩
      | 2 => cases hi
      | _ + 3 => cases hi
  exact (schedule_in_order twoChunks).2 twoChunksExecution hfair

end StreamSchedule

end PointNetwork.Storage
