import PointNetwork.Uploader.CallTheorems
import PointNetwork.Uploader.Process

/-!
# The workers

An upload worker awaits its progress update, which is in the queue or runs, once; when the update is
over the worker is settled. So a worker that has ended stays so, and a step of another task changes
only the phase of a worker that waits.

* `waiters_progressAfter`: a statement settles the first of those that wait, or none;
* `Waiting`: those that wait are different workers before their progress update;
* `step_views`: which workers there are after a step, and which of them have ended;
* `LoopPhase.Step`: the steps of the loop.
-/

namespace PointNetwork.Uploader

open Js Storage Machine

/-! ## The queue -/

namespace Memory

variable {m : Memory}

theorem queue_setFlags {file : JsString} {status : FileStatus} :
    (m.setFlags file status).queue = m.queue := by
  unfold setFlags
  split <;> rfl

theorem queue_countChunks {file : JsString} {counted : List (JsString × ChunkStatus)}
    {todo rest : List JsString} {next : Memory → Memory × Option Stage}
    (hnext : (next m).1.queue = m.queue) :
    (m.countChunks file counted todo rest next).1.queue = m.queue := by
  unfold countChunks
  split
  · rfl
  · split
    · exact queue_setFlags
    · exact hnext

theorem queue_updateFiles {files : List JsString} : (m.updateFiles files).1.queue = m.queue := by
  induction files generalizing m with
  | nil => rfl
  | cons file files ih =>
    unfold updateFiles
    split
    · rfl
    · split
      · exact ih
      · exact queue_countChunks ih

end Memory

namespace Progress

/-- The workers that wait for a progress update, in the order of the updates. -/
def waiters (p : Progress) : List ℕ :=
  (p.active.map Update.worker).toList ++ p.memory.queue.map Prod.snd

/-- The worker that is settled. -/
def Settled.worker (settled : Settled) : List ℕ := (settled.map Prod.fst).toList

variable {p : Progress} {m : Memory} {worker : ℕ}

theorem waiters_proceed {chunk_id : JsString} {r : Memory × Option Stage} :
    Settled.worker (proceed chunk_id worker r).2 ++ (proceed chunk_id worker r).1.waiters =
      worker :: r.1.queue.map Prod.snd := by
  unfold proceed
  split <;> rfl

theorem waiters_reject : Settled.worker (reject worker m).2 ++ (reject worker m).1.waiters =
    worker :: m.queue.map Prod.snd := rfl

theorem waiters_realUpdateChunkProgress {chunk_id : JsString} :
    Settled.worker (realUpdateChunkProgress chunk_id worker m).2 ++
      (realUpdateChunkProgress chunk_id worker m).1.waiters = worker :: m.queue.map Prod.snd := by
  unfold realUpdateChunkProgress
  dsimp only
  split
  · rfl
  · rw [waiters_proceed, Memory.queue_updateFiles]
    rfl

/-- The workers that wait are those that waited, and the one that is settled. -/
theorem waiters_processQueue :
    Settled.worker p.processQueue.2 ++ p.processQueue.1.waiters = p.waiters := by
  obtain ⟨m, active⟩ := p
  unfold processQueue
  cases active with
  | some u => rfl
  | none =>
    dsimp only
    split
    · rfl
    · rfl
    · rename_i chunk_id worker queue heq hqueue
      rw [waiters_realUpdateChunkProgress]
      unfold waiters
      rw [hqueue]
      rfl

theorem waiters_updateChunkProgressAsCompleted {chunk_id : JsString} :
    Settled.worker (p.updateChunkProgressAsCompleted chunk_id worker).2 ++
      (p.updateChunkProgressAsCompleted chunk_id worker).1.waiters = p.waiters ++ [worker] := by
  unfold updateChunkProgressAsCompleted
  rw [waiters_processQueue]
  unfold waiters enqueue
  dsimp only
  rw [List.map_append, ← List.append_assoc]
  rfl

/-- A step of the update settles its worker or leaves it waiting. -/
theorem waiters_advance {db : Database} {u : Update} :
    Settled.worker (advance db u m).2 ++ (advance db u m).1.waiters =
      u.worker :: m.queue.map Prod.snd := by
  unfold advance
  split
  · dsimp only
    split
    · rw [waiters_reject, addFiles_other.2.2]
    · rw [waiters_proceed, Memory.queue_updateFiles, addFiles_other.2.2]
  · rw [waiters_proceed]
  · split
    · exact waiters_reject
    · rw [waiters_proceed, Memory.queue_countChunks Memory.queue_updateFiles,
        addParents_other.2.2]
      rfl
  · split
    · exact waiters_reject
    · rw [waiters_proceed, Memory.queue_countChunks Memory.queue_updateFiles]
      rfl
  · rw [waiters_proceed, Memory.queue_updateFiles]

end Progress

/-- The worker that a statement lets wait. -/
def Statement.lets : Statement → List ℕ
  | .completeChunk _ worker => [worker]
  | _ => []

/-- A statement settles the first of those that wait, or none; none is lost. -/
theorem Store.waiters_progressAfter {s : Store} {st : Statement} (hst : st ≠ .exit) :
    Progress.Settled.worker (s.progressAfter st).2 ++ (s.progressAfter st).1.waiters =
      s.progress.waiters ++ st.lets := by
  cases st with
  | completeChunk chunkId worker => exact Progress.waiters_updateChunkProgressAsCompleted
  | processQueue =>
    refine Eq.trans ?_ (List.append_nil _).symm
    exact Progress.waiters_processQueue
  | createFileMaps fileId chunkIds =>
    refine Eq.trans ?_ (List.append_nil _).symm
    show (s.progress.active.map Update.worker).toList ++
      (s.progress.memory.addParents fileId (chunkIds.map Prod.snd)).queue.map Prod.snd = _
    rw [addParents_other.2.2]
    rfl
  | saveChunk chunk =>
    refine Eq.trans ?_ (List.append_nil _).symm
    show (s.progress.active.map Update.worker).toList ++
      (Store.modificationHook chunk s.progress.memory).queue.map Prod.snd = _
    rw [modificationHook_other.2.2]
    rfl
  | advance =>
    refine Eq.trans ?_ (List.append_nil _).symm
    unfold progressAfter
    dsimp only
    split
    · rfl
    · rename_i u hu
      rw [Progress.waiters_advance]
      unfold Progress.waiters
      rw [hu]
      rfl
  | exit => exact (hst rfl).elim
  | _ =>
    refine Eq.trans ?_ (List.append_nil _).symm
    rfl

/-! ## Those that wait -/

/-- The workers that wait are different, and before their progress update. -/
structure Waiting (waiters : List ℕ) (workers : List Worker) : Prop where
  nodup : waiters.Nodup
  phase : ∀ i ∈ waiters, ∃ w, workers[i]? = some w ∧ w.phase = .progress

/-- What counts of a worker: its chunk, and whether it has ended. -/
def Worker.view (w : Worker) : JsString × Bool := (w.chunkId, w.phase = .done)

/-- The workers as the store sees them. -/
def State.views (s : State) : List (JsString × Bool) := s.workers.map Worker.view

variable {waiters : List ℕ} {workers : List Worker}

theorem List.set_of_getElem? {α : Type} {xs : List α} {i : ℕ} {x : α} (h : xs[i]? = some x) :
    xs.set i x = xs := by
  obtain ⟨hlt, rfl⟩ := List.getElem?_eq_some_iff.mp h
  exact List.set_getElem_self hlt

/-- The first of those that wait is settled, and the others go on waiting. -/
theorem Waiting.settle {settled : Progress.Settled}
    (h : Waiting (settled.worker ++ waiters) workers) :
    Waiting waiters (settle settled workers) ∧
      (Uploader.settle settled workers).map Worker.view = workers.map Worker.view := by
  cases settled with
  | none => exact ⟨h, rfl⟩
  | some x =>
    obtain ⟨i, resolved⟩ := x
    obtain ⟨w, hw, hphase⟩ := h.phase i (List.mem_cons_self)
    obtain ⟨hi, hnodup⟩ := List.nodup_cons.mp h.nodup
    have hsettle : Uploader.settle (some (i, resolved)) workers =
        workers.set i { w with phase := .settled resolved } := by
      unfold Uploader.settle
      dsimp only
      rw [hw]
    rw [hsettle]
    refine ⟨⟨hnodup, ?_⟩, ?_⟩
    · intro j hj
      have hne : i ≠ j := by
        rintro rfl
        exact hi hj
      rw [List.getElem?_set_ne hne]
      exact h.phase j (List.mem_cons_of_mem _ hj)
    · have hview : Worker.view { w with phase := .settled resolved } = w.view := by
        unfold Worker.view
        rw [hphase]
        rfl
      rw [List.map_set, hview]
      apply List.set_of_getElem?
      rw [List.getElem?_map, hw]
      rfl

/-! ## The steps -/

/-- The steps of a worker. -/
inductive Worker.Step (w : Worker) (i : ℕ) : Statement → WorkerPhase → Prop
  | go {phase : WorkerPhase} (hdone : w.phase ≠ .done) (hprogress : w.phase ≠ .progress) :
      Step w i .nothing phase
  | complete (h : w.phase = .mark) : Step w i (.completeChunk w.chunkId i) .progress
  | restart {ul_status : ChunkStatus} {retry_count : ℕ} (h : w.phase = .restart ul_status retry_count) :
      Step w i (.failOrRestartChunk w.chunkId ul_status retry_count) .done

/-- Each step of a worker is one of these. -/
theorem Worker.next_step {cfg : Config} {w : Worker} {i : ℕ} {db : Database} {answer : Answer}
    {st : Statement} {phase : WorkerPhase} {acknowledged : Bool}
    (h : w.next cfg i db answer = some (st, phase, acknowledged)) : w.Step i st phase := by
  obtain ⟨chunkId, wphase⟩ := w
  cases wphase with
  | readFile =>
    cases h
    exact .go (by simp) (by simp)
  | head =>
    dsimp only [Worker.next] at h
    split_ifs at h <;> cases h <;> exact .go (by simp) (by simp)
  | post =>
    dsimp only [Worker.next] at h
    split_ifs at h <;> cases h <;> exact .go (by simp) (by simp)
  -- the row may be gone, or its status is not that of an upload under way
  | findForMark =>
    dsimp only [Worker.next] at h
    split_ifs at h
    · cases h
      exact .go (by simp) (by simp)
    · split at h
      · cases h
        exact .go (by simp) (by simp)
      · split_ifs at h <;> cases h <;> exact .go (by simp) (by simp)
  | mark =>
    dsimp only [Worker.next] at h
    split_ifs at h
    · cases h
      exact .go (by simp) (by simp)
    · cases h
      exact .complete rfl
  | progress => cases h
  | settled resolved =>
    cases h
    exact .go (by simp) (by simp)
  | findForRestart =>
    dsimp only [Worker.next] at h
    split_ifs at h
    · cases h
      exact .go (by simp) (by simp)
    · split at h <;> cases h <;> exact .go (by simp) (by simp)
  | restart ul_status retry_count =>
    dsimp only [Worker.next] at h
    split_ifs at h
    · cases h
      exact .go (by simp) (by simp)
    · cases h
      exact .restart rfl
  | done => cases h

section

variable {cfg : Config} {s s' t : State} {e : Event} {st : Statement}

/-- The steps of the loop: the statement, the loop after it, the chunk on which it starts a worker,
and what it does then. -/
inductive LoopPhase.Step (cfg : Config) (db : Database) (rows : List JsString) (now : ℕ)
    (available : Bool) :
    LoopPhase → Bool → Statement → Option LoopPhase → Option JsString → LoopMove → Prop
  | throws {phase : LoopPhase} : Step cfg db rows now available phase true .nothing none none .fail
  | awaiting (h : mayFind cfg rows db fun chunk => chunk.ul_status = .enqueued) :
      Step cfg db rows now available .findAwaiting false .nothing (some (.findStale rows)) none .await
  | stale {awaiting : List JsString}
      (h : mayFind cfg rows db fun chunk => chunk.ul_status = .inProgress && chunk.isExpired now) :
      Step cfg db rows now available (.findStale awaiting) false .nothing
        (goOn (awaiting ++ rows) available) none (.goOn (awaiting ++ rows))
  | nothing : Step cfg db rows now available (.find []) false .nothing none none .fail
  | missing {c : JsString} {rest : List JsString} (h : db.findChunk c = none) :
      Step cfg db rows now available (.find (c :: rest)) false .nothing none none .fail
  | ready {c : JsString} {rest : List JsString} {chunk : Chunk} (h : db.findChunk c = some chunk)
      (hclaim : claimable chunk now = true) :
      Step cfg db rows now available (.find (c :: rest)) false .nothing (some (.claim c rest)) none
        .await
  | skip {c : JsString} {rest : List JsString} {chunk : Chunk} (h : db.findChunk c = some chunk)
      (hclaim : claimable chunk now = false) :
      Step cfg db rows now available (.find (c :: rest)) false .nothing (goOn rest available) none
        (.goOn rest)
  | claim {c : JsString} {rest : List JsString} :
      Step cfg db rows now available (.claim c rest) false
        (.claimChunk c (now + cfg.UPLOAD_EXPIRE)) (goOn rest available) (some c) (.goOn rest)

/-- Each step of the loop is one of these. -/
theorem LoopPhase.next_step {phase : LoopPhase} {db : Database} {rows : List JsString} {now : ℕ}
    {available throws : Bool} {loop : Option LoopPhase} {start : Option JsString}
    (h : phase.next cfg db rows now available throws = some (st, loop, start)) :
    Step cfg db rows now available phase throws st loop start (phase.move db rows now throws) := by
  cases throws with
  | true =>
    cases h
    exact .throws
  | false =>
    cases phase with
    | findAwaiting =>
      dsimp only [LoopPhase.next] at h
      split_ifs at h with hrows
      cases h
      exact .awaiting hrows
    | findStale awaiting =>
      dsimp only [LoopPhase.next] at h
      split_ifs at h with hrows
      cases h
      exact .stale hrows
    | find chunksToUpload =>
      cases chunksToUpload with
      | nil =>
        cases h
        exact .nothing
      | cons c rest =>
        dsimp only [LoopPhase.next] at h
        -- a row that was listed may be gone, in which case the loop throws
        cases hfind : db.findChunk c with
        | none =>
          rw [hfind] at h
          cases h
          have hmove : (LoopPhase.find (c :: rest)).move db rows now false = .fail := by
            dsimp only [move]
            rw [hfind]
          rw [hmove]
          exact .missing hfind
        | some chunk =>
          rw [hfind] at h
          dsimp only at h
          have hmove : (LoopPhase.find (c :: rest)).move db rows now false =
              if claimable chunk now then .await else .goOn rest := by
            dsimp only [move]
            rw [hfind]
          rw [hmove]
          split_ifs at h with hclaim
          · cases h
            have hclaim : claimable chunk now = true := by simpa [claimable] using hclaim
            rw [if_pos hclaim]
            exact .ready hfind hclaim
          · cases h
            have hclaim : claimable chunk now = false := by
              rw [← Bool.not_eq_true]
              simpa [claimable] using hclaim
            rw [if_neg (by simp [hclaim])]
            exact .skip hfind hclaim
    | claim c rest =>
      cases h
      exact .claim

/-- The chunk on which a step of the loop starts a worker. -/
def LoopPhase.starts : LoopPhase → Bool → Option JsString
  | .claim chunkId _, false => some chunkId
  | _, _ => none

theorem LoopPhase.starts_throws {phase : LoopPhase} : phase.starts true = none := by
  cases phase <;> rfl

/-- The loop starts a worker when it has claimed a chunk. -/
theorem LoopPhase.next_starts {phase : LoopPhase} {db : Database} {rows : List JsString} {now : ℕ}
    {available throws : Bool} {loop : Option LoopPhase} {start : Option JsString}
    (h : phase.next cfg db rows now available throws = some (st, loop, start)) :
    start = phase.starts throws := by
  have hstep := LoopPhase.next_step h
  generalize phase.move db rows now throws = move at hstep
  cases hstep with
  | throws => exact starts_throws.symm
  | _ => rfl

/-- The workers that are there after an event, and which of them have ended. -/
def State.ViewsAfter (s t : State) : Event → Prop
  | .worker i _ => ∃ c, s.views[i]? = some (c, false) ∧
      t.views = s.views.set i (c, Process.ended t i)
  | .loop _ _ _ throws => ∃ phase, s.loop = some phase ∧
      t.views = s.views ++ ((phase.starts throws).map fun c => (c, false)).toList
  | .exit => t.views = []
  | _ => t.views = s.views

/-- A statement keeps the workers that wait. -/
theorem Waiting.perform (h : Waiting (s.store.progress.waiters ++ st.lets) s.workers)
    (hst : st ≠ .exit) :
    Waiting (s.perform st).store.progress.waiters (s.perform st).workers ∧
      (s.perform st).views = s.views := by
  rw [← Store.waiters_progressAfter hst] at h
  exact h.settle

theorem Waiting.append {more : List Worker} (h : Waiting waiters workers) :
    Waiting waiters (workers ++ more) := by
  refine ⟨h.nodup, ?_⟩
  intro i hi
  obtain ⟨w, hw, hphase⟩ := h.phase i hi
  refine ⟨w, ?_, hphase⟩
  rw [List.getElem?_append_left (List.getElem?_eq_some_iff.mp hw).1]
  exact hw

/-- A worker that does not wait takes a step. -/
theorem Waiting.set {i : ℕ} {w : Worker} {phase : WorkerPhase} (h : Waiting waiters workers)
    (hw : workers[i]? = some w) (hstep : w.Step i st phase) :
    Waiting (waiters ++ st.lets) (workers.set i { w with phase }) := by
  -- a worker that takes a step is not one that waits for its progress
  have hne : w.phase ≠ .progress := by
    cases hstep with
    | go hdone hprogress => exact hprogress
    | complete hmark => simp [hmark]
    | restart hrestart => simp [hrestart]
  have hi : i ∉ waiters := by
    intro hi
    obtain ⟨w', hw', hphase⟩ := h.phase i hi
    rw [hw] at hw'
    cases hw'
    exact hne hphase
  have hothers : ∀ j ∈ waiters, ∃ w', (workers.set i { w with phase })[j]? = some w' ∧
      w'.phase = .progress := by
    intro j hj
    have hij : i ≠ j := by
      rintro rfl
      exact hi hj
    rw [List.getElem?_set_ne hij]
    exact h.phase j hj
  cases hstep with
  | complete hmark =>
    refine ⟨List.nodup_append.mpr ⟨h.nodup, List.nodup_singleton i, ?_⟩, ?_⟩
    · intro j hj k hk hjk
      rw [List.mem_singleton.mp hk] at hjk
      exact hi (hjk ▸ hj)
    · intro j hj
      obtain hj | hj := List.mem_append.mp hj
      · exact hothers j hj
      · obtain rfl := List.mem_singleton.mp hj
        refine ⟨{ w with phase := .progress }, ?_, rfl⟩
        rw [List.getElem?_set_self (List.getElem?_eq_some_iff.mp hw).1]
  | go hdone hprogress => exact ⟨(List.append_nil waiters).symm ▸ h.nodup,
      (List.append_nil waiters).symm ▸ hothers⟩
  | restart hrestart => exact ⟨(List.append_nil waiters).symm ▸ h.nodup,
      (List.append_nil waiters).symm ▸ hothers⟩

theorem ended_eq {i : ℕ} {v : JsString × Bool} (h : s.views[i]? = some v) :
    Process.ended s i = v.2 := by
  unfold State.views at h
  rw [List.getElem?_map] at h
  obtain ⟨w, hw, rfl⟩ := Option.map_eq_some_iff.mp h
  unfold Process.ended
  rw [hw]
  rfl

/-- The workers that wait are in order after every step, and a step of another task neither starts a
worker nor ends one. -/
theorem step_views (h : Waiting s.store.progress.waiters s.workers) (hs : step cfg s e = some t) :
    Waiting t.store.progress.waiters t.workers ∧ s.ViewsAfter t e := by
  have hsame : Waiting (s.store.progress.waiters ++ []) s.workers :=
    (List.append_nil s.store.progress.waiters).symm ▸ h
  obtain ⟨⟨st, s'⟩, hissue, rfl⟩ := Option.map_eq_some_iff.mp hs
  dsimp only
  cases e with
  | uploadData data waitForUpload =>
    cases hissue
    exact hsame.perform (by simp)
  | upload i throws =>
    obtain ⟨u, hu, hissue⟩ := Option.bind_eq_some_iff.mp hissue
    obtain ⟨⟨st', phase⟩, hnext, hissue⟩ := Option.map_eq_some_iff.mp hissue
    cases hissue
    cases Upload.next_step hnext <;> exact hsame.perform (by simp)
  | uploadLoop =>
    dsimp only [issue] at hissue
    split_ifs at hissue
    · cases hissue
      exact hsame.perform (by simp)
    · cases hissue
      exact hsame.perform (by simp)
  -- the loop adds a worker, which is not done
  | loop rows now available throws =>
    obtain ⟨phase, hphase, hissue⟩ := Option.bind_eq_some_iff.mp hissue
    obtain ⟨⟨st', loop, start⟩, hnext, hissue⟩ := Option.map_eq_some_iff.mp hissue
    obtain ⟨rfl, hs'⟩ := Prod.mk.inj hissue
    rw [LoopPhase.next_starts hnext] at hs'
    have hst : st' ≠ .exit ∧ st'.lets = [] := by
      obtain rfl | ⟨chunkId, expires, rfl⟩ := LoopPhase.next_statement hnext
      · exact ⟨by simp, rfl⟩
      · exact ⟨by simp, rfl⟩
    have hviews : s'.views = s.views ++ ((phase.starts throws).map fun c => (c, false)).toList := by
      rw [← hs']
      unfold State.views
      rw [List.map_append]
      cases phase.starts throws <;> rfl
    have hwaiting : Waiting (s'.store.progress.waiters ++ st'.lets) s'.workers := by
      rw [← hs', hst.2]
      exact hsame.append
    obtain ⟨hw, hv⟩ := hwaiting.perform hst.1
    exact ⟨hw, phase, hphase, hv.trans hviews⟩
  | worker i answer =>
    obtain ⟨w, hw, hissue⟩ := Option.bind_eq_some_iff.mp hissue
    obtain ⟨⟨st', phase, acknowledged⟩, hnext, hissue⟩ := Option.map_eq_some_iff.mp hissue
    obtain ⟨rfl, hs'⟩ := Prod.mk.inj hissue
    have hstep := Worker.next_step hnext
    -- only a worker that is not done takes a step
    have hview : s.views[i]? = some (w.chunkId, false) := by
      unfold State.views Worker.view
      rw [List.getElem?_map, hw]
      cases hstep with
      | go hdone hprogress => simp [hdone]
      | complete hmark => simp [hmark]
      | restart hrestart => simp [hrestart]
    have hviews : s'.views = s.views.set i (w.chunkId, phase = .done) := by
      rw [← hs']
      exact List.map_set ..
    have hst : st' ≠ .exit := by
      cases hstep <;> simp
    have hwaiting : Waiting (s'.store.progress.waiters ++ st'.lets) s'.workers := by
      rw [← hs']
      exact h.set hw hstep
    obtain ⟨hwaits, hv⟩ := hwaiting.perform hst
    have hv := hv.trans hviews
    have hlt : i < s.views.length := (List.getElem?_eq_some_iff.mp hview).1
    refine ⟨hwaits, w.chunkId, hview, ?_⟩
    rw [ended_eq (hv ▸ List.getElem?_set_self hlt)]
    exact hv
  | processQueue =>
    cases hissue
    exact hsame.perform (by simp)
  | progress =>
    obtain ⟨u, hu, hissue⟩ := Option.map_eq_some_iff.mp hissue
    cases hissue
    exact hsame.perform (by simp)
  | getChunk chunkId useCache =>
    cases hissue
    exact hsame.perform (by simp)
  | download i bytes ok =>
    obtain ⟨d, hd, hissue⟩ := Option.bind_eq_some_iff.mp hissue
    obtain ⟨⟨st', phase, obtained⟩, hnext, hissue⟩ := Option.map_eq_some_iff.mp hissue
    cases hissue
    obtain rfl | rfl | ⟨chunk, rfl⟩ := Download.next_statement hnext <;>
      exact hsame.perform (by simp)
  | restartUploadsDownloads =>
    cases hissue
    exact hsame.perform (by simp)
  | exit =>
    cases hissue
    exact ⟨⟨List.nodup_nil, fun i hi => (List.not_mem_nil hi).elim⟩, rfl⟩

/-- The invariant holds in every reachable state. -/
theorem waiting_of_reach (h : Reach (step cfg) Any .init s) :
    Waiting s.store.progress.waiters s.workers :=
  h.invariant (P := fun s => Waiting s.store.progress.waiters s.workers)
    ⟨List.nodup_nil, fun _ hi => (List.not_mem_nil hi).elim⟩
    fun _ _ _ hs _ hstep => (step_views hs hstep).1

/-! ## The loop and the tables after an event -/

/-- A task does nothing to the store before its statement. -/
theorem issue_store (h : issue cfg s e = some (st, s')) : s'.store = s.store := by
  cases e with
  | upload i throws =>
    obtain ⟨u, hu, h⟩ := Option.bind_eq_some_iff.mp h
    obtain ⟨⟨st', phase⟩, hnext, h⟩ := Option.map_eq_some_iff.mp h
    cases h
    rfl
  | uploadLoop =>
    dsimp only [issue] at h
    split_ifs at h <;> cases h <;> rfl
  | loop rows now available throws =>
    obtain ⟨phase, hphase, h⟩ := Option.bind_eq_some_iff.mp h
    obtain ⟨⟨st', loop, start⟩, hnext, h⟩ := Option.map_eq_some_iff.mp h
    cases h
    rfl
  | worker i answer =>
    obtain ⟨w, hw, h⟩ := Option.bind_eq_some_iff.mp h
    obtain ⟨⟨st', phase, acknowledged⟩, hnext, h⟩ := Option.map_eq_some_iff.mp h
    cases h
    rfl
  | progress =>
    obtain ⟨u, hu, h⟩ := Option.map_eq_some_iff.mp h
    cases h
    rfl
  | download i bytes ok =>
    obtain ⟨d, hd, h⟩ := Option.bind_eq_some_iff.mp h
    obtain ⟨⟨st', phase, obtained⟩, hnext, h⟩ := Option.map_eq_some_iff.mp h
    cases h
    rfl
  | _ =>
    cases h
    rfl

/-- The tables after an event are those after the statement that is issued. -/
theorem step_db (hs : step cfg s e = some t) :
    ∃ st s', issue cfg s e = some (st, s') ∧ t.store.db = s.store.dbAfter st := by
  obtain ⟨⟨st, s'⟩, hissue, rfl⟩ := Option.map_eq_some_iff.mp hs
  refine ⟨st, s', hissue, ?_⟩
  show s'.store.dbAfter st = _
  rw [issue_store hissue]

/-- A row is never deleted. -/
theorem Statement.isSome_statusAfter {c : JsString} {o : Option ChunkStatus} (h : o.isSome) :
    (st.statusAfter c o).isSome := by
  obtain ⟨old, rfl⟩ := Option.isSome_iff_exists.mp h
  cases st <;> simp [statusAfter]

/-- A chunk that is known stays known. -/
theorem step_known {c : JsString} (hs : step cfg s e = some t)
    (h : (s.store.db.chunkStatus c).isSome) : (t.store.db.chunkStatus c).isSome := by
  obtain ⟨st, s', hissue, hdb⟩ := step_db hs
  rw [hdb, Store.chunkStatus_dbAfter]
  exact Statement.isSome_statusAfter h

/-- The loop after an event that is not a step of it. -/
def State.LoopAfter (s t : State) : Event → Prop
  | .uploadLoop => t.loop = some (s.loop.getD .findAwaiting)
  | .loop _ _ _ _ => True
  | .exit => t.loop = none
  | _ => t.loop = s.loop

theorem step_loop (hs : step cfg s e = some t) : s.LoopAfter t e := by
  obtain ⟨⟨st, s'⟩, h, rfl⟩ := Option.map_eq_some_iff.mp hs
  cases e with
  | upload i throws =>
    obtain ⟨u, hu, h⟩ := Option.bind_eq_some_iff.mp h
    obtain ⟨⟨st', phase⟩, hnext, h⟩ := Option.map_eq_some_iff.mp h
    cases h
    rfl
  | uploadLoop =>
    dsimp only [issue] at h
    split_ifs at h with hloop
    · cases h
      show some LoopPhase.findAwaiting = some (s.loop.getD .findAwaiting)
      rw [hloop]
      rfl
    · cases h
      obtain ⟨phase, hphase⟩ := Option.ne_none_iff_exists'.mp hloop
      show s.loop = some (s.loop.getD .findAwaiting)
      rw [hphase]
      rfl
  | loop rows now available throws => trivial
  | worker i answer =>
    obtain ⟨w, hw, h⟩ := Option.bind_eq_some_iff.mp h
    obtain ⟨⟨st', phase, acknowledged⟩, hnext, h⟩ := Option.map_eq_some_iff.mp h
    cases h
    rfl
  | progress =>
    obtain ⟨u, hu, h⟩ := Option.map_eq_some_iff.mp h
    cases h
    rfl
  | download i bytes ok =>
    obtain ⟨d, hd, h⟩ := Option.bind_eq_some_iff.mp h
    obtain ⟨⟨st', phase, obtained⟩, hnext, h⟩ := Option.map_eq_some_iff.mp h
    cases h
    rfl
  | _ =>
    cases h
    rfl

/-- A step of the loop, with what it does to the loop and the tables. -/
theorem step_of_loop {rows : List JsString} {now : ℕ} {available throws : Bool}
    (hs : step cfg s (.loop rows now available throws) = some t) :
    ∃ phase st start, s.loop = some phase ∧
      phase.Step cfg s.store.db rows now available throws st t.loop start
        (phase.move s.store.db rows now throws) ∧
      t.store.db = s.store.dbAfter st := by
  obtain ⟨⟨st, s'⟩, h, rfl⟩ := Option.map_eq_some_iff.mp hs
  obtain ⟨phase, hphase, h⟩ := Option.bind_eq_some_iff.mp h
  obtain ⟨⟨st', loop, start⟩, hnext, h⟩ := Option.map_eq_some_iff.mp h
  cases h
  exact ⟨phase, st, start, hphase, LoopPhase.next_step hnext, rfl⟩

end

end PointNetwork.Uploader
