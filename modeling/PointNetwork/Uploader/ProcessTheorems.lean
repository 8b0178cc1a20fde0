import PointNetwork.Uploader.WorkerTheorems

/-!
# The steps of the process

A run of the process is a run of its tasks with the events that the memory of the process allows. The
calls of `startChunkUpload` are the workers of the tasks: the same chunks in the same order, and the
same of them have ended.

* `Process.LoopStep`: what a step of the loop does to the tasks and to the memory;
* `Process.reach_state`: a run of the process, seen as a run of the tasks;
* `Process.Parallel`: calls and workers.
-/

namespace PointNetwork.Uploader

open Js Machine

namespace Process

variable {cfg : Config} {ok : Process → Act → Prop} {s t : Process} {a : Act}

/-! ## What a step does -/

/-- A step of the loop in the phase `phase`. -/
structure LoopStep (cfg : Config) (s : Process) (rows : List JsString) (throws : Bool)
    (phase : LoopPhase) (st : Statement) (loop : Option LoopPhase) (start : Option JsString)
    (move : LoopMove) (t : Process) : Prop where
  phase_eq : s.state.loop = some phase
  found : throws = true ∨ phase.findsAll cfg s.state.store.db rows (s.time phase) = true
  tasks : Uploader.step cfg s.state
    (.loop rows (s.time phase) (s.available cfg phase) throws) = some t.state
  next : phase.Step cfg s.state.store.db rows (s.time phase) (s.available cfg phase) throws st
    loop start move
  loop_eq : t.state.loop = loop
  db : t.state.store.db = s.state.store.dbAfter st
  memory : t = { s.afterLoop cfg phase move with state := t.state }

theorem stepLoop_cases {rows : List JsString} {throws : Bool}
    (h : s.stepLoop cfg rows throws = some t) :
    ∃ phase st loop start move, s.LoopStep cfg rows throws phase st loop start move t := by
  obtain ⟨phase, hphase, h⟩ := Option.bind_eq_some_iff.mp h
  split_ifs at h with hfound
  obtain ⟨state, hstep, rfl⟩ := Option.map_eq_some_iff.mp h
  obtain ⟨phase', st, start, hphase', hnext, hdb⟩ := step_of_loop hstep
  rw [hphase] at hphase'
  cases hphase'
  exact ⟨phase, st, _, start, _, hphase, by simpa using hfound, hstep, hnext, rfl, hdb, rfl⟩

/-- A call of `uploadLoop`. -/
theorem callLoop_cases (h : s.callLoop cfg = some t) :
    (s.state.loop = none ∧ ∃ state, Uploader.step cfg s.state .uploadLoop = some state ∧
      t = { s with state, asked := s.now }) ∨
    (s.state.loop ≠ none ∧ t = { s with retryUploadLoop := true }) := by
  unfold callLoop at h
  split_ifs at h with hloop
  · obtain ⟨state, hstep, rfl⟩ := Option.map_eq_some_iff.mp h
    exact .inl ⟨hloop, state, hstep, rfl⟩
  · cases h
    exact .inr ⟨hloop, rfl⟩

/-- A call that finds no loop starts one. -/
theorem loop_of_uploadLoop {s t : State} (hloop : s.loop = none)
    (hstep : Uploader.step cfg s .uploadLoop = some t) : t.loop = some .findAwaiting := by
  have hafter := step_loop hstep
  unfold State.LoopAfter at hafter
  rw [hafter, hloop]
  rfl

/-- What `init` does: the chunks in progress are enqueued, and the loop is called. -/
theorem init_cases (h : s.step cfg .init = some t) :
    s.starting = true ∧ ∃ state,
      Uploader.step cfg s.state .restartUploadsDownloads = some state ∧
      callLoop cfg { s with state, starting := false } = some t := by
  dsimp only [step] at h
  split_ifs at h with hstarting
  obtain ⟨state, hstep, h⟩ := Option.bind_eq_some_iff.mp h
  exact ⟨hstarting, state, hstep, h⟩

theorem uploadLoop_cases (h : s.step cfg .uploadLoop = some t) :
    0 < s.scheduled ∧ callLoop cfg { s with scheduled := s.scheduled - 1 } = some t := by
  dsimp only [step] at h
  split_ifs at h with hscheduled
  exact ⟨Nat.pos_of_ne_zero hscheduled, h⟩

theorem other_cases {e : Event} (h : s.step cfg (.other e) = some t) :
    s.starting = false ∧ ∃ state, Uploader.step cfg s.state e = some state ∧
      s.afterOther state e = some t := by
  dsimp only [step] at h
  split_ifs at h with hstarting
  obtain ⟨state, hstep, h⟩ := Option.bind_eq_some_iff.mp h
  exact ⟨by simpa using hstarting, state, hstep, h⟩

theorem state_of_afterOther {state : State} {e : Event} (h : s.afterOther state e = some t) :
    t.state = state := by
  unfold afterOther at h
  cases e <;> cases h <;> rfl

/-! ## The tasks of a run -/

theorem reach_callLoop (h : Reach (Uploader.step cfg) Any .init s.state)
    (hcall : s.callLoop cfg = some t) : Reach (Uploader.step cfg) Any .init t.state := by
  obtain ⟨-, state, hstep, rfl⟩ | ⟨-, rfl⟩ := callLoop_cases hcall
  · exact h.step trivial hstep
  · exact h

theorem reach_step (h : Reach (Uploader.step cfg) Any .init s.state) (hs : s.step cfg a = some t) :
    Reach (Uploader.step cfg) Any .init t.state := by
  cases a with
  | tick ms =>
    cases hs
    exact h
  | init =>
    obtain ⟨-, state, hstep, hcall⟩ := init_cases hs
    exact reach_callLoop (s := { s with state, starting := false }) (h.step trivial hstep) hcall
  | uploadLoop =>
    obtain ⟨-, hcall⟩ := uploadLoop_cases hs
    exact reach_callLoop (s := { s with scheduled := s.scheduled - 1 }) h hcall
  | loop rows throws =>
    obtain ⟨phase, st, loop, start, move, hloop⟩ := stepLoop_cases hs
    exact h.step trivial hloop.tasks
  | other e =>
    obtain ⟨-, state, hstep, hafter⟩ := other_cases hs
    rw [state_of_afterOther hafter]
    exact h.step trivial hstep

/-- The tasks of a run of the process make a run of their own. -/
theorem reach_state (h : Reach (step cfg) ok .init s) :
    Reach (Uploader.step cfg) Any .init s.state :=
  h.invariant (P := fun s => Reach (Uploader.step cfg) Any .init s.state) .init
    fun _ _ _ hr _ hs => reach_step hr hs

/-! ## Calls and workers -/

/-- The calls of `startChunkUpload` are the workers of the tasks. -/
def Parallel (s : Process) : Prop :=
  s.state.views = s.chunkUploads.map fun u => (u.chunkId, !u.running)

theorem chunkUploads_goOn {phase : LoopPhase} {chunksToUpload : List JsString} :
    (s.goOn cfg phase chunksToUpload).chunkUploads = s.chunkUploads := by
  unfold goOn finish
  split
  · split
    · rfl
    · split <;> rfl
  · split <;> rfl

theorem chunkUploads_giveBack : s.giveBack.chunkUploads = s.chunkUploads := by
  unfold giveBack
  split <;> rfl

/-- The calls after a step of the loop: it starts one after the claim of a chunk. -/
theorem LoopStep.chunkUploads {rows : List JsString} {throws : Bool} {phase : LoopPhase}
    {st : Statement} {loop : Option LoopPhase} {start : Option JsString} {move : LoopMove}
    (h : s.LoopStep cfg rows throws phase st loop start move t) :
    t.chunkUploads = s.chunkUploads ++ ((phase.starts throws).map fun c =>
      ⟨c, s.worker.getD 0, s.leaseOf cfg c, true⟩).toList := by
  obtain ⟨-, -, -, hnext, -, -, hmemory⟩ := h
  rw [hmemory]
  cases hnext with
  | throws =>
    rw [LoopPhase.starts_throws]
    refine Eq.trans ?_ (List.append_nil _).symm
    rfl
  | claim => exact chunkUploads_goOn
  | skip hfind hclaim =>
    refine Eq.trans ?_ (List.append_nil _).symm
    exact chunkUploads_goOn.trans chunkUploads_giveBack
  | stale hrows =>
    refine Eq.trans ?_ (List.append_nil _).symm
    exact chunkUploads_goOn
  | _ =>
    refine Eq.trans ?_ (List.append_nil _).symm
    rfl

theorem LoopStep.views {rows : List JsString} {throws : Bool} {phase : LoopPhase}
    {st : Statement} {loop : Option LoopPhase} {start : Option JsString} {move : LoopMove}
    (h : s.LoopStep cfg rows throws phase st loop start move t)
    (hreach : Reach (Uploader.step cfg) Any .init s.state) :
    t.state.views = s.state.views ++ ((phase.starts throws).map fun c => (c, false)).toList := by
  obtain ⟨phase', hphase', hviews⟩ := (step_views (waiting_of_reach hreach) h.tasks).2
  rw [h.phase_eq] at hphase'
  cases hphase'
  exact hviews

theorem views_callLoop (hreach : Reach (Uploader.step cfg) Any .init s.state)
    (hcall : s.callLoop cfg = some t) :
    t.state.views = s.state.views ∧ t.chunkUploads = s.chunkUploads := by
  obtain ⟨-, state, hstep, rfl⟩ | ⟨-, rfl⟩ := callLoop_cases hcall
  · exact ⟨(step_views (waiting_of_reach hreach) hstep).2, rfl⟩
  · exact ⟨rfl, rfl⟩

/-- The call that a worker belongs to. -/
theorem Parallel.call {i : ℕ} {c : JsString} {done : Bool} (h : s.Parallel)
    (hi : s.state.views[i]? = some (c, done)) :
    ∃ upload, s.chunkUploads[i]? = some upload ∧ upload.chunkId = c ∧ upload.running = !done := by
  unfold Parallel at h
  rw [h, List.getElem?_map] at hi
  obtain ⟨upload, hupload, heq⟩ := Option.map_eq_some_iff.mp hi
  cases heq
  exact ⟨upload, hupload, rfl, by simp⟩

theorem endChunkUpload_eq {i : ℕ} {upload : ChunkUpload} (h : s.chunkUploads[i]? = some upload) :
    s.endChunkUpload i = { s with
      chunkUploads := s.chunkUploads.set i { upload with running := false }
      uploadWorkers := s.uploadWorkers.set upload.slotIdx true
      scheduled := s.scheduled + 1 } := by
  unfold endChunkUpload
  rw [h]

/-- The worker of a call takes a step. -/
theorem Parallel.afterOther {state : State} {e : Event} (h : s.Parallel)
    (hreach : Reach (Uploader.step cfg) Any .init s.state)
    (hstep : Uploader.step cfg s.state e = some state) (hafter : s.afterOther state e = some t) :
    t.Parallel := by
  have hviews := (step_views (waiting_of_reach hreach) hstep).2
  cases e with
  | worker i answer =>
    obtain ⟨c, hi, hviews⟩ := hviews
    obtain ⟨upload, hupload, rfl, hrunning⟩ := h.call hi
    cases hafter
    show state.views = _
    rw [hviews, h]
    cases hended : ended state i with
    | true =>
      rw [if_pos rfl]
      rw [endChunkUpload_eq hupload]
      exact (List.map_set (f := fun u : ChunkUpload => (u.chunkId, !u.running))
        (a := { upload with running := false })).symm
    | false =>
      rw [if_neg (by simp)]
      apply List.set_of_getElem?
      rw [List.getElem?_map, hupload, Option.map_some, hrunning]
      rfl
  | exit =>
    cases hafter
    exact hviews
  | uploadLoop => cases hafter
  | loop rows now available throws => cases hafter
  | restartUploadsDownloads => cases hafter
  | _ =>
    cases hafter
    exact Eq.trans hviews h

theorem Parallel.step (h : s.Parallel) (hreach : Reach (Uploader.step cfg) Any .init s.state)
    (hs : s.step cfg a = some t) : t.Parallel := by
  cases a with
  | tick ms =>
    cases hs
    exact h
  | init =>
    obtain ⟨-, state, hstep, hcall⟩ := init_cases hs
    obtain ⟨hviews, hcalls⟩ :=
      views_callLoop (s := { s with state, starting := false }) (hreach.step trivial hstep) hcall
    have hsame : state.views = s.state.views := (step_views (waiting_of_reach hreach) hstep).2
    unfold Parallel
    rw [hviews, hcalls]
    exact hsame.trans h
  | uploadLoop =>
    obtain ⟨-, hcall⟩ := uploadLoop_cases hs
    obtain ⟨hviews, hcalls⟩ :=
      views_callLoop (s := { s with scheduled := s.scheduled - 1 }) hreach hcall
    unfold Parallel
    rw [hviews, hcalls]
    exact h
  | loop rows throws =>
    obtain ⟨phase, st, loop, start, move, hloop⟩ := stepLoop_cases hs
    unfold Parallel
    rw [hloop.views hreach, hloop.chunkUploads, List.map_append, h]
    cases phase.starts throws <;> rfl
  | other e =>
    obtain ⟨-, state, hstep, hafter⟩ := other_cases hs
    exact h.afterOther hreach hstep hafter

theorem parallel_of_reach (h : Reach (Process.step cfg) ok .init s) : s.Parallel :=
  h.invariant_of_reach (P := Parallel) (show Parallel .init from rfl)
    fun _ _ _ hr hp _ hs => hp.step (reach_state hr) hs

end Process

end PointNetwork.Uploader
