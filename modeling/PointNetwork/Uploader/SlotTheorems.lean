import PointNetwork.Slots
import PointNetwork.Uploader.ProcessTheorems

/-!
# The slots of the upload workers

The slots that are not free belong to the chunk uploads that have not ended, but for one, which the
active loop may hold. This is so as long as no query or statement of the loop fails while it holds a
slot: the exception ends the loop, and the slot stays taken for good. The exit for a node that is
offline would lose its slot as well, but it is never taken.

* `Process.Slotted`: the invariant, with the slots owned by the uploads and the loop;
* `slots_conserved`: how many slots are not free;
* `slots_lost`: a run in which all slots are lost.
-/

namespace PointNetwork.Uploader

open Js Machine

/-- The loop holds a slot. -/
def LoopPhase.holds : LoopPhase → Bool
  | .find _ => true
  | .claim _ _ => true
  | _ => false

/-- The chunks on the loop's list. -/
def LoopPhase.chunks : LoopPhase → List JsString
  | .findAwaiting => []
  | .findStale awaiting => awaiting
  | .find chunksToUpload => chunksToUpload
  | .claim _ chunksToUpload => chunksToUpload

/-- The loop stands on a chunk, and the chunks on its list have rows. -/
structure LoopPhase.Listed (db : Database) (phase : LoopPhase) : Prop where
  stands : phase ≠ .find []
  known : ∀ c ∈ phase.chunks, (db.chunkStatus c).isSome

section

variable {cfg : Config} {db : Database} {rows : List JsString} {p : Chunk → Bool}

/-- The rows that a query finds are there. -/
theorem known_of_mayFind (h : mayFind cfg rows db p = true) :
    ∀ c ∈ rows, (db.chunkStatus c).isSome := by
  intro c hc
  unfold mayFind at h
  rw [Bool.and_eq_true, List.all_eq_true] at h
  have hrow := h.2 c hc
  unfold Database.chunkStatus
  cases hfind : db.findChunk c with
  | none =>
    rw [hfind] at hrow
    cases hrow
  | some chunk => rfl

theorem LoopPhase.listed_goOn {l : List JsString} {available : Bool} {phase : LoopPhase}
    (h : goOn l available = some phase) (hl : ∀ c ∈ l, (db.chunkStatus c).isSome) :
    phase.Listed db := by
  unfold goOn at h
  split_ifs at h with hne
  cases h
  refine ⟨?_, hl⟩
  intro heq
  cases heq
  exact hne.1 rfl

end

namespace Process

/-- A query or a statement of the loop fails only while the loop holds no slot. -/
def KeepsSlot (s : Process) : Act → Prop
  | .loop _ throws => throws = false ∨ s.worker = none
  | _ => True

instance (s : Process) (a : Act) : Decidable (s.KeepsSlot a) := by
  unfold KeepsSlot
  cases a <;> infer_instance

/-- The owners of the slots that are not free. -/
def owners (s : Process) : List ℕ :=
  s.worker.toList ++ (s.chunkUploads.filter ChunkUpload.running).map ChunkUpload.slotIdx

/-- What holds in runs whose loops keep their slots. -/
structure Slotted (s : Process) : Prop where
  owns : Owns s.uploadWorkers s.owners
  held : s.worker.isSome = s.state.loop.any LoopPhase.holds
  listed : ∀ phase, s.state.loop = some phase → phase.Listed s.state.store.db

variable {cfg : Config} {s t : Process} {a : Act}

/-! ## The slots in the functions -/

/-- `tryGettingAvailableUploadWorker` gives a slot that had no owner. -/
theorem owns_tryGetting {limit slotIdx : ℕ} {slots slots' : List Bool} {owners : List ℕ}
    (h : Owns slots owners)
    (hget : tryGettingAvailableUploadWorker limit slots = some (slotIdx, slots')) :
    Owns slots' (slotIdx :: owners) := by
  unfold tryGettingAvailableUploadWorker at hget
  split_ifs at hget
  · cases hget
    exact h.append
  · obtain ⟨i, hi, heq⟩ := Option.map_eq_some_iff.mp hget
    cases heq
    obtain ⟨hlt, hfree, -⟩ := List.findIdx?_eq_some_iff_getElem.mp hi
    apply h.take
    rw [List.getElem?_eq_getElem hlt, show slots[slotIdx] = true from hfree]

/-- A slot that is given back is free. -/
theorem owns_giveBack (h : Owns s.uploadWorkers s.owners) :
    Owns s.giveBack.uploadWorkers s.giveBack.owners ∧ s.giveBack.worker = none := by
  unfold giveBack
  cases hworker : s.worker with
  | none => exact ⟨h, hworker⟩
  | some slotIdx =>
    refine ⟨?_, rfl⟩
    unfold owners at h
    rw [hworker] at h
    exact h.free

/-- The slot of the loop goes to the upload that it schedules. -/
theorem owns_startChunkUpload {c : JsString} (h : Owns s.uploadWorkers s.owners)
    (hworker : s.worker.isSome) :
    Owns (s.startChunkUpload cfg c).uploadWorkers (s.startChunkUpload cfg c).owners := by
  obtain ⟨slotIdx, hworker⟩ := Option.isSome_iff_exists.mp hworker
  unfold owners at h
  rw [hworker] at h
  apply h.perm
  unfold owners startChunkUpload
  rw [hworker, List.filter_append, List.map_append]
  exact (List.perm_append_singleton ..).symm

/-- The loop goes on with a new slot, or without one. -/
theorem owns_goOn {phase : LoopPhase} {l : List JsString} (h : Owns s.uploadWorkers s.owners)
    (hworker : s.worker = none) :
    Owns (s.goOn cfg phase l).uploadWorkers (s.goOn cfg phase l).owners ∧
      (s.goOn cfg phase l).worker.isSome = (LoopPhase.goOn l (tryGettingAvailableUploadWorker
        cfg.CONCURRENT_UPLOAD_LIMIT s.uploadWorkers).isSome).any LoopPhase.holds := by
  have hfinish : Owns s.finish.uploadWorkers s.finish.owners ∧ s.finish.worker = none := by
    unfold finish
    split
    · exact ⟨h, hworker⟩
    · exact ⟨h, hworker⟩
  unfold goOn LoopPhase.goOn
  by_cases hl : l = []
  · rw [if_pos hl, if_neg (fun hne => hne.1 hl)]
    split
    · exact ⟨h, by rw [hworker]; rfl⟩
    · exact ⟨hfinish.1, by rw [hfinish.2]; rfl⟩
  · rw [if_neg hl]
    cases hget : tryGettingAvailableUploadWorker cfg.CONCURRENT_UPLOAD_LIMIT s.uploadWorkers with
    | none =>
      rw [if_neg (by simp)]
      exact ⟨h, by rw [hworker]; rfl⟩
    | some r =>
      rw [if_pos ⟨hl, rfl⟩]
      refine ⟨?_, rfl⟩
      unfold owners at h
      rw [hworker] at h
      exact owns_tryGetting h hget

/-- The slot of an upload that ends is free. -/
theorem owns_endChunkUpload {i : ℕ} {upload : ChunkUpload} (h : Owns s.uploadWorkers s.owners)
    (hi : s.chunkUploads[i]? = some upload) (hrunning : upload.running = true) :
    Owns (s.endChunkUpload i).uploadWorkers (s.endChunkUpload i).owners := by
  rw [endChunkUpload_eq hi]
  apply Owns.free
  apply h.perm
  obtain ⟨hlt, rfl⟩ := List.getElem?_eq_some_iff.mp hi
  have hcalls : s.chunkUploads = s.chunkUploads.take i ++ s.chunkUploads[i] ::
      s.chunkUploads.drop (i + 1) := by
    rw [List.getElem_cons_drop, List.take_append_drop]
  unfold owners
  dsimp only
  rw [List.set_eq_take_append_cons_drop, if_pos hlt]
  conv_lhs => rw [hcalls]
  rw [List.filter_append, List.filter_append, List.filter_cons_of_pos hrunning,
    List.filter_cons_of_neg (by simp), List.map_append, List.map_append, List.map_cons,
    ← List.append_assoc, ← List.append_assoc]
  exact List.perm_middle

/-! ## The runs -/

theorem slotted_init : Slotted .init where
  owns := Owns.nil
  held := rfl
  listed phase h := by cases h

/-- The tasks go on, and the memory keeps its slots, their owners and the loop. -/
theorem Slotted.same (h : s.Slotted) {e : Event}
    (hstep : Uploader.step cfg s.state e = some t.state)
    (hslots : t.uploadWorkers = s.uploadWorkers) (howners : t.owners = s.owners)
    (hworker : t.worker = s.worker) (hloop : t.state.loop = s.state.loop) : t.Slotted where
  owns := by
    rw [hslots, howners]
    exact h.owns
  held := by
    rw [hworker, hloop]
    exact h.held
  listed phase hphase := by
    rw [hloop] at hphase
    exact ⟨(h.listed phase hphase).stands,
      fun c hc => step_known hstep ((h.listed phase hphase).known c hc)⟩

/-- A call of the loop keeps the invariant. -/
theorem Slotted.callLoop (h : s.Slotted) (hcall : s.callLoop cfg = some t) : t.Slotted := by
  obtain ⟨hloop, state, hstep, rfl⟩ | ⟨hloop, rfl⟩ := callLoop_cases hcall
  · have hstate := loop_of_uploadLoop hloop hstep
    refine ⟨h.owns, ?_, ?_⟩
    · have hheld := h.held
      rw [hloop] at hheld
      show s.worker.isSome = state.loop.any LoopPhase.holds
      rw [hstate, hheld]
      rfl
    · intro phase hphase
      have hphase : state.loop = some phase := hphase
      rw [hstate] at hphase
      cases hphase
      exact ⟨by simp, fun c hc => (List.not_mem_nil hc).elim⟩
  · exact ⟨h.owns, h.held, h.listed⟩

section

variable {rows : List JsString} {throws : Bool} {phase : LoopPhase} {st : Statement}
  {loop : Option LoopPhase} {start : Option JsString} {move : LoopMove}

/-- A step of the loop passes its slot on, gives it back or keeps it. -/
theorem Slotted.afterLoop (h : s.Slotted) (hok : throws = false ∨ s.worker = none)
    (hloop : s.LoopStep cfg rows throws phase st loop start move t) :
    Owns (s.afterLoop cfg phase move).uploadWorkers (s.afterLoop cfg phase move).owners ∧
      (s.afterLoop cfg phase move).worker.isSome = loop.any LoopPhase.holds := by
  obtain ⟨hstands, hknown⟩ := h.listed phase hloop.phase_eq
  have hheld := h.held
  rw [hloop.phase_eq] at hheld
  cases hloop.next with
  | throws =>
    have hnone : s.worker = none := by simpa using hok
    have howners : ({ s with worker := none } : Process).owners = s.owners := by
      unfold owners
      rw [hnone]
    refine ⟨?_, rfl⟩
    show Owns s.uploadWorkers ({ s with worker := none } : Process).owners
    rw [howners]
    exact h.owns
  | awaiting hrows => exact ⟨h.owns, hheld⟩
  | stale hrows =>
    have hnone : s.worker = none := by simpa [LoopPhase.holds] using hheld
    exact owns_goOn h.owns hnone
  | nothing => exact (hstands rfl).elim
  | missing hfind =>
    have hrow := hknown _ List.mem_cons_self
    unfold Database.chunkStatus at hrow
    rw [hfind] at hrow
    cases hrow
  | ready hfind hclaim => exact ⟨h.owns, hheld⟩
  | skip hfind hclaim =>
    obtain ⟨howns, hnone⟩ := owns_giveBack h.owns
    exact owns_goOn howns hnone
  | claim => exact owns_goOn (owns_startChunkUpload h.owns hheld) rfl

/-- The chunks on the list after a step of the loop have rows. -/
theorem Slotted.listed_loop (h : s.Slotted)
    (hloop : s.LoopStep cfg rows throws phase st loop start move t) {phase' : LoopPhase}
    (hphase' : loop = some phase') : phase'.Listed t.state.store.db := by
  have hknown : ∀ c ∈ phase.chunks, (t.state.store.db.chunkStatus c).isSome :=
    fun c hc => step_known hloop.tasks ((h.listed phase hloop.phase_eq).known c hc)
  have hfound : ∀ p, mayFind cfg rows s.state.store.db p = true →
      ∀ c ∈ rows, (t.state.store.db.chunkStatus c).isSome :=
    fun p hrows c hc => step_known hloop.tasks (known_of_mayFind hrows c hc)
  cases hloop.next with
  | throws => cases hphase'
  | awaiting hrows =>
    cases hphase'
    exact ⟨by simp, hfound _ hrows⟩
  | stale hrows =>
    refine LoopPhase.listed_goOn hphase' ?_
    intro c hc
    obtain hc | hc := List.mem_append.mp hc
    · exact hknown c hc
    · exact hfound _ hrows c hc
  | nothing => cases hphase'
  | missing hfind => cases hphase'
  | ready hfind hclaim =>
    cases hphase'
    exact ⟨by simp, fun c hc => hknown c (List.mem_cons_of_mem _ hc)⟩
  | skip hfind hclaim =>
    exact LoopPhase.listed_goOn hphase' fun c hc => hknown c (List.mem_cons_of_mem _ hc)
  | claim => exact LoopPhase.listed_goOn hphase' hknown

/-- A step of the loop keeps the invariant unless it throws with a slot. -/
theorem Slotted.stepLoop (h : s.Slotted) (hok : throws = false ∨ s.worker = none)
    (hloop : s.LoopStep cfg rows throws phase st loop start move t) : t.Slotted := by
  obtain ⟨howns, hheld⟩ := h.afterLoop hok hloop
  refine ⟨?_, ?_, ?_⟩
  · rw [hloop.memory]
    exact howns
  · rw [hloop.loop_eq, hloop.memory]
    exact hheld
  · intro phase' hphase'
    rw [hloop.loop_eq] at hphase'
    exact h.listed_loop hloop hphase'

end

/-- The upload of a chunk goes on or ends; the other events leave the slots alone. -/
theorem Slotted.other {state : State} {e : Event} (h : s.Slotted) (hp : s.Parallel)
    (hreach : Reach (Uploader.step cfg) Any .init s.state)
    (hstep : Uploader.step cfg s.state e = some state) (hafter : s.afterOther state e = some t) :
    t.Slotted := by
  have hloop := step_loop hstep
  have hviews := (step_views (waiting_of_reach hreach) hstep).2
  cases e with
  | worker i answer =>
    obtain ⟨c, hi, -⟩ := hviews
    obtain ⟨upload, hupload, rfl, hrunning⟩ := hp.call hi
    cases hafter
    -- a call that ends gives its slot back
    cases hended : ended state i with
    | true =>
      rw [if_pos rfl]
      have howns := owns_endChunkUpload h.owns hupload hrunning
      rw [endChunkUpload_eq hupload] at howns ⊢
      exact ⟨howns, (h.same (t := { s with state }) hstep rfl rfl rfl hloop).held,
        (h.same (t := { s with state }) hstep rfl rfl rfl hloop).listed⟩
    | false =>
      rw [if_neg (by simp)]
      exact h.same hstep rfl rfl rfl hloop
  -- after an exit there is neither a slot nor a call
  | exit =>
    cases hafter
    refine ⟨Owns.nil, ?_, ?_⟩
    · show false = state.loop.any LoopPhase.holds
      rw [show state.loop = none from hloop]
      rfl
    · intro phase hphase
      have hphase : state.loop = some phase := hphase
      rw [show state.loop = none from hloop] at hphase
      cases hphase
  | uploadLoop => cases hafter
  | loop rows now available throws => cases hafter
  | restartUploadsDownloads => cases hafter
  | _ =>
    cases hafter
    exact h.same hstep rfl rfl rfl hloop

/-- A step that keeps its slot keeps the invariant. -/
theorem Slotted.step (h : s.Slotted) (hp : s.Parallel)
    (hreach : Reach (Uploader.step cfg) Any .init s.state) (hok : s.KeepsSlot a)
    (hs : s.step cfg a = some t) : t.Slotted := by
  cases a with
  | tick ms =>
    cases hs
    exact ⟨h.owns, h.held, h.listed⟩
  | init =>
    obtain ⟨-, state, hstep, hcall⟩ := init_cases hs
    exact (h.same (t := { s with state, starting := false }) hstep rfl rfl rfl
      (step_loop hstep)).callLoop hcall
  | uploadLoop =>
    obtain ⟨-, hcall⟩ := uploadLoop_cases hs
    have h' : Slotted { s with scheduled := s.scheduled - 1 } := ⟨h.owns, h.held, h.listed⟩
    exact h'.callLoop hcall
  | loop rows throws =>
    obtain ⟨phase, st, loop, start, move, hloop⟩ := stepLoop_cases hs
    exact h.stepLoop hok hloop
  | other e =>
    obtain ⟨-, state, hstep, hafter⟩ := other_cases hs
    exact h.other hp hreach hstep hafter

/-- The invariant holds in every reachable state. -/
theorem slotted_of_reach (h : Reach (Process.step cfg) KeepsSlot .init s) : s.Slotted :=
  h.invariant_of_reach slotted_init fun _ _ _ hr hslotted hok hs =>
    hslotted.step (parallel_of_reach hr) (reach_state hr) hok hs

/-- The slots that are taken are counted. -/
theorem Slotted.count_false (h : s.Slotted) :
    s.uploadWorkers.count false = s.chunkUploads.countP ChunkUpload.running +
      (if s.worker = none then 0 else 1) := by
  rw [h.owns.count]
  unfold owners
  rw [List.length_append, List.length_map, ← List.countP_eq_length_filter, Nat.add_comm]
  cases s.worker <;> rfl

/-- As long as the loop fails only without a slot, the slots that are not free are as many as the
chunk uploads that are scheduled or running, and one more when the active loop holds a slot. -/
theorem slots_conserved (h : Reach (Process.step cfg) KeepsSlot .init s) :
    s.uploadWorkers.count false = s.chunkUploads.countP ChunkUpload.running +
        (if s.worker = none then 0 else 1) ∧
      (s.worker ≠ none → s.state.loop ≠ none) := by
  have hslotted := slotted_of_reach h
  refine ⟨hslotted.count_false, ?_⟩
  intro hworker hnone
  have hheld := hslotted.held
  rw [hnone, Option.isSome_iff_ne_none.mpr hworker] at hheld
  cases hheld

/-- A call of `uploadData`, and the run of the loop that follows it up to the row of the chunk. -/
def heldRun : List Act :=
  [.init, .loop [] false, .loop [] false] ++ (callRun 0 [1]).map .other ++
    [.uploadLoop, .loop [chunkId 1] false, .loop [] false]

/-- Where this run ends: the loop holds a slot. -/
def heldState : Process := after (guarded (Process.step .small) KeepsSlot) .init heldRun

theorem slots_conserved_held :
    heldState.uploadWorkers.count false = heldState.chunkUploads.countP ChunkUpload.running +
        (if heldState.worker = none then 0 else 1) ∧
      (heldState.worker ≠ none → heldState.state.loop ≠ none) :=
  slots_conserved (.of_after heldRun (by decide +kernel))

/-- The query for the row fails, for two chunks in turn. -/
def lostRun : List Act :=
  heldRun ++ [.loop [] true] ++ (callRun 1 [2]).map .other ++
    [.uploadLoop, .loop [chunkId 1, chunkId 2] false, .loop [] false, .loop [] true]

/-- Where this run ends. -/
def lostState : Process := after (guarded (Process.step .small) Any) .init lostRun

/-- All slots are taken, and there is neither an upload nor a loop that has one. -/
theorem slots_lost : Reach (Process.step .small) Any .init lostState ∧
    lostState.uploadWorkers = List.replicate Config.small.CONCURRENT_UPLOAD_LIMIT false ∧
    lostState.chunkUploads = [] ∧ lostState.worker = none ∧ lostState.state.loop = none :=
  ⟨.of_after lostRun (by decide +kernel), by decide +kernel, by decide +kernel, by decide +kernel,
    by decide +kernel⟩

end Process

end PointNetwork.Uploader
