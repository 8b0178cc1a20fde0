import Mathlib.Data.Bool.Count
import PointNetwork.Uploader.LeaseTheorems

/-!
# The wakeups of the upload loop

A call of `uploadLoop` during a run sets a flag, for which the run calls the loop again at its end. So
an enqueued chunk is found by a later run, or it is on the list of the active one, or this list has
enqueued chunks for all slots that are left. The run that finds nothing returns without a look at the
flag; then nothing calls the loop again until something else happens.

* `Process.Marked`: a run will read the table;
* `Process.Covered`: the list of the active run has what is enqueued;
* `wakeup_kept`: one of the two, when a slot is free;
* `wakeup_missed`: a run that loses the flag.
-/

namespace PointNetwork.Uploader

open Js Machine

/-! ## The enqueued chunks -/

/-- The statement does not enqueue a chunk, and leaves the enqueued ones. -/
def Statement.Quiet : Statement → Prop
  | .bulkCreateChunks _ => False
  | .fixStatuses => False
  | .claimChunk _ _ => False
  | .failOrRestartChunk _ _ _ => False
  | .restartUploadsDownloads => False
  | .saveChunk _ => False
  | _ => True

section

variable {s : Store} {st : Statement} {c : JsString}

/-- A chunk stays ENQUEUED unless it is claimed or saved. -/
theorem Store.enqueued_kept (hclaim : ∀ expires, st ≠ .claimChunk c expires)
    (hsave : ∀ m, st ≠ .saveChunk m) (h : s.db.chunkStatus c = some .enqueued) :
    (s.dbAfter st).chunkStatus c = some .enqueued := by
  rw [Store.chunkStatus_dbAfter, h]
  cases st with
  | claimChunk chunkId expires =>
    have hc : c ≠ chunkId := by
      rintro rfl
      exact hclaim expires rfl
    simp [Statement.statusAfter, hc]
  | saveChunk m => exact (hsave m rfl).elim
  | bulkCreateChunks chunkIds => rfl
  | createChunk chunkId => rfl
  | completeChunk chunkId worker => simp [Statement.statusAfter]
  | failOrRestartChunk chunkId ul_status retry_count => simp [Statement.statusAfter]
  | _ => rfl

/-- A quiet statement enqueues nothing. -/
theorem Store.enqueued_of_quiet (hst : st.Quiet)
    (hafter : (s.dbAfter st).chunkStatus c = some .enqueued) :
    s.db.chunkStatus c = some .enqueued := by
  rw [Store.chunkStatus_dbAfter] at hafter
  cases st with
  | createChunk chunkId =>
    obtain hafter | ⟨-, hafter⟩ := Option.or_eq_some_iff.mp hafter
    · exact hafter
    · split at hafter <;> cases hafter
  | completeChunk chunkId worker => exact status_of_update (by decide) hafter
  | bulkCreateChunks chunkIds => exact hst.elim
  | fixStatuses => exact hst.elim
  | claimChunk chunkId expires => exact hst.elim
  | failOrRestartChunk chunkId ul_status retry_count => exact hst.elim
  | restartUploadsDownloads => exact hst.elim
  | saveChunk m => exact hst.elim
  | _ => exact hafter

/-- A claim takes one chunk from those that are enqueued. -/
theorem Database.enqueued_claimChunk {db : Database} {id : JsString} {expires : ℕ} :
    (db.claimChunk id expires).chunkStatus c = some .enqueued ↔
      c ≠ id ∧ db.chunkStatus c = some .enqueued := by
  rw [Database.chunkStatus_claimChunk]
  cases db.chunkStatus c with
  | none => simp
  | some old =>
    by_cases hc : c = id
    · cases old <;> simp [hc]
    · simp [hc]

end

/-! ## The calls that enqueue -/

/-- A call has inserted its chunks or fixed their statuses, and is yet to trigger the loop. -/
def Enqueuing (uploads : List Upload) : Prop :=
  ∃ u ∈ uploads, u.phase = .fixStatuses ∨ u.phase = .createFileMaps

section

variable {cfg : Config} {s s' t : State} {e : Event} {st : Statement} {uploads : List Upload}

theorem Enqueuing.wake {fileId : JsString} (h : Enqueuing uploads) :
    Enqueuing (wake fileId uploads) := by
  obtain ⟨u, hu, hphase⟩ := h
  refine ⟨u, ?_, hphase⟩
  refine List.mem_map.mpr ⟨u, hu, ?_⟩
  rw [if_neg]
  rintro ⟨-, hwaiting⟩
  rw [hwaiting] at hphase
  simp at hphase

/-- A statement keeps the calls enqueuing. -/
theorem Enqueuing.perform (h : Enqueuing s.uploads) : Enqueuing (s.perform st).uploads := by
  unfold State.perform
  dsimp only
  split
  · exact h.wake
  · exact h

/-- A step of another call. -/
theorem Enqueuing.set {i : ℕ} {u : Upload} {phase : UploadPhase} (h : Enqueuing uploads)
    (hu : uploads[i]? = some u) (hphase : u.phase ≠ .fixStatuses ∧ u.phase ≠ .createFileMaps) :
    Enqueuing (uploads.set i { u with phase }) := by
  obtain ⟨v, hv, hvphase⟩ := h
  obtain ⟨j, hj⟩ := List.mem_iff_getElem?.mp hv
  have hij : i ≠ j := by
    rintro rfl
    rw [hu] at hj
    cases hj
    obtain hfix | hmaps := hvphase
    · exact hphase.1 hfix
    · exact hphase.2 hmaps
  refine ⟨v, List.mem_iff_getElem?.mpr ⟨j, ?_⟩, hvphase⟩
  rw [List.getElem?_set_ne hij]
  exact hj

theorem Enqueuing.of_set {i : ℕ} {u : Upload} {phase : UploadPhase} (hu : uploads[i]? = some u)
    (hphase : phase = .fixStatuses ∨ phase = .createFileMaps) :
    Enqueuing (uploads.set i { u with phase }) := by
  refine ⟨{ u with phase }, List.mem_iff_getElem?.mpr ⟨i, ?_⟩, hphase⟩
  exact List.getElem?_set_self (List.getElem?_eq_some_iff.mp hu).1

/-- A call that has enqueued its chunks goes on until it triggers the loop. -/
theorem step_enqueuing (hs : step cfg s e = some t) (hok : ∀ i, e ≠ .upload i true)
    (hexit : e ≠ .exit) (h : Enqueuing s.uploads) :
    Enqueuing t.uploads ∨ ∃ i, e = .upload i false ∧ Process.triggers s i false = true := by
  obtain ⟨⟨st, s'⟩, hissue, rfl⟩ := Option.map_eq_some_iff.mp hs
  cases e with
  | uploadData data waitForUpload =>
    cases hissue
    obtain ⟨u, hu, hphase⟩ := h
    refine .inl (Enqueuing.perform ?_)
    exact ⟨u, List.mem_append_left _ hu, hphase⟩
  | upload i throws =>
    cases throws with
    | true => exact (hok i rfl).elim
    | false =>
      obtain ⟨u, hu, hissue⟩ := Option.bind_eq_some_iff.mp hissue
      obtain ⟨⟨st', phase⟩, hnext, hissue⟩ := Option.map_eq_some_iff.mp hissue
      cases hissue
      -- after `createFileMaps` the call triggers the loop, after the others it still enqueues
      by_cases hmaps : u.phase = .createFileMaps
      · right
        refine ⟨i, rfl, ?_⟩
        unfold Process.triggers
        rw [hu]
        simp [hmaps]
      · left
        apply Enqueuing.perform
        by_cases hfix : u.phase = .fixStatuses
        · unfold Upload.next at hnext
          rw [hfix] at hnext
          cases hnext
          exact .of_set hu (.inr rfl)
        · exact h.set hu ⟨hfix, hmaps⟩
  | uploadLoop =>
    dsimp only [issue] at hissue
    left
    split_ifs at hissue
    · cases hissue
      apply Enqueuing.perform
      exact h
    · cases hissue
      exact h.perform
  | loop rows now available throws =>
    obtain ⟨phase, hphase, hissue⟩ := Option.bind_eq_some_iff.mp hissue
    obtain ⟨⟨st', loop, start⟩, hnext, hissue⟩ := Option.map_eq_some_iff.mp hissue
    cases hissue
    exact .inl (Enqueuing.perform h)
  | worker i answer =>
    obtain ⟨w, hw, hissue⟩ := Option.bind_eq_some_iff.mp hissue
    obtain ⟨⟨st', phase, acknowledged⟩, hnext, hissue⟩ := Option.map_eq_some_iff.mp hissue
    cases hissue
    exact .inl (Enqueuing.perform h)
  | progress =>
    obtain ⟨u, hu, hissue⟩ := Option.map_eq_some_iff.mp hissue
    cases hissue
    exact .inl h.perform
  | download i bytes ok =>
    obtain ⟨d, hd, hissue⟩ := Option.bind_eq_some_iff.mp hissue
    obtain ⟨⟨st', phase, obtained⟩, hnext, hissue⟩ := Option.map_eq_some_iff.mp hissue
    cases hissue
    exact .inl (Enqueuing.perform h)
  | exit => exact (hexit rfl).elim
  | _ =>
    cases hissue
    exact .inl (Enqueuing.perform h)

/-- What an event does to an enqueued chunk, when no download writes. -/
structure EnqueuedStep (s t : State) (e : Event) (c : JsString) : Prop where
  kept : s.store.db.chunkStatus c = some .enqueued → t.store.db.chunkStatus c = some .enqueued
  new : t.store.db.chunkStatus c = some .enqueued → s.store.db.chunkStatus c = some .enqueued ∨
    Enqueuing t.uploads ∨ ∃ i answer, e = .worker i answer ∧ Process.ended t i = true

/-- How a chunk becomes ENQUEUED in a step. -/
theorem step_enqueued {c : JsString} (hs : step cfg s e = some t) (he : e.Plain)
    (hdownload : ∀ i bytes ok, e ≠ .download i bytes ok) : EnqueuedStep s t e c := by
  obtain ⟨⟨st, s'⟩, hissue, rfl⟩ := Option.map_eq_some_iff.mp hs
  have hdb : (s'.perform st).store.db = s.store.dbAfter st := by
    show s'.store.dbAfter st = _
    rw [issue_store hissue]
  -- all but three statements leave the enqueued chunks as they are
  have hquiet : st.Quiet → EnqueuedStep s (s'.perform st) e c := by
    intro hst
    refine ⟨?_, ?_⟩
    · rw [hdb]
      apply Store.enqueued_kept
      · rintro expires rfl
        exact hst
      · rintro m rfl
        exact hst
    · rw [hdb]
      exact fun h => .inl (Store.enqueued_of_quiet hst h)
  cases e with
  | upload i throws =>
    obtain ⟨u, hu, hissue⟩ := Option.bind_eq_some_iff.mp hissue
    obtain ⟨⟨st', phase⟩, hnext, hissue⟩ := Option.map_eq_some_iff.mp hissue
    obtain ⟨rfl, rfl⟩ := Prod.mk.inj hissue
    cases Upload.next_step hnext with
    | createChunks hphase =>
      refine ⟨?_, fun _ => .inr (.inl (Enqueuing.perform (.of_set hu (.inl rfl))))⟩
      rw [hdb]
      exact Store.enqueued_kept (by simp) (by simp)
    | fixStatuses hphase =>
      refine ⟨?_, fun _ => .inr (.inl (Enqueuing.perform (.of_set hu (.inr rfl))))⟩
      rw [hdb]
      exact Store.enqueued_kept (by simp) (by simp)
    | _ => exact hquiet trivial
  | uploadLoop =>
    dsimp only [issue] at hissue
    split_ifs at hissue <;> cases hissue <;> exact hquiet trivial
  | loop rows now available throws => exact he.elim
  | worker i answer =>
    obtain ⟨w, hw, hissue⟩ := Option.bind_eq_some_iff.mp hissue
    obtain ⟨⟨st', phase, acknowledged⟩, hnext, hissue⟩ := Option.map_eq_some_iff.mp hissue
    obtain ⟨rfl, rfl⟩ := Prod.mk.inj hissue
    cases Worker.next_step hnext with
    | go hdone hprogress => exact hquiet trivial
    | complete hmark => exact hquiet trivial
    -- a restarted chunk ends its upload, which schedules the loop
    | restart hrestart =>
      refine ⟨?_, fun _ => .inr (.inr ⟨i, answer, rfl, ?_⟩)⟩
      · rw [hdb]
        exact Store.enqueued_kept (by simp) (by simp)
      · apply ended_of_restart
        exact List.getElem?_set_self (List.getElem?_eq_some_iff.mp hw).1
  | progress =>
    obtain ⟨u, hu, hissue⟩ := Option.map_eq_some_iff.mp hissue
    cases hissue
    exact hquiet trivial
  | download i bytes ok => exact (hdownload i bytes ok rfl).elim
  | restartUploadsDownloads => exact he.elim
  | _ =>
    cases hissue
    exact hquiet trivial

end

/-! ## The list of a run -/

/-- A list has all the enqueued chunks, or as many of them as there are slots that nothing runs in. -/
def Covers (limit running : ℕ) (enqueued : JsString → Prop) (pending : List JsString) : Prop :=
  (∀ c, enqueued c → c ∈ pending) ∨ ∃ chunks : List JsString, chunks.Nodup ∧
    (∀ c ∈ chunks, c ∈ pending ∧ enqueued c) ∧ limit ≤ running + chunks.length

namespace Covers

variable {limit running : ℕ} {enqueued enqueued' : JsString → Prop} {c : JsString}
  {pending pending' : List JsString}

/-- More chunks may be pending. -/
theorem mono (h : Covers limit running enqueued pending) (hsub : ∀ c ∈ pending, c ∈ pending') :
    Covers limit running enqueued pending' := by
  obtain hall | ⟨chunks, hnodup, hchunks, hlimit⟩ := h
  · exact .inl fun c hc => hsub c (hall c hc)
  · exact .inr ⟨chunks, hnodup, fun c hc => ⟨hsub c (hchunks c hc).1, (hchunks c hc).2⟩, hlimit⟩

/-- What covers some chunks covers those that wait as well. -/
theorem congr (h : Covers limit running enqueued pending) (heq : ∀ c, enqueued c ↔ enqueued' c) :
    Covers limit running enqueued' pending := by
  obtain hall | ⟨chunks, hnodup, hchunks, hlimit⟩ := h
  · exact .inl fun c hc => hall c ((heq c).mpr hc)
  · exact .inr ⟨chunks, hnodup,
      fun c hc => ⟨(hchunks c hc).1, (heq c).mp (hchunks c hc).2⟩, hlimit⟩

/-- Workers that are all busy cover every chunk. -/
theorem full (h : limit ≤ running) : Covers limit running enqueued pending :=
  .inr ⟨[], List.nodup_nil, fun _ hc => (List.not_mem_nil hc).elim, h⟩

/-- The run goes past a chunk that is not enqueued. -/
theorem skip (h : Covers limit running enqueued (c :: pending)) (hc : ¬ enqueued c) :
    Covers limit running enqueued pending := by
  have hrest : ∀ d, enqueued d → d ∈ c :: pending → d ∈ pending := by
    intro d hd hmem
    obtain rfl | hmem := List.mem_cons.mp hmem
    · exact (hc hd).elim
    · exact hmem
  obtain hall | ⟨chunks, hnodup, hchunks, hlimit⟩ := h
  · exact .inl fun d hd => hrest d hd (hall d hd)
  · exact .inr ⟨chunks, hnodup,
      fun d hd => ⟨hrest d (hchunks d hd).2 (hchunks d hd).1, (hchunks d hd).2⟩, hlimit⟩

/-- The run claims a chunk, and its upload begins. -/
theorem claim (h : Covers limit running enqueued (c :: pending)) :
    Covers limit (running + 1) (fun d => d ≠ c ∧ enqueued d) pending := by
  have hrest : ∀ d, d ≠ c → d ∈ c :: pending → d ∈ pending := fun d hne hmem =>
    (List.mem_cons.mp hmem).resolve_left hne
  obtain hall | ⟨chunks, hnodup, hchunks, hlimit⟩ := h
  · exact .inl fun d hd => hrest d hd.1 (hall d hd.2)
  · refine .inr ⟨chunks.erase c, hnodup.erase c, ?_, ?_⟩
    · intro d hd
      obtain ⟨hne, hd⟩ := (hnodup.mem_erase_iff).mp hd
      exact ⟨hrest d hne (hchunks d hd).1, hne, (hchunks d hd).2⟩
    · have hlength : chunks.length - 1 ≤ (chunks.erase c).length := by
        rw [List.length_erase]
        split
        · exact le_refl _
        · omega
      omega

end Covers

/-- The chunks that the active run has yet to look at. -/
def LoopPhase.pending : LoopPhase → List JsString
  | .findAwaiting => []
  | .findStale awaiting => awaiting
  | .find chunksToUpload => chunksToUpload
  | .claim chunkId rest => chunkId :: rest

namespace Process

/-- The queries and statements of the loop and of `uploadData` succeed, no download runs, and a run
of the loop does not find nothing while the flag is set. -/
def Heeds (s : Process) : Act → Prop
  | .loop rows throws => throws = false ∧
      ¬ (s.retryUploadLoop = true ∧ s.state.loop = some (.findStale []) ∧ rows.isEmpty = true)
  | .other (.upload _ throws) => throws = false
  | .other (.getChunk _ _) => False
  | .other (.download _ _ _) => False
  | _ => True

instance (s : Process) : (a : Act) → Decidable (s.Heeds a)
  | .loop rows throws => inferInstanceAs (Decidable (throws = false ∧
      ¬ (s.retryUploadLoop = true ∧ s.state.loop = some (.findStale []) ∧ rows.isEmpty = true)))
  | .other (.upload _ throws) => inferInstanceAs (Decidable (throws = false))
  | .other (.getChunk _ _) | .other (.download _ _ _) => inferInstanceAs (Decidable False)
  | .tick _ | .init | .uploadLoop | .other (.uploadData _ _) | .other .uploadLoop
  | .other (.loop _ _ _ _) | .other (.worker _ _) | .other .processQueue | .other .progress
  | .other .restartUploadsDownloads | .other .exit => inferInstanceAs (Decidable True)

/-- A run of the loop will read the table: the active one has not done so, or another is scheduled,
or will be by the flag, by `init` or by a call that has enqueued chunks. -/
def Marked (s : Process) : Prop :=
  s.state.loop = some .findAwaiting ∨ 0 < s.scheduled ∨
    (s.retryUploadLoop = true ∧ s.state.loop ≠ none) ∨ s.starting = true ∨
    Enqueuing s.state.uploads

/-- The number of chunk uploads that are scheduled or running. -/
def running (s : Process) : ℕ := s.chunkUploads.countP ChunkUpload.running

/-- The chunk waits for a worker. -/
def Enqueued (s : Process) (c : JsString) : Prop :=
  s.state.store.db.chunkStatus c = some .enqueued

/-- The chunks that the loop has yet to look at. -/
def pending (s : Process) : List JsString := (s.state.loop.map LoopPhase.pending).getD []

/-- A worker or the loop will come to every chunk that waits. -/
def Covered (cfg : Config) (s : Process) : Prop :=
  Covers cfg.CONCURRENT_UPLOAD_LIMIT s.running s.Enqueued s.pending

/-- The loop will run again, or nothing is left for it. -/
def Awake (cfg : Config) (s : Process) : Prop := s.Marked ∨ s.Covered cfg

variable {cfg : Config} {s t : Process} {a : Act}

/-! ## The other events -/

/-- What an event leaves of the wakeups. -/
structure Wakeups (s t : Process) (e : Event) : Prop where
  scheduled : s.scheduled ≤ t.scheduled
  flag : t.retryUploadLoop = s.retryUploadLoop
  calls : t.chunkUploads = s.chunkUploads ∨ 0 < t.scheduled
  ended : ∀ i answer, e = .worker i answer → ended t.state i = true → 0 < t.scheduled
  triggered : ∀ i, e = .upload i false → triggers s.state i false = true → 0 < t.scheduled

/-- An event of the tasks schedules the loop where it has to. -/
theorem wakeups_afterOther {state : State} {e : Event} (hexit : e ≠ .exit)
    (hcall : ∀ i answer, e = .worker i answer → ∃ upload, s.chunkUploads[i]? = some upload)
    (hafter : s.afterOther state e = some t) : s.Wakeups t e := by
  cases e with
  | worker i answer =>
    obtain ⟨upload, hupload⟩ := hcall i answer rfl
    cases hafter
    -- the end of an upload schedules the loop
    cases hended : Process.ended state i with
    | true =>
      rw [if_pos rfl, endChunkUpload_eq hupload]
      have hpos : 0 < s.scheduled + 1 := Nat.succ_pos _
      exact ⟨Nat.le_succ _, rfl, .inr hpos, fun _ _ _ _ => hpos, fun i heq => by cases heq⟩
    | false =>
      rw [if_neg (by simp)]
      refine ⟨le_refl _, rfl, .inl rfl, ?_, fun i heq => by cases heq⟩
      intro i' answer' heq hended'
      cases heq
      rw [show Process.ended state i = true from hended'] at hended
      cases hended
  | upload i throws =>
    cases hafter
    refine ⟨?_, rfl, .inl rfl, fun i answer heq => (by cases heq), ?_⟩
    · show s.scheduled ≤ if triggers s.state i throws then s.scheduled + 1 else s.scheduled
      split
      · exact Nat.le_succ _
      · exact le_refl _
    · intro i' heq htriggers
      cases heq
      show 0 < if triggers s.state i false then s.scheduled + 1 else s.scheduled
      rw [if_pos htriggers]
      exact Nat.succ_pos _
  | exit => exact (hexit rfl).elim
  | uploadLoop => cases hafter
  | loop rows now available throws => cases hafter
  | restartUploadsDownloads => cases hafter
  | _ =>
    cases hafter
    exact ⟨le_refl _, rfl, .inl rfl, fun i answer heq => (by cases heq), fun i heq => by cases heq⟩

/-- An event of the tasks keeps the invariant. -/
theorem Awake.afterOther {state : State} {e : Event} (h : s.Awake cfg) (hp : s.Parallel)
    (hreach : Reach (Uploader.step cfg) Any .init s.state) (hok : s.Heeds (.other e))
    (hstarting : s.starting = false) (hstep : Uploader.step cfg s.state e = some state)
    (hafter : s.afterOther state e = some t) : t.Awake cfg := by
  by_cases hexit : e = .exit
  · subst hexit
    cases hafter
    exact .inl (.inr (.inr (.inr (.inl rfl))))
  have hstate : t.state = state := state_of_afterOther hafter
  subst hstate
  have hcall : ∀ i answer, e = .worker i answer →
      ∃ upload, s.chunkUploads[i]? = some upload := by
    rintro i answer rfl
    obtain ⟨c, hi, -⟩ := (step_views (waiting_of_reach hreach) hstep).2
    obtain ⟨upload, hupload, -⟩ := hp.call hi
    exact ⟨upload, hupload⟩
  obtain ⟨hscheduled, hflag, hcalls, hended, htriggered⟩ := wakeups_afterOther hexit hcall hafter
  have hloop : t.state.loop = s.state.loop := by
    have hloop := step_loop hstep
    cases e with
    | exit => exact (hexit rfl).elim
    | uploadLoop => cases hafter
    | loop rows now available throws => cases hafter
    | _ => exact hloop
  have hupload : ∀ i, e ≠ .upload i true := by
    rintro i rfl
    cases hok
  -- if nothing calls the loop, then nothing did before, and the workers cover the rows
  by_cases hmarked : t.Marked
  · exact .inl hmarked
  obtain hmarked' | hcovered := h
  · obtain hstale | hpos | ⟨hretry, hactive⟩ | hstart | henqueuing := hmarked'
    · exact .inl (.inl (hloop.trans hstale))
    · exact .inl (.inr (.inl (hpos.trans_le hscheduled)))
    · exact .inl (.inr (.inr (.inl ⟨hflag.trans hretry, hloop ▸ hactive⟩)))
    · rw [hstarting] at hstart
      cases hstart
    · obtain henqueuing | ⟨i, heq, htriggers⟩ := step_enqueuing hstep hupload hexit henqueuing
      · exact .inl (.inr (.inr (.inr (.inr henqueuing))))
      · exact .inl (.inr (.inl (htriggered i heq htriggers)))
  · right
    have hpos : ¬ 0 < t.scheduled := fun hpos => hmarked (.inr (.inl hpos))
    have hplain := plain_of_afterOther hafter
    have hdownload : ∀ i bytes ok, e ≠ .download i bytes ok := by
      rintro i bytes ok rfl
      exact hok
    have hrow : ∀ c, EnqueuedStep s.state t.state e c := fun c => step_enqueued hstep hplain hdownload
    unfold Covered at hcovered ⊢
    have hrunning : t.running = s.running := by
      unfold running
      rw [hcalls.resolve_right hpos]
    have hpending : t.pending = s.pending := by
      unfold pending
      rw [hloop]
    rw [hrunning, hpending]
    refine hcovered.congr ?_
    intro c
    constructor
    · exact (hrow c).kept
    · intro hc
      obtain hc | henqueuing | ⟨i, answer, heq, hdone⟩ := (hrow c).new hc
      · exact hc
      · exact (hmarked (.inr (.inr (.inr (.inr henqueuing))))).elim
      · exact (hpos (hended i answer heq hdone)).elim

theorem Marked.callLoop (hcall : s.callLoop cfg = some t) : t.Marked := by
  obtain ⟨hloop, state, hstep, rfl⟩ | ⟨hloop, rfl⟩ := callLoop_cases hcall
  · left
    exact loop_of_uploadLoop hloop hstep
  · exact .inr (.inr (.inl ⟨rfl, hloop⟩))

/-! ## The loop -/

/-- Without a slot, all slots that there may be are taken. -/
theorem limit_le_of_tryGetting {limit : ℕ} {slots : List Bool}
    (h : tryGettingAvailableUploadWorker limit slots = none) : limit ≤ slots.count false := by
  unfold tryGettingAvailableUploadWorker at h
  split_ifs at h with hlt
  have hall : ∀ b ∈ slots, false = b := by
    intro b hb
    have hfind := List.findIdx?_eq_none_iff.mp (Option.map_eq_none_iff.mp h) b hb
    simpa using hfind.symm
  rw [List.count_eq_length.mpr hall]
  exact not_lt.mp hlt

theorem length_tryGetting {limit slotIdx : ℕ} {slots slots' : List Bool}
    (hslots : slots.length ≤ limit)
    (h : tryGettingAvailableUploadWorker limit slots = some (slotIdx, slots')) :
    slots'.length ≤ limit := by
  unfold tryGettingAvailableUploadWorker at h
  split_ifs at h with hlt
  · cases h
    rw [List.length_append]
    exact hlt
  · obtain ⟨i, -, heq⟩ := Option.map_eq_some_iff.mp h
    cases heq
    rw [List.length_set]
    exact hslots

/-- How the loop goes on: it is at its end, or has no slot, or a slot. -/
theorem goOn_cases {phase : LoopPhase} {l : List JsString} :
    (l = [] ∧ ((s.goOn cfg phase l = s ∧ ∃ awaiting, phase = .findStale awaiting) ∨
      s.goOn cfg phase l = s.finish)) ∨
    (l ≠ [] ∧ tryGettingAvailableUploadWorker cfg.CONCURRENT_UPLOAD_LIMIT s.uploadWorkers = none ∧
      s.goOn cfg phase l = s) ∨
    ∃ slotIdx uploadWorkers, l ≠ [] ∧ tryGettingAvailableUploadWorker cfg.CONCURRENT_UPLOAD_LIMIT
        s.uploadWorkers = some (slotIdx, uploadWorkers) ∧
      s.goOn cfg phase l = { s with uploadWorkers, worker := some slotIdx, asked := s.now } := by
  unfold goOn
  by_cases hl : l = []
  · left
    rw [if_pos hl]
    refine ⟨hl, ?_⟩
    split
    · exact .inl ⟨rfl, _, rfl⟩
    · exact .inr rfl
  · right
    rw [if_neg hl]
    cases hget : tryGettingAvailableUploadWorker cfg.CONCURRENT_UPLOAD_LIMIT s.uploadWorkers with
    | none => exact .inl ⟨hl, rfl, rfl⟩
    | some r => exact .inr ⟨r.1, r.2, hl, rfl, rfl⟩

/-- What the loop does with its slot leaves the wakeups alone. -/
theorem handOver_same {phase : LoopPhase} :
    (s.handOver cfg phase).scheduled = s.scheduled ∧
      (s.handOver cfg phase).retryUploadLoop = s.retryUploadLoop ∧
      (s.handOver cfg phase).starting = s.starting ∧
      (s.handOver cfg phase).uploadWorkers.length = s.uploadWorkers.length := by
  cases phase with
  | find chunksToUpload =>
    show s.giveBack.scheduled = s.scheduled ∧ s.giveBack.retryUploadLoop = s.retryUploadLoop ∧
      s.giveBack.starting = s.starting ∧ s.giveBack.uploadWorkers.length = s.uploadWorkers.length
    unfold giveBack
    split
    · exact ⟨rfl, rfl, rfl, rfl⟩
    · exact ⟨rfl, rfl, rfl, List.length_set⟩
  | _ => exact ⟨rfl, rfl, rfl, rfl⟩

section

variable {rows : List JsString} {throws : Bool} {phase : LoopPhase} {st : Statement}
  {loop : Option LoopPhase} {start : Option JsString} {move : LoopMove}

/-- The marks that a step of the loop leaves, when the run is not over. -/
theorem Marked.stepLoop (h : s.Marked) (hphase : s.state.loop ≠ some .findAwaiting)
    (htasks : Uploader.step cfg s.state
      (.loop rows (s.time phase) (s.available cfg phase) throws) = some t.state)
    (hscheduled : s.scheduled ≤ t.scheduled) (hstarting : t.starting = s.starting)
    (hflag : s.retryUploadLoop = true → s.state.loop ≠ none → t.Marked) : t.Marked := by
  obtain hstale | hpos | ⟨hretry, hactive⟩ | hstart | henqueuing := h
  · exact (hphase hstale).elim
  · exact .inr (.inl (hpos.trans_le hscheduled))
  · exact hflag hretry hactive
  · exact .inr (.inr (.inr (.inl (hstarting.trans hstart))))
  · obtain henqueuing | ⟨i, heq, -⟩ := step_enqueuing htasks (by simp) (by simp) henqueuing
    · exact .inr (.inr (.inr (.inr henqueuing)))
    · cases heq

/-- The loop goes on with the chunks that are left. -/
theorem Awake.goOn {l : List JsString} (hslotted : t.Slotted)
    (hphase : s.state.loop = some phase) (hne : phase ≠ .findAwaiting)
    (htasks : Uploader.step cfg s.state
      (.loop rows (s.time phase) (s.available cfg phase) throws) = some t.state)
    (hmemory : t = { (s.handOver cfg phase).goOn cfg phase l with state := t.state })
    (hloop : t.state.loop = LoopPhase.goOn l (s.available cfg phase))
    (hheeds : s.retryUploadLoop = true → (∃ awaiting, phase = .findStale awaiting) → l ≠ [])
    (h : s.Marked ∨ Covers cfg.CONCURRENT_UPLOAD_LIMIT (s.handOver cfg phase).running
      t.Enqueued l) : t.Awake cfg := by
  obtain ⟨hscheduled, hretry, hstarting, -⟩ := @handOver_same cfg s phase
  have hfind : s.state.loop ≠ some .findAwaiting := by
    rw [hphase]
    exact fun heq => hne (Option.some.inj heq)
  have hrunning : t.running = (s.handOver cfg phase).running := by
    unfold running
    rw [hmemory, ← @chunkUploads_goOn cfg (s.handOver cfg phase) phase l]
  obtain ⟨rfl, hgoOn⟩ | ⟨hl, hnone, hgoOn⟩ | ⟨slotIdx, uploadWorkers, hl, hsome, hgoOn⟩ :=
    @goOn_cases cfg (s.handOver cfg phase) phase l
  · -- the end of the loop, with or without a look at the flag
    have hended : t.state.loop = none := hloop
    have hkept : s.scheduled ≤ t.scheduled ∧ t.starting = s.starting ∧
        (s.retryUploadLoop = true → t.Marked) := by
      obtain ⟨hgoOn, hstale⟩ | hgoOn := hgoOn
      · rw [hgoOn] at hmemory
        rw [hmemory]
        exact ⟨hscheduled.ge, hstarting, fun hflag => (hheeds hflag hstale rfl).elim⟩
      · rw [hgoOn] at hmemory
        unfold finish at hmemory
        split_ifs at hmemory with hflag
        · rw [hmemory]
          refine ⟨?_, hstarting, fun _ => .inr (.inl (Nat.succ_pos _))⟩
          show s.scheduled ≤ (s.handOver cfg phase).scheduled + 1
          omega
        · rw [hmemory]
          rw [hretry] at hflag
          exact ⟨hscheduled.ge, hstarting, fun hflag' => (hflag hflag').elim⟩
    obtain hmarked | hcovers := h
    · exact .inl (hmarked.stepLoop hfind htasks hkept.1 hkept.2.1 fun hflag _ => hkept.2.2 hflag)
    · right
      unfold Covered pending
      rw [hended, hrunning]
      exact hcovers
  · -- no slot is left, since each has an upload that runs
    right
    apply Covers.full
    have hended : t.state.loop = none := by
      rw [hloop]
      unfold available LoopPhase.goOn
      rw [hnone, if_neg (by simp)]
    have hworker : t.worker = none := by
      have hheld := hslotted.held
      rw [hended] at hheld
      exact Option.isSome_eq_false_iff.mp hheld |> Option.isNone_iff_eq_none.mp
    have hcount := hslotted.count_false
    rw [if_pos hworker, Nat.add_zero] at hcount
    have hlimit := limit_le_of_tryGetting hnone
    have hslots : t.uploadWorkers = (s.handOver cfg phase).uploadWorkers := by
      rw [hmemory, hgoOn]
    rw [← hslots, hcount] at hlimit
    exact hlimit
  · have hactive : t.state.loop = some (.find l) := by
      rw [hloop]
      unfold available LoopPhase.goOn
      rw [hsome, if_pos ⟨hl, rfl⟩]
    have hkept : t.scheduled = s.scheduled ∧ t.starting = s.starting ∧
        t.retryUploadLoop = s.retryUploadLoop := by
      rw [hmemory, hgoOn]
      exact ⟨hscheduled, hstarting, hretry⟩
    obtain hmarked | hcovers := h
    · refine .inl (hmarked.stepLoop hfind htasks hkept.1.ge hkept.2.1 ?_)
      intro hflag _
      refine .inr (.inr (.inl ⟨hkept.2.2.trans hflag, ?_⟩))
      rw [hactive]
      simp
    · right
      unfold Covered pending
      rw [hactive, hrunning]
      exact hcovers

/-- The first query gives all enqueued chunks, or as many as there may be slots. -/
theorem covers_of_found {running : ℕ}
    (hrows : mayFind cfg rows s.state.store.db fun chunk => chunk.ul_status = .enqueued)
    (hfound : LoopPhase.findAwaiting.findsAll cfg s.state.store.db rows s.now = true) :
    Covers cfg.CONCURRENT_UPLOAD_LIMIT running s.Enqueued rows := by
  unfold LoopPhase.findsAll at hfound
  rw [Bool.and_eq_true, Bool.or_eq_true, decide_eq_true_eq, decide_eq_true_eq] at hfound
  obtain ⟨hnodup, hlimit | hall⟩ := hfound
  · right
    refine ⟨rows, hnodup, ?_, by omega⟩
    intro c hc
    refine ⟨hc, ?_⟩
    unfold mayFind at hrows
    rw [Bool.and_eq_true, List.all_eq_true] at hrows
    have hrow := hrows.2 c hc
    unfold Enqueued Database.chunkStatus
    cases hfind : s.state.store.db.findChunk c with
    | none =>
      rw [hfind] at hrow
      cases hrow
    | some chunk =>
      rw [hfind] at hrow
      exact congrArg some (of_decide_eq_true hrow)
  · left
    intro c hc
    obtain ⟨chunk, hfind, hstatus⟩ := Option.map_eq_some_iff.mp hc
    have hkey : chunk.id = c := Table.key_of_find hfind
    have hrow := List.all_eq_true.mp hall chunk (List.mem_of_find?_eq_some hfind)
    rw [hkey] at hrow
    simpa [hstatus] using hrow

/-- A step of the loop keeps the invariant. -/
theorem Awake.stepLoop (h : s.Awake cfg) (hlisted : s.Slotted) (hslotted : t.Slotted)
    (hok : s.Heeds (.loop rows throws))
    (hloop : s.LoopStep cfg rows throws phase st loop start move t) : t.Awake cfg := by
  obtain ⟨hphase, hfound, htasks, hnext, hloop, hdb, hmemory⟩ := hloop
  obtain ⟨hstands, hknown⟩ := hlisted.listed phase hphase
  have hsame : s.state.store.dbAfter .nothing = s.state.store.db := rfl
  -- a step that only reads leaves the enqueued chunks
  have henqueued : st = .nothing → ∀ c, t.Enqueued c ↔ s.Enqueued c := by
    rintro rfl c
    unfold Enqueued
    rw [hdb, hsame]
  have hpending : s.pending = phase.pending := by
    unfold pending
    rw [hphase]
    rfl
  have hcovered : s.Covered cfg →
      Covers cfg.CONCURRENT_UPLOAD_LIMIT s.running s.Enqueued phase.pending := by
    intro hcovered
    rw [← hpending]
    exact hcovered
  cases hnext with
  | throws => cases hok.1
  | awaiting hrows =>
    right
    have hcovers : Covers cfg.CONCURRENT_UPLOAD_LIMIT s.running s.Enqueued rows :=
      covers_of_found hrows (hfound.resolve_left (by simp))
    unfold Covered pending
    rw [hloop, show t.running = s.running by rw [hmemory]; rfl]
    exact hcovers.congr fun c => (henqueued rfl c).symm
  | @stale awaiting hrows =>
    apply Awake.goOn hslotted hphase (by simp) htasks hmemory hloop
    · intro hflag _ heq
      obtain ⟨rfl, rfl⟩ := List.append_eq_nil_iff.mp heq
      exact hok.2 ⟨hflag, hphase, rfl⟩
    · refine h.imp id fun h => ?_
      refine ((hcovered h).mono ?_).congr fun c => (henqueued rfl c).symm
      exact fun c hc => List.mem_append_left _ hc
  | nothing => exact (hstands rfl).elim
  | missing hfind =>
    have hrow := hknown _ List.mem_cons_self
    unfold Database.chunkStatus at hrow
    rw [hfind] at hrow
    cases hrow
  | @ready c rest chunk hfind hclaim =>
    have hkept : t.scheduled = s.scheduled ∧ t.starting = s.starting ∧
        t.retryUploadLoop = s.retryUploadLoop ∧ t.running = s.running := by
      rw [hmemory]
      exact ⟨rfl, rfl, rfl, rfl⟩
    obtain hmarked | hcovers := h
    · left
      apply hmarked.stepLoop (by rw [hphase]; simp) htasks hkept.1.ge hkept.2.1
      intro hflag _
      refine .inr (.inr (.inl ⟨hkept.2.2.1.trans hflag, ?_⟩))
      rw [hloop]
      simp
    · right
      unfold Covered pending
      rw [hloop, hkept.2.2.2]
      exact (hcovered hcovers).congr fun c => (henqueued rfl c).symm
  | @skip c rest chunk hfind hclaim =>
    apply Awake.goOn hslotted hphase (by simp) htasks hmemory hloop
    · rintro - ⟨awaiting, heq⟩
      cases heq
    · refine h.imp id fun h => ?_
      have hrunning : (s.handOver cfg (.find (c :: rest))).running = s.running := by
        unfold running
        exact congrArg (List.countP _) chunkUploads_giveBack
      have hskipped : ¬ s.Enqueued c := by
        unfold Enqueued Database.chunkStatus
        rw [hfind]
        intro heq
        have hstatus : chunk.ul_status = .enqueued := Option.some.inj heq
        unfold claimable at hclaim
        rw [hstatus] at hclaim
        cases hclaim
      rw [hrunning]
      exact ((hcovered h).skip hskipped).congr fun c => (henqueued rfl c).symm
  | @claim c rest =>
    apply Awake.goOn hslotted hphase (by simp) htasks hmemory hloop
    · rintro - ⟨awaiting, heq⟩
      cases heq
    · refine h.imp id fun h => ?_
      have hrunning : (s.handOver cfg (.claim c rest)).running = s.running + 1 := by
        show (s.chunkUploads ++ [_]).countP ChunkUpload.running = _
        rw [List.countP_append]
        rfl
      rw [hrunning]
      refine (hcovered h).claim.congr ?_
      intro d
      unfold Enqueued
      rw [hdb]
      exact Database.enqueued_claimChunk.symm

end

/-! ## The runs -/

theorem Heeds.keepsSlot (h : s.Heeds a) : s.KeepsSlot a := by
  cases a with
  | loop rows throws => exact .inl h.1
  | _ => trivial

/-- A step that heeds its chunks keeps the invariant. -/
theorem Awake.step (h : s.Awake cfg) (hr : Reach (Process.step cfg) Heeds .init s)
    (hok : s.Heeds a) (hs : s.step cfg a = some t) : t.Awake cfg := by
  have hkeeps : ∀ s a, Heeds s a → KeepsSlot s a := fun _ _ => Heeds.keepsSlot
  cases a with
  | tick ms =>
    cases hs
    exact h
  | init =>
    obtain ⟨-, state, -, hcall⟩ := init_cases hs
    exact .inl (Marked.callLoop hcall)
  | uploadLoop => exact .inl (Marked.callLoop (uploadLoop_cases hs).2)
  | loop rows throws =>
    obtain ⟨phase, st, loop, start, move, hloop⟩ := stepLoop_cases hs
    exact h.stepLoop (slotted_of_reach (hr.mono hkeeps))
      (slotted_of_reach ((hr.step hok hs).mono hkeeps)) hok hloop
  | other e =>
    obtain ⟨hstarting, state, hstep, hafter⟩ := other_cases hs
    exact h.afterOther (parallel_of_reach hr) (reach_state hr) hok hstarting hstep hafter

/-- The invariant holds in every reachable state. -/
theorem awake_of_reach (h : Reach (Process.step cfg) Heeds .init s) : s.Awake cfg :=
  h.invariant_of_reach (P := Awake cfg) (.inl (.inr (.inr (.inr (.inl rfl)))))
    fun _ _ _ hr hawake hok hs => hawake.step hr hok hs

/-- There are never more slots than the limit. -/
theorem bounded_step (h : s.uploadWorkers.length ≤ cfg.CONCURRENT_UPLOAD_LIMIT)
    (hs : s.step cfg a = some t) : t.uploadWorkers.length ≤ cfg.CONCURRENT_UPLOAD_LIMIT := by
  -- a call of the loop leaves the workers as they are
  have hcallLoop : ∀ s' : Process, s'.uploadWorkers = s.uploadWorkers →
      s'.callLoop cfg = some t → t.uploadWorkers.length ≤ cfg.CONCURRENT_UPLOAD_LIMIT := by
    intro s' hslots hcall
    obtain ⟨-, state, -, rfl⟩ | ⟨-, rfl⟩ := callLoop_cases hcall
    · exact hslots ▸ h
    · exact hslots ▸ h
  cases a with
  | tick ms =>
    cases hs
    exact h
  | init =>
    obtain ⟨-, state, -, hcall⟩ := init_cases hs
    exact hcallLoop { s with state, starting := false } rfl hcall
  | uploadLoop =>
    exact hcallLoop { s with scheduled := s.scheduled - 1 } rfl (uploadLoop_cases hs).2
  | loop rows throws =>
    obtain ⟨phase, st, loop, start, move, hloop⟩ := stepLoop_cases hs
    rw [hloop.memory]
    show (s.afterLoop cfg phase move).uploadWorkers.length ≤ cfg.CONCURRENT_UPLOAD_LIMIT
    cases move with
    | await => exact h
    | fail => exact h
    | goOn l =>
      have hhand : (s.handOver cfg phase).uploadWorkers.length ≤ cfg.CONCURRENT_UPLOAD_LIMIT :=
        (@handOver_same cfg s phase).2.2.2.symm ▸ h
      show ((s.handOver cfg phase).goOn cfg phase l).uploadWorkers.length ≤ _
      obtain ⟨-, ⟨hgoOn, -⟩ | hgoOn⟩ | ⟨-, -, hgoOn⟩ | ⟨slotIdx, uploadWorkers, -, hsome, hgoOn⟩ :=
        @goOn_cases cfg (s.handOver cfg phase) phase l
      · rw [hgoOn]
        exact hhand
      · rw [hgoOn]
        unfold finish
        split
        · exact hhand
        · exact hhand
      · rw [hgoOn]
        exact hhand
      -- the loop takes a slot only while there is a free one
      · rw [hgoOn]
        exact length_tryGetting hhand hsome
  | other e =>
    obtain ⟨-, state, -, hafter⟩ := other_cases hs
    cases e with
    | worker i answer =>
      cases hafter
      show (if ended state i then s.endChunkUpload i else s).uploadWorkers.length ≤ _
      unfold endChunkUpload
      split
      · split
        · exact h
        · exact List.length_set.trans_le h
      · exact h
    | exit =>
      cases hafter
      exact Nat.zero_le _
    | uploadLoop => cases hafter
    | loop rows now available throws => cases hafter
    | restartUploadsDownloads => cases hafter
    | _ =>
      cases hafter
      exact h

/-- There are never more slots than the limit. -/
theorem bounded_of_reach {ok : Process → Act → Prop} (h : Reach (Process.step cfg) ok .init s) :
    s.uploadWorkers.length ≤ cfg.CONCURRENT_UPLOAD_LIMIT :=
  h.invariant (P := fun s => s.uploadWorkers.length ≤ cfg.CONCURRENT_UPLOAD_LIMIT) (Nat.zero_le _)
    fun _ _ _ hb _ hs => bounded_step hb hs

/-- A slot is free or not yet created. -/
def HasSlot (cfg : Config) (s : Process) : Prop :=
  s.uploadWorkers.length < cfg.CONCURRENT_UPLOAD_LIMIT ∨ true ∈ s.uploadWorkers

/-- A slot that is free or not yet created has no upload. -/
theorem running_lt_of_hasSlot (h : Reach (Process.step cfg) Heeds .init s) (hslot : s.HasSlot cfg) :
    s.running < cfg.CONCURRENT_UPLOAD_LIMIT := by
  have hcount := (slotted_of_reach (h.mono fun _ _ => Heeds.keepsSlot)).count_false
  have hbound := bounded_of_reach h
  have hle : s.running ≤ s.uploadWorkers.count false := by
    rw [hcount]
    exact Nat.le_add_right ..
  have hcounts := List.count_false_add_count_true s.uploadWorkers
  obtain hlt | hfree := hslot
  · omega
  · have hpos := List.count_pos_iff.mpr hfree
    omega

/-- In every run as above, when a chunk is enqueued and a slot is free or not yet created, a run of
the loop will read the table, or the active one has on its list every enqueued chunk, or at least as
many of them as there are slots without an upload. -/
theorem wakeup_kept (h : Reach (Process.step cfg) Heeds .init s) {c : JsString}
    (hc : s.Enqueued c) (hslot : s.HasSlot cfg) :
    s.Marked ∨ ∃ phase, s.state.loop = some phase ∧ ((∀ d, s.Enqueued d → d ∈ phase.pending) ∨
      ∃ chunks : List JsString, chunks ≠ [] ∧ chunks.Nodup ∧
        (∀ d ∈ chunks, d ∈ phase.pending ∧ s.Enqueued d) ∧
        cfg.CONCURRENT_UPLOAD_LIMIT ≤ s.running + chunks.length) := by
  have hrunning := running_lt_of_hasSlot h hslot
  obtain hmarked | hcovered := awake_of_reach h
  · exact .inl hmarked
  · right
    unfold Covered pending at hcovered
    cases hloop : s.state.loop with
    | none =>
      rw [hloop] at hcovered
      obtain hall | ⟨chunks, -, hchunks, hlimit⟩ := hcovered
      · exact (List.not_mem_nil (hall c hc)).elim
      · cases chunks with
        | nil => exact absurd hlimit (not_le.mpr hrunning)
        | cons d chunks => exact (List.not_mem_nil (hchunks d List.mem_cons_self).1).elim
    | some phase =>
      rw [hloop] at hcovered
      refine ⟨phase, rfl, ?_⟩
      refine hcovered.imp id ?_
      rintro ⟨chunks, hnodup, hchunks, hlimit⟩
      refine ⟨chunks, ?_, hnodup, hchunks, hlimit⟩
      rintro rfl
      exact absurd hlimit (not_le.mpr hrunning)

/-- A chunk is enqueued, and the loop has read it. -/
def listedRun : List Act :=
  [.init, .loop [] false, .loop [] false] ++ (callRun 0 [1]).map .other ++
    [.uploadLoop, .loop [chunkId 1] false]

/-- Where this run ends. -/
def listedState : Process := after (guarded (Process.step .small) Heeds) .init listedRun

theorem wakeup_kept_listed : listedState.Marked ∨ ∃ phase, listedState.state.loop = some phase ∧
    ((∀ d, listedState.Enqueued d → d ∈ phase.pending) ∨
      ∃ chunks : List JsString, chunks ≠ [] ∧ chunks.Nodup ∧
        (∀ d ∈ chunks, d ∈ phase.pending ∧ listedState.Enqueued d) ∧
        Config.small.CONCURRENT_UPLOAD_LIMIT ≤ listedState.running + chunks.length) :=
  wakeup_kept (.of_after listedRun (by decide +kernel))
    (show listedState.Enqueued (chunkId 1) by unfold Enqueued; decide +kernel)
    (.inl (by decide +kernel))

/-- A chunk is enqueued while the loop, which has found nothing so far, asks for stale chunks. -/
def missedRun : List Act :=
  [.init, .loop [] false] ++ (callRun 0 [1]).map .other ++ [.uploadLoop, .loop [] false]

/-- Where this run ends. -/
def missedState : Process := after (guarded (Process.step .small) Any) .init missedRun

/-- The chunk is on the list of the active run, which has read the table, with no other run to come;
and a run that finds nothing leaves an enqueued chunk to no run at all. -/
theorem wakeup_missed :
    (Reach (Process.step .small) Any .init listedState ∧ listedState.Enqueued (chunkId 1) ∧
      listedState.HasSlot .small ∧ listedState.state.loop = some (.findStale [chunkId 1]) ∧
      listedState.scheduled = 0 ∧ listedState.retryUploadLoop = false) ∧
    Reach (Process.step .small) Any .init missedState ∧ missedState.Enqueued (chunkId 1) ∧
      missedState.HasSlot .small ∧ missedState.state.loop = none ∧ missedState.scheduled = 0 ∧
      missedState.starting = false := by
  have hlisted : Reach (Process.step .small) Heeds .init listedState :=
    .of_after listedRun (by decide +kernel)
  refine ⟨⟨hlisted.mono fun _ _ _ => trivial, ?_, .inl (by decide +kernel), by decide +kernel,
    by decide +kernel, by decide +kernel⟩, .of_after missedRun (by decide +kernel), ?_,
    .inl (by decide +kernel), by decide +kernel, by decide +kernel, by decide +kernel⟩
  · unfold Enqueued
    decide +kernel
  · unfold Enqueued
    decide +kernel

end Process

end PointNetwork.Uploader
