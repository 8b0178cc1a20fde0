import PointNetwork.Uploader.StoreTheorems

/-!
# The calls of uploadData

What every run keeps of the calls of `uploadData`:

* a call that adds file maps has created the rows that they name (`Upload.Ok`, `issue_prepared`);
* a call waits for a file only while the row of the file is not final, since every statement that
  makes it so wakes the calls that wait (`Store.wakes_of_final`).

`Running` collects what holds in every reachable state, and is the ground of the theorems on
completion, failure and resolution.
-/

namespace PointNetwork.Uploader

open Js Storage Machine

/-! ## Statements and rows -/

section

variable {s : Store} {st : Statement} {F c : JsString}

/-- Only the statement of a progress update depends on more than the tables. -/
theorem Store.dbAfter_eq (hst : st ≠ .advance) :
    s.dbAfter st = (s.snapshot.external st).db := by
  cases st with
  | advance => exact (hst rfl).elim
  | _ => rfl

/-- No statement takes the row of a file away. -/
theorem Store.fileRow_dbAfter (h : s.db.fileStatus F ≠ none) :
    (s.dbAfter st).fileStatus F ≠ none := by
  by_cases hst : st = .advance
  · subst hst
    show s.writeFile.fileStatus F ≠ none
    unfold Store.writeFile
    split
    · rw [fileStatus_write]
      exact fun hnone => h (Option.map_eq_none_iff.mp hnone)
    · exact h
  · rw [Store.dbAfter_eq hst]
    exact external_fileRow (a := s.snapshot) h

/-- No statement takes the row of a chunk away. -/
theorem Store.chunkRow_dbAfter (st : Statement) (h : s.db.chunkStatus c ≠ none) :
    (s.dbAfter st).chunkStatus c ≠ none := by
  by_cases hst : st = .advance
  · subst hst
    show s.writeFile.chunkStatus c ≠ none
    rw [Store.chunkStatus_writeFile]
    exact h
  · rw [Store.dbAfter_eq hst]
    exact external_chunkRow (a := s.snapshot) h

/-- The status is one that `waitForFileToUpload` returns. -/
def Database.Final (db : Database) (F : JsString) : Prop :=
  db.fileStatus F = some .completed ∨ db.fileStatus F = some .failed

/-- A statement that makes a file final wakes the calls that wait for it. -/
theorem Store.wakes_of_final (h : (s.dbAfter st).Final F) :
    s.db.Final F ∨ s.wakes st = some F := by
  -- either the progress update writes the status, or another statement does
  by_cases hst : st = .advance
  · subst hst
    have h : s.writeFile.Final F := h
    unfold Store.writeFile at h
    split at h
    · rename_i chunk_id worker file status rest hactive
      by_cases hF : F = file
      · right
        unfold Store.wakes
        rw [hactive, hF]
      · left
        unfold Database.Final at *
        rw [fileStatus_write] at h
        simpa [hF] using h
    · exact .inl h
  · rw [Store.dbAfter_eq hst] at h
    unfold Database.Final at h ⊢
    rw [external_fileStatus] at h
    have hdb : s.snapshot.db = s.db := rfl
    rw [hdb] at h
    cases st with
    | createFile fileId =>
      left
      cases hF : s.db.fileStatus F with
      | some old =>
        rw [hF] at h
        simpa using h
      | none =>
        rw [hF] at h
        simp at h
    | markFileAsBeingUploaded fileId fileSize =>
      left
      cases hF : s.db.fileStatus F with
      | some old =>
        rw [hF] at h
        simp only [Option.map_some] at h
        split at h
        · simp at h
        · exact h
      | none =>
        rw [hF] at h
        simp at h
    | markFileAsFailedUpload fileId =>
      by_cases hF : F = fileId
      · right
        rw [hF]
        rfl
      · left
        simpa [hF] using h
    -- no other statement touches the status of a file
    | _ => exact .inl h

end

/-! ## What a call relies on -/

/-- The rows that the call has created are there, and its file is not done when it waits. -/
def Upload.Ok (db : Database) (u : Upload) : Prop :=
  match u.phase with
  | .createChunks => db.fileStatus u.fileId ≠ none
  | .fixStatuses =>
    db.fileStatus u.fileId ≠ none ∧ ∀ c ∈ u.chunkIds.map Prod.snd, db.chunkStatus c ≠ none
  | .createFileMaps =>
    db.fileStatus u.fileId ≠ none ∧ ∀ c ∈ u.chunkIds.map Prod.snd, db.chunkStatus c ≠ none
  | .waiting => ¬ db.Final u.fileId
  | _ => True

section

variable {s : Store} {st : Statement} {u : Upload}

/-- A call keeps what it relies on, or it is woken. -/
theorem Upload.Ok.keep (st : Statement) (h : u.Ok s.db) :
    u.Ok (s.dbAfter st) ∨ u.phase = .waiting ∧ s.wakes st = some u.fileId := by
  obtain ⟨fileId, size, chunkIds, waitForUpload, phase⟩ := u
  cases phase with
  | createChunks => exact .inl (Store.fileRow_dbAfter h)
  | fixStatuses =>
    exact .inl ⟨Store.fileRow_dbAfter h.1, fun c hc => Store.chunkRow_dbAfter st (h.2 c hc)⟩
  | createFileMaps =>
    exact .inl ⟨Store.fileRow_dbAfter h.1, fun c hc => Store.chunkRow_dbAfter st (h.2 c hc)⟩
  | waiting =>
    by_cases hfinal : (s.dbAfter st).Final fileId
    · exact .inr ⟨rfl, (Store.wakes_of_final hfinal).resolve_left h⟩
    · exact .inl hfinal
  | _ => exact .inl trivial

/-- The statement of a call establishes what the next one relies on. -/
theorem Upload.Step.ok {phase : UploadPhase} (hstep : Upload.Step u s.db st phase)
    (h : u.Ok s.db) : Upload.Ok (s.dbAfter st) { u with phase } := by
  unfold Upload.Ok at h
  cases hstep with
  | createFile hphase =>
    show (s.db.createFile u.fileId).fileStatus u.fileId ≠ none
    rw [Database.fileStatus_createFile, if_pos rfl]
    cases s.db.fileStatus u.fileId with
    | none => exact Option.some_ne_none _
    | some status => exact Option.some_ne_none _
  | createChunks hphase =>
    rw [hphase] at h
    refine ⟨h, ?_⟩
    intro c hc
    show (s.db.bulkCreateChunks (u.chunkIds.map Prod.snd)).chunkStatus c ≠ none
    rw [Database.chunkStatus_bulkCreateChunks, if_pos hc]
    cases s.db.chunkStatus c with
    | none => exact Option.some_ne_none _
    | some status => exact Option.some_ne_none _
  | fixStatuses hphase =>
    rw [hphase] at h
    exact ⟨h.1, fun c hc => Store.chunkRow_dbAfter .fixStatuses (h.2 c hc)⟩
  | createFileMaps hphase => trivial
  | markFile hphase =>
    cases u.waitForUpload with
    | true => trivial
    | false => trivial
  | final hphase hst => trivial
  | wait hphase hst hst' =>
    show ¬ (_ ∨ _)
    exact fun hfinal => hfinal.elim hst hst'
  | markFailed hphase => trivial
  | fail hphase =>
    obtain rfl | rfl := hphase
    · trivial
    · trivial

end

/-! ## The statements of the other tasks -/

section

variable {cfg : Config} {db : Database} {st : Statement}

/-- A worker reads, completes a chunk or gives it back. -/
theorem Worker.next_statement {w : Worker} {i : ℕ} {answer : Answer} {phase : WorkerPhase}
    {acknowledged : Bool} (h : w.next cfg i db answer = some (st, phase, acknowledged)) :
    st = .nothing ∨ st = .completeChunk w.chunkId i ∨
      ∃ ul_status retry_count, st = .failOrRestartChunk w.chunkId ul_status retry_count := by
  obtain ⟨chunkId, wphase⟩ := w
  cases wphase with
  | readFile =>
    cases h
    exact .inl rfl
  | head =>
    dsimp only [Worker.next] at h
    split_ifs at h <;> cases h <;> exact .inl rfl
  | post =>
    dsimp only [Worker.next] at h
    split_ifs at h <;> cases h <;> exact .inl rfl
  | findForMark =>
    dsimp only [Worker.next] at h
    split_ifs at h
    · cases h
      exact .inl rfl
    · split at h
      · cases h
        exact .inl rfl
      · split_ifs at h <;> cases h <;> exact .inl rfl
  | mark =>
    dsimp only [Worker.next] at h
    split_ifs at h
    · cases h
      exact .inl rfl
    · cases h
      exact .inr (.inl rfl)
  | progress => cases h
  | settled resolved =>
    cases h
    exact .inl rfl
  | findForRestart =>
    dsimp only [Worker.next] at h
    split_ifs at h
    · cases h
      exact .inl rfl
    · split at h <;> cases h <;> exact .inl rfl
  | restart ul_status retry_count =>
    dsimp only [Worker.next] at h
    split_ifs at h
    · cases h
      exact .inl rfl
    · cases h
      exact .inr (.inr ⟨_, _, rfl⟩)
  | done => cases h

/-- A download reads, creates the row or saves its instance. -/
theorem Download.next_statement {d : Download} {bytes obtained : Option Bytes} {ok : Bool}
    {phase : DownloadPhase} (h : d.next cfg db bytes ok = some (st, phase, obtained)) :
    st = .nothing ∨ st = .createChunk d.chunkId ∨ ∃ chunk, st = .saveChunk chunk := by
  obtain ⟨chunkId, dphase⟩ := d
  cases dphase with
  | find useCache =>
    cases h
    exact .inr (.inl rfl)
  | waiting =>
    cases h
    exact .inl rfl
  | saveInProgress chunk =>
    dsimp only [Download.next] at h
    split_ifs at h
    · cases h
      exact .inr (.inr ⟨_, rfl⟩)
    · cases h
      exact .inl rfl
  | source chunk remaining =>
    cases remaining with
    | zero =>
      cases h
      exact .inl rfl
    | succ remaining =>
      dsimp only [Download.next] at h
      split at h
      · cases h
        exact .inl rfl
      · split_ifs at h <;> cases h <;> exact .inl rfl
  | saveCompleted chunk remaining =>
    dsimp only [Download.next] at h
    split_ifs at h
    · cases h
      exact .inr (.inr ⟨_, rfl⟩)
    · cases h
      exact .inl rfl
  | saveFailed chunk =>
    cases h
    cases ok with
    | true => exact .inr (.inr ⟨_, rfl⟩)
    | false => exact .inl rfl
  | done => cases h

end

/-! ## What every run keeps -/

/-- This holds of all calls. -/
def Calls (s : State) : Prop := ∀ u ∈ s.uploads, u.Ok s.store.db

/-- What holds in each reachable state. -/
structure Running (cfg : Config) (s : State) : Prop where
  tasks : Tasks cfg s
  calls : Calls s
  sane : Sane s.store.snapshot
  flagged : Flagged s.store.snapshot

section

variable {cfg : Config} {s s' t : State} {e : Event} {st : Statement}

/-- Where the calls of a task come from: each is old or new, or it is the one that takes the step. -/
theorem issue_uploads {u : Upload} (hs : issue cfg s e = some (st, s')) (hu : u ∈ s'.uploads) :
    u ∈ s.uploads ∨ u.phase = .createFile ∨
      ∃ i throws v phase, e = .upload i throws ∧ s.uploads[i]? = some v ∧
        v.next s.store.db throws = some (st, phase) ∧ u = { v with phase } := by
  cases e with
  | uploadData data waitForUpload =>
    cases hs
    obtain hu | hu := List.mem_append.mp hu
    · exact .inl hu
    · rw [List.mem_singleton.mp hu]
      exact .inr (.inl rfl)
  | upload i throws =>
    obtain ⟨v, hv, hs⟩ := Option.bind_eq_some_iff.mp hs
    obtain ⟨⟨st', phase⟩, hnext, hs⟩ := Option.map_eq_some_iff.mp hs
    cases hs
    obtain hu | rfl := List.mem_or_eq_of_mem_set hu
    · exact .inl hu
    · exact .inr (.inr ⟨i, throws, v, phase, rfl, hv, hnext, rfl⟩)
  | uploadLoop =>
    dsimp only [issue] at hs
    split_ifs at hs
    · cases hs
      exact .inl hu
    · cases hs
      exact .inl hu
  | loop rows now available throws =>
    obtain ⟨phase, hphase, hs⟩ := Option.bind_eq_some_iff.mp hs
    obtain ⟨r, hnext, hs⟩ := Option.map_eq_some_iff.mp hs
    cases hs
    exact .inl hu
  | worker i answer =>
    obtain ⟨w, hw, hs⟩ := Option.bind_eq_some_iff.mp hs
    obtain ⟨r, hnext, hs⟩ := Option.map_eq_some_iff.mp hs
    cases hs
    exact .inl hu
  | processQueue =>
    cases hs
    exact .inl hu
  | progress =>
    obtain ⟨r, hactive, hs⟩ := Option.map_eq_some_iff.mp hs
    cases hs
    exact .inl hu
  | getChunk chunkId useCache =>
    cases hs
    exact .inl hu
  | download i bytes ok =>
    obtain ⟨d, hd, hs⟩ := Option.bind_eq_some_iff.mp hs
    obtain ⟨r, hnext, hs⟩ := Option.map_eq_some_iff.mp hs
    cases hs
    exact .inl hu
  | restartUploadsDownloads =>
    cases hs
    exact .inl hu
  -- only a call and its own steps change the list of calls
  | exit =>
    cases hs
    exact (List.not_mem_nil hu).elim

/-- A statement that settles nothing wakes no call. -/
theorem perform_uploads_none (h : s.store.wakes st = none) :
    (s.perform st).uploads = s.uploads := by
  unfold State.perform
  simp only [h]

/-- A statement that settles a file wakes its calls. -/
theorem perform_uploads_some {fileId : JsString} (h : s.store.wakes st = some fileId) :
    (s.perform st).uploads = wake fileId s.uploads := by
  unfold State.perform
  simp only [h]

/-- A call after a statement is as before, or it is woken. -/
theorem mem_perform_uploads {u : Upload} (hu : u ∈ (s.perform st).uploads) :
    (u ∈ s.uploads ∧ ¬ (u.phase = .waiting ∧ s.store.wakes st = some u.fileId)) ∨
      ∃ v ∈ s.uploads, v.phase = .waiting ∧ u = { v with phase := .readStatus } := by
  cases hwakes : s.store.wakes st with
  | none =>
    rw [perform_uploads_none hwakes] at hu
    exact .inl ⟨hu, fun hw => by cases hw.2⟩
  | some fileId =>
    rw [perform_uploads_some hwakes] at hu
    obtain ⟨v, hv, rfl⟩ := List.mem_map.mp hu
    by_cases hv' : v.fileId = fileId ∧ v.phase = .waiting
    · rw [if_pos hv']
      exact .inr ⟨v, hv, hv'.2, rfl⟩
    · rw [if_neg hv']
      exact .inl ⟨hv, fun hw => hv' ⟨(Option.some.inj hw.2).symm, hw.1⟩⟩

/-- What a task issues is prepared. -/
theorem issue_prepared (h : Calls s) (hs : issue cfg s e = some (st, s')) :
    st.Prepared s.store.db := by
  cases e with
  | upload i throws =>
    obtain ⟨u, hu, hs⟩ := Option.bind_eq_some_iff.mp hs
    obtain ⟨⟨st', phase⟩, hnext, hs⟩ := Option.map_eq_some_iff.mp hs
    cases hs
    have hok := h u (List.mem_of_getElem? hu)
    unfold Upload.Ok at hok
    cases Upload.next_step hnext with
    | createFileMaps hphase =>
      rw [hphase] at hok
      exact hok
    | _ => trivial
  | uploadLoop =>
    dsimp only [issue] at hs
    split_ifs at hs
    · cases hs
      trivial
    · cases hs
      trivial
  | loop rows now available throws =>
    obtain ⟨phase, hphase, hs⟩ := Option.bind_eq_some_iff.mp hs
    obtain ⟨⟨st', loop, start⟩, hnext, hs⟩ := Option.map_eq_some_iff.mp hs
    cases hs
    obtain rfl | ⟨chunkId, expires, rfl⟩ := LoopPhase.next_statement hnext <;> trivial
  | worker i answer =>
    obtain ⟨w, hw, hs⟩ := Option.bind_eq_some_iff.mp hs
    obtain ⟨⟨st', phase, acknowledged⟩, hnext, hs⟩ := Option.map_eq_some_iff.mp hs
    cases hs
    obtain rfl | rfl | ⟨ul_status, retry_count, rfl⟩ := Worker.next_statement hnext <;> trivial
  | progress =>
    obtain ⟨u, hu, hs⟩ := Option.map_eq_some_iff.mp hs
    cases hs
    trivial
  | download i bytes ok =>
    obtain ⟨d, hd, hs⟩ := Option.bind_eq_some_iff.mp hs
    obtain ⟨⟨st', phase, obtained⟩, hnext, hs⟩ := Option.map_eq_some_iff.mp hs
    cases hs
    obtain rfl | rfl | ⟨chunk, rfl⟩ := Download.next_statement hnext <;> trivial
  | _ =>
    cases hs
    trivial

/-- The calls rely on the tables after a step. -/
theorem step_calls (h : Calls s) (hstore : s'.store = s.store)
    (hs : issue cfg s e = some (st, s')) : Calls (s'.perform st) := by
  intro u hu
  show u.Ok (s'.store.dbAfter st)
  obtain ⟨hu, hnot⟩ | ⟨v, -, -, rfl⟩ := mem_perform_uploads hu
  · rw [hstore] at hnot ⊢
    obtain hu | hphase | ⟨i, throws, v, phase, rfl, hv, hnext, rfl⟩ := issue_uploads hs hu
    · exact ((h u hu).keep st).resolve_right hnot
    · unfold Upload.Ok
      rw [hphase]
      trivial
    · exact (Upload.next_step hnext).ok (h v (List.mem_of_getElem? hv))
  · trivial

/-- A step is a statement of a task, carried out on the store. -/
theorem step_running (h : Running cfg s) (hs : step cfg s e = some t) :
    Running cfg t ∧ ∃ st s', issue cfg s e = some (st, s') ∧ t = s'.perform st ∧
      s'.store = s.store ∧ st.Sound ∧ st.Prepared s.store.db := by
  obtain ⟨⟨st, s'⟩, hissue, rfl⟩ := Option.map_eq_some_iff.mp hs
  obtain ⟨htasks, hst, -, hstore⟩ := issue_ok h.tasks hissue
  have hprepared := issue_prepared h.calls hissue
  have hsnapshot : (s'.perform st).store.snapshot = (s.store.perform st).1.snapshot := by
    show (s'.store.perform st).1.snapshot = _
    rw [hstore]
  have hboth : Sane (s.store.perform st).1.snapshot ∧ Flagged (s.store.perform st).1.snapshot := by
    apply perform_invariant (I := fun a => Sane a ∧ Flagged a)
    · intro a b hab _ hinv
      exact ⟨hinv.1.internal hab, hinv.2.internal hinv.1 hab⟩
    · exact ⟨h.sane.external hprepared, h.flagged.external⟩
  refine ⟨⟨htasks.perform st, step_calls h.calls hstore hissue, ?_, ?_⟩, st, s', hissue, rfl, hstore,
    hst.1, hprepared⟩
  · show Sane (s'.perform st).store.snapshot
    rw [hsnapshot]
    exact hboth.1
  · show Flagged (s'.perform st).store.snapshot
    rw [hsnapshot]
    exact hboth.2

theorem running_init : Running cfg .init where
  tasks := chunkInv_init.tasks
  calls _ hu := (List.not_mem_nil hu).elim
  sane := sane_init
  flagged := flagged_init

end

end PointNetwork.Uploader
