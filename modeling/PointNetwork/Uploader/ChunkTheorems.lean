import PointNetwork.Uploader.Machine

/-!
# Completed chunks

Seven statements write the status of a chunk, among them saves of instances whose rows have
changed since they were read. None replaces COMPLETED, and the two that write it follow an
acknowledgement of the bundler, or bytes with the hash of the chunk.

* `Statement.Sound`, `Earned`: what the statements that write COMPLETED, or another status, rely on;
* `Tasks`: what the tasks have in hand when they issue them;
* `completed_kept_and_earned`: the two properties over all runs.
-/

namespace PointNetwork.Uploader

open Js Storage Machine

/-! ## The statements -/

/-- A statement with a status of its own: a save writes COMPLETED or leaves the status alone, and
a failed upload is never completed. -/
def Statement.Sound : Statement → Prop
  | .saveChunk m => m.ulChanged = true → m.ul_status = .completed
  | .failOrRestartChunk _ ul_status _ => ul_status = .failed ∨ ul_status = .enqueued
  | _ => True

/-- The statement may complete the chunk. -/
def Statement.Completes (c : JsString) : Statement → Prop
  | .saveChunk m => m.id = c ∧ m.ulChanged = true
  | .completeChunk chunkId _ => chunkId = c
  | _ => False

/-- A statement completes one chunk. -/
theorem Statement.Completes.unique {c d : JsString} {st : Statement} (hc : st.Completes c)
    (hd : st.Completes d) : c = d := by
  cases st with
  | saveChunk m => exact hc.1.symm.trans hd.1
  | completeChunk chunkId worker => exact Eq.trans (Eq.symm hc) hd
  | _ => exact hc.elim

/-- The status of a chunk after a statement, given the one before it. -/
def Statement.statusAfter (c : JsString) (old : Option ChunkStatus) :
    Statement → Option ChunkStatus
  | .bulkCreateChunks chunkIds => old.or (if chunkIds.contains c then some .enqueued else none)
  | .createChunk chunkId => old.or (if c = chunkId then some .notStarted else none)
  | .fixStatuses =>
    old.map fun old => if old = .notStarted ∨ old = .failed then .enqueued else old
  | .claimChunk chunkId _ => old.map fun old =>
    if c = chunkId ∧ old ≠ .failed ∧ old ≠ .completed then .inProgress else old
  | .completeChunk chunkId _ => old.map fun old =>
    if c = chunkId ∧ old = .inProgress then .completed else old
  | .failOrRestartChunk chunkId ul_status _ => old.map fun old =>
    if c = chunkId ∧ old = .inProgress then ul_status else old
  | .saveChunk m => old.map fun old => if c = m.id ∧ m.ulChanged then m.ul_status else old
  | .restartUploadsDownloads => old.map fun old => if old = .inProgress then .enqueued else old
  | _ => old

section

variable {s : Store} {st : Statement} {c : JsString}

/-- The write of a file leaves the chunks alone. -/
theorem Store.chunkStatus_writeFile : s.writeFile.chunkStatus c = s.db.chunkStatus c := by
  unfold Store.writeFile
  split <;> rfl

/-- The status of a chunk after a statement. -/
theorem Store.chunkStatus_dbAfter :
    (s.dbAfter st).chunkStatus c = st.statusAfter c (s.db.chunkStatus c) := by
  cases st with
  | bulkCreateChunks chunkIds =>
    refine (Database.chunkStatus_bulkCreateChunks chunkIds).trans ?_
    simp [Statement.statusAfter]
  | createChunk chunkId => exact Database.chunkStatus_createChunk chunkId
  | fixStatuses => exact Database.chunkStatus_fixStatuses
  | claimChunk chunkId expires => exact Database.chunkStatus_claimChunk chunkId expires
  | completeChunk chunkId worker => exact Database.chunkStatus_completeChunk chunkId
  | failOrRestartChunk chunkId ul_status retry_count =>
    exact Database.chunkStatus_failOrRestartChunk chunkId ul_status retry_count
  | saveChunk m => exact Database.chunkStatus_saveChunk m
  | restartUploadsDownloads => exact Database.chunkStatus_restart
  | advance => exact Store.chunkStatus_writeFile
  | _ => rfl

/-- A conditional update to another status leaves the rows with this status alone. -/
theorem status_of_update {o : Option ChunkStatus} {p : ChunkStatus → Prop} [DecidablePred p]
    {new status : ChunkStatus} (hnew : new ≠ status)
    (h : o.map (fun old => if p old then new else old) = some status) : o = some status := by
  obtain ⟨old, hold, hif⟩ := Option.map_eq_some_iff.mp h
  split at hif
  · exact absurd hif hnew
  · rw [hold, hif]

/-- No statement replaces COMPLETED. -/
theorem Store.completed_kept (hst : st.Sound) (h : s.db.chunkStatus c = some .completed) :
    (s.dbAfter st).chunkStatus c = some .completed := by
  rw [Store.chunkStatus_dbAfter, h]
  cases st with
  | bulkCreateChunks chunkIds => simp [Statement.statusAfter]
  | createChunk chunkId => simp [Statement.statusAfter]
  | claimChunk chunkId expires => simp [Statement.statusAfter]
  | completeChunk chunkId worker => simp [Statement.statusAfter]
  | failOrRestartChunk chunkId ul_status retry_count => simp [Statement.statusAfter]
  | saveChunk m =>
    show some (if c = m.id ∧ m.ulChanged = true then m.ul_status else .completed) = _
    split
    · rename_i hm
      rw [hst hm.2]
    · rfl
  | _ => rfl

/-- What is COMPLETED after a statement was so before, or the statement completes it. -/
theorem Store.completed_of_dbAfter (hst : st.Sound)
    (h : (s.dbAfter st).chunkStatus c = some .completed) :
    s.db.chunkStatus c = some .completed ∨ st.Completes c := by
  rw [Store.chunkStatus_dbAfter] at h
  cases st with
  | bulkCreateChunks chunkIds =>
    obtain h | ⟨-, h⟩ := Option.or_eq_some_iff.mp h
    · exact .inl h
    · split at h <;> cases h
  | createChunk chunkId =>
    obtain h | ⟨-, h⟩ := Option.or_eq_some_iff.mp h
    · exact .inl h
    · split at h <;> cases h
  | fixStatuses => exact .inl (status_of_update (by decide) h)
  | claimChunk chunkId expires => exact .inl (status_of_update (by decide) h)
  | completeChunk chunkId worker =>
    obtain ⟨old, hold, hif⟩ := Option.map_eq_some_iff.mp h
    split at hif
    · rename_i hc
      exact .inr hc.1.symm
    · exact .inl (hif ▸ hold)
  | failOrRestartChunk chunkId ul_status retry_count =>
    refine .inl (status_of_update ?_ h)
    obtain hfailed | henqueued := hst
    · rw [hfailed]
      decide
    · rw [henqueued]
      decide
  | saveChunk m =>
    obtain ⟨old, hold, hif⟩ := Option.map_eq_some_iff.mp h
    split at hif
    · rename_i hc
      exact .inr ⟨hc.1.symm, hc.2⟩
    · exact .inl (hif ▸ hold)
  | restartUploadsDownloads => exact .inl (status_of_update (by decide) h)
  | _ => exact .inl h

/-- A chunk fails only by the statement of `markAsFailedOrRestart`. -/
theorem Store.failed_of_dbAfter (st : Statement) (hst : st.Sound)
    (h : (s.dbAfter st).chunkStatus c = some .failed) :
    (s.db.chunkStatus c = some .failed ∧ st ≠ .fixStatuses) ∨
      s.db.chunkStatus c = some .inProgress ∧ ∃ retry_count,
        st = .failOrRestartChunk c .failed retry_count := by
  rw [Store.chunkStatus_dbAfter] at h
  cases st with
  | bulkCreateChunks chunkIds =>
    obtain h | ⟨-, h⟩ := Option.or_eq_some_iff.mp h
    · exact .inl ⟨h, nofun⟩
    · split at h <;> cases h
  | createChunk chunkId =>
    obtain h | ⟨-, h⟩ := Option.or_eq_some_iff.mp h
    · exact .inl ⟨h, nofun⟩
    · split at h <;> cases h
  | fixStatuses =>
    -- `fixStatuses` leaves no chunk FAILED
    obtain ⟨old, hold, hif⟩ := Option.map_eq_some_iff.mp h
    split at hif
    · cases hif
    · rename_i hnot
      exact (hnot (.inr hif)).elim
  | claimChunk chunkId expires => exact .inl ⟨status_of_update (by decide) h, nofun⟩
  | completeChunk chunkId worker => exact .inl ⟨status_of_update (by decide) h, nofun⟩
  | failOrRestartChunk chunkId ul_status retry_count =>
    obtain ⟨old, hold, hif⟩ := Option.map_eq_some_iff.mp h
    split at hif
    · rename_i hc
      right
      rw [hold, hc.2, hc.1, hif]
      exact ⟨rfl, retry_count, rfl⟩
    · exact .inl ⟨hold.trans (congrArg some hif), nofun⟩
  | saveChunk m =>
    obtain ⟨old, hold, hif⟩ := Option.map_eq_some_iff.mp h
    split at hif
    -- no instance of a row is saved as FAILED
    · rename_i hc
      rw [hst hc.2] at hif
      cases hif
    · exact .inl ⟨hold.trans (congrArg some hif), nofun⟩
  | restartUploadsDownloads => exact .inl ⟨status_of_update (by decide) h, nofun⟩
  | _ => exact .inl ⟨h, nofun⟩

end

/-! ## The tasks -/

/-- The steps of a call of `uploadData`. -/
inductive Upload.Step (u : Upload) (db : Database) : Statement → UploadPhase → Prop
  | createFile (h : u.phase = .createFile) : Step u db (.createFile u.fileId) .createChunks
  | createChunks (h : u.phase = .createChunks) :
      Step u db (.bulkCreateChunks (u.chunkIds.map Prod.snd)) .fixStatuses
  | fixStatuses (h : u.phase = .fixStatuses) : Step u db .fixStatuses .createFileMaps
  | createFileMaps (h : u.phase = .createFileMaps) :
      Step u db (.createFileMaps u.fileId u.chunkIds) .markFile
  | markFile (h : u.phase = .markFile) :
      Step u db (.markFileAsBeingUploaded u.fileId u.size)
        (if u.waitForUpload then .readStatus else .resolved)
  | final (h : u.phase = .readStatus)
      (hst : db.fileStatus u.fileId = some .completed ∨ db.fileStatus u.fileId = some .failed) :
      Step u db .nothing .resolved
  | wait (h : u.phase = .readStatus) (hst : db.fileStatus u.fileId ≠ some .completed)
      (hst' : db.fileStatus u.fileId ≠ some .failed) : Step u db .nothing .waiting
  | markFailed (h : u.phase = .markFailed) : Step u db (.markFileAsFailedUpload u.fileId) .rejected
  | fail {phase : UploadPhase} (h : phase = .markFailed ∨ phase = .rejected) :
      Step u db .nothing phase

/-- Each step of a call is one of these. -/
theorem Upload.next_step {u : Upload} {db : Database} {throws : Bool} {st : Statement}
    {phase : UploadPhase} (h : u.next db throws = some (st, phase)) : Upload.Step u db st phase := by
  unfold Upload.next at h
  split at h
  · cases h
    exact .createFile ‹_›
  · cases h
    exact .createChunks ‹_›
  · cases h
    exact .fixStatuses ‹_›
  · cases h
    exact .createFileMaps ‹_›
  · cases h
    exact .fail (.inr rfl)
  · cases h
    exact .fail (.inr rfl)
  · cases h
    exact .fail (.inr rfl)
  · cases h
    exact .fail (.inr rfl)
  · cases h
    exact .markFile ‹_›
  · cases h
    exact .fail (.inl rfl)
  -- the status that the call has read decides whether it ends or waits
  · rename_i hphase
    split at h
    · cases h
      exact .fail (.inl rfl)
    · rename_i status hstatus
      split_ifs at h with hfinal
      · cases h
        apply Upload.Step.final hphase
        obtain rfl | rfl := hfinal
        · exact .inl hstatus
        · exact .inr hstatus
      · cases h
        rw [not_or] at hfinal
        apply Upload.Step.wait hphase
        · rw [hstatus]
          exact fun heq => hfinal.1 (Option.some.inj heq)
        · rw [hstatus]
          exact fun heq => hfinal.2 (Option.some.inj heq)
  · cases h
    exact .fail (.inl rfl)
  · cases h
    exact .markFailed ‹_›
  · cases h
    exact .fail (.inr rfl)
  · cases h
  · cases h
  · cases h

/-- The loop only reads and claims. -/
theorem LoopPhase.next_statement {cfg : Config} {phase : LoopPhase} {db : Database}
    {rows : List JsString} {now : ℕ} {available throws : Bool} {st : Statement}
    {loop : Option LoopPhase} {start : Option JsString}
    (h : phase.next cfg db rows now available throws = some (st, loop, start)) :
    st = .nothing ∨ ∃ chunkId expires, st = .claimChunk chunkId expires := by
  cases throws with
  | true =>
    cases h
    exact .inl rfl
  | false =>
    cases phase with
    | findAwaiting =>
      dsimp only [LoopPhase.next] at h
      split_ifs at h
      cases h
      exact .inl rfl
    | findStale awaiting =>
      dsimp only [LoopPhase.next] at h
      split_ifs at h
      cases h
      exact .inl rfl
    | find chunksToUpload =>
      cases chunksToUpload with
      | nil =>
        cases h
        exact .inl rfl
      | cons chunkId rest =>
        dsimp only [LoopPhase.next] at h
        split at h
        · cases h
          exact .inl rfl
        · split_ifs at h
          · cases h
            exact .inl rfl
          · cases h
            exact .inl rfl
    | claim chunkId rest =>
      cases h
      exact .inr ⟨_, _, rfl⟩

/-- The bundler has acknowledged the chunk or answered its HEAD request with success, or
`getChunk` has obtained bytes with its hash. -/
def Earned (cfg : Config) (s : State) (c : JsString) : Prop :=
  c ∈ s.acknowledged ∨ ∃ b, (c, b) ∈ s.obtained ∧ cfg.hashFn.id b = c

/-- What a worker may rely on. -/
def Worker.Ok (s : State) (w : Worker) : Prop :=
  match w.phase with
  | .findForMark => w.chunkId ∈ s.acknowledged
  | .mark => w.chunkId ∈ s.acknowledged
  | .restart ul_status _ => ul_status = .failed ∨ ul_status = .enqueued
  | _ => True

/-- An instance of a chunk whose upload status has changed has it COMPLETED, and the bytes of the
chunk were obtained. -/
def InstanceOk (cfg : Config) (s : State) (c : JsString) (m : Database.Instance) : Prop :=
  m.id = c ∧ (m.ulChanged = true → m.ul_status = .completed ∧
    ∃ b, (c, b) ∈ s.obtained ∧ cfg.hashFn.id b = c)

/-- What a download may rely on. -/
def Download.Ok (cfg : Config) (s : State) (d : Download) : Prop :=
  match d.phase with
  | .saveInProgress m => InstanceOk cfg s d.chunkId m
  | .source m _ => InstanceOk cfg s d.chunkId m
  | .saveCompleted m _ => InstanceOk cfg s d.chunkId m
  | .saveFailed m => InstanceOk cfg s d.chunkId m
  | _ => True

/-- What holds of the workers and the downloads. -/
structure Tasks (cfg : Config) (s : State) : Prop where
  workers : ∀ w ∈ s.workers, w.Ok s
  downloads : ∀ d ∈ s.downloads, d.Ok cfg s

section

variable {cfg : Config} {s s' t : State} {e : Event} {st : Statement} {c : JsString}

/-- The answers of the network are only added to. -/
structure Learned (s s' : State) : Prop where
  acknowledged : ∀ c ∈ s.acknowledged, c ∈ s'.acknowledged
  obtained : ∀ r ∈ s.obtained, r ∈ s'.obtained

theorem Learned.same (ha : s'.acknowledged = s.acknowledged) (ho : s'.obtained = s.obtained) :
    Learned s s' := ⟨fun _ h => ha ▸ h, fun _ h => ho ▸ h⟩

/-- What has been earned stays so. -/
theorem Earned.mono (h : Earned cfg s c) (hl : Learned s s') : Earned cfg s' c := by
  obtain h | ⟨b, hb, hid⟩ := h
  · exact .inl (hl.acknowledged c h)
  · exact .inr ⟨b, hl.obtained _ hb, hid⟩

/-- A worker stays right when more is known. -/
theorem Worker.Ok.mono {w : Worker} (h : w.Ok s) (hl : Learned s s') : w.Ok s' := by
  obtain ⟨chunkId, phase⟩ := w
  cases phase with
  | findForMark => exact hl.acknowledged _ h
  | mark => exact hl.acknowledged _ h
  | _ => exact h

/-- A copy of a row stays right when more is known. -/
theorem InstanceOk.mono {m : Database.Instance} (h : InstanceOk cfg s c m) (hl : Learned s s') :
    InstanceOk cfg s' c m := by
  refine ⟨h.1, ?_⟩
  intro hm
  obtain ⟨hst, b, hb, hid⟩ := h.2 hm
  exact ⟨hst, b, hl.obtained _ hb, hid⟩

/-- A download stays right when more is known. -/
theorem Download.Ok.mono {d : Download} (h : d.Ok cfg s) (hl : Learned s s') : d.Ok cfg s' := by
  obtain ⟨chunkId, phase⟩ := d
  cases phase with
  | saveInProgress m => exact InstanceOk.mono h hl
  | source m remaining => exact InstanceOk.mono h hl
  | saveCompleted m remaining => exact InstanceOk.mono h hl
  | saveFailed m => exact InstanceOk.mono h hl
  | _ => exact h

/-- What a statement completes is earned. -/
def Statement.Backed (cfg : Config) (s : State) (st : Statement) : Prop :=
  st.Sound ∧ ∀ c, st.Completes c → Earned cfg s c

theorem Statement.Backed.of_task {st : Statement} (h : st.Sound) (hc : ∀ c, ¬ st.Completes c) :
    st.Backed cfg s := ⟨h, fun c hcompletes => (hc c hcompletes).elim⟩

/-- The save of an instance that may be saved. -/
theorem InstanceOk.backed {m : Database.Instance} (h : InstanceOk cfg s c m) :
    (Statement.saveChunk m).Backed cfg s := by
  refine ⟨fun hm => (h.2 hm).1, ?_⟩
  intro c' hc'
  obtain ⟨hid, hm⟩ := hc'
  obtain ⟨-, b, hb, hhash⟩ := h.2 hm
  have hc : c = c' := h.1.symm.trans hid
  subst hc
  exact .inr ⟨b, hb, hhash⟩

/-- A step of a worker. -/
theorem Worker.next_ok (s' : State) {w : Worker} {i : ℕ} {answer : Answer} {db : Database}
    {phase : WorkerPhase} {acknowledged : Bool} (hw : w.Ok s)
    (hs' : s'.acknowledged = if acknowledged then w.chunkId :: s.acknowledged else s.acknowledged)
    (h : w.next cfg i db answer = some (st, phase, acknowledged)) :
    st.Backed cfg s' ∧ Worker.Ok s' { w with phase } := by
  have hnothing : Statement.nothing.Backed cfg s' := .of_task trivial fun _ => id
  obtain ⟨chunkId, wphase⟩ := w
  cases wphase with
  | readFile =>
    cases h
    refine ⟨hnothing, ?_⟩
    cases answer <;> trivial
  | head =>
    dsimp only [Worker.next] at h
    split_ifs at h with hok
    -- the bundler has the chunk already
    · cases h
      refine ⟨hnothing, ?_⟩
      show chunkId ∈ s'.acknowledged
      rw [hs']
      exact List.mem_cons_self
    · cases h
      exact ⟨hnothing, trivial⟩
  | post =>
    dsimp only [Worker.next] at h
    split_ifs at h with hok
    · cases h
      -- the bundler has taken the chunk
      refine ⟨hnothing, ?_⟩
      show chunkId ∈ s'.acknowledged
      rw [hs']
      exact List.mem_cons_self
    · cases h
      exact ⟨hnothing, trivial⟩
  | findForMark =>
    dsimp only [Worker.next] at h
    split_ifs at h with hthrows
    · cases h
      exact ⟨hnothing, trivial⟩
    · cases hfind : db.findChunk chunkId with
      | none =>
        rw [hfind] at h
        cases h
        exact ⟨hnothing, trivial⟩
      | some chunk =>
        rw [hfind] at h
        dsimp only at h
        split_ifs at h with hprogress
        · cases h
          refine ⟨hnothing, ?_⟩
          show chunkId ∈ s'.acknowledged
          rw [hs']
          exact hw
        · cases h
          exact ⟨hnothing, trivial⟩
  | mark =>
    dsimp only [Worker.next] at h
    split_ifs at h with hthrows
    · cases h
      exact ⟨hnothing, trivial⟩
    · cases h
      refine ⟨⟨trivial, ?_⟩, trivial⟩
      -- only an acknowledged chunk gets here
      intro c hc
      left
      rw [hs', ← show chunkId = c from hc]
      exact hw
  | progress => cases h
  | settled resolved =>
    cases h
    refine ⟨hnothing, ?_⟩
    cases resolved <;> trivial
  | findForRestart =>
    dsimp only [Worker.next] at h
    split_ifs at h with hthrows
    · cases h
      exact ⟨hnothing, trivial⟩
    · cases hfind : db.findChunk chunkId with
      | none =>
        rw [hfind] at h
        cases h
        exact ⟨hnothing, trivial⟩
      | some chunk =>
        rw [hfind] at h
        cases h
        refine ⟨hnothing, ?_⟩
        -- the status to be saved is that of a failure or of a new try
        unfold afterFailure
        split_ifs with hprogress hlimit
        · exact .inl rfl
        · exact .inr rfl
        · trivial
  | restart ul_status retry_count =>
    dsimp only [Worker.next] at h
    split_ifs at h with hthrows
    · cases h
      exact ⟨hnothing, trivial⟩
    · cases h
      exact ⟨⟨hw, fun _ hc => hc.elim⟩, trivial⟩
  | done => cases h

/-- A step of a download. -/
theorem Download.next_ok (s' : State) {d : Download} {bytes obtained : Option Bytes} {ok : Bool}
    {db : Database} {phase : DownloadPhase} (hd : d.Ok cfg s)
    (hs' : s'.obtained = (obtained.map fun b => (d.chunkId, b)).toList ++ s.obtained)
    (h : d.next cfg db bytes ok = some (st, phase, obtained)) :
    st.Backed cfg s' ∧ Download.Ok cfg s' { d with phase } := by
  have hnothing : Statement.nothing.Backed cfg s' := .of_task trivial fun _ => id
  have hmono : ∀ m, InstanceOk cfg s d.chunkId m → InstanceOk cfg s' d.chunkId m := by
    intro m hm
    refine ⟨hm.1, ?_⟩
    intro hchanged
    obtain ⟨hst, b, hb, hid⟩ := hm.2 hchanged
    exact ⟨hst, b, hs' ▸ List.mem_append_right _ hb, hid⟩
  obtain ⟨chunkId, dphase⟩ := d
  cases dphase with
  | find useCache =>
    cases h
    refine ⟨.of_task trivial fun _ => id, ?_⟩
    -- the instance does not say COMPLETED yet
    have hinst : InstanceOk cfg s' chunkId ((instanceOf chunkId db).setDl .inProgress) := by
      unfold instanceOf Database.Instance.setDl
      cases db.findChunk chunkId with
      | none => exact ⟨rfl, fun hm => by cases hm⟩
      | some chunk => exact ⟨rfl, fun hm => by cases hm⟩
    dsimp only
    split_ifs
    · trivial
    · trivial
    · exact hinst
  | waiting =>
    cases h
    exact ⟨hnothing, trivial⟩
  | saveInProgress m =>
    dsimp only [Download.next] at h
    split_ifs at h with hok
    · cases h
      refine ⟨(hmono m hd).backed, ?_⟩
      exact ⟨hd.1, fun hm => by cases hm⟩
    · cases h
      exact ⟨hnothing, trivial⟩
  | source m remaining =>
    cases remaining with
    | zero =>
      cases h
      exact ⟨hnothing, hmono m hd⟩
    | succ remaining =>
      dsimp only [Download.next] at h
      cases bytes with
      | none =>
        cases h
        exact ⟨hnothing, hmono m hd⟩
      | some b =>
        dsimp only at h
        split_ifs at h with hvalid
        · cases h
          -- from here on the instance says COMPLETED, and the bytes are on record
          refine ⟨hnothing, hd.1, ?_⟩
          intro _
          refine ⟨rfl, b, ?_, hvalid.1⟩
          rw [hs']
          exact List.mem_cons_self
        · cases h
          exact ⟨hnothing, hmono m hd⟩
  | saveCompleted m remaining =>
    dsimp only [Download.next] at h
    split_ifs at h with hok
    · cases h
      exact ⟨(hmono m hd).backed, trivial⟩
    · cases h
      exact ⟨hnothing, hmono m hd⟩
  | saveFailed m =>
    cases h
    refine ⟨?_, trivial⟩
    cases ok with
    | true => exact (hmono m hd).backed
    | false => exact hnothing
  | done => cases h

/-! ## The runs -/

theorem List.forall_mem_set {α : Type} {P : α → Prop} {xs : List α} {i : ℕ} {y : α}
    (hxs : ∀ x ∈ xs, P x) (hy : P y) : ∀ x ∈ xs.set i y, P x := by
  intro x hx
  obtain hx | rfl := List.mem_or_eq_of_mem_set hx
  · exact hxs x hx
  · exact hy

/-- The tasks stay right when more is known. -/
theorem Tasks.mono (h : Tasks cfg s) (hl : Learned s s') (hw : s'.workers = s.workers)
    (hd : s'.downloads = s.downloads) : Tasks cfg s' where
  workers w hmem := (h.workers w (hw ▸ hmem)).mono hl
  downloads d hmem := (h.downloads d (hd ▸ hmem)).mono hl

/-- What a statement leaves of the tasks: a worker may be settled. -/
theorem Tasks.perform (h : Tasks cfg s) (st : Statement) : Tasks cfg (s.perform st) := by
  have hl : Learned s (s.perform st) := .same rfl rfl
  refine ⟨?_, fun d hd => (h.downloads d hd).mono hl⟩
  intro w hw
  have hw : w ∈ settle (s.store.perform st).2 s.workers := hw
  unfold settle at hw
  split at hw
  · exact (h.workers w hw).mono hl
  · split at hw
    · exact (h.workers w hw).mono hl
    · refine List.forall_mem_set (P := Worker.Ok (s.perform st)) ?_ ?_ w hw
      · exact fun w hw => (h.workers w hw).mono hl
      · trivial

/-- A task issues a statement that is backed, and keeps what it relies on. -/
theorem issue_ok (h : Tasks cfg s) (hs : issue cfg s e = some (st, s')) :
    Tasks cfg s' ∧ st.Backed cfg s' ∧ Learned s s' ∧ s'.store = s.store := by
  have hnothing : ∀ s' : State, Statement.nothing.Backed cfg s' := fun s' =>
    .of_task trivial fun _ => id
  cases e with
  | uploadData data waitForUpload =>
    cases hs
    exact ⟨h.mono (.same rfl rfl) rfl rfl, hnothing _, .same rfl rfl, rfl⟩
  | upload i throws =>
    obtain ⟨u, hu, hs⟩ := Option.bind_eq_some_iff.mp hs
    obtain ⟨⟨st', phase⟩, hnext, hs⟩ := Option.map_eq_some_iff.mp hs
    cases hs
    refine ⟨h.mono (.same rfl rfl) rfl rfl, ?_, .same rfl rfl, rfl⟩
    cases Upload.next_step hnext with
    | _ => exact .of_task trivial fun _ => id
  | uploadLoop =>
    dsimp only [issue] at hs
    split_ifs at hs
    · cases hs
      exact ⟨h.mono (.same rfl rfl) rfl rfl, hnothing _, .same rfl rfl, rfl⟩
    · cases hs
      exact ⟨h, hnothing _, .same rfl rfl, rfl⟩
  | loop rows now available throws =>
    obtain ⟨phase, hphase, hs⟩ := Option.bind_eq_some_iff.mp hs
    obtain ⟨⟨st', loop, start⟩, hnext, hs⟩ := Option.map_eq_some_iff.mp hs
    cases hs
    refine ⟨⟨?_, fun d hd => h.downloads d hd⟩, ?_, .same rfl rfl, rfl⟩
    -- a worker that has just been started knows nothing yet
    · intro w hw
      obtain hw | hw := List.mem_append.mp hw
      · exact h.workers w hw
      · obtain ⟨chunkId, -, rfl⟩ := Option.map_eq_some_iff.mp (Option.mem_toList.mp hw)
        trivial
    · obtain rfl | ⟨chunkId, expires, rfl⟩ := LoopPhase.next_statement hnext
      · exact hnothing _
      · exact .of_task trivial fun _ => id
  | worker i answer =>
    obtain ⟨w, hw, hs⟩ := Option.bind_eq_some_iff.mp hs
    obtain ⟨⟨st', phase, acknowledged⟩, hnext, hs⟩ := Option.map_eq_some_iff.mp hs
    cases hs
    -- the process has learned what the worker was told
    have hl : Learned s { s with
        workers := s.workers.set i { w with phase }
        acknowledged :=
          if acknowledged then w.chunkId :: s.acknowledged else s.acknowledged } := by
      refine ⟨?_, fun _ hr => hr⟩
      intro c hc
      show c ∈ if acknowledged then w.chunkId :: s.acknowledged else s.acknowledged
      split
      · exact List.mem_cons_of_mem _ hc
      · exact hc
    have hok := Worker.next_ok { s with
        workers := s.workers.set i { w with phase }
        acknowledged := if acknowledged then w.chunkId :: s.acknowledged else s.acknowledged }
      (h.workers w (List.mem_of_getElem? hw)) rfl hnext
    refine ⟨⟨?_, fun d hd => (h.downloads d hd).mono hl⟩, hok.1, hl, rfl⟩
    exact List.forall_mem_set (fun w hw => (h.workers w hw).mono hl) hok.2
  | processQueue =>
    cases hs
    exact ⟨h, .of_task trivial fun _ => id, .same rfl rfl, rfl⟩
  | progress =>
    obtain ⟨u, hu, hs⟩ := Option.map_eq_some_iff.mp hs
    cases hs
    exact ⟨h, .of_task trivial fun _ => id, .same rfl rfl, rfl⟩
  | getChunk chunkId useCache =>
    cases hs
    refine ⟨⟨fun w hw => h.workers w hw, ?_⟩, hnothing _, .same rfl rfl, rfl⟩
    intro d hd
    obtain hd | hd := List.mem_append.mp hd
    · exact h.downloads d hd
    · rw [List.mem_singleton.mp hd]
      trivial
  | download i bytes ok =>
    obtain ⟨d, hd, hs⟩ := Option.bind_eq_some_iff.mp hs
    obtain ⟨⟨st', phase, obtained⟩, hnext, hs⟩ := Option.map_eq_some_iff.mp hs
    cases hs
    have hl : Learned s { s with
        downloads := s.downloads.set i { d with phase }
        obtained := (obtained.map fun b => (d.chunkId, b)).toList ++ s.obtained } :=
      ⟨fun _ hc => hc, fun _ hr => List.mem_append_right _ hr⟩
    have hok := Download.next_ok { s with
        downloads := s.downloads.set i { d with phase }
        obtained := (obtained.map fun b => (d.chunkId, b)).toList ++ s.obtained }
      (h.downloads d (List.mem_of_getElem? hd)) rfl hnext
    refine ⟨⟨fun w hw => (h.workers w hw).mono hl, ?_⟩, hok.1, hl, rfl⟩
    exact List.forall_mem_set (fun d hd => (h.downloads d hd).mono hl) hok.2
  | restartUploadsDownloads =>
    cases hs
    exact ⟨h, .of_task trivial fun _ => id, .same rfl rfl, rfl⟩
  | exit =>
    cases hs
    refine ⟨⟨fun w hw => ?_, fun d hd => ?_⟩, .of_task trivial fun _ => id, .same rfl rfl, rfl⟩
    -- the exit leaves no tasks
    · cases hw
    · cases hd

/-- The invariant of the runs: the tasks are in order, and every COMPLETED chunk is earned. -/
structure ChunkInv (cfg : Config) (s : State) : Prop where
  tasks : Tasks cfg s
  earned : ∀ c, s.store.db.chunkStatus c = some .completed → Earned cfg s c

/-- A step keeps the invariant, and every COMPLETED. -/
theorem step_chunkInv (h : ChunkInv cfg s) (hs : step cfg s e = some t) :
    ChunkInv cfg t ∧ ∀ c, s.store.db.chunkStatus c = some .completed →
      t.store.db.chunkStatus c = some .completed := by
  obtain ⟨⟨st, s'⟩, hissue, rfl⟩ := Option.map_eq_some_iff.mp hs
  obtain ⟨htasks, hst, hl, hstore⟩ := issue_ok h.tasks hissue
  have hdb : (s'.perform st).store.db = s.store.dbAfter st := by
    show s'.store.dbAfter st = _
    rw [hstore]
  refine ⟨⟨htasks.perform st, ?_⟩, ?_⟩
  · intro c hc
    rw [hdb] at hc
    obtain hc | hc := Store.completed_of_dbAfter hst.1 hc
    · have hearned : Earned cfg s' c := (h.earned c hc).mono hl
      exact hearned
    · exact hst.2 c hc
  · intro c hc
    rw [hdb]
    exact Store.completed_kept hst.1 hc

theorem chunkInv_init : ChunkInv cfg .init where
  tasks := ⟨fun w hw => (List.not_mem_nil hw).elim, fun d hd => (List.not_mem_nil hd).elim⟩
  earned c hc := by cases hc

/-- The invariant holds in every reachable state. -/
theorem chunkInv_of_reach (h : Reach (step cfg) Any .init s) : ChunkInv cfg s :=
  h.invariant chunkInv_init fun _ _ _ hinv _ hs => (step_chunkInv hinv hs).1

/-- In every state of every run, a chunk is COMPLETED only if the bundler has acknowledged it or
answered its HEAD request with success, or `getChunk` has obtained bytes with its hash; and it is
COMPLETED in every later state. -/
theorem completed_kept_and_earned (h : Reach (step cfg) Any .init s)
    (hc : s.store.db.chunkStatus c = some .completed) :
    Earned cfg s c ∧ ∀ t, Reach (step cfg) Any s t →
      t.store.db.chunkStatus c = some .completed := by
  refine ⟨(chunkInv_of_reach h).earned c hc, ?_⟩
  intro t ht
  have hboth : ChunkInv cfg t ∧ t.store.db.chunkStatus c = some .completed := by
    apply ht.invariant (P := fun t => ChunkInv cfg t ∧ t.store.db.chunkStatus c = some .completed)
    · exact ⟨chunkInv_of_reach h, hc⟩
    · intro t e t' ht _ hs
      obtain ⟨hinv, hkept⟩ := step_chunkInv ht.1 hs
      exact ⟨hinv, hkept c ht.2⟩
  exact hboth.2

end

/-- A configuration for small concrete runs. -/
def Config.small : Config := ⟨.firstBytes, 4, 0, 2, 10, 1⟩

/-- The id of a chunk with this one byte. -/
def chunkId (b : UInt8) : JsString := HashFn.firstBytes.id [b]

/-- A call of `uploadData`, up to the mark of the file. -/
def callRun (i : ℕ) (data : Bytes) : List Event :=
  [.uploadData data true, .upload i false, .upload i false, .upload i false, .upload i false,
    .upload i false]

/-- A run of the loop that claims these chunks. -/
def loopRun (chunkIds : List JsString) : List Event :=
  [.uploadLoop, .loop chunkIds 0 true false, .loop [] 0 true false] ++
    chunkIds.flatMap fun _ => [.loop [] 0 true false, .loop [] 0 true false]

/-- A worker whose chunk the bundler acknowledges. -/
def workerRun (i : ℕ) : List Event :=
  [.worker i .ok, .worker i .refused, .worker i .ok, .worker i .ok, .worker i .ok]

/-- One chunk is uploaded. -/
def uploadRun : List Event := callRun 0 [1] ++ loopRun [chunkId 1] ++ workerRun 0

/-- The state after it. -/
def uploadedState : State := after (guarded (step .small) Any) .init uploadRun

theorem completed_kept_and_earned_upload :
    Earned .small uploadedState (chunkId 1) ∧ ∀ t, Reach (step .small) Any uploadedState t →
      t.store.db.chunkStatus (chunkId 1) = some .completed :=
  completed_kept_and_earned (.of_after uploadRun (by decide +kernel)) (by decide +kernel)

/-- The call of the next run. -/
def threeChunks : Upload := .start .small [1, 2, 3, 4, 5] true

/-- A call that is resolved when the two chunks of its file and its info chunk have been uploaded. -/
def resolvedRun : List Event :=
  callRun 0 [1, 2, 3, 4, 5] ++ [.upload 0 false] ++
    loopRun [HashFn.firstBytes.id [1, 2, 3, 4], chunkId 5] ++ workerRun 0 ++
    [.progress, .progress, .progress, .progress] ++ workerRun 1 ++
    loopRun [threeChunks.fileId] ++ workerRun 2 ++ [.progress, .upload 0 false]

end PointNetwork.Uploader
