import PointNetwork.Uploader.GenuineTheorems

/-!
# Resolved uploads

What a resolved call of `uploadData` says about the chunks of its file, for calls that wait for the
upload. The status that `waitForFileToUpload` returns is not looked at, so that a call resolves with
its id when the file has failed; and a chunk that fails for good rejects no call.

* `Faithful`: the steps in which no such failure meets a call, and what completes is genuine;
* `resolved_upload_completed`: in runs of these steps a resolved upload is a completed upload;
* `failed_upload_resolves`: a run in which a chunk has failed for good, and the call resolves.
-/

namespace PointNetwork.Uploader

open Js Storage Machine

/-- The chunks are enqueued, and the call is neither rejected nor about to be. -/
def UploadPhase.enqueued : UploadPhase → Bool
  | .createFileMaps => true
  | .markFile => true
  | .readStatus => true
  | .waiting => true
  | .resolved => true
  | _ => false

/-- The file maps of the call are there. -/
def UploadPhase.registered : UploadPhase → Bool
  | .markFile => true
  | .readStatus => true
  | .waiting => true
  | .resolved => true
  | _ => false

/-- What an honest call says of the tables. -/
structure Upload.Honest (db : Database) (u : Upload) : Prop where
  completed : u.waitForUpload = true → u.phase = .resolved →
    db.fileStatus u.fileId = some .completed
  notFailed : u.waitForUpload = true → u.phase.enqueued = true →
    ∀ c ∈ u.chunkIds.map Prod.snd, db.chunkStatus c ≠ some .failed
  mapped : u.phase.registered = true → ∀ c ∈ u.chunkIds.map Prod.snd, db.Mapped u.fileId c

/-! ## The condition on the steps -/

/-- No chunk of a call that waits fails for good. -/
def Statement.Spares (s : State) : Statement → Prop
  | .failOrRestartChunk chunkId ul_status _ =>
    ul_status = .failed → s.store.db.chunkStatus chunkId = some .inProgress →
      ∀ u ∈ s.uploads, u.waitForUpload = true → u.phase.enqueued = true →
        chunkId ∉ u.chunkIds.map Prod.snd
  | _ => True

/-- The call that reads the status of its file does not find that it has failed. -/
def ReadsNoFailure (s : State) : Event → Prop
  | .upload i false => ∀ u ∈ s.uploads[i]?, u.phase = .readStatus →
    s.store.db.fileStatus u.fileId ≠ some .failed
  | _ => True

/-- The condition on a step. -/
def Faithful (cfg : Config) (s : State) (e : Event) : Prop :=
  ReadsNoFailure s e ∧
    ∀ r ∈ issue cfg s e, r.1.Genuine s.store.snapshot ∧ r.1.Spares s

instance (s : State) (st : Statement) : Decidable (st.Spares s) := by
  unfold Statement.Spares
  rcases st with _ | _ <;> infer_instance

instance (s : State) (e : Event) : Decidable (ReadsNoFailure s e) := by
  unfold ReadsNoFailure
  split <;> infer_instance

instance (cfg : Config) (s : State) (e : Event) : Decidable (Faithful cfg s e) :=
  inferInstanceAs (Decidable (_ ∧ _))

section

variable {s : Store} {st : Statement} {F c : JsString}

/-- A completed file stays so. -/
theorem Store.fileDone_dbAfter (hsane : Sane s.snapshot)
    (h : s.db.fileStatus F = some .completed) :
    (s.dbAfter st).fileStatus F = some .completed := by
  by_cases hst : st = .advance
  · subst hst
    show s.writeFile.fileStatus F = _
    unfold Store.writeFile
    split
    · rename_i chunk_id worker file status rest hactive
      have hpos := hsane.position
      have hposition : s.snapshot.position = .at chunk_id (.write file status rest) := by
        show s.progress.position = _
        unfold Progress.position
        rw [hactive]
      rw [hposition] at hpos
      exact write_fileDone (p := .idle) (q := .idle) (m := .init) h hpos.2.1
    · exact h
  · rw [Store.dbAfter_eq hst]
    exact external_fileDone (a := s.snapshot) h

/-- No statement takes a file map away. -/
theorem Store.mapped_dbAfter (st : Statement) (h : s.db.Mapped F c) :
    (s.dbAfter st).Mapped F c := by
  by_cases hst : st = .advance
  · subst hst
    show s.writeFile.Mapped F c
    unfold Store.writeFile
    split
    · exact h
    · exact h
  · rw [Store.dbAfter_eq hst]
    exact external_mapped.mpr (.inl h)

end

section

variable {cfg : Config} {s s' t : State} {e : Event} {st : Statement} {u : Upload}

/-- A statement of another task leaves a call honest. -/
theorem Upload.Honest.keep (h : u.Honest s.store.db) (hu : u ∈ s.uploads)
    (hsane : Sane s.store.snapshot) (hst : st.Sound) (hspares : st.Spares s) :
    u.Honest (s.store.dbAfter st) where
  completed hwait hphase := Store.fileDone_dbAfter hsane (h.completed hwait hphase)
  notFailed hwait henqueued c hc hfailed := by
    obtain ⟨hfailed, -⟩ | ⟨hprogress, retry_count, rfl⟩ := Store.failed_of_dbAfter st hst hfailed
    · exact h.notFailed hwait henqueued c hc hfailed
    · exact hspares rfl hprogress u hu hwait henqueued hc
  mapped hregistered c hc := Store.mapped_dbAfter st (h.mapped hregistered c hc)

/-- The step of a call leaves it honest, if it finds no failure. -/
theorem Upload.Step.honest {phase : UploadPhase} (hstep : Upload.Step u s.store.db st phase)
    (hkeep : u.Honest (s.store.dbAfter st))
    (hfailure : u.phase = .readStatus → phase = .resolved →
      s.store.db.fileStatus u.fileId ≠ some .failed) :
    Upload.Honest (s.store.dbAfter st) { u with phase } := by
  -- one case for each step of `uploadData`
  cases hstep with
  | createFile hphase => exact ⟨nofun, nofun, nofun⟩
  | createChunks hphase => exact ⟨nofun, nofun, nofun⟩
  | fixStatuses hphase =>
    refine ⟨nofun, ?_, nofun⟩
    -- the failed chunks were set back before the maps are written
    intro _ _ c hc hfailed
    obtain ⟨-, hst⟩ | ⟨-, retry_count, hst⟩ :=
      Store.failed_of_dbAfter .fixStatuses trivial hfailed
    · exact hst rfl
    · cases hst
  | createFileMaps hphase =>
    refine ⟨nofun, fun hwait _ => hkeep.notFailed hwait (by rw [hphase]; rfl), ?_⟩
    intro _ c hc
    exact Database.mapped_bulkCreateFileMaps.mpr (.inr ⟨rfl, hc⟩)
  | markFile hphase =>
    have hmapped := hkeep.mapped (by rw [hphase]; rfl)
    cases hwait : u.waitForUpload with
    | true =>
      refine ⟨nofun, fun _ _ => hkeep.notFailed hwait ?_, fun _ => hmapped⟩
      rw [hphase]
      rfl
    | false =>
      exact ⟨fun hw => (Bool.false_ne_true hw).elim, fun hw => (Bool.false_ne_true hw).elim,
        fun _ => hmapped⟩
  | final hphase hst =>
    have hmapped := hkeep.mapped (by rw [hphase]; rfl)
    refine ⟨?_, fun hwait _ => hkeep.notFailed hwait (by rw [hphase]; rfl), fun _ => hmapped⟩
    intro _ _
    exact hst.resolve_right (hfailure hphase rfl)
  | wait hphase hst hst' =>
    have hmapped := hkeep.mapped (by rw [hphase]; rfl)
    exact ⟨nofun, fun hwait _ => hkeep.notFailed hwait (by rw [hphase]; rfl), fun _ => hmapped⟩
  | markFailed hphase => exact ⟨nofun, nofun, nofun⟩
  | fail hphase =>
    obtain rfl | rfl := hphase
    · exact ⟨nofun, nofun, nofun⟩
    · exact ⟨nofun, nofun, nofun⟩

/-- What holds in every state of a faithful run. -/
structure Resolution (cfg : Config) (s : State) : Prop where
  running : Running cfg s
  genuine : Genuine s.store.snapshot
  honest : ∀ u ∈ s.uploads, u.Honest s.store.db

/-- A faithful step keeps the invariant. -/
theorem step_resolution (h : Resolution cfg s) (hok : Faithful cfg s e)
    (hs : step cfg s e = some t) : Resolution cfg t := by
  obtain ⟨hrunning, st, s', hissue, rfl, hstore, hsound, -⟩ := step_running h.running hs
  obtain ⟨hreads, hissued⟩ := hok
  obtain ⟨hst, hspares⟩ := hissued _ hissue
  refine ⟨hrunning, ?_, ?_⟩
  · show Genuine (s'.store.perform st).1.snapshot
    rw [hstore]
    have hprepared := issue_prepared h.running.calls hissue
    -- both invariants are carried along, as the second rests on the first
    have hboth : Sane (s.store.perform st).1.snapshot ∧ Genuine (s.store.perform st).1.snapshot := by
      apply perform_invariant (I := fun a => Sane a ∧ Genuine a)
      · intro a b hab _ hinv
        exact ⟨hinv.1.internal hab, hinv.2.internal hinv.1 hab⟩
      · exact ⟨h.running.sane.external hprepared, h.genuine.external h.running.sane hsound hst⟩
    exact hboth.2
  · intro u hu
    show u.Honest (s'.store.dbAfter st)
    rw [hstore]
    have hold : ∀ v ∈ s'.uploads, v.Honest (s.store.dbAfter st) := by
      intro v hv
      -- the calls as the event leaves them, before the statement is performed
      obtain hv | hphase | ⟨i, throws, w, phase, rfl, hw, hnext, rfl⟩ := issue_uploads hissue hv
      · exact (h.honest v hv).keep hv h.running.sane hsound hspares
      · refine ⟨?_, ?_, ?_⟩
        · rw [hphase]
          exact nofun
        · rw [hphase]
          exact nofun
        · rw [hphase]
          exact nofun
      · have hmem := List.mem_of_getElem? hw
        apply (Upload.next_step hnext).honest
          ((h.honest w hmem).keep hmem h.running.sane hsound hspares)
        intro hphase hresolved
        cases throws with
        | true =>
          unfold Upload.next at hnext
          rw [hphase] at hnext
          cases hnext
          cases hresolved
        | false => exact hreads w hw hphase
    -- a call that the statement wakes reads the status of its file next
    obtain ⟨hu, -⟩ | ⟨v, hv, hphase, rfl⟩ := mem_perform_uploads hu
    · exact hold u hu
    · have hv := hold v hv
      refine ⟨nofun, fun hwait _ => hv.notFailed hwait (by rw [hphase]; rfl), ?_⟩
      exact fun _ => hv.mapped (by rw [hphase]; rfl)

theorem resolution_init : Resolution cfg .init where
  running := running_init
  genuine := genuine_init
  honest _ hu := (List.not_mem_nil hu).elim

/-- In runs of faithful steps: when a call that waits for its upload is resolved, every chunk of its
file is COMPLETED, among them all those of the call; and a call one of whose chunks has failed is
rejected. -/
theorem resolved_upload_completed (h : Reach (step cfg) (Faithful cfg) .init s) (hu : u ∈ s.uploads)
    (hwait : u.waitForUpload = true) :
    (u.phase = .resolved →
      (∀ c, s.store.db.Mapped u.fileId c → s.store.db.chunkStatus c = some .completed) ∧
        ∀ c ∈ u.chunkIds.map Prod.snd, s.store.db.Mapped u.fileId c) ∧
      (u.phase.enqueued = true →
        ∀ c ∈ u.chunkIds.map Prod.snd, s.store.db.chunkStatus c ≠ some .failed) := by
  have hinv : Resolution cfg s :=
    h.invariant resolution_init fun _ _ _ hinv hok hs => step_resolution hinv hok hs
  have hhonest := hinv.honest u hu
  refine ⟨?_, hhonest.notFailed hwait⟩
  intro hresolved
  refine ⟨?_, hhonest.mapped (by rw [hresolved]; rfl)⟩
  exact hinv.genuine.fileDone u.fileId (.inl (hhonest.completed hwait hresolved))

end

/-- Where this run ends. -/
def resolvedState : State := after (guarded (step .small) (Faithful .small)) .init resolvedRun

theorem resolved_upload_completed_three :
    ((∀ c, resolvedState.store.db.Mapped threeChunks.fileId c →
        resolvedState.store.db.chunkStatus c = some .completed) ∧
      ∀ c ∈ threeChunks.chunkIds.map Prod.snd, resolvedState.store.db.Mapped threeChunks.fileId c) ∧
      ∀ c ∈ threeChunks.chunkIds.map Prod.snd, resolvedState.store.db.chunkStatus c ≠ some .failed := by
  have hu : { threeChunks with phase := .resolved } ∈ resolvedState.uploads := by decide +kernel
  have hresolution := resolved_upload_completed (.of_after resolvedRun (by decide +kernel)) hu rfl
  exact ⟨hresolution.1 rfl, hresolution.2 rfl⟩

/-- The first chunk of a file of three fails for good, its second is uploaded, and the progress
update that follows finds the failure and wakes the call. -/
def failedRun : List Event :=
  callRun 0 [1, 2, 3, 4, 5] ++ [.upload 0 false] ++
    loopRun [HashFn.firstBytes.id [1, 2, 3, 4], chunkId 5] ++
    [.worker 0 .throws, .worker 0 .ok, .worker 0 .ok] ++ workerRun 1 ++
    [.progress, .progress, .progress, .progress, .progress]

/-- Where this run ends. -/
def failedState : State := after (guarded (step .small) Any) .init failedRun

/-- The call resolves at the last step, although a chunk of its file has failed. -/
theorem failed_upload_resolves :
    ∃ s t, ∃ u : Upload, Reach (step .small) Any .init s ∧
      step .small s (.upload 0 false) = some t ∧ u.waitForUpload = true ∧
      s.uploads[0]? = some { u with phase := .readStatus } ∧
      t.uploads[0]? = some { u with phase := .resolved } ∧
      ∃ c, t.store.db.Mapped u.fileId c ∧ t.store.db.chunkStatus c = some .failed := by
  have hrun : Reach (step .small) Any .init failedState := .of_after failedRun (by decide +kernel)
  have hbefore : failedState.uploads[0]? =
      some { threeChunks with phase := .readStatus } := by
    decide +kernel
  have hafter : ((step .small failedState (.upload 0 false)).map fun t =>
      decide (t.uploads[0]? =
          some { threeChunks with phase := .resolved } ∧
        t.store.db.Mapped threeChunks.fileId
          (HashFn.firstBytes.id [1, 2, 3, 4]) ∧
        t.store.db.chunkStatus (HashFn.firstBytes.id [1, 2, 3, 4]) = some .failed)) =
      some true := by
    decide +kernel
  obtain ⟨t, ht, hdecided⟩ := Option.map_eq_some_iff.mp hafter
  obtain ⟨hresolved, hchunk⟩ := of_decide_eq_true hdecided
  exact ⟨failedState, t, threeChunks, hrun, ht, rfl, hbefore,
    hresolved, _, hchunk⟩

end PointNetwork.Uploader
