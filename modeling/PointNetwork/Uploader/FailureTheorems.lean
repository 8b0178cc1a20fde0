import PointNetwork.Uploader.CompletionTheorems
import PointNetwork.Uploader.ResolutionTheorems

/-!
# Failure reaches the file

A chunk that has used up its retries becomes FAILED by a statement that starts no progress update.
Its file fails only if an update comes to it later, for another of its chunks, and reads the row of
the failed chunk: a status that the cache has from before the failure is never read again.

* `Statement.Alerts`: in the step, a file with a failed chunk keeps such an update to come, and a
  status of the failed chunk that is fresh;
* `failure_reaches_file`: in runs of such steps failure reaches the file;
* `only_chunk_failed`: a run in which it does not.
-/

namespace PointNetwork.Uploader

open Js Storage Machine

namespace Snapshot

/-- The chunk is FAILED. -/
def Failed (a : Snapshot) (c : JsString) : Prop := a.db.chunkStatus c = some .failed

/-- A worker may still complete the chunk. -/
def Outstanding (a : Snapshot) (c : JsString) : Prop :=
  a.db.chunkStatus c = some .enqueued ∨ a.db.chunkStatus c = some .inProgress

/-- A chunk of the file is FAILED. -/
def HasFailed (a : Snapshot) (F : JsString) : Prop := ∃ c ∈ a.db.chunkIdsOf F, a.Failed c

/-- The cache does not hide a failure of the chunk. -/
def Fresh (a : Snapshot) (c : JsString) : Prop :=
  a.memory.chunkUploadCache c = none ∨ a.memory.chunkUploadCache c = some .failed

/-- The running update has yet to count the chunk, and will find its failure. -/
def ToCount (a : Snapshot) (F c : JsString) : Prop :=
  match a.position with
  | .chunks G _ todo _ => F = G ∧ c ∈ todo ∧ a.Fresh c
  | .at _ (.count G _ d todo _) => F = G ∧ (c = d ∨ c ∈ todo ∧ a.Fresh c)
  | _ => False

/-- A progress update will find that the file has failed: it has counted a failure, or is about to,
or it comes to the file (`comes`) or a chunk that is outstanding brings it there, with a failure
that the cache does not hide. The chunks of the file, and which have failed or are outstanding, are
those after a statement. -/
def Alerted (a : Snapshot) (F : JsString) (chunkIds : List JsString)
    (failed outstanding : JsString → Prop) (comes : Prop) : Prop :=
  a.Tallies F .failed ∨ a.Writes F .failed ∨ (∃ c ∈ chunkIds, failed c ∧ a.ToCount F c) ∨
    (∃ c ∈ chunkIds, failed c ∧ a.Fresh c) ∧ (comes ∨ ∃ e ∈ chunkIds, outstanding e)

/-- A progress update will find that the file has failed. -/
def Alert (a : Snapshot) (F : JsString) : Prop :=
  a.Alerted F (a.db.chunkIdsOf F) a.Failed a.Outstanding (a.Comes F)

/-- The files that wait for an update to find a failure do so when `G` becomes a parent of these
chunks. -/
def KeepsAlerted (a : Snapshot) (G : JsString) (parented : List JsString) : Prop :=
  ∀ F ∈ a.db.enqueuedFiles, a.HasFailed F → ¬ a.Final F →
    a.Alerted F (a.db.chunkIdsOf F) a.Failed a.Outstanding (a.Outlasts G parented F)

end Snapshot

/-- A file of a chunk that fails in the statement will find out, and every file with a failed chunk
that was to find out still does. -/
def Statement.Alerts (a : Snapshot) : Statement → Prop
  | .failOrRestartChunk d ul_status _ =>
    ul_status = .failed → a.db.chunkStatus d = some .inProgress →
      ∀ F ∈ a.db.fileIdsOf d, ¬ a.Final F →
        a.Alerted F (a.db.chunkIdsOf F) (fun c => a.Failed c ∨ c = d)
          (fun e => e ≠ d ∧ a.Outstanding e) (a.Comes F)
  | .completeChunk d _ => a.db.chunkStatus d = some .inProgress →
    ∀ F ∈ a.db.fileIdsOf d, a.HasFailed F → ¬ a.Final F →
      a.Alerted F (a.db.chunkIdsOf F) a.Failed (fun e => e ≠ d ∧ a.Outstanding e)
        (a.Comes F ∨ a.Parented F d)
  | .saveChunk m => m.ulChanged = true →
    ∀ F ∈ a.db.fileIdsOf m.id, (∃ c ∈ a.db.chunkIdsOf F, c ≠ m.id ∧ a.Failed c) → ¬ a.Final F →
      a.Alerted F (a.db.chunkIdsOf F) (fun c => c ≠ m.id ∧ a.Failed c)
        (fun e => e ≠ m.id ∧ a.Outstanding e) (a.Comes F)
  | .createFileMaps G entries =>
    ((∃ c ∈ a.db.chunkIdsOf G ++ entries.map Prod.snd, a.Failed c) → ¬ a.Final G →
      a.Alerted G (a.db.chunkIdsOf G ++ entries.map Prod.snd) a.Failed a.Outstanding
        (a.Comes G ∨ ∃ x ∈ a.memory.queue, x.1 ∈ entries.map Prod.snd)) ∧
      a.KeepsAlerted G (entries.map Prod.snd)
  | .advance => ∀ G chunkIds, a.Found G chunkIds → a.KeepsAlerted G chunkIds
  | .exit => ∀ F ∈ a.db.enqueuedFiles, a.HasFailed F →
    a.Final F ∨ ∃ e ∈ a.db.chunkIdsOf F, a.Outstanding e
  | _ => True

/-! The condition can be evaluated. -/

instance (a : Snapshot) (c : JsString) : Decidable (a.Failed c) :=
  inferInstanceAs (Decidable (_ = _))

instance (a : Snapshot) (c : JsString) : Decidable (a.Outstanding c) :=
  inferInstanceAs (Decidable (_ ∨ _))

instance (a : Snapshot) (F : JsString) : Decidable (a.HasFailed F) :=
  inferInstanceAs (Decidable (∃ c ∈ a.db.chunkIdsOf F, a.Failed c))

instance (a : Snapshot) (c : JsString) : Decidable (a.Fresh c) :=
  inferInstanceAs (Decidable (_ ∨ _))

instance (a : Snapshot) (F c : JsString) : Decidable (a.ToCount F c) := by
  unfold Snapshot.ToCount
  rcases a.position with _ | ⟨_, _ | _⟩ <;> infer_instance

instance (a : Snapshot) (F : JsString) (chunkIds : List JsString)
    (failed outstanding : JsString → Prop) (comes : Prop) [DecidablePred failed]
    [DecidablePred outstanding] [Decidable comes] :
    Decidable (a.Alerted F chunkIds failed outstanding comes) :=
  inferInstanceAs (Decidable (a.Tallies F .failed ∨ a.Writes F .failed ∨
    (∃ c ∈ chunkIds, failed c ∧ a.ToCount F c) ∨
      (∃ c ∈ chunkIds, failed c ∧ a.Fresh c) ∧ (comes ∨ ∃ e ∈ chunkIds, outstanding e)))

instance (a : Snapshot) (G : JsString) (parented : List JsString) :
    Decidable (a.KeepsAlerted G parented) :=
  inferInstanceAs (Decidable (∀ F ∈ a.db.enqueuedFiles, a.HasFailed F → ¬ a.Final F →
    a.Alerted F (a.db.chunkIdsOf F) (a.Failed ·) (a.Outstanding ·) (a.Outlasts G parented F)))

instance (a : Snapshot) (st : Statement) : Decidable (st.Alerts a) := by
  unfold Statement.Alerts
  rcases st with _ | _ <;> infer_instance

/-! ## The steps of the progress updates -/

/-- What holds of the tables and the maps in runs of such steps. -/
structure Failure (a : Snapshot) : Prop where
  sane : Sane a
  flagged : Flagged a
  genuine : Genuine a
  alerted : ∀ F, a.HasFailed F → a.Final F ∨ a.Alert F

section

variable {a b : Snapshot} {st : Statement} {F c : JsString}

theorem failure_init : Failure Store.init.snapshot where
  sane := sane_init
  flagged := flagged_init
  genuine := genuine_init
  alerted _ h := by
    obtain ⟨c, hc, -⟩ := h
    exact (List.not_mem_nil hc).elim

theorem internal_final (hab : Internal a b) (hsane : Sane a) (h : a.Final F) : b.Final F := by
  have hpos := hsane.position
  cases hab with
  | write => exact write_final h hpos.2.1
  | _ => exact h

/-- A step of an update fails no chunk. -/
theorem internal_failed (hab : Internal a b) : b.Failed c ↔ a.Failed c := by
  unfold Snapshot.Failed
  rw [internal_chunkStatus hab]

/-- A step of an update leaves the workers alone. -/
theorem internal_outstanding (hab : Internal a b) : b.Outstanding c ↔ a.Outstanding c := by
  unfold Snapshot.Outstanding
  rw [internal_chunkStatus hab]

/-- No step of an update hides a failure. -/
theorem Snapshot.Fresh.internal (hab : Internal a b) (hgenuine : Genuine a) (hfailed : a.Failed c)
    (h : a.Fresh c) : b.Fresh c := by
  have hload : ∀ {m : Memory} {d : JsString} {queue : List (JsString × ℕ)}, c ≠ d →
      m.chunkUploadCache c = none ∨ m.chunkUploadCache c = some .failed →
        ({ m with queue }.setChunk d (some .completed)).chunkUploadCache c = none ∨
          ({ m with queue }.setChunk d (some .completed)).chunkUploadCache c = some .failed := by
    intro m d queue hcd h
    rw [setChunk_ne hcd]
    exact h
  -- only `load`, `start` and `count` write a chunk's status in the memory
  cases hab with
  | @load db m d worker queue hqueue hparents =>
    apply hload _ h
    -- the chunk would be in the queue, hence completed
    rintro rfl
    have hdone : db.chunkStatus c = some .completed :=
      hgenuine.queued c worker (hqueue ▸ List.mem_cons_self)
    have hfailed : db.chunkStatus c = some .failed := hfailed
    rw [hdone] at hfailed
    cases hfailed
  | @start db m d worker queue files hqueue hparents =>
    apply hload _ h
    rintro rfl
    have hdone : db.chunkStatus c = some .completed :=
      hgenuine.queued c worker (hqueue ▸ List.mem_cons_self)
    have hfailed : db.chunkStatus c = some .failed := hfailed
    rw [hdone] at hfailed
    cases hfailed
  | findParents =>
    unfold Snapshot.Fresh
    rw [addFiles_other.2.1]
    exact h
  | noParents =>
    unfold Snapshot.Fresh
    rw [addFiles_other.2.1]
    exact h
  | findFile hfile =>
    unfold Snapshot.Fresh
    rw [addParents_other.2.1]
    exact h
  | @count db m e file d todo rest counted status hstatus =>
    by_cases hcd : c = d
    · subst hcd
      have hfailed : db.chunkStatus c = some .failed := hfailed
      rw [hfailed] at hstatus
      right
      show (m.setChunk c (some status)).chunkUploadCache c = some .failed
      rw [setChunk_self]
      exact hstatus.symm
    · unfold Snapshot.Fresh
      rw [setChunk_ne hcd]
      exact h
  | decide hstatus =>
    unfold Snapshot.Fresh
    rw [setFlags_other.1]
    exact h
  | _ => exact h

/-- A failure that has been counted is written. -/
theorem internal_tallied (hab : Internal a b) (hsane : Sane a) (h : a.Tallies F .failed) :
    b.Tallies F .failed ∨ b.Writes F .failed := by
  cases hab with
  | @count db m e file d todo rest counted status hstatus =>
    obtain ⟨rfl, x, hx, hfailed⟩ := h
    exact .inl ⟨rfl, x, List.mem_append_left _ hx, hfailed⟩
  | @noChunk db m e file d todo rest counted hstatus =>
    obtain ⟨rfl, -⟩ := h
    exact (hsane.chunkRow F d hsane.mapped_count hstatus).elim
  | @cached db m file d todo rest counted status hcache =>
    obtain ⟨rfl, x, hx, hfailed⟩ := h
    exact .inl ⟨rfl, x, List.mem_append_left _ hx, hfailed⟩
  | miss hcache => exact .inl h
  | @decide db m e file rest counted status hstatus =>
    obtain ⟨rfl, hfailed⟩ := h
    rw [finalStatus_failed.mpr hfailed] at hstatus
    exact .inr ⟨rfl, (Option.some.inj hstatus).symm⟩
  | @undecided db m file rest counted hstatus =>
    obtain ⟨rfl, hfailed⟩ := h
    rw [finalStatus_failed.mpr hfailed] at hstatus
    cases hstatus
  | _ => exact h.elim

/-- A failure that is to be counted is counted. -/
theorem internal_toCount (hab : Internal a b) (hsane : Sane a) (hfailed : a.Failed c)
    (h : a.ToCount F c) : b.ToCount F c ∨ b.Tallies F .failed := by
  cases hab with
  | @count db m e file d todo rest counted status hstatus =>
    -- the row that is read is the chunk's own, or the chunk stands behind it
    obtain ⟨rfl, rfl | ⟨hmem, hfresh⟩⟩ := h
    · right
      have hfailed : db.chunkStatus c = some .failed := hfailed
      rw [hfailed] at hstatus
      refine ⟨rfl, _, List.mem_append_right _ List.mem_cons_self, ?_⟩
      exact (Option.some.inj hstatus).symm
    · left
      refine ⟨rfl, hmem, ?_⟩
      by_cases hcd : c = d
      · subst hcd
        have hfailed : db.chunkStatus c = some .failed := hfailed
        rw [hfailed] at hstatus
        right
        show (m.setChunk c (some status)).chunkUploadCache c = some .failed
        rw [setChunk_self]
        exact hstatus.symm
      · unfold Snapshot.Fresh
        rw [setChunk_ne hcd]
        exact hfresh
  | @noChunk db m e file d todo rest counted hstatus =>
    obtain ⟨rfl, -⟩ := h
    exact (hsane.chunkRow F d hsane.mapped_count hstatus).elim
  -- a status that the memory holds already is counted without a read
  | @cached db m file d todo rest counted status hcache =>
    obtain ⟨rfl, hmem, hfresh⟩ := h
    obtain rfl | hmem := List.mem_cons.mp hmem
    · right
      obtain hnone | hcached := hfresh
      · have hnone : m.chunkUploadCache c = none := hnone
        rw [hcache] at hnone
        cases hnone
      · have hcached : m.chunkUploadCache c = some .failed := hcached
        rw [hcache] at hcached
        refine ⟨rfl, _, List.mem_append_right _ List.mem_cons_self, ?_⟩
        exact Option.some.inj hcached
    · exact .inl ⟨rfl, hmem, hfresh⟩
  | @miss db m e file d todo rest counted hcache =>
    obtain ⟨rfl, hmem, hfresh⟩ := h
    obtain rfl | hmem := List.mem_cons.mp hmem
    · exact .inl ⟨rfl, .inl rfl⟩
    · exact .inl ⟨rfl, .inr ⟨hmem, hfresh⟩⟩
  | decide hstatus => exact (List.not_mem_nil h.2.1).elim
  | undecided hstatus => exact (List.not_mem_nil h.2.1).elim
  | _ => exact h.elim

/-- The failure that the running update writes is in the row after the step. -/
theorem internal_writesFailed (hab : Internal a b) (hsane : Sane a) (h : a.Writes F .failed) :
    b.Final F := by
  cases hab with
  | @write db m c file status rest =>
    obtain ⟨rfl, rfl⟩ := h
    obtain ⟨-, -, ⟨d, hd⟩, -⟩ := hsane.position
    obtain hwritten | ⟨-, hwritten⟩ := written_status .failed (hsane.fileRow F d hd)
    · exact .inr hwritten
    · exact .inl hwritten
  | _ => exact h.elim

/-- An update that starts on a file will count its failed chunks. -/
theorem toCount_of_starts (hsane : Sane a) (hgenuine : Genuine a) (hstarts : a.Starts F)
    (hc : a.db.Mapped F c) (hfailed : a.Failed c) (hfresh : a.Fresh c) : a.ToCount F c := by
  obtain ⟨db, m, p⟩ := a
  obtain ⟨chunkIds, rest, hposition⟩ := hstarts
  obtain rfl : p = .chunks F [] chunkIds rest := hposition
  refine ⟨rfl, ?_, hfresh⟩
  obtain hlisted | hdone := hgenuine.known F _ hsane.position.1 c hc
  · exact hlisted
  · have hdone : db.chunkStatus c = some .completed := hdone
    have hfailed : db.chunkStatus c = some .failed := hfailed
    rw [hdone] at hfailed
    cases hfailed

/-- A file that is to find out about a failure goes on to do so. -/
theorem internal_alerted (hab : Internal a b) (h : Failure a) {comes : Prop}
    (halerted : a.Alerted F (a.db.chunkIdsOf F) a.Failed a.Outstanding comes)
    (hcomes : comes → a.Comes F ∧ ∀ c G chunkIds rest,
      a.position = .at c (.findFile G chunkIds rest) → a.Outlasts G chunkIds F) :
    b.Final F ∨ b.Alert F := by
  have hsane := h.sane
  have hmem : ∀ c ∈ a.db.chunkIdsOf F, c ∈ b.db.chunkIdsOf F := by
    intro c hc
    rw [internal_chunkIdsOf hab]
    exact hc
  obtain htally | hwrites | ⟨c, hc, hfailed, hcount⟩ | ⟨⟨c, hc, hfailed, hfresh⟩, hbring⟩ := halerted
  · right
    obtain htally | hwrites := internal_tallied hab hsane htally
    · exact .inl htally
    · exact .inr (.inl hwrites)
  · exact .inl (internal_writesFailed hab hsane hwrites)
  · right
    obtain hcount | htally := internal_toCount hab hsane hfailed hcount
    · exact .inr (.inr (.inl ⟨c, hmem c hc, (internal_failed hab).mpr hfailed, hcount⟩))
    · exact .inl htally
  · have hfailed' := (internal_failed hab).mpr hfailed
    have hfresh' := hfresh.internal hab h.genuine hfailed
    obtain hcome | ⟨e, he, houtstanding⟩ := hbring
    · obtain hcome' | hstarts | ⟨f, hf, hflags⟩ :=
        internal_comes hab hsane (hcomes hcome).1 (hcomes hcome).2
      · exact .inr (.inr (.inr (.inr ⟨⟨c, hmem c hc, hfailed', hfresh'⟩, .inl hcome'⟩)))
      · right
        right
        right
        left
        exact ⟨c, hmem c hc, hfailed', toCount_of_starts (hsane.internal hab)
          (h.genuine.internal hsane hab) hstarts (hmem c hc) hfailed' hfresh'⟩
      · obtain huploaded | hfailedFlag := hflags
        · -- the file would be COMPLETED, with a chunk that has failed
          have hdone : a.db.chunkStatus c = some .completed :=
            h.genuine.fileDone F (h.flagged.uploaded F f hf huploaded) c hc
          have hfailed : a.db.chunkStatus c = some .failed := hfailed
          rw [hdone] at hfailed
          cases hfailed
        · left
          obtain hfinal | hwrites := h.flagged.failed F f hf hfailedFlag
          · exact internal_final hab hsane hfinal
          · exact internal_writesFailed hab hsane hwrites
    · right
      right
      right
      right
      exact ⟨⟨c, hmem c hc, hfailed', hfresh'⟩,
        .inr ⟨e, hmem e he, (internal_outstanding hab).mpr houtstanding⟩⟩

/-- An update comes to a file that outlasts the parents it is about to add. -/
theorem comes_of_outlasts {d G : JsString} {chunkIds rest : List JsString}
    (hposition : a.position = .at d (.findFile G chunkIds rest)) (h : a.Outlasts G chunkIds F) :
    a.Comes F := by
  obtain rfl | hahead | ⟨x, hx, hfile, hparented⟩ := h
  · right
    unfold Snapshot.Ahead
    rw [hposition]
    exact List.mem_cons_self
  · exact .inr hahead
  · exact .inl ⟨x, hx, hfile, hparented.symm.imp_left And.left⟩

/-- A step of a progress update keeps the invariant. -/
theorem Failure.internal (h : Failure a) (hab : Internal a b)
    (hkeeps : ∀ c G chunkIds rest, a.position = .at c (.findFile G chunkIds rest) →
      a.KeepsAlerted G chunkIds) : Failure b where
  sane := h.sane.internal hab
  flagged := h.flagged.internal h.sane hab
  genuine := h.genuine.internal h.sane hab
  alerted F hF := by
    have hhas : a.HasFailed F := by
      obtain ⟨c, hc, hfailed⟩ := hF
      rw [internal_chunkIdsOf hab] at hc
      exact ⟨c, hc, (internal_failed hab).mp hfailed⟩
    by_cases hfinal : a.Final F
    · exact .inl (internal_final hab h.sane hfinal)
    by_cases hfind : ∃ c G chunkIds rest, a.position = .at c (.findFile G chunkIds rest)
    · obtain ⟨d, G, chunkIds, rest, hposition⟩ := hfind
      have ⟨c, hc, _⟩ := hhas
      apply internal_alerted hab h
        (hkeeps d G chunkIds rest hposition F (mem_enqueuedFiles hc) hhas hfinal)
      intro hout
      refine ⟨comes_of_outlasts hposition hout, ?_⟩
      intro d' G' chunkIds' rest' hposition'
      rw [hposition] at hposition'
      cases hposition'
      exact hout
    · apply internal_alerted hab h ((h.alerted F hhas).resolve_left hfinal)
      intro hcomes
      exact ⟨hcomes, fun c G chunkIds rest heq => (hfind ⟨c, G, chunkIds, rest, heq⟩).elim⟩

/-! ## The statements -/

/-- A failure stays, unless the statement enqueues the failed chunks or completes this one. -/
theorem external_failed (h : a.Failed c) (hfix : st ≠ .fixStatuses)
    (hsave : ∀ m, st = .saveChunk m → m.ulChanged = true → m.id ≠ c) :
    (a.external st).Failed c := by
  unfold Snapshot.Failed at h ⊢
  rw [external_chunkStatus, h]
  cases st with
  | fixStatuses => exact (hfix rfl).elim
  | bulkCreateChunks chunkIds => simp [Statement.statusAfter]
  | createChunk chunkId => simp [Statement.statusAfter]
  | claimChunk chunkId expires => simp [Statement.statusAfter]
  | completeChunk chunkId worker => simp [Statement.statusAfter]
  | failOrRestartChunk chunkId ul_status retry_count => simp [Statement.statusAfter]
  | saveChunk m =>
    show some (if c = m.id ∧ m.ulChanged = true then m.ul_status else .failed) = _
    rw [if_neg fun hm => hsave m rfl hm.2 hm.1.symm]
  | _ => rfl

/-- An outstanding chunk stays so, unless the statement completes it or lets it fail. -/
theorem external_outstanding (h : a.Outstanding c) (hcompletes : ¬ st.Completes c)
    (hfail : ∀ d ul_status retry_count, st = .failOrRestartChunk d ul_status retry_count →
      ul_status = .enqueued ∨ d ≠ c ∨ a.db.chunkStatus c ≠ some .inProgress) :
    (a.external st).Outstanding c := by
  have hold : ∃ old, a.db.chunkStatus c = some old ∧ (old = .enqueued ∨ old = .inProgress) := by
    obtain h | h := h
    · exact ⟨_, h, .inl rfl⟩
    · exact ⟨_, h, .inr rfl⟩
  obtain ⟨old, hold, hcases⟩ := hold
  have hkept : some old = some .enqueued ∨ some old = some .inProgress :=
    hcases.imp (congrArg some) (congrArg some)
  unfold Snapshot.Outstanding
  rw [external_chunkStatus, hold]
  -- only completing the chunk, or giving it up, would end its upload
  cases st with
  | bulkCreateChunks chunkIds => simpa [Statement.statusAfter] using hcases
  | createChunk chunkId => simpa [Statement.statusAfter] using hcases
  | fixStatuses =>
    obtain rfl | rfl := hcases
    · exact .inl rfl
    · exact .inr rfl
  | claimChunk chunkId expires =>
    show some (if c = chunkId ∧ old ≠ .failed ∧ old ≠ .completed then .inProgress else old) = _ ∨
      some (if c = chunkId ∧ old ≠ .failed ∧ old ≠ .completed then .inProgress else old) = _
    split
    · exact .inr rfl
    · exact hkept
  | completeChunk chunkId worker =>
    show some (if c = chunkId ∧ old = .inProgress then .completed else old) = _ ∨
      some (if c = chunkId ∧ old = .inProgress then .completed else old) = _
    rw [if_neg fun hm => hcompletes hm.1.symm]
    exact hkept
  | failOrRestartChunk chunkId ul_status retry_count =>
    show some (if c = chunkId ∧ old = .inProgress then ul_status else old) = _ ∨
      some (if c = chunkId ∧ old = .inProgress then ul_status else old) = _
    split
    · rename_i hm
      obtain henqueued | hne | hnot := hfail chunkId ul_status retry_count rfl
      · exact .inl (congrArg some henqueued)
      · exact (hne hm.1.symm).elim
      · rw [hold, hm.2] at hnot
        exact (hnot rfl).elim
    · exact hkept
  | saveChunk m =>
    show some (if c = m.id ∧ m.ulChanged = true then m.ul_status else old) = _ ∨
      some (if c = m.id ∧ m.ulChanged = true then m.ul_status else old) = _
    rw [if_neg fun hm => hcompletes ⟨hm.1.symm, hm.2⟩]
    exact hkept
  | restartUploadsDownloads =>
    obtain rfl | rfl := hcases
    · exact .inl rfl
    · exact .inl rfl
  | _ => exact hkept

/-- A chunk that is FAILED was so, or fails in the statement. -/
theorem failed_of_external (hsound : st.Sound) (h : (a.external st).Failed c) :
    (a.Failed c ∧ st ≠ .fixStatuses) ∨ a.db.chunkStatus c = some .inProgress ∧ ∃ retry_count,
      st = .failOrRestartChunk c .failed retry_count := by
  unfold Snapshot.Failed at h
  rw [external_db] at h
  exact Store.failed_of_dbAfter st hsound h

/-- No statement hides a failure. -/
theorem Snapshot.Fresh.external (h : a.Fresh c) : (a.external st).Fresh c := by
  unfold Snapshot.Fresh
  cases hcached : (a.external st).memory.chunkUploadCache c with
  | none => exact .inl rfl
  | some status =>
    right
    have hold := external_chunkUploadCache hcached
    obtain hnone | hfailed := h
    · rw [hnone] at hold
      cases hold
    · rw [hfailed] at hold
      exact hold.symm

theorem Snapshot.ToCount.external (h : a.ToCount F c) (hexit : st ≠ .exit) :
    (a.external st).ToCount F c := by
  have hposition := external_position (a := a) hexit
  have hfresh : a.Fresh c → (a.external st).Fresh c := Snapshot.Fresh.external
  unfold Snapshot.ToCount at h ⊢
  rw [hposition]
  split at h
  · exact ⟨h.1, h.2.1, hfresh h.2.2⟩
  · exact ⟨h.1, h.2.imp_right fun hlater => ⟨hlater.1, hfresh hlater.2⟩⟩
  · exact h.elim

/-- What a file is alerted by outlasts a statement. -/
theorem Snapshot.Alerted.external {chunkIds : List JsString} {failed outstanding : JsString → Prop}
    {comes : Prop} (h : a.Alerted F chunkIds failed outstanding comes) (hexit : st ≠ .exit)
    (hmapped : ∀ c ∈ chunkIds, (a.external st).db.Mapped F c)
    (hfailed : ∀ c ∈ chunkIds, failed c → (a.external st).Failed c)
    (houtstanding : ∀ e ∈ chunkIds, outstanding e → (a.external st).Outstanding e)
    (hcomes : comes → (a.external st).Comes F) :
    (a.external st).Alert F := by
  obtain htally | hwrites | ⟨c, hc, hcfailed, hcount⟩ | ⟨⟨c, hc, hcfailed, hfresh⟩, hbring⟩ := h
  · exact .inl ((external_tallies hexit).mpr htally)
  · exact .inr (.inl ((external_writes hexit).mpr hwrites))
  · exact .inr (.inr (.inl ⟨c, hmapped c hc, hfailed c hc hcfailed, hcount.external hexit⟩))
  · refine .inr (.inr (.inr ⟨⟨c, hmapped c hc, hfailed c hc hcfailed, hfresh.external⟩, ?_⟩))
    obtain hcome | ⟨e, he, hout⟩ := hbring
    · exact .inl (hcomes hcome)
    · exact .inr ⟨e, hmapped e he, houtstanding e he hout⟩

/-- A file stays alerted by a statement that leaves its failed and its outstanding chunks alone. -/
theorem alerted_kept (h : Failure a) (hfinal : ¬ a.Final F) (hhas : a.HasFailed F)
    (hexit : st ≠ .exit) (hmaps : ∀ G entries, st ≠ .createFileMaps G entries)
    (hfailed : ∀ c, a.db.Mapped F c → a.Failed c → (a.external st).Failed c)
    (houtstanding : ∀ e, a.db.Mapped F e → a.Outstanding e → (a.external st).Outstanding e) :
    (a.external st).Alert F := by
  apply ((h.alerted F hhas).resolve_left hfinal).external hexit
  · exact fun c hc => external_mapped.mpr (.inl hc)
  · exact hfailed
  · exact houtstanding
  · exact fun hcomes => external_comes hcomes hexit fun G entries hst => (hmaps G entries hst).elim

/-- A chunk fails anew, or had failed before. -/
theorem hasFailed_of_external (hsound : st.Sound) (hmaps : ∀ entries, st ≠ .createFileMaps F entries)
    (h : (a.external st).HasFailed F) : a.HasFailed F ∨ ∃ c retry_count, a.db.Mapped F c ∧
      a.db.chunkStatus c = some .inProgress ∧ st = .failOrRestartChunk c .failed retry_count := by
  obtain ⟨c, hc, hfailed⟩ := h
  have hmapped : a.db.Mapped F c := by
    obtain hc | ⟨entries, hst, -⟩ := external_mapped.mp hc
    · exact hc
    · exact (hmaps entries hst).elim
  obtain ⟨hfailed, -⟩ | ⟨hprogress, retry_count, hst⟩ := failed_of_external hsound hfailed
  · exact .inl ⟨c, hmapped, hfailed⟩
  · exact .inr ⟨c, retry_count, hmapped, hprogress, hst⟩

/-- After the restart of the process a failure is found by the update of an outstanding chunk. -/
theorem alerted_exit (h : (a.external .exit).HasFailed F)
    (hst : ∃ e ∈ a.db.chunkIdsOf F, a.Outstanding e) : (a.external .exit).Alert F := by
  obtain ⟨c, hc, hfailed⟩ := h
  exact .inr (.inr (.inr ⟨⟨c, hc, hfailed, .inl rfl⟩, .inr hst⟩))

/-- A file stays alerted when file maps are added, to itself or to another file. -/
theorem alerted_createFileMaps {G : JsString} {entries : List (ℤ × JsString)}
    (hst : (Statement.createFileMaps G entries).Alerts a) (hfinal : ¬ a.Final F)
    (hF : (a.external (.createFileMaps G entries)).HasFailed F) :
    (a.external (.createFileMaps G entries)).Alert F := by
  have hexit : Statement.createFileMaps G entries ≠ .exit := nofun
  obtain ⟨c, hc, hfailed⟩ := hF
  by_cases hFG : F = G
  · subst hFG
    have hmapped : ∀ c, (a.external (.createFileMaps F entries)).db.Mapped F c ↔
        c ∈ a.db.chunkIdsOf F ++ entries.map Prod.snd := by
      intro c
      rw [external_mapped, List.mem_append]
      constructor
      · rintro (hc | ⟨entries', heq, hc⟩)
        · exact .inl hc
        · cases heq
          exact .inr hc
      · rintro (hc | hc)
        · exact .inl hc
        · exact .inr ⟨entries, rfl, hc⟩
    apply (hst.1 ⟨c, (hmapped c).mp hc, hfailed⟩ hfinal).external hexit
    · exact fun c hc => (hmapped c).mpr hc
    · exact fun _ _ hfailed => hfailed
    · exact fun _ _ hout => hout
    · rintro (hcomes | ⟨x, hx, hlisted⟩)
      · apply external_comes hcomes hexit
        intro G entries' heq
        cases heq
        exact .inl rfl
      · -- the update of a listed chunk waits, and finds the file among the parents
        refine .inl ⟨x, ?_, external_mapped.mpr (.inr ⟨entries, rfl, hlisted⟩), .inr ?_⟩
        · show x ∈ (a.memory.addParents F (entries.map Prod.snd)).queue
          rw [addParents_other.2.2]
          exact hx
        · exact parent_addParents.mpr (.inr ⟨rfl, hlisted⟩)
  · have hc' : a.db.Mapped F c := by
      obtain hc | ⟨entries', heq, -⟩ := external_mapped.mp hc
      · exact hc
      · cases heq
        exact (hFG rfl).elim
    apply (hst.2 F (mem_enqueuedFiles hc') ⟨c, hc', hfailed⟩ hfinal).external hexit
    · exact fun c hc => external_mapped.mpr (.inl hc)
    · exact fun _ _ hfailed => hfailed
    · exact fun _ _ hout => hout
    · intro hout
      refine external_comes ?_ hexit ?_
      · obtain heq | hahead | ⟨x, hx, hfile, hparented⟩ := hout
        · exact (hFG heq).elim
        · exact .inr hahead
        · exact .inl ⟨x, hx, hfile, hparented.symm.imp_left And.left⟩
      · intro G' entries' heq
        cases heq
        exact hout

/-- A file stays alerted when one of its chunks is completed by a worker. -/
theorem alerted_completeChunk {d : JsString} {worker : ℕ} (h : Failure a)
    (hgenuine : (Statement.completeChunk d worker).Genuine a)
    (hst : (Statement.completeChunk d worker).Alerts a) (hfinal : ¬ a.Final F)
    (hhas : a.HasFailed F) :
    (a.external (.completeChunk d worker)).Alert F := by
  have hexit : Statement.completeChunk d worker ≠ .exit := nofun
  have hfailed : ∀ c, a.Failed c → (a.external (.completeChunk d worker)).Failed c :=
    fun c hc => external_failed hc nofun nofun
  have hout : ∀ e, e ≠ d → a.Outstanding e →
      (a.external (.completeChunk d worker)).Outstanding e :=
    fun e hne hout => external_outstanding hout (fun heq => hne heq.symm) nofun
  by_cases hlast : a.db.Mapped F d ∧ a.db.chunkStatus d = some .inProgress
  · obtain ⟨hmapped, hprogress⟩ := hlast
    have hF : F ∈ a.db.fileIdsOf d := Database.mapped_iff_fileIdsOf.mp hmapped
    apply (hst hprogress F hF hhas hfinal).external hexit
    · exact fun c hc => external_mapped.mpr (.inl hc)
    · exact fun c _ hc => hfailed c hc
    · exact fun e _ ⟨hne, he⟩ => hout e hne he
    · rintro (hcomes | hparented)
      · exact external_comes hcomes hexit nofun
      · refine .inl ⟨(d, worker), ?_, external_mapped.mpr (.inl hmapped), hparented⟩
        exact List.mem_append_right _ List.mem_cons_self
  · apply alerted_kept h hfinal hhas hexit nofun
    · exact fun c _ hc => hfailed c hc
    · intro e he heout
      apply hout e _ heout
      rintro rfl
      -- the chunk was not IN_PROGRESS, so that its row says COMPLETED already
      have hdone : a.db.chunkStatus e = some .completed :=
        hgenuine.resolve_left fun hprogress => hlast ⟨he, hprogress⟩
      unfold Snapshot.Outstanding at heout
      rw [hdone] at heout
      obtain heout | heout := heout
      · cases heout
      · cases heout

/-- A file is alerted when one of its chunks fails, and stays so. -/
theorem alerted_failOrRestartChunk {d : JsString} {ul_status : ChunkStatus} {retry_count : ℕ}
    (h : Failure a) (hsound : (Statement.failOrRestartChunk d ul_status retry_count).Sound)
    (hst : (Statement.failOrRestartChunk d ul_status retry_count).Alerts a) (hfinal : ¬ a.Final F)
    (hF : (a.external (.failOrRestartChunk d ul_status retry_count)).HasFailed F) :
    (a.external (.failOrRestartChunk d ul_status retry_count)).Alert F := by
  have hexit : Statement.failOrRestartChunk d ul_status retry_count ≠ .exit := by simp
  have hmaps : ∀ G entries,
      Statement.failOrRestartChunk d ul_status retry_count ≠ .createFileMaps G entries := by simp
  have hfailed : ∀ c, a.Failed c →
      (a.external (.failOrRestartChunk d ul_status retry_count)).Failed c := by
    intro c hc
    apply external_failed hc
    · simp
    · simp
  -- either this row makes a file of it fail, and its notice goes out now, or the file had failed
  -- before
  by_cases hfails : ul_status = .failed ∧ a.db.chunkStatus d = some .inProgress ∧ a.db.Mapped F d
  · obtain ⟨rfl, hprogress, hmapped⟩ := hfails
    have hmem : F ∈ a.db.fileIdsOf d := Database.mapped_iff_fileIdsOf.mp hmapped
    apply (hst rfl hprogress F hmem hfinal).external hexit
    · exact fun c hc => external_mapped.mpr (.inl hc)
    · rintro c - (hc | rfl)
      · exact hfailed c hc
      · unfold Snapshot.Failed
        rw [external_chunkStatus, hprogress]
        simp [Statement.statusAfter]
    · rintro e - ⟨hne, he⟩
      apply external_outstanding he id
      intro d' ul_status' retry_count' heq
      cases heq
      exact .inr (.inl fun heq => hne heq.symm)
    · exact fun hcomes => external_comes hcomes hexit fun G entries hst => (hmaps G entries hst).elim
  · have hhas : a.HasFailed F := by
      obtain hhas | ⟨c, retry_count', hmapped, hprogress, heq⟩ :=
        hasFailed_of_external hsound (hmaps F) hF
      · exact hhas
      · cases heq
        exact (hfails ⟨rfl, hprogress, hmapped⟩).elim
    apply alerted_kept h hfinal hhas hexit hmaps
    · exact fun c _ hc => hfailed c hc
    · intro e he heout
      apply external_outstanding heout id
      intro d' ul_status' retry_count' heq
      cases heq
      obtain hul | hul := hsound
      · right
        by_cases hde : d = e
        · subst hde
          exact .inr fun hprogress => hfails ⟨hul, hprogress, he⟩
        · exact .inl hde
      · exact .inl hul

/-- A file stays alerted when a download completes a chunk. -/
theorem alerted_saveChunk {m : Database.Instance} (h : Failure a)
    (hsound : (Statement.saveChunk m).Sound) (hst : (Statement.saveChunk m).Alerts a)
    (hfinal : ¬ a.Final F) (hF : (a.external (.saveChunk m)).HasFailed F) :
    (a.external (.saveChunk m)).Alert F := by
  have hexit : Statement.saveChunk m ≠ .exit := nofun
  have hfailed : ∀ c, (m.ulChanged = true → m.id ≠ c) → a.Failed c →
      (a.external (.saveChunk m)).Failed c := by
    intro c hne hc
    have hfix : Statement.saveChunk m ≠ .fixStatuses := nofun
    apply external_failed hc hfix
    intro m' heq
    cases heq
    exact hne
  have hout : ∀ e, (m.ulChanged = true → m.id ≠ e) → a.Outstanding e →
      (a.external (.saveChunk m)).Outstanding e :=
    fun e hne he => external_outstanding he (fun hcompletes => hne hcompletes.2 hcompletes.1) nofun
  have hhas : a.HasFailed F := by
    obtain hhas | ⟨c, retry_count, -, -, heq⟩ := hasFailed_of_external hsound nofun hF
    · exact hhas
    · cases heq
  -- the saved chunk is completed, so that the failed one is another chunk of the file
  by_cases hlast : m.ulChanged = true ∧ a.db.Mapped F m.id
  · obtain ⟨hchanged, hmapped⟩ := hlast
    have hmem : F ∈ a.db.fileIdsOf m.id := Database.mapped_iff_fileIdsOf.mp hmapped
    have hother : ∃ c ∈ a.db.chunkIdsOf F, c ≠ m.id ∧ a.Failed c := by
      obtain ⟨c, hc, hcfailed⟩ := hF
      have hc' : a.db.Mapped F c := by
        obtain hc | ⟨entries, heq, -⟩ := external_mapped.mp hc
        · exact hc
        · cases heq
      have hne : c ≠ m.id := by
        rintro rfl
        unfold Snapshot.Failed at hcfailed
        rw [external_chunkStatus] at hcfailed
        obtain ⟨old, -, hif⟩ := Option.map_eq_some_iff.mp hcfailed
        rw [if_pos ⟨rfl, hchanged⟩, hsound hchanged] at hif
        cases hif
      obtain ⟨hcfailed, -⟩ | ⟨-, retry_count, heq⟩ := failed_of_external hsound hcfailed
      · exact ⟨c, hc', hne, hcfailed⟩
      · cases heq
    apply (hst hchanged F hmem hother hfinal).external hexit
    · exact fun c hc => external_mapped.mpr (.inl hc)
    · exact fun c _ ⟨hne, hc⟩ => hfailed c (fun _ heq => hne heq.symm) hc
    · exact fun e _ ⟨hne, he⟩ => hout e (fun _ heq => hne heq.symm) he
    · exact fun hcomes => external_comes hcomes hexit nofun
  · apply alerted_kept h hfinal hhas hexit nofun
    · exact fun c hc => hfailed c fun hchanged heq => hlast ⟨hchanged, heq ▸ hc⟩
    · exact fun e he => hout e fun hchanged heq => hlast ⟨hchanged, heq ▸ he⟩

/-- A statement that alerts keeps the invariant. -/
theorem Failure.external (h : Failure a) (hsound : st.Sound) (hprepared : st.Prepared a.db)
    (hgenuine : st.Genuine a) (hst : st.Alerts a) : Failure (a.external st) where
  sane := h.sane.external hprepared
  flagged := h.flagged.external
  genuine := h.genuine.external h.sane hsound hgenuine
  alerted F hF := by
    by_cases hfinal : a.Final F
    · exact .inl (external_final hfinal)
    -- no chunk fails anew in the statements that are left out here
    have hkept : st ≠ .exit → st ≠ .fixStatuses → (∀ G entries, st ≠ .createFileMaps G entries) →
        (∀ c, ¬ st.Completes c) → (∀ d ul_status retry_count,
          st ≠ .failOrRestartChunk d ul_status retry_count) → (a.external st).Alert F := by
      intro hexit hfix hmaps hcompletes hfail
      have hhas : a.HasFailed F := by
        obtain hhas | ⟨c, retry_count, -, -, heq⟩ :=
          hasFailed_of_external hsound (hmaps F) hF
        · exact hhas
        · exact (hfail _ _ _ heq).elim
      apply alerted_kept h hfinal hhas hexit hmaps
      · intro c _ hc
        exact external_failed hc hfix fun m heq hchanged hid => hcompletes c (heq ▸ ⟨hid, hchanged⟩)
      · intro e _ he
        exact external_outstanding he (hcompletes e) fun d ul_status retry_count heq =>
          (hfail _ _ _ heq).elim
    cases st with
    | exit =>
      obtain ⟨c, hc, hfailed⟩ := hF
      obtain hfinal' | hout := hst F (mem_enqueuedFiles hc) ⟨c, hc, hfailed⟩
      · exact (hfinal hfinal').elim
      · exact .inr (alerted_exit ⟨c, hc, hfailed⟩ hout)
    | createFileMaps G entries => exact .inr (alerted_createFileMaps hst hfinal hF)
    | fixStatuses =>
      obtain ⟨c, -, hfailed⟩ := hF
      obtain ⟨-, hne⟩ | ⟨-, retry_count, heq⟩ := failed_of_external hsound hfailed
      · exact (hne rfl).elim
      · cases heq
    | completeChunk d worker =>
      obtain hhas | ⟨c, retry_count, -, -, heq⟩ := hasFailed_of_external hsound nofun hF
      · exact .inr (alerted_completeChunk h hgenuine hst hfinal hhas)
      · cases heq
    | failOrRestartChunk d ul_status retry_count =>
      exact .inr (alerted_failOrRestartChunk h hsound hst hfinal hF)
    | saveChunk m => exact .inr (alerted_saveChunk h hsound hst hfinal hF)
    | _ => exact .inr (hkept nofun nofun nofun (fun _ => id) nofun)

end

/-! ## The runs -/

/-- A step that keeps no failure from a file. -/
def FailureNoticed (cfg : Config) (s : State) (e : Event) : Prop :=
  ∀ r ∈ issue cfg s e, r.1.Genuine s.store.snapshot ∧ r.1.Alerts s.store.snapshot

instance (cfg : Config) (s : State) (e : Event) : Decidable (FailureNoticed cfg s e) :=
  inferInstanceAs (Decidable (∀ r ∈ issue cfg s e,
    r.1.Genuine s.store.snapshot ∧ r.1.Alerts s.store.snapshot))

section

variable {cfg : Config} {s t : State} {e : Event} {F c : JsString}

/-- A step that alerts keeps the invariant. -/
theorem step_failure (hrunning : Running cfg s) (h : Failure s.store.snapshot)
    (hok : FailureNoticed cfg s e) (hs : step cfg s e = some t) : Failure t.store.snapshot := by
  obtain ⟨-, st, s', hissue, rfl, hstore, hsound, hprepared⟩ := step_running hrunning hs
  obtain ⟨hgenuine, hst⟩ := hok _ hissue
  show Failure (s'.store.perform st).1.snapshot
  rw [hstore]
  apply perform_invariant
  · intro a b hab hawaits hinv
    apply hinv.internal hab
    intro c G chunkIds rest hposition
    obtain ⟨rfl, rfl⟩ := hawaits (by rw [hposition]; trivial)
    apply hst G chunkIds
    unfold Snapshot.Found
    rw [hposition]
    exact ⟨rfl, rfl⟩
  · exact h.external hsound hprepared hgenuine hst

/-- The rows of a quiescent state are those of chunks that nobody works on. -/
theorem State.Quiescent.not_outstanding (h : s.Quiescent) : ¬ s.store.snapshot.Outstanding c := by
  have hrow : ∀ status, s.store.db.chunkStatus c = some status →
      status ≠ .enqueued ∧ status ≠ .inProgress := by
    intro status hstatus
    obtain ⟨chunk, hchunk, rfl⟩ := Option.map_eq_some_iff.mp hstatus
    exact h.chunks chunk (List.mem_of_find?_eq_some hchunk)
  rintro (henqueued | hprogress)
  · exact (hrow _ henqueued).1 rfl
  · exact (hrow _ hprogress).2 rfl

/-- Nothing is left in a quiescent state that would find a failure. -/
theorem State.Quiescent.not_alert (h : s.Quiescent) : ¬ s.store.snapshot.Alert F := by
  have hposition := h.idle
  rintro (htally | hwrites | ⟨d, -, -, hcount⟩ | ⟨-, (⟨x, hx, -⟩ | hahead) | ⟨d, -, hout⟩⟩)
  · unfold Snapshot.Tallies at htally
    rw [hposition] at htally
    exact htally
  · unfold Snapshot.Writes at hwrites
    rw [hposition] at hwrites
    exact hwrites
  · unfold Snapshot.ToCount at hcount
    rw [hposition] at hcount
    exact hcount
  · have hx : x ∈ s.store.progress.memory.queue := hx
    rw [h.queue] at hx
    exact List.not_mem_nil hx
  · unfold Snapshot.Ahead at hahead
    rw [hposition] at hahead
    exact hahead
  · exact h.not_outstanding hout

/-- In every quiescent state of a run of such steps, a file that has been enqueued for upload and
has a chunk whose retries are exhausted is FAILED, and no call waits for it. -/
theorem failure_reaches_file (h : Reach (step cfg) (FailureNoticed cfg) .init s)
    (hquiescent : s.Quiescent) (hmapped : s.store.db.Mapped F c)
    (hfailed : s.store.db.chunkStatus c = some .failed) :
    s.store.db.fileStatus F = some .failed ∧
      ∀ u ∈ s.uploads, u.fileId = F → u.phase ≠ .waiting := by
  have hinv : Running cfg s ∧ Failure s.store.snapshot := by
    apply h.invariant (P := fun s => Running cfg s ∧ Failure s.store.snapshot)
    · exact ⟨running_init, failure_init⟩
    · intro s e t hinv hok hs
      exact ⟨(step_running hinv.1 hs).1, step_failure hinv.1 hinv.2 hok hs⟩
  have hfile : s.store.db.fileStatus F = some .failed := by
    obtain (hcompleted | hfile) | halert := hinv.2.alerted F ⟨c, hmapped, hfailed⟩
    · -- all chunks of a COMPLETED file are COMPLETED
      have hdone : s.store.db.chunkStatus c = some .completed :=
        hinv.2.genuine.fileDone F (.inl hcompleted) c hmapped
      rw [hfailed] at hdone
      cases hdone
    · exact hfile
    · exact (hquiescent.not_alert halert).elim
  refine ⟨hfile, ?_⟩
  rintro u hu rfl hphase
  have hok := hinv.1.calls u hu
  unfold Upload.Ok at hok
  rw [hphase] at hok
  exact hok (.inr hfile)

end

/-- The first chunk of a file fails for good, the second is uploaded, and its update finds the
failure; the info chunk is uploaded then. -/
def alertedRun : List Event :=
  failedRun ++ [.upload 0 false] ++
    loopRun [threeChunks.fileId] ++ workerRun 2

/-- Where this run ends. -/
def alertedState : State := after (guarded (step .small) (FailureNoticed .small)) .init alertedRun

theorem failure_reaches_file_three :
    alertedState.store.db.fileStatus threeChunks.fileId = some .failed ∧
      ∀ u ∈ alertedState.uploads, u.fileId = threeChunks.fileId → u.phase ≠ .waiting := by
  have hrun : Reach (step .small) (FailureNoticed .small) .init alertedState :=
    .of_after alertedRun (by decide +kernel)
  apply failure_reaches_file (c := HashFn.firstBytes.id [1, 2, 3, 4]) hrun
  · decide +kernel
  · decide +kernel
  · decide +kernel

/-- The only chunk of a file fails for good. -/
def exhaustedRun : List Event :=
  callRun 0 [1] ++ [.upload 0 false] ++ loopRun [chunkId 1] ++
    [.worker 0 .throws, .worker 0 .ok, .worker 0 .ok]

/-- Where this run ends. -/
def exhaustedState : State := after (guarded (step .small) Any) .init exhaustedRun

/-- No update starts when a chunk fails: a file without other chunks stays IN_PROGRESS, and the call
waits for ever. -/
theorem only_chunk_failed :
    ∃ s F c, Reach (step .small) Any .init s ∧ s.Quiescent ∧ s.store.db.Mapped F c ∧
      s.store.db.chunkStatus c = some .failed ∧ s.store.db.fileStatus F = some .inProgress ∧
      ∃ u ∈ s.uploads, u.fileId = F ∧ u.phase = .waiting := by
  refine ⟨exhaustedState, chunkId 1, chunkId 1, .of_after exhaustedRun (by decide +kernel), ?_⟩
  decide +kernel

end PointNetwork.Uploader
