import PointNetwork.Uploader.NoticeTheorems

/-!
# Completion reaches the file

A file all of whose chunks are COMPLETED becomes COMPLETED by a progress update that comes to it
after its last chunk is, and that counts no chunk as anything else. Several things keep the update
away: the last chunk was COMPLETED before the file was enqueued, or by a download; its update knows
other files as the parents of the chunk only; the flags of the file say that it has failed, or the
cache that a chunk has; or the process ends before the update.

* `Statement.Noticed`: none of this happens to a file in a step;
* `completion_reaches_file`: in runs of such steps completion reaches the file;
* `completed_before_enqueued`: a run in which it does not.
-/

namespace PointNetwork.Uploader

open Js Storage Machine

namespace Snapshot

/-- The file has been enqueued, and all its chunks are COMPLETED. -/
def Complete (a : Snapshot) (F : JsString) : Prop :=
  a.db.chunkIdsOf F ≠ [] ∧ ∀ c ∈ a.db.chunkIdsOf F, a.Done c

/-- All chunks of the file but this one are COMPLETED. -/
def LacksOnly (a : Snapshot) (d F : JsString) : Prop :=
  ∀ c ∈ a.db.chunkIdsOf F, c = d ∨ a.Done c

/-- A chunk of the file has been counted with this status. -/
def Tallies (a : Snapshot) (F : JsString) (status : ChunkStatus) : Prop :=
  match a.position with
  | .chunks G counted _ _ => F = G ∧ ∃ x ∈ counted, x.2 = status
  | .at _ (.count G counted _ _ _) => F = G ∧ ∃ x ∈ counted, x.2 = status
  | _ => False

/-- The running update counts the chunks of the file, all COMPLETED so far. -/
def Counting (a : Snapshot) (F : JsString) : Prop :=
  match a.position with
  | .chunks G counted _ _ => F = G ∧ ∀ x ∈ counted, x.2 = .completed
  | .at _ (.count G counted _ _ _) => F = G ∧ ∀ x ∈ counted, x.2 = .completed
  | _ => False

end Snapshot

/-- The chunk whose update is the next to start, if none runs. -/
def Position.starting (queue : List (JsString × ℕ)) : Position → List JsString
  | .idle => (queue.head?.map Prod.fst).toList
  | _ => []

namespace Snapshot

/-- No chunk of the file is taken to have failed, except some. -/
structure Clean (a : Snapshot) (F : JsString) (excused : List JsString) : Prop where
  flag : ∀ f ∈ a.memory.fileUploadCache F, f.failed = false
  tally : ¬ a.Tallies F .failed
  cached : ∀ c ∈ a.db.chunkIdsOf F, a.memory.chunkUploadCache c = some .failed → c ∈ excused

/-- A progress update will write the status of the file. -/
def Pending (a : Snapshot) (F : JsString) : Prop :=
  a.Comes F ∨ a.Counting F ∨ a.Writes F .completed

/-- The files that wait for an update do so when `G` becomes a parent of these chunks. -/
def KeepsPending (a : Snapshot) (G : JsString) (chunkIds : List JsString) : Prop :=
  ∀ F ∈ a.db.enqueuedFiles, a.Complete F → ¬ a.FileDone F →
    a.Counting F ∨ a.Writes F .completed ∨ a.Outlasts G chunkIds F

end Snapshot

/-- A file whose last chunk the statement completes, or which it enqueues with all chunks COMPLETED,
is noticed; and no file that waits for an update is lost. -/
def Statement.Noticed (a : Snapshot) : Statement → Prop
  | .completeChunk d worker => a.db.chunkStatus d = some .inProgress →
    ∀ F ∈ a.db.fileIdsOf d, ¬ a.FileDone F → a.LacksOnly d F →
      a.Clean F (a.position.starting (a.memory.queue ++ [(d, worker)])) ∧
        (a.Parented F d ∨ a.Pending F)
  | .saveChunk m => m.ulChanged = true → ¬ a.Done m.id →
    ∀ F ∈ a.db.fileIdsOf m.id, ¬ a.FileDone F → a.LacksOnly m.id F →
      a.Clean F (m.id :: a.position.starting a.memory.queue) ∧ a.Pending F
  | .createFileMaps G entries =>
    (¬ a.FileDone G → (∀ c ∈ a.db.chunkIdsOf G ++ entries.map Prod.snd, a.Done c) →
      a.Clean G (a.position.starting a.memory.queue) ∧
        (∀ c ∈ entries.map Prod.snd, a.memory.chunkUploadCache c = some .failed →
          c ∈ a.position.starting a.memory.queue) ∧
        (a.Pending G ∨ ∃ x ∈ a.memory.queue, x.1 ∈ entries.map Prod.snd)) ∧
      a.KeepsPending G (entries.map Prod.snd)
  | .advance => ∀ G chunkIds, a.Found G chunkIds → a.KeepsPending G chunkIds
  | .exit => ∀ F ∈ a.db.enqueuedFiles, a.Complete F → a.FileDone F
  | _ => True

/-! The condition can be evaluated. -/

instance (a : Snapshot) (F : JsString) : Decidable (a.Complete F) :=
  inferInstanceAs (Decidable (a.db.chunkIdsOf F ≠ [] ∧ ∀ c ∈ a.db.chunkIdsOf F, a.Done c))

instance (a : Snapshot) (d F : JsString) : Decidable (a.LacksOnly d F) :=
  inferInstanceAs (Decidable (∀ c ∈ a.db.chunkIdsOf F, c = d ∨ a.Done c))

instance (a : Snapshot) (F : JsString) (status : ChunkStatus) : Decidable (a.Tallies F status) := by
  unfold Snapshot.Tallies
  rcases a.position with _ | ⟨_, _ | _⟩ <;> infer_instance

instance (a : Snapshot) (F : JsString) : Decidable (a.Counting F) := by
  unfold Snapshot.Counting
  rcases a.position with _ | ⟨_, _ | _⟩ <;> infer_instance

instance (a : Snapshot) (F : JsString) (status : FileStatus) : Decidable (a.Writes F status) := by
  unfold Snapshot.Writes
  rcases a.position with _ | ⟨_, _ | _⟩ <;> infer_instance

instance (a : Snapshot) (F : JsString) (excused : List JsString) :
    Decidable (a.Clean F excused) :=
  decidable_of_iff ((∀ f ∈ a.memory.fileUploadCache F, f.failed = false) ∧ ¬ a.Tallies F .failed ∧
      ∀ c ∈ a.db.chunkIdsOf F, a.memory.chunkUploadCache c = some .failed → c ∈ excused)
    ⟨fun ⟨hflag, htally, hcached⟩ => ⟨hflag, htally, hcached⟩,
      fun h => ⟨h.flag, h.tally, h.cached⟩⟩

instance (a : Snapshot) (F : JsString) : Decidable (a.Pending F) :=
  inferInstanceAs (Decidable (_ ∨ _ ∨ _))

instance (a : Snapshot) (G : JsString) (chunkIds : List JsString) :
    Decidable (a.KeepsPending G chunkIds) :=
  inferInstanceAs (Decidable (∀ F ∈ a.db.enqueuedFiles, a.Complete F → ¬ a.FileDone F →
    a.Counting F ∨ a.Writes F .completed ∨ a.Outlasts G chunkIds F))

instance (a : Snapshot) (st : Statement) : Decidable (st.Noticed a) := by
  unfold Statement.Noticed
  rcases st with _ | _ <;> infer_instance

/-! ## The steps of the progress updates -/

/-- What holds of the tables and the maps in runs of noticed steps. -/
structure Completion (a : Snapshot) : Prop where
  sane : Sane a
  flagged : Flagged a
  adopted : Adopted a
  /-- A status in the cache is behind only while the update of the chunk waits. -/
  fresh : ∀ c status, a.memory.chunkUploadCache c = some status → status ≠ .completed → a.Done c →
    ∃ worker, (c, worker) ∈ a.memory.queue
  served : ∀ F, a.Complete F → a.FileDone F ∨
    a.Clean F (a.position.starting a.memory.queue) ∧ a.Pending F

section

variable {a b : Snapshot} {st : Statement} {F c : JsString}

theorem completion_init : Completion Store.init.snapshot where
  sane := sane_init
  flagged := flagged_init
  adopted := adopted_init
  fresh _ _ h := by cases h
  served _ h := (h.1 rfl).elim

/-- A step of an update leaves the chunks of a file alone. -/
theorem internal_chunkIdsOf (hab : Internal a b) : b.db.chunkIdsOf F = a.db.chunkIdsOf F := by
  cases hab <;> rfl

/-- A step of an update leaves a COMPLETED file so. -/
theorem internal_fileDone (hab : Internal a b) (hsane : Sane a) (h : a.FileDone F) :
    b.FileDone F := by
  have hpos := hsane.position
  cases hab with
  | write => exact write_fileDone h hpos.2.1
  | _ => exact h

/-- A step of an update completes no chunk. -/
theorem internal_complete (hab : Internal a b) : b.Complete F ↔ a.Complete F := by
  unfold Snapshot.Complete Snapshot.Done
  rw [internal_chunkIdsOf hab]
  constructor
  · rintro ⟨hne, hall⟩
    exact ⟨hne, fun c hc => internal_chunkStatus hab ▸ hall c hc⟩
  · rintro ⟨hne, hall⟩
    exact ⟨hne, fun c hc => (internal_chunkStatus hab).trans (hall c hc)⟩

/-- The flags that a step sets. -/
theorem internal_flag (hab : Internal a b) (hsane : Sane a) (htally : ¬ a.Tallies F .failed)
    (h : ∀ f ∈ a.memory.fileUploadCache F, f.failed = false) :
    ∀ f ∈ b.memory.fileUploadCache F, f.failed = false := by
  cases hab with
  | findParents => exact fun f hf => h f (congrFun addFiles_other.1 F ▸ hf)
  | noParents => exact fun f hf => h f (congrFun addFiles_other.1 F ▸ hf)
  | @findFile db m c file chunkIds rest hfile =>
    intro f hf
    obtain ⟨-, rfl⟩ | hf := cached_setFile (congrFun addParents_other.1 F ▸ hf)
    · rfl
    · exact h f hf
  | @decide db m c file rest counted status hstatus =>
    have hfile : m.fileUploadCache file = some ⟨false, false, counted.map Prod.fst ++ []⟩ :=
      hsane.position.1
    intro f hf
    obtain ⟨rfl, rfl⟩ | hf := cached_setFlags hfile hf
    · apply decide_eq_false
      rintro rfl
      exact htally ⟨rfl, finalStatus_failed.mp hstatus⟩
    · exact h f hf
  | _ => exact h

/-- The cached failures of a complete file, after a step: the chunk whose update has started is
not among them any more. -/
theorem internal_cached (hab : Internal a b) (hcomplete : a.Complete F)
    (h : ∀ c ∈ a.db.chunkIdsOf F, a.memory.chunkUploadCache c = some .failed →
      c ∈ a.position.starting a.memory.queue) :
    ∀ c ∈ a.db.chunkIdsOf F, b.memory.chunkUploadCache c ≠ some .failed := by
  intro c hc hcached
  have hload : ∀ {m : Memory} {d : JsString} {worker : ℕ} {queue : List (JsString × ℕ)},
      m.queue = (d, worker) :: queue →
        (m.chunkUploadCache c = some .failed → c ∈ Position.idle.starting m.queue) →
          ({ m with queue }.setChunk d (some .completed)).chunkUploadCache c ≠ some .failed := by
    intro m d worker queue hqueue hstarting hcached
    obtain ⟨-, hcontra⟩ | ⟨hcd, hcached⟩ := cached_setChunk hcached
    · cases hcontra
    · have hmem := hstarting hcached
      rw [hqueue] at hmem
      exact hcd (List.mem_singleton.mp hmem)
  cases hab with
  | @load db m d worker queue hqueue hparents => exact hload hqueue (h c hc) hcached
  | @start db m d worker queue files hqueue hparents => exact hload hqueue (h c hc) hcached
  | findParents => exact List.not_mem_nil (h c hc (addFiles_other.2.1 ▸ hcached))
  | noParents => exact List.not_mem_nil (h c hc (addFiles_other.2.1 ▸ hcached))
  | @findFile db m d file chunkIds rest hfile =>
    have hcached : ((m.setFile file { chunk_ids := chunkIds }).addParents file
      chunkIds).chunkUploadCache c = some .failed := hcached
    rw [addParents_other.2.1] at hcached
    exact List.not_mem_nil (h c hc hcached)
  | @count db m e file d todo rest counted status hstatus =>
    obtain ⟨rfl, hfailed⟩ | ⟨-, hcached⟩ := cached_setChunk hcached
    · cases hfailed
      have hdone : db.chunkStatus c = some .completed := hcomplete.2 c hc
      rw [hdone] at hstatus
      cases hstatus
    · exact List.not_mem_nil (h c hc hcached)
  | @decide db m d file rest counted status hstatus =>
    have hcached : (m.setFlags file status).chunkUploadCache c = some .failed := hcached
    rw [setFlags_other.1] at hcached
    exact List.not_mem_nil (h c hc hcached)
  | _ => exact List.not_mem_nil (h c hc hcached)

/-- One more status is counted. -/
theorem tally_concat {counted : List (JsString × ChunkStatus)} {d : JsString}
    {status old : ChunkStatus} (h : ∃ x ∈ counted ++ [(d, old)], x.2 = status) :
    (∃ x ∈ counted, x.2 = status) ∨ old = status := by
  obtain ⟨x, hx, hstatus⟩ := h
  obtain hx | hx := List.mem_append.mp hx
  · exact .inl ⟨x, hx, hstatus⟩
  · rw [List.mem_singleton.mp hx] at hstatus
    exact .inr hstatus

/-- The chunks that are left to count are chunks of the file. -/
theorem Sane.mapped_todo {db : Database} {m : Memory} {todo rest : List JsString}
    {counted : List (JsString × ChunkStatus)} {d : JsString}
    (h : Sane ⟨db, m, .chunks F counted (d :: todo) rest⟩) : db.Mapped F d := by
  apply (h.cached F _ h.position.1).2 d
  exact List.mem_append_right _ List.mem_cons_self

theorem Sane.mapped_count {db : Database} {m : Memory} {todo rest : List JsString}
    {counted : List (JsString × ChunkStatus)} {d : JsString}
    (h : Sane ⟨db, m, .at c (.count F counted d todo rest)⟩) : db.Mapped F d := by
  apply (h.cached F _ h.position.1).2 d
  exact List.mem_append_right _ List.mem_cons_self

/-- The failures that a step counts of a complete file. -/
theorem internal_tally (hab : Internal a b) (hsane : Sane a) (hcomplete : a.Complete F)
    (hclean : a.Clean F (a.position.starting a.memory.queue)) : ¬ b.Tallies F .failed := by
  intro htally
  have hnone : ∀ P : JsString × ChunkStatus → Prop, ¬ ∃ x ∈ ([] : List _), P x :=
    fun P ⟨x, hx, _⟩ => List.not_mem_nil hx
  cases hab with
  | findFile hfile => exact hnone _ htally.2
  | enter hfile huploaded hfailed => exact hnone _ htally.2
  | @count db m e file d todo rest counted status hstatus =>
    obtain ⟨rfl, htally⟩ := htally
    obtain htally | rfl := tally_concat htally
    · exact hclean.tally ⟨rfl, htally⟩
    · have hdone : db.chunkStatus d = some .completed := hcomplete.2 d hsane.mapped_count
      rw [hdone] at hstatus
      cases hstatus
  | @cached db m file d todo rest counted status hcache =>
    obtain ⟨rfl, htally⟩ := htally
    obtain htally | rfl := tally_concat htally
    · exact hclean.tally ⟨rfl, htally⟩
    · exact List.not_mem_nil (hclean.cached d hsane.mapped_todo hcache)
  | miss hcache => exact hclean.tally htally
  | _ => exact htally

/-- The status that the running update writes is in the row after the step. -/
theorem internal_writes (hab : Internal a b) (hsane : Sane a) (h : a.Writes F .completed) :
    b.FileDone F := by
  cases hab with
  | @write db m c file status rest =>
    obtain ⟨rfl, rfl⟩ := h
    obtain ⟨-, -, ⟨d, hd⟩, -⟩ := hsane.position
    obtain hwritten | ⟨hcontra, -⟩ := written_status .completed (hsane.fileRow F d hd)
    · exact hwritten
    · cases hcontra
  | _ => exact h.elim

/-- An update that will complete a file goes on to do so. -/
theorem internal_pending (hab : Internal a b) (h : Completion a) (hcomplete : a.Complete F)
    (hclean : a.Clean F (a.position.starting a.memory.queue)) (hpending : a.Pending F)
    (hout : ∀ c G chunkIds rest, a.position = .at c (.findFile G chunkIds rest) →
      a.Outlasts G chunkIds F) : b.FileDone F ∨ b.Pending F := by
  have hsane := h.sane
  obtain hcomes | hcounting | hwrites := hpending
  · obtain hcomes | ⟨chunkIds, rest, hstart⟩ | ⟨f, hf, hflags⟩ :=
      internal_comes hab hsane hcomes hout
    · exact .inr (.inl hcomes)
    · right
      right
      left
      unfold Snapshot.Counting
      rw [hstart]
      exact ⟨rfl, fun x hx => (List.not_mem_nil hx).elim⟩
    · obtain huploaded | hfailed := hflags
      · obtain hdone | hwrites := h.flagged.uploaded F f hf huploaded
        · exact .inl (internal_fileDone hab hsane hdone)
        · exact .inl (internal_writes hab hsane hwrites)
      · rw [hclean.flag f hf] at hfailed
        cases hfailed
  · -- the running update counts the chunks of the file
    right
    cases hab with
    | @count db m e file d todo rest counted status hstatus =>
      obtain ⟨rfl, hcounted⟩ := hcounting
      have hdone : db.chunkStatus d = some .completed := hcomplete.2 d hsane.mapped_count
      rw [hdone] at hstatus
      cases hstatus
      refine .inr (.inl ⟨rfl, ?_⟩)
      intro x hx
      obtain hx | hx := List.mem_append.mp hx
      · exact hcounted x hx
      · rw [List.mem_singleton.mp hx]
    | @noChunk db m e file d todo rest counted hstatus =>
      obtain ⟨rfl, hcounted⟩ := hcounting
      exact (hsane.chunkRow F d hsane.mapped_count hstatus).elim
    | @cached db m file d todo rest counted status hcache =>
      obtain ⟨rfl, hcounted⟩ := hcounting
      by_cases hstatus : status = .completed
      · subst hstatus
        refine .inr (.inl ⟨rfl, ?_⟩)
        intro x hx
        obtain hx | hx := List.mem_append.mp hx
        · exact hcounted x hx
        · rw [List.mem_singleton.mp hx]
      · -- the cache is behind, so that the update of the chunk waits
        have hmapped := hsane.mapped_todo
        obtain ⟨worker, hqueue⟩ := h.fresh d status hcache hstatus (hcomplete.2 d hmapped)
        refine .inl (.inl ⟨(d, worker), hqueue, hmapped, .inr ?_⟩)
        apply h.adopted F _ hsane.position.1 d
        exact List.mem_append_right _ List.mem_cons_self
    | miss hcache => exact .inr (.inl hcounting)
    | @decide db m e file rest counted status hstatus =>
      obtain ⟨rfl, hcounted⟩ := hcounting
      have hne : counted ≠ [] := by
        have hlist := (hsane.cached F _ hsane.position.1).1
        rw [List.append_nil] at hlist
        exact fun hnil => hlist (by rw [hnil]; rfl)
      rw [finalStatus_of_completed hne hcounted] at hstatus
      cases hstatus
      exact .inr (.inr ⟨rfl, rfl⟩)
    | @undecided db m file rest counted hstatus =>
      obtain ⟨rfl, hcounted⟩ := hcounting
      have hne : counted ≠ [] := by
        have hlist := (hsane.cached F _ hsane.position.1).1
        rw [List.append_nil] at hlist
        exact fun hnil => hlist (by rw [hnil]; rfl)
      rw [finalStatus_of_completed hne hcounted] at hstatus
      cases hstatus
    | _ => exact hcounting.elim
  · exact .inl (internal_writes hab hsane hwrites)

/-- The cache after a step is no further behind than before it. -/
theorem internal_fresh (hab : Internal a b) (h : Completion a) {status : ChunkStatus}
    (hcached : b.memory.chunkUploadCache c = some status) (hstatus : status ≠ .completed)
    (hdone : b.Done c) : ∃ worker, (c, worker) ∈ b.memory.queue := by
  -- the chunk that leaves the queue gets the status COMPLETED in the cache
  have hload : ∀ {m : Memory} {d : JsString} {worker : ℕ} {queue : List (JsString × ℕ)},
      m.queue = (d, worker) :: queue →
        ({ m with queue }.setChunk d (some .completed)).chunkUploadCache c = some status →
          (m.chunkUploadCache c = some status → ∃ worker, (c, worker) ∈ m.queue) →
            ∃ worker, (c, worker) ∈ queue := by
    intro m d worker queue hqueue hcached hold
    obtain ⟨-, hcompleted⟩ | ⟨hcd, hcached⟩ := cached_setChunk hcached
    · exact (hstatus (Option.some.inj hcompleted).symm).elim
    · obtain ⟨worker', hmem⟩ := hold hcached
      rw [hqueue] at hmem
      obtain hmem | hmem := List.mem_cons.mp hmem
      · cases hmem
        exact (hcd rfl).elim
      · exact ⟨worker', hmem⟩
  cases hab with
  | @load db m d worker queue hqueue hparents =>
    exact hload hqueue hcached fun hold => h.fresh c status hold hstatus hdone
  | @start db m d worker queue files hqueue hparents =>
    exact hload hqueue hcached fun hold => h.fresh c status hold hstatus hdone
  | @findParents db m d files hparents =>
    have hcached : (m.addFiles (db.fileIdsOf d) d).chunkUploadCache c = some status := hcached
    show ∃ worker, (c, worker) ∈ (m.addFiles (db.fileIdsOf d) d).queue
    rw [addFiles_other.2.1] at hcached
    rw [addFiles_other.2.2]
    exact h.fresh c status hcached hstatus hdone
  | @noParents db m d hparents =>
    have hcached : (m.addFiles (db.fileIdsOf d) d).chunkUploadCache c = some status := hcached
    show ∃ worker, (c, worker) ∈ (m.addFiles (db.fileIdsOf d) d).queue
    rw [addFiles_other.2.1] at hcached
    rw [addFiles_other.2.2]
    exact h.fresh c status hcached hstatus hdone
  | @findFile db m d file chunkIds rest hfile =>
    have hcached : ((m.setFile file { chunk_ids := chunkIds }).addParents file
      chunkIds).chunkUploadCache c = some status := hcached
    show ∃ worker, (c, worker) ∈ ((m.setFile file { chunk_ids := chunkIds }).addParents file
      chunkIds).queue
    rw [addParents_other.2.1] at hcached
    rw [addParents_other.2.2]
    exact h.fresh c status hcached hstatus hdone
  | @count db m e file d todo rest counted old hold =>
    obtain ⟨rfl, hcounted⟩ | ⟨-, hcached⟩ := cached_setChunk hcached
    -- the status that is counted is the one in the row
    · cases hcounted
      have hdone : db.chunkStatus c = some .completed := hdone
      rw [hdone] at hold
      exact (hstatus (Option.some.inj hold).symm).elim
    · exact h.fresh c status hcached hstatus hdone
  | @decide db m d file rest counted new hnew =>
    have hcached : (m.setFlags file new).chunkUploadCache c = some status := hcached
    show ∃ worker, (c, worker) ∈ (m.setFlags file new).queue
    rw [setFlags_other.1] at hcached
    rw [setFlags_other.2.2]
    exact h.fresh c status hcached hstatus hdone
  | _ => exact h.fresh c status hcached hstatus hdone

/-- A step of a progress update keeps the invariant. -/
theorem Completion.internal (h : Completion a) (hab : Internal a b)
    (hout : ∀ c G chunkIds rest, a.position = .at c (.findFile G chunkIds rest) →
      a.KeepsPending G chunkIds) : Completion b where
  sane := h.sane.internal hab
  flagged := h.flagged.internal h.sane hab
  adopted := h.adopted.internal h.sane hab
  fresh c status := internal_fresh hab h
  served F hF := by
    have hcomplete := (internal_complete hab).mp hF
    by_cases hdone : a.FileDone F
    · exact .inl (internal_fileDone hab h.sane hdone)
    obtain ⟨hclean, hpending⟩ := (h.served F hcomplete).resolve_left hdone
    have hcached := internal_cached hab hcomplete hclean.cached
    have hkept : ∀ c G chunkIds rest, a.position = .at c (.findFile G chunkIds rest) →
        a.Outlasts G chunkIds F := by
      intro c G chunkIds rest hposition
      obtain ⟨d, hd⟩ := List.exists_mem_of_ne_nil _ hcomplete.1
      obtain hcounting | hwrites | hout :=
        hout c G chunkIds rest hposition F (mem_enqueuedFiles hd) hcomplete hdone
      · unfold Snapshot.Counting at hcounting
        rw [hposition] at hcounting
        exact hcounting.elim
      · unfold Snapshot.Writes at hwrites
        rw [hposition] at hwrites
        exact hwrites.elim
      · exact hout
    refine (internal_pending hab h hcomplete hclean hpending hkept).imp_right fun hpending => ?_
    refine ⟨⟨internal_flag hab h.sane hclean.tally hclean.flag,
      internal_tally hab h.sane hcomplete hclean, ?_⟩, hpending⟩
    intro c hc hfailed
    rw [internal_chunkIdsOf hab] at hc
    exact (hcached c hc hfailed).elim

/-! ## The statements -/

/-- The chunk whose update starts next stays it. -/
theorem external_starting (hexit : st ≠ .exit) (h : c ∈ a.position.starting a.memory.queue) :
    c ∈ (a.external st).position.starting (a.external st).memory.queue := by
  rw [external_position hexit]
  cases st with
  | exit => exact (hexit rfl).elim
  | createFileMaps fileId chunkIds =>
    show c ∈ a.position.starting (a.memory.addParents fileId (chunkIds.map Prod.snd)).queue
    rw [addParents_other.2.2]
    exact h
  | saveChunk chunk =>
    show c ∈ a.position.starting (Store.modificationHook chunk a.memory).queue
    rw [modificationHook_other.2.2]
    exact h
  | completeChunk chunkId worker =>
    show c ∈ a.position.starting (a.memory.queue ++ [(chunkId, worker)])
    unfold Position.starting at h ⊢
    split at h
    · cases hqueue : a.memory.queue with
      | nil =>
        rw [hqueue] at h
        exact (List.not_mem_nil h).elim
      | cons x queue =>
        rw [hqueue] at h
        exact h
    · exact (List.not_mem_nil h).elim
  | _ => exact h

/-- A statement leaves what has been counted alone. -/
theorem external_tallies {status : ChunkStatus} (hexit : st ≠ .exit) :
    (a.external st).Tallies F status ↔ a.Tallies F status := by
  unfold Snapshot.Tallies
  rw [external_position hexit]

theorem external_counting (hexit : st ≠ .exit) :
    (a.external st).Counting F ↔ a.Counting F := by
  unfold Snapshot.Counting
  rw [external_position hexit]

/-- No statement makes a file seem failed, unless it adds chunks to it. -/
theorem Snapshot.Clean.external {excused : List JsString} (h : a.Clean F excused)
    (hexit : st ≠ .exit) (hmaps : ∀ entries, st = .createFileMaps F entries →
      ∀ c ∈ entries.map Prod.snd, a.memory.chunkUploadCache c = some .failed → c ∈ excused) :
    (a.external st).Clean F excused where
  flag f hf := by
    rw [external_fileUploadCache hexit] at hf
    exact h.flag f hf
  tally htally := h.tally ((external_tallies hexit).mp htally)
  cached c hc hcached := by
    have hcached := external_chunkUploadCache hcached
    obtain hc | ⟨entries, hst, hc⟩ := external_mapped.mp hc
    · exact h.cached c hc hcached
    · exact hmaps entries hst c hc hcached

/-- No statement keeps an update from a file, unless another file becomes a parent of its chunk. -/
theorem Snapshot.Pending.external (h : a.Pending F) (hexit : st ≠ .exit)
    (hout : ∀ G entries, st = .createFileMaps G entries →
      a.Counting F ∨ a.Writes F .completed ∨ a.Outlasts G (entries.map Prod.snd) F) :
    (a.external st).Pending F := by
  have hother : a.Counting F ∨ a.Writes F .completed → (a.external st).Pending F := by
    rintro (hcounting | hwrites)
    · exact .inr (.inl ((external_counting hexit).mpr hcounting))
    · exact .inr (.inr ((external_writes hexit).mpr hwrites))
  by_cases hnone : a.Counting F ∨ a.Writes F .completed
  · exact hother hnone
  · left
    have hcomes : a.Comes F := h.resolve_right hnone
    apply external_comes hcomes hexit
    intro G entries hst
    obtain hcounting | hwrites | hout := hout G entries hst
    · exact (hnone (.inl hcounting)).elim
    · exact (hnone (.inr hwrites)).elim
    · exact hout

/-- A file that is complete after a statement was so before it, or the statement completes its last
chunk, or enqueues it. -/
theorem complete_of_external (hsound : st.Sound) (h : (a.external st).Complete F) :
    (∃ entries, st = .createFileMaps F entries ∧
      ∀ c ∈ a.db.chunkIdsOf F ++ entries.map Prod.snd, a.Done c) ∨
    (∀ entries, st ≠ .createFileMaps F entries) ∧ a.db.chunkIdsOf F ≠ [] ∧
      (a.Complete F ∨ ∃ d, a.db.Mapped F d ∧ st.Completes d ∧ ¬ a.Done d ∧ a.LacksOnly d F) := by
  obtain ⟨hne, hall⟩ := h
  by_cases hmaps : ∃ entries, st = .createFileMaps F entries
  · left
    obtain ⟨entries, rfl⟩ := hmaps
    refine ⟨entries, rfl, ?_⟩
    intro c hc
    have hmapped : (a.external (.createFileMaps F entries)).db.Mapped F c := by
      apply external_mapped.mpr
      obtain hc | hc := List.mem_append.mp hc
      · exact .inl hc
      · exact .inr ⟨entries, rfl, hc⟩
    exact hall c hmapped
  · right
    -- no chunk has come to the file
    have hsame : ∀ c, (a.external st).db.Mapped F c → a.db.Mapped F c := by
      intro c hc
      obtain hc | ⟨entries, hst, -⟩ := external_mapped.mp hc
      · exact hc
      · exact (hmaps ⟨entries, hst⟩).elim
    refine ⟨fun entries hst => hmaps ⟨entries, hst⟩, ?_, ?_⟩
    · obtain ⟨c, hc⟩ := List.exists_mem_of_ne_nil _ hne
      exact List.ne_nil_of_mem (hsame c hc)
    · by_cases hcomplete : a.Complete F
      · exact .inl hcomplete
      · right
        have hnot : ∃ d, a.db.Mapped F d ∧ ¬ a.Done d := by
          by_contra hnone
          rw [not_exists] at hnone
          apply hcomplete
          refine ⟨?_, fun c hc => not_not.mp fun hnot => hnone c ⟨hc, hnot⟩⟩
          obtain ⟨c, hc⟩ := List.exists_mem_of_ne_nil _ hne
          exact List.ne_nil_of_mem (hsame c hc)
        obtain ⟨d, hd, hnot⟩ := hnot
        -- so every chunk was done before or is the one that the statement completes
        have hcompletes : ∀ c, a.db.Mapped F c → a.Done c ∨ st.Completes c :=
          fun c hc => done_of_external hsound (hall c (external_mapped.mpr (.inl hc)))
        have hcompletesd := (hcompletes d hd).resolve_left hnot
        refine ⟨d, hd, hcompletesd, hnot, ?_⟩
        intro c hc
        obtain hdone | hcompletesc := hcompletes c hc
        · exact .inr hdone
        · exact .inl (Statement.Completes.unique hcompletesc hcompletesd)

/-- More chunks may be excused. -/
theorem Snapshot.Clean.mono {excused excused' : List JsString} (h : a.Clean F excused)
    (hexcused : ∀ c ∈ excused, c ∈ excused') : a.Clean F excused' :=
  ⟨h.flag, h.tally, fun c hc hcached => hexcused c (h.cached c hc hcached)⟩

/-- What a worker marks as completed was IN_PROGRESS, if it was not COMPLETED before. -/
theorem inProgress_of_completed {worker : ℕ} (hnot : ¬ a.Done c)
    (h : (a.external (.completeChunk c worker)).Done c) :
    a.db.chunkStatus c = some .inProgress := by
  unfold Snapshot.Done at h
  rw [external_chunkStatus] at h
  obtain ⟨old, hold, hif⟩ := Option.map_eq_some_iff.mp h
  split at hif
  · rename_i hprogress
    rw [hold, hprogress.2]
  · rw [hif] at hold
    exact (hnot hold).elim

/-- The file that the statement completes is noticed. -/
theorem served_of_completes {d : JsString} (hst : st.Noticed a) (hmapped : a.db.Mapped F d)
    (hcompletes : st.Completes d) (hnot : ¬ a.Done d) (hdone : (a.external st).Done d)
    (hfile : ¬ a.FileDone F) (hlacks : a.LacksOnly d F) :
    (a.external st).Clean F
        ((a.external st).position.starting (a.external st).memory.queue) ∧
      (a.external st).Pending F := by
  have hF : F ∈ a.db.fileIdsOf d := Database.mapped_iff_fileIdsOf.mp hmapped
  cases st with
  | completeChunk chunkId worker =>
    obtain rfl : chunkId = d := hcompletes
    obtain ⟨hclean, hpending⟩ := hst (inProgress_of_completed hnot hdone) F hF hfile hlacks
    refine ⟨hclean.external nofun nofun, ?_⟩
    obtain hparented | hpending := hpending
    · refine .inl (.inl ⟨(chunkId, worker), ?_, hmapped, hparented⟩)
      exact List.mem_append_right _ List.mem_cons_self
    · exact hpending.external nofun nofun
  | saveChunk m =>
    obtain ⟨rfl, hchanged⟩ := hcompletes
    obtain ⟨hclean, hpending⟩ := hst hchanged hnot F hF hfile hlacks
    have hexit : Statement.saveChunk m ≠ .exit := nofun
    refine ⟨?_, hpending.external hexit nofun⟩
    have hclean := hclean.external hexit nofun
    refine ⟨hclean.flag, hclean.tally, ?_⟩
    intro c hc hcached
    obtain rfl | hstarting := List.mem_cons.mp (hclean.cached c hc hcached)
    · -- the save has removed the status of its chunk from the cache
      have hcached : (Store.modificationHook m a.memory).chunkUploadCache m.id = _ := hcached
      unfold Store.modificationHook at hcached
      rw [if_pos hchanged, setChunk_self] at hcached
      cases hcached
    · exact external_starting hexit hstarting
  | _ => exact hcompletes.elim

/-- A file that is enqueued with all chunks COMPLETED is noticed. -/
theorem served_of_enqueued {entries : List (ℤ × JsString)}
    (hst : (Statement.createFileMaps F entries).Noticed a) (hfile : ¬ a.FileDone F)
    (hall : ∀ c ∈ a.db.chunkIdsOf F ++ entries.map Prod.snd, a.Done c) :
    (a.external (.createFileMaps F entries)).Clean F
        ((a.external (.createFileMaps F entries)).position.starting
          (a.external (.createFileMaps F entries)).memory.queue) ∧
      (a.external (.createFileMaps F entries)).Pending F := by
  obtain ⟨hclean, hfailed, hpending⟩ := hst.1 hfile hall
  have hexit : Statement.createFileMaps F entries ≠ .exit := nofun
  constructor
  · apply (hclean.external hexit ?_).mono
    · exact fun c hc => external_starting hexit hc
    · intro entries' heq
      cases heq
      exact hfailed
  · obtain hpending | ⟨x, hx, hlisted⟩ := hpending
    · apply hpending.external hexit
      intro G entries' heq
      cases heq
      exact .inr (.inr (.inl rfl))
    · refine .inl (.inl ⟨x, ?_, external_mapped.mpr (.inr ⟨entries, rfl, hlisted⟩), .inr ?_⟩)
      · show x ∈ (a.memory.addParents F (entries.map Prod.snd)).queue
        rw [addParents_other.2.2]
        exact hx
      · exact parent_addParents.mpr (.inr ⟨rfl, hlisted⟩)

/-- After a statement a status in the cache is behind only while its update waits. -/
theorem external_fresh (hsound : st.Sound) (h : Completion a) {status : ChunkStatus}
    (hcached : (a.external st).memory.chunkUploadCache c = some status)
    (hstatus : status ≠ .completed) (hdone : (a.external st).Done c) :
    ∃ worker, (c, worker) ∈ (a.external st).memory.queue := by
  have hold := external_chunkUploadCache hcached
  obtain hdone | hcompletes := done_of_external hsound hdone
  · obtain ⟨worker, hmem⟩ := h.fresh c status hold hstatus hdone
    refine ⟨worker, ?_⟩
    cases st with
    | exit => cases hcached
    | createFileMaps fileId entries =>
      show _ ∈ (a.memory.addParents fileId (entries.map Prod.snd)).queue
      rw [addParents_other.2.2]
      exact hmem
    | saveChunk chunk =>
      show _ ∈ (Store.modificationHook chunk a.memory).queue
      rw [modificationHook_other.2.2]
      exact hmem
    | completeChunk chunkId worker' => exact List.mem_append_left _ hmem
    | _ => exact hmem
  · cases st with
    | completeChunk chunkId worker =>
      obtain rfl : chunkId = c := hcompletes
      exact ⟨worker, List.mem_append_right _ List.mem_cons_self⟩
    | saveChunk m =>
      obtain ⟨rfl, hchanged⟩ := hcompletes
      have hcached : (Store.modificationHook m a.memory).chunkUploadCache m.id = _ := hcached
      unfold Store.modificationHook at hcached
      rw [if_pos hchanged, setChunk_self] at hcached
      cases hcached
    | _ => exact hcompletes.elim

/-- A noticed statement keeps the invariant. -/
theorem Completion.external (h : Completion a) (hsound : st.Sound) (hprepared : st.Prepared a.db)
    (hst : st.Noticed a) : Completion (a.external st) where
  sane := h.sane.external hprepared
  flagged := h.flagged.external
  adopted := h.adopted.external
  fresh c status := external_fresh hsound h
  served F hF := by
    by_cases hdone : a.FileDone F
    · exact .inl (external_fileDone hdone)
    by_cases hexit : st = .exit
    · subst hexit
      obtain ⟨c, hc⟩ := List.exists_mem_of_ne_nil _ hF.1
      exact .inl (hst F (mem_enqueuedFiles hc) hF)
    right
    obtain ⟨entries, rfl, hall⟩ | ⟨hmaps, hne, hcomplete | hlast⟩ := complete_of_external hsound hF
    · exact served_of_enqueued hst hdone hall
    · obtain ⟨hclean, hpending⟩ := (h.served F hcomplete).resolve_left hdone
      constructor
      · apply (hclean.external hexit ?_).mono
        · exact fun c hc => external_starting hexit hc
        · exact fun entries heq => (hmaps entries heq).elim
      · apply hpending.external hexit
        rintro G entries rfl
        obtain ⟨c, hc⟩ := List.exists_mem_of_ne_nil _ hne
        exact hst.2 F (mem_enqueuedFiles hc) hcomplete hdone
    · obtain ⟨d, hmapped, hcompletes, hnot, hlacks⟩ := hlast
      exact served_of_completes hst hmapped hcompletes hnot
        (hF.2 d (external_mapped.mpr (.inl hmapped))) hdone hlacks

end

/-! ## The runs -/

/-- No chunk is ENQUEUED or IN_PROGRESS, and no progress update is pending. -/
structure State.Quiescent (s : State) : Prop where
  chunks : ∀ chunk ∈ s.store.db.chunks,
    chunk.ul_status ≠ .enqueued ∧ chunk.ul_status ≠ .inProgress
  queue : s.store.progress.memory.queue = []
  active : s.store.progress.active = none

/-- A step that keeps no completion from a file. -/
def Noticed (cfg : Config) (s : State) (e : Event) : Prop :=
  ∀ r ∈ issue cfg s e, r.1.Noticed s.store.snapshot

instance (s : State) : Decidable s.Quiescent :=
  decidable_of_iff ((∀ chunk ∈ s.store.db.chunks,
      chunk.ul_status ≠ .enqueued ∧ chunk.ul_status ≠ .inProgress) ∧
        s.store.progress.memory.queue = [] ∧ s.store.progress.active = none)
    ⟨fun ⟨hchunks, hqueue, hactive⟩ => ⟨hchunks, hqueue, hactive⟩,
      fun h => ⟨h.chunks, h.queue, h.active⟩⟩

instance (cfg : Config) (s : State) (e : Event) : Decidable (Noticed cfg s e) :=
  inferInstanceAs (Decidable (∀ r ∈ issue cfg s e, r.1.Noticed s.store.snapshot))

section

variable {cfg : Config} {s t : State} {e : Event} {F : JsString}

/-- A noticed step keeps the invariant. -/
theorem step_completion (hrunning : Running cfg s) (h : Completion s.store.snapshot)
    (hok : Noticed cfg s e) (hs : step cfg s e = some t) : Completion t.store.snapshot := by
  obtain ⟨-, st, s', hissue, rfl, hstore, hsound, hprepared⟩ := step_running hrunning hs
  have hst := hok _ hissue
  show Completion (s'.store.perform st).1.snapshot
  rw [hstore]
  apply perform_invariant
  · intro a b hab hawaits hinv
    apply hinv.internal hab
    intro c G chunkIds rest hposition
    obtain ⟨rfl, rfl⟩ := hawaits (by rw [hposition]; trivial)
    apply hst G chunkIds
    unfold Snapshot.Found
    rw [hposition]
    exact ⟨rfl, rfl⟩
  · exact h.external hsound hprepared hst

/-- No update runs in a quiescent state. -/
theorem State.Quiescent.idle (h : s.Quiescent) : s.store.snapshot.position = .idle := by
  show s.store.progress.position = .idle
  unfold Progress.position
  rw [h.active]

/-- In every quiescent state of a run of noticed steps, a file that has been enqueued for upload and
whose chunks are all COMPLETED is COMPLETED, and no call waits for it. -/
theorem completion_reaches_file (h : Reach (step cfg) (Noticed cfg) .init s)
    (hquiescent : s.Quiescent) (hne : s.store.db.chunkIdsOf F ≠ [])
    (hdone : ∀ c, s.store.db.Mapped F c → s.store.db.chunkStatus c = some .completed) :
    s.store.db.fileStatus F = some .completed ∧
      ∀ u ∈ s.uploads, u.fileId = F → u.phase ≠ .waiting := by
  have hinv : Running cfg s ∧ Completion s.store.snapshot := by
    apply h.invariant (P := fun s => Running cfg s ∧ Completion s.store.snapshot)
    · exact ⟨running_init, completion_init⟩
    · intro s e t hinv hok hs
      exact ⟨(step_running hinv.1 hs).1, step_completion hinv.1 hinv.2 hok hs⟩
  have hposition := hquiescent.idle
  have hfile : s.store.db.fileStatus F = some .completed := by
    obtain hfile | ⟨-, hpending⟩ := hinv.2.served F ⟨hne, hdone⟩
    · exact hfile
    · -- nothing is pending any more
      obtain (⟨x, hx, -⟩ | hahead) | hcounting | hwrites := hpending
      · have hx : x ∈ s.store.progress.memory.queue := hx
        rw [hquiescent.queue] at hx
        exact (List.not_mem_nil hx).elim
      · unfold Snapshot.Ahead at hahead
        rw [hposition] at hahead
        exact hahead.elim
      · unfold Snapshot.Counting at hcounting
        rw [hposition] at hcounting
        exact hcounting.elim
      · unfold Snapshot.Writes at hwrites
        rw [hposition] at hwrites
        exact hwrites.elim
  refine ⟨hfile, ?_⟩
  rintro u hu rfl hphase
  have hok := hinv.1.calls u hu
  unfold Upload.Ok at hok
  rw [hphase] at hok
  exact hok (.inl hfile)

end

/-- Where the run of the waiting call ends; all of its steps are noticed. -/
def completedState : State := after (guarded (step .small) (Noticed .small)) .init resolvedRun

theorem completion_reaches_file_three :
    completedState.store.db.fileStatus threeChunks.fileId = some .completed ∧
      ∀ u ∈ completedState.uploads, u.fileId = threeChunks.fileId → u.phase ≠ .waiting := by
  apply completion_reaches_file (.of_after resolvedRun (by decide +kernel))
  · decide +kernel
  · decide +kernel
  · show ∀ c ∈ completedState.store.db.chunkIdsOf threeChunks.fileId, _
    decide +kernel

/-- A chunk is downloaded, and then a file of this chunk uploaded. -/
def downloadedRun : List Event :=
  [.getChunk (chunkId 1) true, .download 0 none true, .download 0 none true,
    .download 0 (some [1]) true, .download 0 none true] ++ callRun 0 [1] ++ [.upload 0 false]

/-- Where this run ends. -/
def downloadedState : State := after (guarded (step .small) Any) .init downloadedRun

/-- The only chunk of the file was COMPLETED before the file was enqueued, so that nothing counts
the file: it stays IN_PROGRESS, and the call waits for ever. -/
theorem completed_before_enqueued :
    ∃ s F, Reach (step .small) Any .init s ∧ s.Quiescent ∧ s.store.db.chunkIdsOf F ≠ [] ∧
      (∀ c, s.store.db.Mapped F c → s.store.db.chunkStatus c = some .completed) ∧
      s.store.db.fileStatus F = some .inProgress ∧
      ∃ u ∈ s.uploads, u.fileId = F ∧ u.phase = .waiting := by
  refine ⟨downloadedState, chunkId 1, .of_after downloadedRun (by decide +kernel), ?_⟩
  show _ ∧ _ ∧ (∀ c ∈ downloadedState.store.db.chunkIdsOf (chunkId 1), _) ∧ _
  decide +kernel

end PointNetwork.Uploader
