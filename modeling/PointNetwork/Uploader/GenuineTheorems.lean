import PointNetwork.Uploader.CallTheorems

/-!
# Genuine completions

The maps of the progress updates hold copies of what the tables say. A chunk that they take to be
COMPLETED is so in its row, and a file that is COMPLETED has no other chunks (`Genuine`), as long as
the statements meet `Statement.Genuine`:

* a worker marks a chunk as completed only while its row is IN_PROGRESS, or COMPLETED already; else
  the statement changes no row, and the progress update is enqueued all the same;
* `enqueueChunksForUpload` adds no chunk to a file whose chunks have been read, since the maps keep
  the list they have read.
-/

namespace PointNetwork.Uploader

open Js Storage Machine

/-! ## The count of statuses -/

section

variable {counted : List (JsString × ChunkStatus)}

/-- A file is COMPLETED when all its chunks were counted as such. -/
theorem finalStatus_completed (h : Memory.finalStatus counted = some .completed) :
    ∀ x ∈ counted, x.2 = .completed := by
  unfold Memory.finalStatus at h
  split_ifs at h with hfailed hcompleted
  · cases h
  · intro x hx
    have hlength : (counted.map Prod.snd).count .completed = (counted.map Prod.snd).length := by
      rw [List.length_map]
      exact hcompleted.1
    exact (List.count_eq_length.mp hlength x.2 (List.mem_map_of_mem hx)).symm

/-- A file whose chunks were all counted as COMPLETED is. -/
theorem finalStatus_of_completed (hne : counted ≠ []) (h : ∀ x ∈ counted, x.2 = .completed) :
    Memory.finalStatus counted = some .completed := by
  have hfailed : Memory.counter counted .failed = 0 := by
    apply List.count_eq_zero.mpr
    intro hmem
    obtain ⟨x, hx, hstatus⟩ := List.mem_map.mp hmem
    rw [h x hx] at hstatus
    cases hstatus
  have hcompleted : Memory.counter counted .completed = counted.length := by
    have hlength : counted.length = (counted.map Prod.snd).length := (List.length_map _).symm
    rw [hlength]
    apply List.count_eq_length.mpr
    intro status hmem
    obtain ⟨x, hx, rfl⟩ := List.mem_map.mp hmem
    exact (h x hx).symm
  unfold Memory.finalStatus
  rw [hfailed, if_neg (Nat.lt_irrefl 0), if_pos ⟨hcompleted, hne⟩]

/-- A file is FAILED when a chunk was counted as such. -/
theorem finalStatus_failed :
    Memory.finalStatus counted = some .failed ↔ ∃ x ∈ counted, x.2 = .failed := by
  have hcount : 0 < Memory.counter counted .failed ↔ ∃ x ∈ counted, x.2 = .failed := by
    unfold Memory.counter
    rw [List.count_pos_iff, List.mem_map]
  unfold Memory.finalStatus
  rw [← hcount]
  split_ifs with hfailed hcompleted
  · simp [hfailed]
  · simp [hfailed]
  · simp [hfailed]

end

/-! ## What the maps take to be COMPLETED -/

/-- The statuses counted so far, in the loop over the chunks of a file. -/
def Position.counted : Position → List (JsString × ChunkStatus)
  | .at _ (.count _ counted _ _ _) => counted
  | .chunks _ counted _ _ => counted
  | _ => []

/-- The file maps of the file have been read, its row has not. -/
def Snapshot.Finds (a : Snapshot) (F : JsString) : Prop :=
  match a.position with
  | .at _ (.findFile G _ _) => F = G
  | _ => False

/-- The chunks that have been read of the file. -/
def Snapshot.Found (a : Snapshot) (F : JsString) (chunkIds : List JsString) : Prop :=
  match a.position with
  | .at _ (.findFile G found _) => F = G ∧ chunkIds = found
  | _ => False

/-- What the maps take to be COMPLETED is so. -/
structure Genuine (a : Snapshot) : Prop where
  cached : ∀ c, a.memory.chunkUploadCache c = some .completed → a.Done c
  queued : ∀ c worker, (c, worker) ∈ a.memory.queue → a.Done c
  counted : ∀ c, (c, .completed) ∈ a.position.counted → a.Done c
  /-- The list of chunks in the cache misses no chunk that matters. -/
  known : ∀ F f, a.memory.fileUploadCache F = some f → ∀ c, a.db.Mapped F c →
    c ∈ f.chunk_ids ∨ a.Done c
  found : ∀ F chunkIds, a.Found F chunkIds → ∀ c, a.db.Mapped F c → c ∈ chunkIds ∨ a.Done c
  fileDone : ∀ F, a.FileDone F ∨ a.Writes F .completed → ∀ c, a.db.Mapped F c → a.Done c

/-- The condition on a statement. -/
def Statement.Genuine (a : Snapshot) : Statement → Prop
  | .completeChunk chunkId _ =>
    a.db.chunkStatus chunkId = some .inProgress ∨ a.db.chunkStatus chunkId = some .completed
  | .createFileMaps fileId chunkIds => ∀ c ∈ chunkIds.map Prod.snd,
    a.db.Mapped fileId c ∨ a.Done c ∨
      (¬ a.FileDone fileId ∧ a.memory.fileUploadCache fileId = none ∧ ¬ a.Finds fileId)
  | _ => True

instance (a : Snapshot) (F : JsString) : Decidable (a.Finds F) := by
  unfold Snapshot.Finds
  rcases a.position with _ | ⟨_, _ | _⟩ <;> infer_instance

/-- Whatever is asked of the chunks that have been read can be evaluated: one file at most has been
read. -/
instance (a : Snapshot) (P : JsString → List JsString → Prop)
    [∀ F chunkIds, Decidable (P F chunkIds)] :
    Decidable (∀ F chunkIds, a.Found F chunkIds → P F chunkIds) := by
  unfold Snapshot.Found
  split
  · rename_i G found _ _
    exact decidable_of_iff (P G found)
      ⟨fun h _ _ hfound => hfound.1 ▸ hfound.2 ▸ h, fun h => h G found ⟨rfl, rfl⟩⟩
  · exact isTrue fun _ _ hfound => hfound.elim

instance (a : Snapshot) (st : Statement) : Decidable (st.Genuine a) := by
  unfold Statement.Genuine
  rcases st with _ | _ <;> infer_instance

section

variable {a b : Snapshot} {st : Statement} {F c : JsString}

theorem genuine_init : Genuine Store.init.snapshot where
  cached _ h := by cases h
  queued _ _ h := by cases h
  counted _ h := by cases h
  known _ _ h := by cases h
  found _ _ h := h.elim
  fileDone F h c hc := by cases hc

/-- What a worker marks as completed is so after the statement. -/
theorem done_completeChunk {worker : ℕ}
    (h : a.db.chunkStatus c = some .inProgress ∨ a.db.chunkStatus c = some .completed) :
    (a.external (.completeChunk c worker)).Done c := by
  unfold Snapshot.Done
  rw [external_chunkStatus]
  obtain h | h := h
  · rw [h]
    simp [Statement.statusAfter]
  · rw [h]
    simp [Statement.statusAfter]

/-- No statement completes a file by itself. -/
theorem fileDone_of_external (h : (a.external st).FileDone F) : a.FileDone F := by
  unfold Snapshot.FileDone at *
  rw [external_fileStatus] at h
  cases st with
  | createFile fileId =>
    cases hF : a.db.fileStatus F with
    | some old =>
      rw [hF] at h
      simpa using h
    | none =>
      rw [hF] at h
      simp at h
  | markFileAsBeingUploaded fileId fileSize =>
    obtain ⟨old, hold, hif⟩ := Option.map_eq_some_iff.mp h
    split at hif
    · cases hif
    · rw [hold, hif]
  | markFileAsFailedUpload fileId =>
    obtain ⟨old, hold, hif⟩ := Option.map_eq_some_iff.mp h
    split at hif
    · cases hif
    · rw [hold, hif]
  | _ => exact h

/-- A save does not put a status into the cache. -/
theorem external_chunkUploadCache {status : ChunkStatus}
    (h : (a.external st).memory.chunkUploadCache c = some status) :
    a.memory.chunkUploadCache c = some status := by
  cases st with
  | exit => cases h
  | createFileMaps fileId chunkIds => exact congrFun addParents_other.2.1 c ▸ h
  | saveChunk chunk =>
    have h : (Store.modificationHook chunk a.memory).chunkUploadCache c = some status := h
    unfold Store.modificationHook at h
    split at h
    · obtain ⟨-, hcontra⟩ | ⟨-, hold⟩ := cached_setChunk h
      · cases hcontra
      · exact hold
    · exact h
  | _ => exact h

/-- Only a completion enqueues an update. -/
theorem external_queue {worker : ℕ} (h : (c, worker) ∈ (a.external st).memory.queue) :
    (c, worker) ∈ a.memory.queue ∨ st = .completeChunk c worker := by
  cases st with
  | exit => cases h
  | createFileMaps fileId chunkIds => exact .inl (addParents_other.2.2 ▸ h)
  | saveChunk chunk => exact .inl (modificationHook_other.2.2 ▸ h)
  | completeChunk chunkId worker' =>
    obtain h | h := List.mem_append.mp h
    · exact .inl h
    · right
      cases List.mem_singleton.mp h
      rfl
  | _ => exact .inl h

theorem Snapshot.Found.finds {chunkIds : List JsString} (h : a.Found F chunkIds) : a.Finds F := by
  obtain ⟨db, m, p⟩ := a
  unfold Snapshot.Found at h
  split at h
  · rename_i heq
    obtain rfl : p = _ := heq
    exact h.1
  · exact h.elim

/-- A file whose status is written is in the cache. -/
theorem Sane.cached_of_writes {status : FileStatus} (h : Sane a) (hwrites : a.Writes F status) :
    ∃ f, a.memory.fileUploadCache F = some f := by
  obtain ⟨db, m, p⟩ := a
  have hpos := h.position
  unfold Snapshot.Writes at hwrites
  split at hwrites
  · rename_i heq
    obtain rfl : p = _ := heq
    obtain ⟨rfl, -⟩ := hwrites
    obtain ⟨⟨chunkIds, hf⟩, -⟩ := hpos
    exact ⟨_, hf⟩
  · exact hwrites.elim

/-- A genuine statement keeps the invariant. -/
theorem Genuine.external (h : Genuine a) (hsane : Sane a) (hsound : st.Sound)
    (hst : st.Genuine a) :
    Genuine (a.external st) := by
  have hdone : ∀ c, a.Done c → (a.external st).Done c := fun c hc => external_done hsound hc
  have hqueued : ∀ c worker, (c, worker) ∈ (a.external st).memory.queue →
      (a.external st).Done c := by
    intro c worker hc
    obtain hc | rfl := external_queue hc
    · exact hdone c (h.queued c worker hc)
    · exact done_completeChunk hst
  have hcached : ∀ c, (a.external st).memory.chunkUploadCache c = some .completed →
      (a.external st).Done c :=
    fun c hc => hdone c (h.cached c (external_chunkUploadCache hc))
  -- after an exit nothing is in memory, and the rows are as they were
  by_cases hexit : st = .exit
  · subst hexit
    refine ⟨hcached, hqueued, ?_, ?_, ?_, ?_⟩
    · intro c hc
      cases hc
    · intro F f hf
      cases hf
    · intro F chunkIds hf
      exact hf.elim
    · intro F hF
      exact h.fileDone F (.inl (hF.resolve_right id))
  have hposition := external_position (a := a) hexit
  refine ⟨hcached, hqueued, ?_, ?_, ?_, ?_⟩
  · intro c hc
    rw [hposition] at hc
    exact hdone c (h.counted c hc)
  · intro F f hf c hc
    rw [external_fileUploadCache hexit] at hf
    obtain hc' | ⟨chunkIds, rfl, hc'⟩ := external_mapped.mp hc
    · exact (h.known F f hf c hc').imp_right (hdone c)
    -- a file that is in memory takes no new map
    · obtain hmapped | hcompleted | ⟨-, hnone, -⟩ := hst c hc'
      · exact (h.known F f hf c hmapped).imp_right (hdone c)
      · exact .inr (hdone c hcompleted)
      · rw [hf] at hnone
        cases hnone
  · intro F chunkIds hfound c hc
    have hfound : a.Found F chunkIds := by
      unfold Snapshot.Found at hfound ⊢
      rwa [hposition] at hfound
    obtain hc' | ⟨chunkIds', rfl, hc'⟩ := external_mapped.mp hc
    · exact (h.found F chunkIds hfound c hc').imp_right (hdone c)
    · obtain hmapped | hcompleted | ⟨-, -, hfinds⟩ := hst c hc'
      · exact (h.found F chunkIds hfound c hmapped).imp_right (hdone c)
      · exact .inr (hdone c hcompleted)
      · exact (hfinds hfound.finds).elim
  · intro F hF c hc
    have hF : a.FileDone F ∨ a.Writes F .completed :=
      hF.imp fileDone_of_external (external_writes hexit).mp
    obtain hc' | ⟨chunkIds, rfl, hc'⟩ := external_mapped.mp hc
    · exact hdone c (h.fileDone F hF c hc')
    · obtain hmapped | hcompleted | ⟨hnot, hnone, -⟩ := hst c hc'
      · exact hdone c (h.fileDone F hF c hmapped)
      · exact hdone c hcompleted
      · obtain ⟨f, hf⟩ := hsane.cached_of_writes (hF.resolve_left hnot)
        rw [hf] at hnone
        cases hnone

/-- Steps after which no list of chunks is known that was not known before, and no status is
written. -/
theorem Genuine.moved {db : Database} {m m' : Memory} {p q : Position} (h : Genuine ⟨db, m, p⟩)
    (hfiles : m'.fileUploadCache = m.fileUploadCache) (hqueue : ∀ x ∈ m'.queue, x ∈ m.queue)
    (hcached : ∀ c, m'.chunkUploadCache c = some .completed → db.chunkStatus c = some .completed)
    (hcounted : ∀ c, (c, .completed) ∈ q.counted → db.chunkStatus c = some .completed)
    (hfinds : ∀ F, ¬ (⟨db, m', q⟩ : Snapshot).Finds F)
    (hwrites : ∀ F status, ¬ (⟨db, m', q⟩ : Snapshot).Writes F status) : Genuine ⟨db, m', q⟩ where
  cached := hcached
  queued c worker hc := h.queued c worker (hqueue _ hc)
  counted := hcounted
  known F f hf := by
    have hf : m'.fileUploadCache F = some f := hf
    rw [hfiles] at hf
    exact h.known F f hf
  found F chunkIds hfound := (hfinds F hfound.finds).elim
  fileDone F hF := h.fileDone F (.inl (hF.resolve_right (hwrites F .completed)))

/-- Steps of the loops: only the place changes. -/
theorem Genuine.looped {db : Database} {m : Memory} {p q : Position} (h : Genuine ⟨db, m, p⟩)
    (hcounted : ∀ c, (c, .completed) ∈ q.counted → db.chunkStatus c = some .completed)
    (hfinds : ∀ F, ¬ (⟨db, m, q⟩ : Snapshot).Finds F)
    (hwrites : ∀ F status, ¬ (⟨db, m, q⟩ : Snapshot).Writes F status) : Genuine ⟨db, m, q⟩ :=
  h.moved rfl (fun _ hx => hx) h.cached hcounted hfinds hwrites

/-- The status that the update of a chunk puts into the cache. -/
theorem Genuine.cached_load {db : Database} {m : Memory} {p : Position} {worker : ℕ}
    {queue : List (JsString × ℕ)} (h : Genuine ⟨db, m, p⟩) (hqueue : m.queue = (c, worker) :: queue) :
    ∀ d, ({ m with queue }.setChunk c (some .completed)).chunkUploadCache d = some .completed →
      db.chunkStatus d = some .completed := by
  intro d hd
  by_cases hdc : d = c
  · subst hdc
    exact h.queued d worker (hqueue ▸ List.mem_cons_self)
  · rw [setChunk_ne hdc] at hd
    exact h.cached d hd

/-- One more status is counted. -/
theorem counted_concat {counted : List (JsString × ChunkStatus)} {P : JsString → Prop}
    {d : JsString} {status : ChunkStatus} (h : ∀ c, (c, .completed) ∈ counted → P c)
    (hd : status = .completed → P d) : ∀ c, (c, .completed) ∈ counted ++ [(d, status)] → P c := by
  intro c hc
  obtain hc | hc := List.mem_append.mp hc
  · exact h c hc
  · cases List.mem_singleton.mp hc
    exact hd rfl

/-- A step of a progress update keeps the invariant, case by case. -/
theorem Genuine.internal (h : Genuine a) (hsane : Sane a) (hab : Internal a b) : Genuine b := by
  have hpos := hsane.position
  have hnone : ∀ {P : JsString → Prop} c, (c, ChunkStatus.completed) ∈ ([] : List _) → P c :=
    fun _ hc => (List.not_mem_nil hc).elim
  cases hab with
  | @load db m c worker queue hqueue hparents =>
    refine h.moved rfl ?_ (h.cached_load hqueue) hnone (fun _ => id) (fun _ _ => id)
    exact fun x hx => hqueue ▸ List.mem_cons_of_mem _ hx
  | @start db m c worker queue files hqueue hparents =>
    refine h.moved rfl ?_ (h.cached_load hqueue) hnone (fun _ => id) (fun _ _ => id)
    exact fun x hx => hqueue ▸ List.mem_cons_of_mem _ hx
  | @findParents db m c files hparents =>
    refine h.moved addFiles_other.1 ?_ ?_ hnone (fun _ => id) (fun _ _ => id)
    · exact fun x hx => addFiles_other.2.2 ▸ hx
    · exact fun d hd => h.cached d (addFiles_other.2.1 ▸ hd)
  | @noParents db m c hparents =>
    refine h.moved addFiles_other.1 ?_ ?_ hnone (fun _ => id) (fun _ _ => id)
    · exact fun x hx => addFiles_other.2.2 ▸ hx
    · exact fun d hd => h.cached d (addFiles_other.2.1 ▸ hd)
  | @findMaps db m c file rest =>
    refine ⟨h.cached, h.queued, hnone, h.known, ?_, ?_⟩
    · rintro F chunkIds ⟨rfl, rfl⟩ d hd
      exact .inl hd
    · intro F hF
      exact h.fileDone F (.inl (hF.resolve_right id))
  | @findFile db m c file chunkIds rest hfile =>
    refine ⟨?_, ?_, hnone, ?_, ?_, ?_⟩
    · intro d hd
      have hd : ((m.setFile file { chunk_ids := chunkIds }).addParents file
        chunkIds).chunkUploadCache d = some .completed := hd
      rw [addParents_other.2.1] at hd
      exact h.cached d hd
    · intro d worker hd
      have hd : (d, worker) ∈ ((m.setFile file { chunk_ids := chunkIds }).addParents file
        chunkIds).queue := hd
      rw [addParents_other.2.2] at hd
      exact h.queued d worker hd
    · intro F f hf d hd
      obtain ⟨rfl, rfl⟩ | hf := cached_setFile (congrFun addParents_other.1 F ▸ hf)
      · exact h.found F chunkIds ⟨rfl, rfl⟩ d hd
      · exact h.known F f hf d hd
    · exact fun F found hfound => hfound.elim
    · intro F hF
      exact h.fileDone F (.inl (hF.resolve_right id))
  | @noFile db m c file chunkIds rest hfile => exact h.looped hnone (fun _ => id) (fun _ _ => id)
  | @count db m c file d todo rest counted status hstatus =>
    refine h.moved rfl (fun _ hx => hx) ?_ ?_ (fun _ => id) (fun _ _ => id)
    · intro e he
      obtain ⟨rfl, hcounted⟩ | ⟨-, hold⟩ := cached_setChunk he
      · exact hstatus.trans hcounted
      · exact h.cached e hold
    · exact counted_concat h.counted fun hcompleted => hcompleted ▸ hstatus
  | @noChunk db m c file d todo rest counted hstatus =>
    exact h.looped hnone (fun _ => id) (fun _ _ => id)
  | @write db m c file status rest =>
    refine ⟨h.cached, h.queued, hnone, h.known, fun F found hfound => hfound.elim, ?_⟩
    intro F hF d hd
    have hF : (db.updateFileUlStatus file status).fileStatus F = some .completed :=
      hF.resolve_right id
    refine h.fileDone F ?_ d hd
    rw [fileStatus_write] at hF
    obtain ⟨old, hold, hif⟩ := Option.map_eq_some_iff.mp hF
    split at hif
    · rename_i hwritten
      exact .inr ⟨hwritten.1, hif⟩
    · exact .inl (hold.trans (congrArg some hif))
  | finish => exact h.looped hnone (fun _ => id) (fun _ _ => id)
  | fill hfile => exact h.looped hnone (fun _ => id) (fun _ _ => id)
  | skip hfile hf => exact h.looped hnone (fun _ => id) (fun _ _ => id)
  | enter hfile huploaded hfailed => exact h.looped hnone (fun _ => id) (fun _ _ => id)
  | @cached db m file d todo rest counted status hcache =>
    refine h.looped ?_ (fun _ => id) (fun _ _ => id)
    exact counted_concat h.counted fun hcompleted => h.cached d (hcompleted ▸ hcache)
  | miss hcache => exact h.looped h.counted (fun _ => id) (fun _ _ => id)
  | @decide db m c file rest counted status hstatus =>
    have hfile : m.fileUploadCache file = some ⟨false, false, counted.map Prod.fst ++ []⟩ := hpos.1
    have hset : m.setFlags file status = _ := setFlags_eq hfile
    refine ⟨?_, ?_, hnone, ?_, fun F found hfound => hfound.elim, ?_⟩
    · exact fun d hd => h.cached d (by rw [hset] at hd; exact hd)
    · exact fun d worker hd => h.queued d worker (by rw [hset] at hd; exact hd)
    · intro F f hf d hd
      obtain ⟨rfl, rfl⟩ | hf := cached_setFlags hfile hf
      · exact h.known F _ hfile d hd
      · exact h.known F f hf d hd
    · intro F hF d hd
      obtain hF | ⟨rfl, rfl⟩ := hF
      · exact h.fileDone F (.inl hF) d hd
      · -- every chunk of the file was counted as completed
        obtain hlisted | hdone := h.known F _ hfile d hd
        · rw [List.append_nil] at hlisted
          obtain ⟨⟨e, status⟩, hx, rfl⟩ := List.mem_map.mp hlisted
          have hcompleted : status = .completed := finalStatus_completed hstatus _ hx
          exact h.counted e (hcompleted ▸ hx)
        · exact hdone
  | undecided hstatus => exact h.looped hnone (fun _ => id) (fun _ _ => id)

end

end PointNetwork.Uploader
