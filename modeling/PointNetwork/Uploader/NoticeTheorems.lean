import PointNetwork.Uploader.GenuineTheorems

/-!
# The files that a progress update comes to

The status of a file is counted anew only when a progress update comes to the file: from the queue,
through the parents of its chunk, or further along in the update that runs (`Snapshot.Comes`).

* `internal_comes`: a step of a progress update brings the update on to the file, unless the flags
  of the file make it pass by;
* `external_comes`: a statement leaves it on its way, as long as no other file becomes the only
  parent of the chunk (`Snapshot.Outlasts`) and the process does not end;
* `Adopted`: a file in the cache is a parent of its chunks.
-/

namespace PointNetwork.Uploader

open Js Storage Machine

/-! ## On the way to a file -/

namespace Snapshot

/-- An update of the chunk goes on to the file: the parents of the chunk are read from the tables,
or the file is one of them. -/
def Parented (a : Snapshot) (F c : JsString) : Prop :=
  a.memory.chunkParents c = none ∨ a.memory.Parent F c

/-- The update of a chunk of the file waits in the queue. -/
def Queued (a : Snapshot) (F : JsString) : Prop :=
  ∃ x ∈ a.memory.queue, a.db.Mapped F x.1 ∧ a.Parented F x.1

/-- The running update has yet to start on the file. -/
def Ahead (a : Snapshot) (F : JsString) : Prop :=
  match a.position with
  | .idle => False
  | .at c .findParents => a.db.Mapped F c
  | .at _ (.findMaps G rest) => F ∈ G :: rest
  | .at _ (.findFile G _ rest) => F ∈ G :: rest
  | .at _ (.count _ _ _ _ rest) => F ∈ rest
  | .at _ (.write _ _ rest) => F ∈ rest
  | .files rest => F ∈ rest
  | .chunks _ _ _ rest => F ∈ rest

/-- A progress update will start on the file. -/
def Comes (a : Snapshot) (F : JsString) : Prop := a.Queued F ∨ a.Ahead F

/-- An update still comes to `F` when `G` becomes a parent of these chunks. -/
def Outlasts (a : Snapshot) (G : JsString) (chunkIds : List JsString) (F : JsString) : Prop :=
  F = G ∨ a.Ahead F ∨ ∃ x ∈ a.memory.queue, a.db.Mapped F x.1 ∧
    (a.memory.Parent F x.1 ∨ a.memory.chunkParents x.1 = none ∧ x.1 ∉ chunkIds)

/-- The running update has just started on the file. -/
def Starts (a : Snapshot) (F : JsString) : Prop :=
  ∃ chunkIds rest, a.position = .chunks F [] chunkIds rest

/-- The flags of the file make an update pass by. -/
def Passed (a : Snapshot) (F : JsString) : Prop :=
  ∃ f, a.memory.fileUploadCache F = some f ∧ (f.uploaded = true ∨ f.failed = true)

end Snapshot

/-- The files that have been enqueued for upload. -/
def Database.enqueuedFiles (db : Database) : List JsString := db.fileMaps.map FileMap.file_id

instance (m : Memory) (F c : JsString) : Decidable (m.Parent F c) :=
  inferInstanceAs (Decidable (_ ∈ _))

instance (a : Snapshot) (F c : JsString) : Decidable (a.Parented F c) :=
  inferInstanceAs (Decidable (_ ∨ _))

instance (a : Snapshot) (F : JsString) : Decidable (a.Queued F) :=
  inferInstanceAs (Decidable (∃ x ∈ a.memory.queue, a.db.Mapped F x.1 ∧ a.Parented F x.1))

instance (a : Snapshot) (F : JsString) : Decidable (a.Ahead F) := by
  unfold Snapshot.Ahead
  rcases a.position with _ | ⟨_, _ | _⟩ <;> infer_instance

instance (a : Snapshot) (F : JsString) : Decidable (a.Comes F) :=
  inferInstanceAs (Decidable (_ ∨ _))

instance (a : Snapshot) (G : JsString) (chunkIds : List JsString) (F : JsString) :
    Decidable (a.Outlasts G chunkIds F) :=
  inferInstanceAs (Decidable (_ ∨ _ ∨ ∃ x ∈ a.memory.queue, a.db.Mapped F x.1 ∧
    (a.memory.Parent F x.1 ∨ a.memory.chunkParents x.1 = none ∧ x.1 ∉ chunkIds)))

section

variable {a b : Snapshot} {st : Statement} {F c : JsString}

theorem mem_enqueuedFiles {db : Database} (h : db.Mapped F c) : F ∈ db.enqueuedFiles := by
  obtain ⟨entry, hentry, -⟩ := List.mem_map.mp h
  obtain ⟨hmem, hfile⟩ := List.mem_filter.mp hentry
  exact List.mem_map.mpr ⟨entry, hmem, of_decide_eq_true hfile⟩

/-- The flags of a file leave the other maps alone. -/
theorem setFlags_other {m : Memory} {status : FileStatus} :
    (m.setFlags F status).chunkUploadCache = m.chunkUploadCache ∧
      (m.setFlags F status).chunkParents = m.chunkParents ∧
        (m.setFlags F status).queue = m.queue := by
  unfold Memory.setFlags
  split
  · exact ⟨rfl, rfl, rfl⟩
  · exact ⟨rfl, rfl, rfl⟩

/-- The parents after `addParents` depend on the parents before it only. -/
theorem chunkParents_addParents_congr {m m' : Memory} {chunkIds : List JsString}
    (h : m'.chunkParents = m.chunkParents) :
    (m'.addParents F chunkIds).chunkParents = (m.addParents F chunkIds).chunkParents := by
  induction chunkIds generalizing m m' with
  | nil => exact h
  | cons c chunkIds ih =>
    have hstep : (m'.addFileAsChunkParent F c).chunkParents =
        (m.addFileAsChunkParent F c).chunkParents := by
      unfold Memory.addFileAsChunkParent
      rw [h]
    exact ih hstep

theorem Snapshot.Ahead.mono (h : a.Ahead F) (hposition : b.position = a.position)
    (hmapped : ∀ c, a.db.Mapped F c → b.db.Mapped F c) : b.Ahead F := by
  obtain ⟨db, m, p⟩ := a
  obtain ⟨db', m', p'⟩ := b
  obtain rfl : p' = p := hposition
  cases p' with
  | «at» c stage =>
    cases stage with
    | findParents => exact hmapped c h
    | _ => exact h
  | _ => exact h

/-- The queue and the parents decide which files it leads to. -/
theorem Snapshot.Queued.mono (h : a.Queued F) (hqueue : ∀ x ∈ a.memory.queue, x ∈ b.memory.queue)
    (hparents : b.memory.chunkParents = a.memory.chunkParents)
    (hmapped : ∀ c, a.db.Mapped F c → b.db.Mapped F c) : b.Queued F := by
  obtain ⟨x, hx, hfile, hparented⟩ := h
  refine ⟨x, hqueue x hx, hmapped x.1 hfile, ?_⟩
  unfold Snapshot.Parented Memory.Parent
  rw [hparents]
  exact hparented

/-- The queue still leads to a file when `G` becomes a parent of chunks. -/
theorem queued_addParents {G : JsString} {chunkIds : List JsString}
    (h : ∃ x ∈ a.memory.queue, a.db.Mapped F x.1 ∧
      (a.memory.Parent F x.1 ∨ a.memory.chunkParents x.1 = none ∧ (x.1 ∉ chunkIds ∨ F = G)))
    (hqueue : b.memory.queue = a.memory.queue)
    (hparents : b.memory.chunkParents = (a.memory.addParents G chunkIds).chunkParents)
    (hmapped : ∀ c, a.db.Mapped F c → b.db.Mapped F c) : b.Queued F := by
  obtain ⟨x, hx, hfile, hparented⟩ := h
  refine ⟨x, hqueue ▸ hx, hmapped x.1 hfile, ?_⟩
  unfold Snapshot.Parented Memory.Parent
  rw [hparents]
  obtain hparent | ⟨hnone, hkept⟩ := hparented
  · exact .inr (parent_addParents.mpr (.inl hparent))
  · by_cases hlisted : x.1 ∈ chunkIds
    · right
      exact parent_addParents.mpr (.inr ⟨hkept.resolve_left (fun hnot => hnot hlisted), hlisted⟩)
    · exact .inl (chunkParents_addParents.mpr ⟨hnone, hlisted⟩)

/-- The parents that are read from the tables are all files of the chunk. -/
theorem queued_addFiles {db : Database} {m : Memory} {p q : Position}
    (h : (⟨db, m, p⟩ : Snapshot).Queued F) :
    (⟨db, m.addFiles (db.fileIdsOf c) c, q⟩ : Snapshot).Queued F := by
  obtain ⟨x, hx, hfile, hparented⟩ := h
  have hx : x ∈ (m.addFiles (db.fileIdsOf c) c).queue := by
    rw [addFiles_other.2.2]
    exact hx
  refine ⟨x, hx, hfile, ?_⟩
  obtain hnone | hparent := hparented
  · by_cases hxc : x.1 = c
    · right
      rw [hxc] at hfile ⊢
      exact parent_addFiles.mpr (.inr ⟨Database.mapped_iff_fileIdsOf.mp hfile, rfl⟩)
    · exact .inl (chunkParents_addFiles.mpr ⟨hnone, fun heq => (hxc heq).elim⟩)
  · exact .inr (parent_addFiles.mpr (.inl hparent))

/-- An update on its way to a file stays so when `G` becomes a parent of chunks. -/
theorem Snapshot.Comes.addParents {G : JsString} {chunkIds : List JsString} (h : a.Comes F)
    (hout : a.Outlasts G chunkIds F) (hqueue : b.memory.queue = a.memory.queue)
    (hparents : b.memory.chunkParents = (a.memory.addParents G chunkIds).chunkParents)
    (hmapped : ∀ c, a.db.Mapped F c → b.db.Mapped F c) : b.Queued F ∨ a.Ahead F := by
  obtain ⟨x, hx, hfile, hparented⟩ | hahead := h
  · obtain rfl | hahead | ⟨y, hy, hfile', hparented'⟩ := hout
    · left
      apply queued_addParents ⟨x, hx, hfile, ?_⟩ hqueue hparents hmapped
      exact hparented.symm.imp_right fun hnone => ⟨hnone, .inr rfl⟩
    · exact .inr hahead
    · left
      apply queued_addParents ⟨y, hy, hfile', ?_⟩ hqueue hparents hmapped
      exact hparented'.imp_right fun hnone => ⟨hnone.1, .inl hnone.2⟩
  · exact .inr hahead

/-- A step of a progress update brings it on to a file that it comes to. -/
theorem internal_comes (hab : Internal a b) (hsane : Sane a) (h : a.Comes F)
    (hout : ∀ c G chunkIds rest, a.position = .at c (.findFile G chunkIds rest) →
      a.Outlasts G chunkIds F) : b.Comes F ∨ b.Starts F ∨ a.Passed F := by
  have hpos := hsane.position
  cases hab with
  | @load db m c worker queue hqueue hparents =>
    obtain ⟨⟨d, worker'⟩, hx, hfile, hparented⟩ := h.resolve_right id
    have hx : (d, worker') ∈ m.queue := hx
    rw [hqueue] at hx
    left
    -- the entry that leaves the queue is the notice of `F`, or another one
    obtain hx | hx := List.mem_cons.mp hx
    · cases hx
      exact .inr hfile
    · exact .inl ⟨(d, worker'), hx, hfile, hparented⟩
  | @start db m c worker queue files hqueue hparents =>
    obtain ⟨⟨d, worker'⟩, hx, hfile, hparented⟩ := h.resolve_right id
    have hx : (d, worker') ∈ m.queue := hx
    rw [hqueue] at hx
    left
    obtain hx | hx := List.mem_cons.mp hx
    · cases hx
      right
      obtain hnone | hparent := hparented
      · have hnone : m.chunkParents c = none := hnone
        rw [hparents] at hnone
        cases hnone
      · have hparent : F ∈ (m.chunkParents c).getD [] := hparent
        rw [hparents] at hparent
        exact hparent
    · exact .inl ⟨(d, worker'), hx, hfile, hparented⟩
  | @findParents db m c files hparents =>
    left
    obtain hqueued | hahead := h
    · exact .inl (queued_addFiles hqueued)
    · right
      have hparent : (m.addFiles (db.fileIdsOf c) c).Parent F c :=
        parent_addFiles.mpr (.inr ⟨Database.mapped_iff_fileIdsOf.mp hahead, rfl⟩)
      unfold Memory.Parent at hparent
      rw [hparents] at hparent
      exact hparent
  | @noParents db m c hparents =>
    left
    obtain hqueued | hahead := h
    · exact .inl (queued_addFiles hqueued)
    · have hnone := (chunkParents_addFiles.mp hparents).2 rfl
      have hmem : F ∈ db.fileIdsOf c := Database.mapped_iff_fileIdsOf.mp hahead
      rw [hnone] at hmem
      exact (List.not_mem_nil hmem).elim
  | @findFile db m c file chunkIds rest hfile =>
    have hcomes := h.addParents (b := ⟨db, (m.setFile file { chunk_ids := chunkIds }).addParents file
      chunkIds, .chunks file [] chunkIds rest⟩) (hout c file chunkIds rest rfl) ?_ ?_ ?_
    · obtain hqueued | hahead := hcomes
      · exact .inl (.inl hqueued)
      · obtain rfl | hrest := List.mem_cons.mp hahead
        · exact .inr (.inl ⟨chunkIds, rest, rfl⟩)
        · exact .inl (.inr hrest)
    · exact addParents_other.2.2
    · exact chunkParents_addParents_congr rfl
    · exact fun _ hd => hd
  | @noFile db m c file chunkIds rest hfile =>
    -- a file whose chunks are mapped has a row
    obtain ⟨⟨hne, hall⟩, -⟩ := hpos
    obtain ⟨d, hd⟩ := List.exists_mem_of_ne_nil _ hne
    refine (hsane.fileRow file d (hall d hd) ?_).elim
    show (db.findFile file).map FileRow.ul_status = none
    rw [hfile]
    rfl
  | @noChunk db m c file d todo rest counted hstatus =>
    obtain ⟨hcache, -⟩ := hpos
    have hmapped : db.Mapped file d := by
      apply (hsane.cached file _ hcache).2 d
      exact List.mem_append_right _ List.mem_cons_self
    exact (hsane.chunkRow file d hmapped hstatus).elim
  | @finish db m => exact .inl (.inl (h.resolve_right List.not_mem_nil))
  | @fill db m c file rest hfile => exact .inl h
  | @skip db m file rest f hfile hf =>
    -- the update passes by a file whose flags are set: this is how a notice is lost
    obtain hqueued | hahead := h
    · exact .inl (.inl hqueued)
    · obtain rfl | hrest := List.mem_cons.mp hahead
      · exact .inr (.inr ⟨f, hfile, hf⟩)
      · exact .inl (.inr hrest)
  | @enter db m file rest f hfile huploaded hfailed =>
    obtain hqueued | hahead := h
    · exact .inl (.inl hqueued)
    · obtain rfl | hrest := List.mem_cons.mp hahead
      · exact .inr (.inl ⟨f.chunk_ids, rest, rfl⟩)
      · exact .inl (.inr hrest)
  | @decide db m c file rest counted status hstatus =>
    left
    obtain hqueued | hahead := h
    · left
      apply hqueued.mono
      · intro x hx
        show x ∈ (m.setFlags file status).queue
        rw [setFlags_other.2.2]
        exact hx
      · exact setFlags_other.2.1
      · exact fun _ hd => hd
    · exact .inr hahead
  | _ => exact .inl h

/-- A statement leaves an update on its way to a file. -/
theorem external_comes (h : a.Comes F) (hexit : st ≠ .exit)
    (hout : ∀ G chunkIds, st = .createFileMaps G chunkIds →
      a.Outlasts G (chunkIds.map Prod.snd) F) : (a.external st).Comes F := by
  have hmapped : ∀ c, a.db.Mapped F c → (a.external st).db.Mapped F c :=
    fun c hc => external_mapped.mpr (.inl hc)
  have hahead : a.Ahead F → (a.external st).Ahead F :=
    fun hahead => hahead.mono (external_position hexit) hmapped
  cases st with
  | exit => exact (hexit rfl).elim
  | createFileMaps fileId chunkIds =>
    refine (h.addParents (hout fileId chunkIds rfl) ?_ rfl hmapped).imp_right hahead
    exact addParents_other.2.2
  | saveChunk chunk =>
    refine h.imp (fun hqueued => hqueued.mono ?_ ?_ hmapped) hahead
    · intro x hx
      show x ∈ (Store.modificationHook chunk a.memory).queue
      rw [modificationHook_other.2.2]
      exact hx
    · exact modificationHook_other.2.1
  | completeChunk chunkId worker =>
    refine h.imp (fun hqueued => hqueued.mono ?_ rfl hmapped) hahead
    exact fun x hx => List.mem_append_left _ hx
  | _ => exact h.imp (fun hqueued => hqueued.mono (fun _ hx => hx) rfl hmapped) hahead

/-! ## The parents of cached files -/

/-- A file in the cache is a parent of its chunks. -/
def Adopted (a : Snapshot) : Prop :=
  ∀ F f, a.memory.fileUploadCache F = some f → ∀ c ∈ f.chunk_ids, a.memory.Parent F c

theorem adopted_init : Adopted Store.init.snapshot := fun _ _ hf => by cases hf

theorem Adopted.external (h : Adopted a) : Adopted (a.external st) := by
  by_cases hexit : st = .exit
  · subst hexit
    intro F f hf
    cases hf
  · intro F f hf c hc
    rw [external_fileUploadCache hexit] at hf
    have hparent := h F f hf c hc
    cases st with
    | exit => exact (hexit rfl).elim
    | createFileMaps fileId chunkIds => exact parent_addParents.mpr (.inl hparent)
    | saveChunk chunk =>
      show (Store.modificationHook chunk a.memory).Parent F c
      unfold Memory.Parent
      rw [modificationHook_other.2.1]
      exact hparent
    | _ => exact hparent

theorem Adopted.internal (h : Adopted a) (hsane : Sane a) (hab : Internal a b) : Adopted b := by
  cases hab with
  | @findParents db m c files hparents =>
    intro F f hf d hd
    have hf : m.fileUploadCache F = some f := congrFun addFiles_other.1 F ▸ hf
    exact parent_addFiles.mpr (.inl (h F f hf d hd))
  | @noParents db m c hparents =>
    intro F f hf d hd
    have hf : m.fileUploadCache F = some f := congrFun addFiles_other.1 F ▸ hf
    exact parent_addFiles.mpr (.inl (h F f hf d hd))
  | @findFile db m c file chunkIds rest hfile =>
    intro F f hf d hd
    obtain ⟨rfl, rfl⟩ | hf := cached_setFile (congrFun addParents_other.1 F ▸ hf)
    · exact parent_addParents.mpr (.inr ⟨rfl, hd⟩)
    · exact parent_addParents.mpr (.inl (h F f hf d hd))
  | @decide db m c file rest counted status hstatus =>
    have hfile : m.fileUploadCache file = some ⟨false, false, counted.map Prod.fst ++ []⟩ :=
      hsane.position.1
    intro F f hf d hd
    show (m.setFlags file status).Parent F d
    rw [setFlags_eq hfile]
    obtain ⟨rfl, rfl⟩ | hf := cached_setFlags hfile hf
    · exact h F _ hfile d hd
    · exact h F f hf d hd
  | _ => exact h

end

end PointNetwork.Uploader
