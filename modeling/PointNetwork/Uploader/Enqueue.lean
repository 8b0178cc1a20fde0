import PointNetwork.Uploader.Database

/-!
# The rows that an enqueued file touches

`enqueueChunksForUpload` puts the chunks of a file into the table and repairs the statuses of those
that are there already. The repair is a bulk update whose scope is written as a join with the file
maps; `Model.update` ignores the join, so that every row with one of the two statuses is repaired.

* `chunkStatus_enqueueChunksForUpload`: the status of a chunk afterwards;
* `enqueue_frame`: which tables keep the rows of the other files.
-/

namespace PointNetwork.Uploader

open Js Storage

/-- The statements of `enqueueChunksForUpload` on the tables. `chunks` are the entries of the array
of buffers, in the order of `Object.entries`. -/
def enqueueChunksForUpload (hashFn : HashFn) (chunks : List (ℤ × Bytes)) (fileId : JsString)
    (db : Database) : Database :=
  let chunkIds := chunks.map fun (idx, data) => (idx, hashFn.id data)
  -- Bulk create chunk entries
  let db := db.bulkCreateChunks (chunkIds.map Prod.snd)
  -- Fix statuses of existing entries
  let db := db.fixStatuses
  -- Bulk create filemap entries
  db.bulkCreateFileMaps fileId chunkIds

/-- The statuses that the repair replaces. -/
def ChunkStatus.Repaired (st : ChunkStatus) : Prop := st = .notStarted ∨ st = .failed

instance (st : ChunkStatus) : Decidable st.Repaired := inferInstanceAs (Decidable (_ ∨ _))

/-- The statuses of a chunk whose upload is under way or done. -/
def ChunkStatus.Accepted (st : ChunkStatus) : Prop :=
  st = .enqueued ∨ st = .inProgress ∨ st = .validating ∨ st = .completed

/-- A status is accepted as it is, or repaired. -/
theorem ChunkStatus.accepted_iff {st : ChunkStatus} : st.Accepted ↔ ¬st.Repaired := by
  cases st <;> simp [Accepted, Repaired]

/-- The rows of the chunks that are not in a list. -/
def Database.otherRows (ids : List JsString) (db : Database) : List Chunk :=
  db.chunks.filter fun chunk => !ids.contains chunk.id

section

variable {hashFn : HashFn} {chunks : List (ℤ × Bytes)} {fileId : JsString} {db : Database}

/-- The ids of the chunks of a file. -/
def idsOf (hashFn : HashFn) (chunks : List (ℤ × Bytes)) : List JsString :=
  chunks.map fun (_, data) => hashFn.id data

/-- The chunks after an enqueueing are created, then repaired. -/
theorem enqueue_chunks :
    (enqueueChunksForUpload hashFn chunks fileId db).chunks =
      ((db.bulkCreateChunks (idsOf hashFn chunks)).fixStatuses).chunks := by
  unfold enqueueChunksForUpload idsOf
  dsimp only
  rw [List.map_map]
  rfl

/-- A chunk of the file is in the table afterwards, and in no other status than the one it had,
unless this one is repaired. -/
theorem chunkStatus_enqueueChunksForUpload (c : JsString) :
    (enqueueChunksForUpload hashFn chunks fileId db).chunkStatus c =
      ((db.chunkStatus c).or (if c ∈ idsOf hashFn chunks then some .enqueued else none)).map
        fun old => if old.Repaired then .enqueued else old := by
  have hchunks : (enqueueChunksForUpload hashFn chunks fileId db).chunkStatus c =
      ((db.bulkCreateChunks (idsOf hashFn chunks)).fixStatuses).chunkStatus c := by
    unfold Database.chunkStatus Database.findChunk
    rw [enqueue_chunks]
  rw [hchunks, Database.chunkStatus_fixStatuses, Database.chunkStatus_bulkCreateChunks]
  rfl

/-- Every chunk of the file is accepted afterwards. -/
theorem accepted_enqueue {c : JsString} (hc : c ∈ idsOf hashFn chunks) :
    ∃ st, (enqueueChunksForUpload hashFn chunks fileId db).chunkStatus c = some st ∧
      st.Accepted := by
  rw [chunkStatus_enqueueChunksForUpload, if_pos hc]
  obtain ⟨old, hold⟩ : ∃ old, (db.chunkStatus c).or (some .enqueued) = some old := by
    cases db.chunkStatus c with
    | none => exact ⟨_, rfl⟩
    | some old => exact ⟨old, rfl⟩
  rw [hold]
  refine ⟨if old.Repaired then .enqueued else old, rfl, ChunkStatus.accepted_iff.mpr ?_⟩
  split
  · simp [ChunkStatus.Repaired]
  · assumption

/-! ## The other rows -/

/-- The rows that are inserted have ids of the list. -/
theorem otherRows_bulkCreateChunks (ids : List JsString) :
    (db.bulkCreateChunks ids).otherRows ids = db.otherRows ids := by
  -- for every list of new rows all of whose ids are listed
  have hinsert : ∀ (new rows : List Chunk), (∀ chunk ∈ new, chunk.id ∈ ids) →
      (Table.insertIgnore Chunk.id new rows).filter (fun chunk => !ids.contains chunk.id) =
        rows.filter fun chunk => !ids.contains chunk.id := by
    intro new
    induction new with
    | nil => exact fun rows _ => rfl
    | cons row new ih =>
      intro rows hnew
      rw [Table.insertIgnore, ih _ fun chunk hchunk => hnew chunk (List.mem_cons_of_mem _ hchunk)]
      split
      · rfl
      · have hrow : ids.contains row.id = true :=
          List.contains_iff_mem.mpr (hnew row List.mem_cons_self)
        rw [List.filter_append, List.filter_singleton, hrow]
        exact List.append_nil _
  apply hinsert
  intro chunk hchunk
  obtain ⟨id, hid, rfl⟩ := List.mem_map.mp hchunk
  exact hid

/-- The repair keeps the other rows if and only if none of them has one of the two statuses. -/
theorem otherRows_fixStatuses {ids : List JsString} :
    db.fixStatuses.otherRows ids = db.otherRows ids ↔
      ∀ chunk ∈ db.otherRows ids, ¬chunk.ul_status.Repaired := by
  have hfilter : db.fixStatuses.otherRows ids = (db.otherRows ids).map fun chunk =>
      if chunk.ul_status = .notStarted || chunk.ul_status = .failed then
        { chunk with ul_status := .enqueued, dl_status := .completed } else chunk := by
    unfold Database.fixStatuses Database.updateChunks Database.otherRows Table.update
    rw [List.filter_map]
    congr 2
    funext chunk
    show (!ids.contains (if _ then _ else chunk).id) = !ids.contains chunk.id
    split <;> rfl
  rw [hfilter]
  nth_rewrite 2 [← List.map_id (db.otherRows ids)]
  rw [List.map_inj_left]
  apply forall₂_congr
  intro chunk _
  constructor
  · -- a repaired row has a status that it did not have
    intro hkept hrepaired
    have hif : (decide (chunk.ul_status = .notStarted) || decide (chunk.ul_status = .failed)) =
        true := by
      simpa [ChunkStatus.Repaired] using hrepaired
    rw [if_pos hif] at hkept
    have hst : chunk.ul_status = .enqueued := (congrArg Chunk.ul_status hkept).symm
    rw [hst] at hrepaired
    simp [ChunkStatus.Repaired] at hrepaired
  · intro hkept
    have hif : ¬(decide (chunk.ul_status = .notStarted) || decide (chunk.ul_status = .failed)) =
        true := by
      simpa [ChunkStatus.Repaired] using hkept
    exact if_neg hif

/-- After `enqueueChunksForUpload` every chunk of the file is enqueued, in progress, being
validated or completed, and the rows of the other chunks are the same, if and only if none of
these rows has one of the statuses that the repair replaces. -/
theorem enqueue_frame (hashFn : HashFn) (chunks : List (ℤ × Bytes)) (fileId : JsString)
    (db : Database) :
    ((∀ c ∈ idsOf hashFn chunks, ∃ st,
        (enqueueChunksForUpload hashFn chunks fileId db).chunkStatus c = some st ∧ st.Accepted) ∧
      (enqueueChunksForUpload hashFn chunks fileId db).otherRows (idsOf hashFn chunks) =
        db.otherRows (idsOf hashFn chunks)) ↔
      ∀ chunk ∈ db.otherRows (idsOf hashFn chunks), ¬chunk.ul_status.Repaired := by
  have hrows : (enqueueChunksForUpload hashFn chunks fileId db).otherRows (idsOf hashFn chunks) =
      (db.bulkCreateChunks (idsOf hashFn chunks)).fixStatuses.otherRows (idsOf hashFn chunks) := by
    unfold Database.otherRows
    rw [enqueue_chunks]
  have hinserted : db.otherRows (idsOf hashFn chunks) =
      (db.bulkCreateChunks (idsOf hashFn chunks)).otherRows (idsOf hashFn chunks) :=
    (otherRows_bulkCreateChunks _).symm
  rw [hrows, hinserted, otherRows_fixStatuses]
  constructor
  · exact fun h => h.2
  · intro h
    refine ⟨?_, h⟩
    intro c hc
    exact accepted_enqueue hc

end

/-- The failed chunk of another file is enqueued, too. -/
theorem enqueue_repairs_other_file :
    ¬ ∀ (hashFn : HashFn) (chunks : List (ℤ × Bytes)) (fileId : JsString) (db : Database),
      (∀ c ∈ idsOf hashFn chunks, ∃ st,
        (enqueueChunksForUpload hashFn chunks fileId db).chunkStatus c = some st ∧ st.Accepted) ∧
      (enqueueChunksForUpload hashFn chunks fileId db).otherRows (idsOf hashFn chunks) =
        db.otherRows (idsOf hashFn chunks) := by
  intro h
  have hrows := (h .firstBytes [(0, [1])] (HashFn.firstBytes.id [1])
    ⟨[{ id := HashFn.firstBytes.id [2], ul_status := .failed }], [], []⟩).2
  revert hrows
  decide +kernel

end PointNetwork.Uploader
