import Mathlib.Logic.Relation
import PointNetwork.Uploader.Store

/-!
# Progress updates in small steps

The functions of `progress.ts` run through loops between two awaits. Here they are cut further:
`Position` is a place in the code, `Internal` a step from one place to the next, and a statement
is its own effect, `external`, followed by such steps (`perform_internal`). An invariant is then
proved for one small step at a time (`perform_invariant`).
-/

namespace PointNetwork.Uploader

open Js Storage

/-- Where the progress updates stand. -/
inductive Position
  | idle
  /-- Before the statement that the update of a chunk awaits. -/
  | at (chunk_id : JsString) (stage : Stage)
  /-- Before the loop over these files. -/
  | files (rest : List JsString)
  /-- In the loop over the chunks of a file. -/
  | chunks (file : JsString) (counted : List (JsString × ChunkStatus)) (todo rest : List JsString)

/-- The tables, the maps and the place. -/
structure Snapshot where
  db : Database
  memory : Memory
  position : Position

/-- The place of the running update, if there is one. -/
def Progress.position (p : Progress) : Position :=
  match p.active with
  | none => .idle
  | some u => .at u.chunk_id u.stage

/-- The tables and the maps, with the place of the update that runs. -/
def Store.snapshot (s : Store) : Snapshot := ⟨s.db, s.progress.memory, s.progress.position⟩

/-- One step of a progress update. -/
inductive Internal : Snapshot → Snapshot → Prop
  /-- An update is taken from the queue; the parents of its chunk are not known. -/
  | load {db : Database} {m : Memory} {c : JsString} {worker : ℕ} {queue : List (JsString × ℕ)}
      (hqueue : m.queue = (c, worker) :: queue) (hparents : m.chunkParents c = none) :
      Internal ⟨db, m, .idle⟩
        ⟨db, ({ m with queue }).setChunk c (some .completed), .at c .findParents⟩
  | start {db : Database} {m : Memory} {c : JsString} {worker : ℕ}
      {queue : List (JsString × ℕ)} {files : List JsString}
      (hqueue : m.queue = (c, worker) :: queue) (hparents : m.chunkParents c = some files) :
      Internal ⟨db, m, .idle⟩ ⟨db, ({ m with queue }).setChunk c (some .completed), .files files⟩
  | findParents {db : Database} {m : Memory} {c : JsString} {files : List JsString}
      (hparents : (m.addFiles (db.fileIdsOf c) c).chunkParents c = some files) :
      Internal ⟨db, m, .at c .findParents⟩ ⟨db, m.addFiles (db.fileIdsOf c) c, .files files⟩
  | noParents {db : Database} {m : Memory} {c : JsString}
      (hparents : (m.addFiles (db.fileIdsOf c) c).chunkParents c = none) :
      Internal ⟨db, m, .at c .findParents⟩ ⟨db, m.addFiles (db.fileIdsOf c) c, .idle⟩
  | findMaps {db : Database} {m : Memory} {c file : JsString} {rest : List JsString} :
      Internal ⟨db, m, .at c (.findMaps file rest)⟩
        ⟨db, m, .at c (.findFile file (db.chunkIdsOf file) rest)⟩
  | findFile {db : Database} {m : Memory} {c file : JsString} {chunkIds rest : List JsString}
      (hfile : db.findFile file ≠ none) :
      Internal ⟨db, m, .at c (.findFile file chunkIds rest)⟩
        ⟨db, (m.setFile file { chunk_ids := chunkIds }).addParents file chunkIds,
          .chunks file [] chunkIds rest⟩
  | noFile {db : Database} {m : Memory} {c file : JsString} {chunkIds rest : List JsString}
      (hfile : db.findFile file = none) :
      Internal ⟨db, m, .at c (.findFile file chunkIds rest)⟩ ⟨db, m, .idle⟩
  | count {db : Database} {m : Memory} {c file d : JsString} {todo rest : List JsString}
      {counted : List (JsString × ChunkStatus)} {status : ChunkStatus}
      (hstatus : db.chunkStatus d = some status) :
      Internal ⟨db, m, .at c (.count file counted d todo rest)⟩
        ⟨db, m.setChunk d (some status), .chunks file (counted ++ [(d, status)]) todo rest⟩
  | noChunk {db : Database} {m : Memory} {c file d : JsString} {todo rest : List JsString}
      {counted : List (JsString × ChunkStatus)} (hstatus : db.chunkStatus d = none) :
      Internal ⟨db, m, .at c (.count file counted d todo rest)⟩ ⟨db, m, .idle⟩
  | write {db : Database} {m : Memory} {c file : JsString} {status : FileStatus}
      {rest : List JsString} :
      Internal ⟨db, m, .at c (.write file status rest)⟩
        ⟨db.updateFileUlStatus file status, m, .files rest⟩
  -- the loop over the files
  | finish {db : Database} {m : Memory} : Internal ⟨db, m, .files []⟩ ⟨db, m, .idle⟩
  | fill {db : Database} {m : Memory} {c file : JsString} {rest : List JsString}
      (hfile : m.fileUploadCache file = none) :
      Internal ⟨db, m, .files (file :: rest)⟩ ⟨db, m, .at c (.findMaps file rest)⟩
  | skip {db : Database} {m : Memory} {file : JsString} {rest : List JsString} {f : FileUpload}
      (hfile : m.fileUploadCache file = some f) (hf : f.uploaded = true ∨ f.failed = true) :
      Internal ⟨db, m, .files (file :: rest)⟩ ⟨db, m, .files rest⟩
  | enter {db : Database} {m : Memory} {file : JsString} {rest : List JsString} {f : FileUpload}
      (hfile : m.fileUploadCache file = some f) (huploaded : f.uploaded = false)
      (hfailed : f.failed = false) :
      Internal ⟨db, m, .files (file :: rest)⟩ ⟨db, m, .chunks file [] f.chunk_ids rest⟩
  -- the loop over the chunks
  | cached {db : Database} {m : Memory} {file d : JsString} {todo rest : List JsString}
      {counted : List (JsString × ChunkStatus)} {status : ChunkStatus}
      (hcache : m.chunkUploadCache d = some status) :
      Internal ⟨db, m, .chunks file counted (d :: todo) rest⟩
        ⟨db, m, .chunks file (counted ++ [(d, status)]) todo rest⟩
  | miss {db : Database} {m : Memory} {c file d : JsString} {todo rest : List JsString}
      {counted : List (JsString × ChunkStatus)} (hcache : m.chunkUploadCache d = none) :
      Internal ⟨db, m, .chunks file counted (d :: todo) rest⟩
        ⟨db, m, .at c (.count file counted d todo rest)⟩
  | decide {db : Database} {m : Memory} {c file : JsString} {rest : List JsString}
      {counted : List (JsString × ChunkStatus)} {status : FileStatus}
      (hstatus : Memory.finalStatus counted = some status) :
      Internal ⟨db, m, .chunks file counted [] rest⟩
        ⟨db, m.setFlags file status, .at c (.write file status rest)⟩
  | undecided {db : Database} {m : Memory} {file : JsString} {rest : List JsString}
      {counted : List (JsString × ChunkStatus)} (hstatus : Memory.finalStatus counted = none) :
      Internal ⟨db, m, .chunks file counted [] rest⟩ ⟨db, m, .files rest⟩

/-- The place is before a statement. -/
def Position.Awaits : Position → Prop
  | .at _ _ => True
  | _ => False

/-- Several steps. Those that carry out an awaited statement start in a snapshot that meets `ok`. -/
abbrev Internals (ok : Snapshot → Prop) : Snapshot → Snapshot → Prop :=
  Relation.ReflTransGen fun a b => Internal a b ∧ (a.position.Awaits → ok a)

theorem Internal.loop {ok : Snapshot → Prop} {a b : Snapshot} (h : Internal a b)
    (ha : ¬ a.position.Awaits) : Internals ok a b := .single ⟨h, fun hwait => (ha hwait).elim⟩

theorem Internal.awaited {ok : Snapshot → Prop} {a b : Snapshot} (h : Internal a b) (ha : ok a) :
    Internals ok a b := .single ⟨h, fun _ => ha⟩

/-- The place before the next statement, if there is one. -/
def Position.next (c : JsString) : Option Stage → Position
  | some stage => .at c stage
  | none => .idle

section

variable {db : Database} {m : Memory} {c : JsString} {ok : Snapshot → Prop}

/-- The loop over the chunks, given what its continuation does. -/
theorem countChunks_internals {file : JsString} {rest : List JsString}
    {next : Memory → Memory × Option Stage}
    (hnext : Internals ok ⟨db, m, .files rest⟩ ⟨db, (next m).1, .next c (next m).2⟩) :
    ∀ (counted : List (JsString × ChunkStatus)) (todo : List JsString),
      Internals ok ⟨db, m, .chunks file counted todo rest⟩
        ⟨db, (m.countChunks file counted todo rest next).1,
          .next c (m.countChunks file counted todo rest next).2⟩ := by
  intro counted todo
  induction todo generalizing counted with
  | nil =>
    cases hstatus : Memory.finalStatus counted with
    | some status =>
      have heq : m.countChunks file counted [] rest next =
          (m.setFlags file status, some (.write file status rest)) := by
        simp only [Memory.countChunks, Memory.countCached, hstatus]
      rw [heq]
      exact Internal.loop (.decide hstatus) not_false
    | none =>
      have heq : m.countChunks file counted [] rest next = next m := by
        simp only [Memory.countChunks, Memory.countCached, hstatus]
      rw [heq]
      exact (Internal.loop (.undecided hstatus) not_false).trans hnext
  | cons d todo ih =>
    cases hcache : m.chunkUploadCache d with
    | some status =>
      have heq : m.countChunks file counted (d :: todo) rest next =
          m.countChunks file (counted ++ [(d, status)]) todo rest next := by
        simp only [Memory.countChunks, Memory.countCached, hcache]
      rw [heq]
      exact (Internal.loop (.cached hcache) not_false).trans (ih _)
    | none =>
      have heq : m.countChunks file counted (d :: todo) rest next =
          (m, some (.count file counted d todo rest)) := by
        simp only [Memory.countChunks, Memory.countCached, hcache]
      rw [heq]
      exact Internal.loop (.miss hcache) not_false

/-- The loop over the files. -/
theorem updateFiles_internals (files : List JsString) :
    Internals ok ⟨db, m, .files files⟩
      ⟨db, (m.updateFiles files).1, .next c (m.updateFiles files).2⟩ := by
  induction files with
  | nil => exact Internal.loop .finish not_false
  | cons file rest ih =>
    cases hfile : m.fileUploadCache file with
    | none =>
      have heq : m.updateFiles (file :: rest) = (m, some (.findMaps file rest)) := by
        simp only [Memory.updateFiles, hfile]
      rw [heq]
      exact Internal.loop (.fill hfile) not_false
    | some f =>
      by_cases hf : f.uploaded = true ∨ f.failed = true
      · have heq : m.updateFiles (file :: rest) = m.updateFiles rest := by
          simp only [Memory.updateFiles, hfile]
          rw [if_pos (by simpa using hf)]
        rw [heq]
        exact (Internal.loop (.skip hfile hf) not_false).trans ih
      · have heq : m.updateFiles (file :: rest) =
            m.countChunks file [] f.chunk_ids rest (Memory.updateFiles rest) := by
          simp only [Memory.updateFiles, hfile]
          rw [if_neg (by simpa using hf)]
        rw [not_or, Bool.not_eq_true, Bool.not_eq_true] at hf
        rw [heq]
        exact (Internal.loop (.enter hfile hf.1 hf.2) not_false).trans
          (countChunks_internals ih [] f.chunk_ids)

/-! ## Statements -/

/-- The place of the update after it went on. -/
theorem proceed_position (worker : ℕ) (r : Memory × Option Stage) :
    (Progress.proceed c worker r).1.memory = r.1 ∧
      (Progress.proceed c worker r).1.position = .next c r.2 := by
  unfold Progress.proceed
  cases r.2 with
  | none => exact ⟨rfl, rfl⟩
  | some stage => exact ⟨rfl, rfl⟩

/-- What a statement does by itself, before the progress updates go on. -/
def Snapshot.external (a : Snapshot) : Statement → Snapshot
  | .nothing => a
  | .createFile fileId => { a with db := a.db.createFile fileId }
  | .bulkCreateChunks chunkIds => { a with db := a.db.bulkCreateChunks chunkIds }
  | .fixStatuses => { a with db := a.db.fixStatuses }
  | .createFileMaps fileId chunkIds =>
    { a with
      db := a.db.bulkCreateFileMaps fileId chunkIds
      memory := a.memory.addParents fileId (chunkIds.map Prod.snd) }
  | .markFileAsBeingUploaded fileId fileSize =>
    { a with db := a.db.markFileAsBeingUploaded fileId fileSize }
  | .markFileAsFailedUpload fileId => { a with db := a.db.markFileAsFailedUpload fileId }
  | .claimChunk chunkId expires => { a with db := a.db.claimChunk chunkId expires }
  | .completeChunk chunkId worker =>
    { a with
      db := a.db.completeChunk chunkId
      memory.queue := a.memory.queue ++ [(chunkId, worker)] }
  | .failOrRestartChunk chunkId ul_status retry_count =>
    { a with db := a.db.failOrRestartChunk chunkId ul_status retry_count }
  | .createChunk chunkId => { a with db := a.db.createChunk chunkId }
  | .saveChunk chunk =>
    { a with db := a.db.saveChunk chunk, memory := Store.modificationHook chunk a.memory }
  | .restartUploadsDownloads => { a with db := a.db.restartUploadsDownloads }
  | .processQueue => a
  | .advance => a
  | .exit => { a with memory := .init, position := .idle }

/-- The next update of the queue, if none runs. -/
theorem processQueue_internals (db : Database) (p : Progress) :
    Internals ok ⟨db, p.memory, p.position⟩
      ⟨db, p.processQueue.1.memory, p.processQueue.1.position⟩ := by
  obtain ⟨m, active⟩ := p
  cases active with
  | some u => exact .refl
  | none =>
    cases hqueue : m.queue with
    | nil =>
      have heq : Progress.processQueue ⟨m, none⟩ = (⟨m, none⟩, none) := by
        simp only [Progress.processQueue, hqueue]
      rw [heq]
    | cons next queue =>
      obtain ⟨c, worker⟩ := next
      have heq : Progress.processQueue ⟨m, none⟩ =
          Progress.realUpdateChunkProgress c worker { m with queue } := by
        simp only [Progress.processQueue, hqueue]
      rw [heq]
      unfold Progress.realUpdateChunkProgress
      -- the parents of the chunk are in memory, or are read from the database first
      cases hparents : m.chunkParents c with
      | none =>
        have hparents' : (({ m with queue } : Memory).setChunk c
            (some .completed)).chunkParents c = none := hparents
        simp only [hparents']
        exact Internal.loop (.load hqueue hparents) not_false
      | some files =>
        have hparents' : (({ m with queue } : Memory).setChunk c
            (some .completed)).chunkParents c = some files := hparents
        simp only [hparents']
        obtain ⟨hmemory, hposition⟩ := proceed_position (c := c) worker
          ((({ m with queue } : Memory).setChunk c (some .completed)).updateFiles files)
        rw [hmemory, hposition]
        exact (Internal.loop (.start hqueue hparents) not_false).trans
          (updateFiles_internals files)

/-- What follows the statement of the running update. -/
theorem advance_internals (s : Store) (u : Update) (hu : s.progress.active = some u)
    (hok : ok s.snapshot) :
    Internals ok s.snapshot ⟨s.writeFile, (Progress.advance s.db u s.progress.memory).1.memory,
      (Progress.advance s.db u s.progress.memory).1.position⟩ := by
  obtain ⟨db, m, active⟩ := s
  obtain rfl : active = some u := hu
  obtain ⟨c, worker, stage⟩ := u
  show Internals ok ⟨db, m, .at c stage⟩ _
  -- one case for each place where the update waits for the database
  cases stage with
  | findParents =>
    unfold Progress.advance
    show Internals ok _ ⟨db, _, _⟩
    cases hparents : (m.addFiles (db.fileIdsOf c) c).chunkParents c with
    | none =>
      simp only [hparents]
      exact Internal.awaited (.noParents hparents) hok
    | some files =>
      simp only [hparents]
      obtain ⟨hmemory, hposition⟩ := proceed_position (c := c) worker
        ((m.addFiles (db.fileIdsOf c) c).updateFiles files)
      rw [hmemory, hposition]
      exact (Internal.awaited (.findParents hparents) hok).trans
        (updateFiles_internals files)
  | findMaps file rest => exact Internal.awaited .findMaps hok
  | findFile file chunkIds rest =>
    unfold Progress.advance
    show Internals ok _ ⟨db, _, _⟩
    cases hfile : db.findFile file with
    | none =>
      simp only [hfile]
      exact Internal.awaited (.noFile hfile) hok
    | some row =>
      simp only [hfile]
      obtain ⟨hmemory, hposition⟩ := proceed_position (c := c) worker
        (((m.setFile file { chunk_ids := chunkIds }).addParents file chunkIds).countChunks file []
          chunkIds rest (Memory.updateFiles rest))
      rw [hmemory, hposition]
      have hrow : db.findFile file ≠ none := by
        rw [hfile]
        exact Option.some_ne_none row
      exact (Internal.awaited (.findFile hrow) hok).trans
        (countChunks_internals (updateFiles_internals rest) [] chunkIds)
  | count file counted d todo rest =>
    unfold Progress.advance
    -- the row of the chunk is read where its status is not in memory
    show Internals ok _ ⟨db, _, _⟩
    cases hstatus : db.chunkStatus d with
    | none =>
      simp only [hstatus]
      exact Internal.awaited (.noChunk hstatus) hok
    | some status =>
      simp only [hstatus]
      obtain ⟨hmemory, hposition⟩ := proceed_position (c := c) worker
        ((m.setChunk d (some status)).countChunks file (counted ++ [(d, status)]) todo rest
          (Memory.updateFiles rest))
      rw [hmemory, hposition]
      exact (Internal.awaited (.count hstatus) hok).trans
        (countChunks_internals (updateFiles_internals rest) _ todo)
  | write file status rest =>
    unfold Progress.advance
    obtain ⟨hmemory, hposition⟩ := proceed_position (c := c) worker (m.updateFiles rest)
    show Internals ok _ ⟨db.updateFileUlStatus file status,
      (Progress.proceed c worker (m.updateFiles rest)).1.memory,
      (Progress.proceed c worker (m.updateFiles rest)).1.position⟩
    rw [hmemory, hposition]
    exact (Internal.awaited .write hok).trans (updateFiles_internals rest)

/-- A statement is its own effect and steps of the progress updates. -/
theorem perform_internals (s : Store) (st : Statement) :
    Internals (fun a => st = .advance ∧ a = s.snapshot) (s.snapshot.external st)
      (s.perform st).1.snapshot := by
  cases st with
  | completeChunk chunkId worker =>
    exact processQueue_internals _ (s.progress.enqueue chunkId worker)
  | processQueue => exact processQueue_internals s.db s.progress
  | advance =>
    cases hu : s.progress.active with
    | none =>
      have heq : (s.perform .advance).1 = s := by
        unfold Store.perform Store.progressAfter Store.dbAfter Store.writeFile
        simp only [hu]
      rw [heq]
      exact .refl
    | some u =>
      have heq : (s.perform .advance).1 =
          ⟨s.writeFile, (Progress.advance s.db u s.progress.memory).1⟩ := by
        unfold Store.perform Store.progressAfter Store.dbAfter
        simp only [hu]
      rw [heq]
      exact advance_internals s u hu ⟨rfl, rfl⟩
  | _ => exact .refl

/-- What a statement's own effect keeps, and every step of a progress update, the statement keeps. -/
theorem perform_invariant {I : Snapshot → Prop} {s : Store} {st : Statement}
    (hinternal : ∀ a b, Internal a b → (a.position.Awaits → st = .advance ∧ a = s.snapshot) →
      I a → I b) (h : I (s.snapshot.external st)) : I (s.perform st).1.snapshot := by
  have hruns := perform_internals s st
  generalize (s.perform st).1.snapshot = b at hruns ⊢
  induction hruns with
  | refl => exact h
  | tail _ hstep ih => exact hinternal _ _ hstep.1 hstep.2 ih

end

end PointNetwork.Uploader
