import PointNetwork.Uploader.SlotTheorems

/-!
# The leases of the upload workers

A claim gives a chunk to a worker until a time, and the loop claims a chunk in progress only when this
time is over. The worker goes on for as long as its upload takes, and what it writes at the end has
the status as its only condition: if it succeeds, the chunk is completed, whoever holds the lease by
now; if it fails, the chunk is taken from the worker that does.

* `Process.RestartsOwn`: a failed worker gives back what it holds itself, or what nobody does;
* `Process.Leases`: the invariant of the runs whose steps meet this;
* `lease_exclusive`: an unexpired lease has one holder, and ends by its holder or with the upload;
* `lease_taken`: a run in which two workers hold a lease on one chunk.
-/

namespace PointNetwork.Uploader

open Js Machine

namespace Database

/-- The time at which the lease on a chunk ends. -/
def chunkExpires (db : Database) (c : JsString) : Option ℕ := (db.findChunk c).bind Chunk.expires

/-- The chunk is in progress, with a lease that ends at `expires` and has not expired. -/
structure Leased (db : Database) (now : ℕ) (c : JsString) (expires : ℕ) : Prop where
  status : db.chunkStatus c = some .inProgress
  expires_eq : db.chunkExpires c = some expires
  unexpired : now ≤ expires

variable {db : Database} {c : JsString}

theorem chunkExpires_updateChunks {p : Chunk → Bool} {f : Chunk → Chunk}
    (hid : ∀ chunk, (f chunk).id = chunk.id) :
    (db.updateChunks p f).chunkExpires c = (db.findChunk c).bind fun chunk =>
      if p chunk then (f chunk).expires else chunk.expires := by
  unfold chunkExpires findChunk updateChunks
  rw [Table.find_update hid]
  cases Table.find Chunk.id c db.chunks with
  | none => rfl
  | some chunk => exact apply_ite Chunk.expires _ _ _

/-- An update that does not name the lease. -/
theorem chunkExpires_same {p : Chunk → Bool} {f : Chunk → Chunk}
    (hid : ∀ chunk, (f chunk).id = chunk.id) (hexpires : ∀ chunk, (f chunk).expires = chunk.expires) :
    (db.updateChunks p f).chunkExpires c = db.chunkExpires c := by
  rw [chunkExpires_updateChunks hid]
  unfold chunkExpires
  congr 1
  funext chunk
  rw [hexpires, ite_self]

/-- New rows have no lease. -/
theorem chunkExpires_insertIgnore {entries : List Chunk}
    (h : ∀ chunk ∈ entries, chunk.expires = none) :
    ({ db with chunks := Table.insertIgnore Chunk.id entries db.chunks } : Database).chunkExpires c =
      db.chunkExpires c := by
  unfold chunkExpires findChunk
  rw [Table.find_insertIgnore]
  cases Table.find Chunk.id c db.chunks with
  | some chunk => rfl
  | none =>
    rw [Option.none_or]
    cases hnew : Table.find Chunk.id c entries with
    | none => rfl
    | some chunk => exact h chunk (List.mem_of_find?_eq_some hnew)

/-- The leases of the other chunks stay. -/
theorem chunkExpires_claimChunk {id : JsString} {expires : ℕ} (hne : c ≠ id) :
    (db.claimChunk id expires).chunkExpires c = db.chunkExpires c := by
  refine (chunkExpires_updateChunks ?_).trans ?_
  · exact fun _ => rfl
  unfold chunkExpires
  cases hfind : db.findChunk c with
  | none => rfl
  | some chunk =>
    have hkey : chunk.id ≠ id := by
      rw [show chunk.id = c from Table.key_of_find hfind]
      exact hne
    simp [hkey]

/-- The lease that a claim writes. -/
theorem leased_claimChunk {old : ChunkStatus} {expires now : ℕ} (h : db.chunkStatus c = some old)
    (hold : old ≠ .failed ∧ old ≠ .completed) (hnow : now ≤ expires) :
    (db.claimChunk c expires).Leased now c expires := by
  refine ⟨?_, ?_, hnow⟩
  · rw [chunkStatus_claimChunk, h]
    simp [hold]
  · obtain ⟨chunk, hfind, rfl⟩ := Option.map_eq_some_iff.mp h
    have hkey : chunk.id = c := Table.key_of_find hfind
    refine (chunkExpires_updateChunks ?_).trans ?_
    · exact fun _ => rfl
    rw [hfind]
    simp [hkey, hold]

end Database

section

variable {s : Store} {st : Statement} {c : JsString}

/-- Only a claim changes a lease. -/
theorem Store.chunkExpires_dbAfter (h : ∀ expires, st ≠ .claimChunk c expires) :
    (s.dbAfter st).chunkExpires c = s.db.chunkExpires c := by
  cases st with
  | claimChunk chunkId expires =>
    apply Database.chunkExpires_claimChunk
    rintro rfl
    exact h expires rfl
  | bulkCreateChunks chunkIds =>
    apply Database.chunkExpires_insertIgnore
    intro chunk hchunk
    obtain ⟨id, -, rfl⟩ := List.mem_map.mp hchunk
    rfl
  | createChunk chunkId =>
    apply Database.chunkExpires_insertIgnore
    intro chunk hchunk
    rw [List.mem_singleton.mp hchunk]
  | fixStatuses => exact Database.chunkExpires_same (fun _ => rfl) fun _ => rfl
  | completeChunk chunkId worker =>
    exact Database.chunkExpires_same (fun _ => rfl) fun _ => rfl
  | failOrRestartChunk chunkId ul_status retry_count =>
    exact Database.chunkExpires_same (fun _ => rfl) fun _ => rfl
  | saveChunk m => exact Database.chunkExpires_same (fun _ => rfl) fun _ => rfl
  | restartUploadsDownloads =>
    exact Database.chunkExpires_same (fun _ => rfl) fun _ => rfl
  | advance =>
    show s.writeFile.chunkExpires c = _
    unfold Store.writeFile
    split <;> rfl
  | _ => rfl

/-- Only a claim brings a chunk in progress. -/
theorem Store.inProgress_of_dbAfter (hst : st.Sound) (h : ∀ expires, st ≠ .claimChunk c expires)
    (hafter : (s.dbAfter st).chunkStatus c = some .inProgress) :
    s.db.chunkStatus c = some .inProgress := by
  rw [Store.chunkStatus_dbAfter] at hafter
  cases st with
  | bulkCreateChunks chunkIds =>
    obtain hafter | ⟨-, hafter⟩ := Option.or_eq_some_iff.mp hafter
    · exact hafter
    · split at hafter <;> cases hafter
  | createChunk chunkId =>
    obtain hafter | ⟨-, hafter⟩ := Option.or_eq_some_iff.mp hafter
    · exact hafter
    · split at hafter <;> cases hafter
  | fixStatuses => exact status_of_update (by decide) hafter
  -- another chunk's claim leaves this row alone
  | claimChunk chunkId expires =>
    obtain ⟨old, hold, hif⟩ := Option.map_eq_some_iff.mp hafter
    split_ifs at hif with hc
    · obtain ⟨rfl, -⟩ := hc
      exact (h expires rfl).elim
    · rw [hold, hif]
  | completeChunk chunkId worker => exact status_of_update (by decide) hafter
  | failOrRestartChunk chunkId ul_status retry_count =>
    refine status_of_update ?_ hafter
    obtain hfailed | henqueued := hst
    · rw [hfailed]
      decide
    · rw [henqueued]
      decide
  | saveChunk m =>
    obtain ⟨old, hold, hif⟩ := Option.map_eq_some_iff.mp hafter
    split_ifs at hif with hc
    · rw [hst hc.2] at hif
      cases hif
    · rw [hold, hif]
  | restartUploadsDownloads => exact status_of_update (by decide) hafter
  | _ => exact hafter

/-- A chunk in progress is completed, or given back by a worker of its own, or stays as it is. -/
theorem Store.inProgress_kept (hst : st.Sound)
    (hrestart : st ≠ .restartUploadsDownloads)
    (hfail : ∀ ul_status retry_count, st ≠ .failOrRestartChunk c ul_status retry_count)
    (h : s.db.chunkStatus c = some .inProgress) :
    (s.dbAfter st).chunkStatus c = some .inProgress ∨
      (s.dbAfter st).chunkStatus c = some .completed := by
  rw [Store.chunkStatus_dbAfter, h]
  cases st with
  | bulkCreateChunks chunkIds => exact .inl rfl
  | createChunk chunkId => exact .inl rfl
  | fixStatuses => exact .inl rfl
  | claimChunk chunkId expires =>
    left
    simp [Statement.statusAfter]
  | completeChunk chunkId worker =>
    by_cases hc : c = chunkId
    · right
      simp [Statement.statusAfter, hc]
    · left
      simp [Statement.statusAfter, hc]
  | failOrRestartChunk chunkId ul_status retry_count =>
    have hc : c ≠ chunkId := by
      rintro rfl
      exact hfail ul_status retry_count rfl
    left
    simp [Statement.statusAfter, hc]
  | saveChunk m =>
    by_cases hc : c = m.id ∧ m.ulChanged = true
    · right
      simp [Statement.statusAfter, hc, hst hc.2]
    · left
      simp [Statement.statusAfter, hc]
  | restartUploadsDownloads => exact (hrestart rfl).elim
  | _ => exact .inl rfl

end

/-! ## The other tasks -/

/-- A step of the worker that carries out the statement of `markAsFailedOrRestart`. -/
def Worker.restarts (w : Worker) (answer : Answer) : Bool :=
  match w.phase with
  | .restart _ _ => answer ≠ .throws
  | _ => false

/-- The events but the steps of the loop and the start of the process. -/
def Event.Plain : Event → Prop
  | .loop _ _ _ _ => False
  | .restartUploadsDownloads => False
  | _ => True

/-- The statement neither claims a chunk nor takes it back. -/
def Statement.Mild : Statement → Prop
  | .claimChunk _ _ => False
  | .restartUploadsDownloads => False
  | .failOrRestartChunk _ _ _ => False
  | _ => True

section

variable {cfg : Config} {s s' t : State} {e : Event} {st : Statement}

/-- A worker gives its chunk back in its last step. -/
theorem Worker.next_restarts {w : Worker} {i : ℕ} {db : Database} {answer : Answer}
    {phase : WorkerPhase} {acknowledged : Bool}
    (h : w.next cfg i db answer = some (st, phase, acknowledged)) :
    st.Mild ∨ (∃ ul_status retry_count,
      st = .failOrRestartChunk w.chunkId ul_status retry_count) ∧
        w.restarts answer = true ∧ phase = .done := by
  cases Worker.next_step h with
  | go hdone hprogress => exact .inl trivial
  | complete hmark => exact .inl trivial
  | restart hrestart =>
    refine .inr ⟨⟨_, _, rfl⟩, ?_, rfl⟩
    unfold Worker.next at h
    unfold Worker.restarts
    rw [hrestart] at h ⊢
    dsimp only at h ⊢
    split_ifs at h with hthrows
    · cases h
    · simpa using hthrows

/-- What a statement that a plain event issues does to the chunks. -/
theorem issue_plain (he : e.Plain) (h : issue cfg s e = some (st, s')) :
    st.Mild ∨ ∃ i answer w ul_status retry_count, e = .worker i answer ∧
      s.workers[i]? = some w ∧ w.restarts answer = true ∧
      st = .failOrRestartChunk w.chunkId ul_status retry_count ∧
      s'.workers[i]? = some { w with phase := .done } := by
  cases e with
  | upload i throws =>
    obtain ⟨u, hu, h⟩ := Option.bind_eq_some_iff.mp h
    obtain ⟨⟨st', phase⟩, hnext, h⟩ := Option.map_eq_some_iff.mp h
    cases h
    cases Upload.next_step hnext <;> exact .inl trivial
  | uploadLoop =>
    dsimp only [issue] at h
    split_ifs at h <;> cases h <;> exact .inl trivial
  | loop rows now available throws => exact he.elim
  | worker i answer =>
    obtain ⟨w, hw, h⟩ := Option.bind_eq_some_iff.mp h
    obtain ⟨⟨st', phase, acknowledged⟩, hnext, h⟩ := Option.map_eq_some_iff.mp h
    cases h
    obtain hmild | ⟨⟨ul_status, retry_count, rfl⟩, hrestarts, rfl⟩ := Worker.next_restarts hnext
    · exact .inl hmild
    · refine .inr ⟨i, answer, w, ul_status, retry_count, rfl, hw, hrestarts, rfl, ?_⟩
      exact List.getElem?_set_self (List.getElem?_eq_some_iff.mp hw).1
  | progress =>
    obtain ⟨u, hu, h⟩ := Option.map_eq_some_iff.mp h
    cases h
    exact .inl trivial
  | download i bytes ok =>
    obtain ⟨d, hd, h⟩ := Option.bind_eq_some_iff.mp h
    obtain ⟨⟨st', phase, obtained⟩, hnext, h⟩ := Option.map_eq_some_iff.mp h
    cases h
    obtain rfl | rfl | ⟨chunk, rfl⟩ := Download.next_statement hnext <;> exact .inl trivial
  | restartUploadsDownloads => exact he.elim
  | _ =>
    cases h
    exact .inl trivial

/-- A worker that gives its chunk back has ended. -/
theorem ended_of_restart {i retry_count : ℕ} {w : Worker} {c : JsString} {ul_status : ChunkStatus}
    (hdone : s.workers[i]? = some { w with phase := .done }) :
    Process.ended (s.perform (.failOrRestartChunk c ul_status retry_count)) i = true := by
  have hviews : (s.perform (.failOrRestartChunk c ul_status retry_count)).views[i]? =
      some (w.chunkId, true) := by
    show (s.workers.map Worker.view)[i]? = _
    rw [List.getElem?_map, hdone]
    rfl
  exact ended_eq hviews

/-- What a plain event does to the row of a chunk. -/
structure RowStep (s t : State) (e : Event) (c : JsString) : Prop where
  expires : t.store.db.chunkExpires c = s.store.db.chunkExpires c
  before : t.store.db.chunkStatus c = some .inProgress →
    s.store.db.chunkStatus c = some .inProgress
  completed : s.store.db.chunkStatus c = some .completed →
    t.store.db.chunkStatus c = some .completed
  kept : s.store.db.chunkStatus c = some .inProgress →
    t.store.db.chunkStatus c = some .inProgress ∨ t.store.db.chunkStatus c = some .completed ∨
      ∃ i answer w, e = .worker i answer ∧ s.workers[i]? = some w ∧ w.chunkId = c ∧
        w.restarts answer = true ∧ Process.ended t i = true

/-- What a step does to the row of a chunk. -/
theorem step_row {c : JsString} (hreach : Reach (step cfg) Any .init s) (he : e.Plain)
    (hs : step cfg s e = some t) : RowStep s t e c := by
  obtain ⟨⟨st, s'⟩, hissue, rfl⟩ := Option.map_eq_some_iff.mp hs
  obtain ⟨-, ⟨hsound, -⟩, -, hstore⟩ := issue_ok (chunkInv_of_reach hreach).tasks hissue
  have hdb : (s'.perform st).store.db = s.store.dbAfter st := by
    show s'.store.dbAfter st = _
    rw [hstore]
  have hplain := issue_plain he hissue
  have hclaim : ∀ expires, st ≠ .claimChunk c expires := by
    rintro expires rfl
    obtain hmild | ⟨i, answer, w, ul_status, retry_count, -, -, -, heq, -⟩ := hplain
    · exact hmild
    · cases heq
  have hrestart : st ≠ .restartUploadsDownloads := by
    rintro rfl
    obtain hmild | ⟨i, answer, w, ul_status, retry_count, -, -, -, heq, -⟩ := hplain
    · exact hmild
    · cases heq
  dsimp only
  refine ⟨?_, ?_, ?_, ?_⟩
  · rw [hdb]
    exact Store.chunkExpires_dbAfter hclaim
  · rw [hdb]
    exact Store.inProgress_of_dbAfter hsound hclaim
  · rw [hdb]
    exact Store.completed_kept hsound
  · intro h
    rw [hdb]
    -- the one statement that takes the row from its upload
    by_cases hfail : ∃ ul_status retry_count, st = .failOrRestartChunk c ul_status retry_count
    · obtain ⟨ul_status, retry_count, rfl⟩ := hfail
      obtain hmild | ⟨i, answer, w, _, _, rfl, hw, hrestarts, heq, hdone⟩ := hplain
      · exact hmild.elim
      · cases heq
        exact .inr (.inr ⟨i, answer, w, rfl, hw, rfl, hrestarts, ended_of_restart hdone⟩)
    · obtain hkept | hkept := Store.inProgress_kept hsound hrestart
        (fun ul_status retry_count heq => hfail ⟨_, _, heq⟩) h
      · exact .inl hkept
      · exact .inr (.inl hkept)

end

/-! ## The holders -/

/-- The upload runs, with a lease until `expires` that has not expired. -/
structure ChunkUpload.Holds (upload : ChunkUpload) (now expires : ℕ) : Prop where
  running : upload.running = true
  expires_eq : upload.expires = some expires
  unexpired : now ≤ expires

/-- A lease that holds now has held before. -/
theorem ChunkUpload.Holds.earlier {upload : ChunkUpload} {now now' expires : ℕ}
    (h : upload.Holds now' expires) (hle : now ≤ now') : upload.Holds now expires :=
  ⟨h.running, h.expires_eq, hle.trans h.unexpired⟩

theorem Database.Leased.earlier {db : Database} {now now' expires : ℕ} {c : JsString}
    (h : db.Leased now' c expires) (hle : now ≤ now') : db.Leased now c expires :=
  ⟨h.status, h.expires_eq, hle.trans h.unexpired⟩

/-- The chunk's row after a plain event, in which no other worker gives the chunk back. -/
theorem RowStep.leased {s t : State} {e : Event} {c : JsString} {now expires : ℕ}
    (h : RowStep s t e c) (hleased : s.store.db.Leased now c expires) :
    t.store.db.Leased now c expires ∨ t.store.db.chunkStatus c = some .completed ∨
      ∃ i answer w, e = .worker i answer ∧ s.workers[i]? = some w ∧ w.chunkId = c ∧
        w.restarts answer = true ∧ Process.ended t i = true := by
  obtain hkept | hcompleted | hrestart := h.kept hleased.status
  · exact .inl ⟨hkept, h.expires.trans hleased.expires_eq, hleased.unexpired⟩
  · exact .inr (.inl hcompleted)
  · exact .inr (.inr hrestart)

/-- A step that only keeps or ends leases makes no new one. -/
theorem RowStep.leased_before {s t : State} {e : Event} {c : JsString} {now expires : ℕ}
    (h : RowStep s t e c) (hleased : t.store.db.Leased now c expires) :
    s.store.db.Leased now c expires :=
  ⟨h.before hleased.status, h.expires.symm.trans hleased.expires_eq, hleased.unexpired⟩

namespace Process

/-- A failed worker gives a chunk in progress with an unexpired lease back only if the lease is its
own. -/
def RestartsOwn (s : Process) : Act → Prop
  | .other (.worker i answer) =>
    ∀ w ∈ s.state.workers[i]?, w.restarts answer = true →
      s.state.store.db.chunkStatus w.chunkId = some .inProgress →
        ∀ expires ∈ s.state.store.db.chunkExpires w.chunkId, s.now ≤ expires →
          ∃ upload ∈ s.chunkUploads[i]?, upload.expires = some expires
  | _ => True

instance (s : Process) (a : Act) : Decidable (s.RestartsOwn a) := by
  unfold RestartsOwn
  split <;> infer_instance

/-- An unexpired lease of an upload is the one in the row of its chunk, unless the chunk has been
completed meanwhile; the leases on a chunk are those of one upload; and the loop stands to claim
a chunk only when there is none. -/
structure Leases (s : Process) : Prop where
  covered : ∀ upload ∈ s.chunkUploads, ∀ expires, upload.Holds s.now expires →
    s.state.store.db.Leased s.now upload.chunkId expires ∨
      s.state.store.db.chunkStatus upload.chunkId = some .completed
  unique : ∀ (i j : ℕ) (u v : ChunkUpload) (expires expires' : ℕ), s.chunkUploads[i]? = some u →
    s.chunkUploads[j]? = some v → u.chunkId = v.chunkId → u.Holds s.now expires →
      v.Holds s.now expires' → i = j
  claim : ∀ c rest, s.state.loop = some (.claim c rest) →
    (s.state.store.db.chunkStatus c).isSome ∧
      ∀ expires, ¬ s.state.store.db.Leased s.now c expires
  starting : s.starting = true → s.chunkUploads = [] ∧ s.state.loop = none ∧ s.scheduled = 0

variable {cfg : Config} {s t : Process} {a : Act}

theorem leases_init : Leases .init where
  covered upload h := (List.not_mem_nil h).elim
  unique i j u v expires expires' hu := by cases hu
  claim c rest h := by cases h
  starting _ := ⟨rfl, rfl, rfl⟩

/-- The time goes on. -/
theorem Leases.tick (h : s.Leases) (ms : ℕ) : Leases { s with now := s.now + ms } where
  covered upload hupload expires hholds := by
    have hle : s.now ≤ s.now + ms := Nat.le_add_right ..
    obtain hleased | hcompleted := h.covered upload hupload expires (hholds.earlier hle)
    · exact .inl ⟨hleased.status, hleased.expires_eq, hholds.unexpired⟩
    · exact .inr hcompleted
  unique i j u v expires expires' hu hv hc hholds hholds' :=
    h.unique i j u v expires expires' hu hv hc (hholds.earlier (Nat.le_add_right ..))
      (hholds'.earlier (Nat.le_add_right ..))
  claim c rest hloop := by
    obtain ⟨hknown, hfree⟩ := h.claim c rest hloop
    exact ⟨hknown, fun expires hleased => hfree expires (hleased.earlier (Nat.le_add_right ..))⟩
  starting := h.starting

/-- The upload of a worker that gives an unexpired lease back, and holds it. -/
theorem RestartsOwn.holder {i : ℕ} {answer : Answer} {w : Worker} {expires : ℕ}
    (hok : s.RestartsOwn (.other (.worker i answer))) (hp : s.Parallel)
    (hw : s.state.workers[i]? = some w) (hrestarts : w.restarts answer = true)
    (hleased : s.state.store.db.Leased s.now w.chunkId expires) :
    ∃ upload, s.chunkUploads[i]? = some upload ∧ upload.chunkId = w.chunkId ∧
      upload.Holds s.now expires := by
  obtain ⟨upload, hupload, hexpires⟩ :=
    hok w hw hrestarts hleased.status expires hleased.expires_eq hleased.unexpired
  have hview : s.state.views[i]? = some (w.chunkId, false) := by
    unfold State.views Worker.view
    rw [List.getElem?_map, hw]
    have hdone : w.phase ≠ .done := by
      intro hphase
      unfold Worker.restarts at hrestarts
      rw [hphase] at hrestarts
      cases hrestarts
    simp [hdone]
  obtain ⟨upload', hupload', hc, hrunning⟩ := hp.call hview
  rw [show s.chunkUploads[i]? = some upload from hupload] at hupload'
  cases hupload'
  exact ⟨upload, hupload, hc, hrunning, hexpires, hleased.unexpired⟩

theorem getElem?_endChunkUpload {i j : ℕ} : (s.endChunkUpload i).chunkUploads[j]? =
    (s.chunkUploads[j]?).map fun upload =>
      if i = j then { upload with running := false } else upload := by
  unfold endChunkUpload
  cases hcall : s.chunkUploads[i]? with
  | none =>
    by_cases hij : i = j
    · subst hij
      simp [hcall]
    · simp [hij]
  | some call =>
    dsimp only
    by_cases hij : i = j
    · subst hij
      rw [List.getElem?_set_self (List.getElem?_eq_some_iff.mp hcall).1, hcall]
      simp
    · rw [List.getElem?_set_ne hij]
      simp [hij]

/-- An upload that runs after an event has run before, and is not that of a worker that ends. -/
theorem running_afterOther {state : State} {e : Event} {j : ℕ} {upload : ChunkUpload}
    (hafter : s.afterOther state e = some t) (hupload : t.chunkUploads[j]? = some upload)
    (hrunning : upload.running = true) :
    s.chunkUploads[j]? = some upload ∧
      ∀ i answer, e = .worker i answer → ended state i = true → j ≠ i := by
  cases e with
  | worker i answer =>
    cases hafter
    cases hended : ended state i with
    | false =>
      rw [hended, if_neg (by simp)] at hupload
      refine ⟨hupload, ?_⟩
      intro i' answer' heq hended'
      cases heq
      rw [hended] at hended'
      cases hended'
    | true =>
      rw [hended, if_pos rfl] at hupload
      obtain ⟨call, hcall, rfl⟩ := Option.map_eq_some_iff.mp (getElem?_endChunkUpload.symm.trans hupload)
      -- the call that ends here is no longer running
      by_cases hij : i = j
      · rw [if_pos hij] at hrunning
        cases hrunning
      · rw [if_neg hij]
        refine ⟨hcall, ?_⟩
        intro i' answer' heq _
        cases heq
        exact Ne.symm hij
  | exit =>
    cases hafter
    cases hupload
  | uploadLoop => cases hafter
  | loop rows now available throws => cases hafter
  | restartUploadsDownloads => cases hafter
  | _ =>
    cases hafter
    exact ⟨hupload, fun i answer heq => by cases heq⟩

/-- The time and the loop after an event: only the end of the process ends the loop. -/
theorem memory_afterOther {state : State} {e : Event} (hloop : s.state.LoopAfter state e)
    (hafter : s.afterOther state e = some t) : t.now = s.now ∧
      (t.state.loop = s.state.loop ∧ t.starting = s.starting ∨
        t.state.loop = none ∧ t.chunkUploads = [] ∧ t.scheduled = 0) := by
  cases e with
  | worker i answer =>
    cases hafter
    have hcall : (s.endChunkUpload i).now = s.now ∧ (s.endChunkUpload i).starting = s.starting := by
      unfold endChunkUpload
      split <;> exact ⟨rfl, rfl⟩
    cases ended state i with
    | true => exact ⟨hcall.1, .inl ⟨hloop, hcall.2⟩⟩
    | false => exact ⟨rfl, .inl ⟨hloop, rfl⟩⟩
  | exit =>
    cases hafter
    exact ⟨rfl, .inr ⟨hloop, rfl, rfl⟩⟩
  | uploadLoop => cases hafter
  | loop rows now available throws => cases hafter
  | restartUploadsDownloads => cases hafter
  | _ =>
    cases hafter
    exact ⟨rfl, .inl ⟨hloop, rfl⟩⟩

/-- A plain event, in which no upload starts and the loop does not come to claim a chunk. -/
theorem Leases.plain {e : Event} (h : s.Leases) (hp : s.Parallel)
    (hreach : Reach (Uploader.step cfg) Any .init s.state) (he : e.Plain)
    (hok : s.RestartsOwn (.other e)) (hstep : Uploader.step cfg s.state e = some t.state)
    (hnow : t.now = s.now)
    (hrunning : ∀ (j : ℕ) (upload : ChunkUpload), t.chunkUploads[j]? = some upload →
      upload.running = true → s.chunkUploads[j]? = some upload ∧
        ∀ i answer, e = .worker i answer → ended t.state i = true → j ≠ i)
    (hclaim : ∀ c rest, t.state.loop = some (.claim c rest) → s.state.loop = some (.claim c rest))
    (hstarting : t.starting = true →
      t.chunkUploads = [] ∧ t.state.loop = none ∧ t.scheduled = 0) : t.Leases := by
  have hrow : ∀ c, RowStep s.state t.state e c := fun c => step_row hreach he hstep
  refine ⟨?_, ?_, ?_, hstarting⟩
  · intro upload hupload expires hholds
    obtain ⟨j, hj⟩ := List.mem_iff_getElem?.mp hupload
    obtain ⟨hj, hne⟩ := hrunning j upload hj hholds.running
    rw [hnow] at hholds ⊢
    obtain hleased | hcompleted := h.covered upload (List.mem_of_getElem? hj) expires hholds
    · obtain hleased' | hcompleted | ⟨i, answer, w, rfl, hw, hc, hrestarts, hended⟩ :=
        (hrow upload.chunkId).leased hleased
      · exact .inl hleased'
      · exact .inr hcompleted
      · -- the worker holds the lease itself, so that it is the worker of this upload
        rw [← hc] at hleased
        obtain ⟨holder, hholder, hc', hholds'⟩ := hok.holder hp hw hrestarts hleased
        exact (hne i answer rfl hended
          (h.unique j i _ _ _ _ hj hholder (hc.symm.trans hc'.symm) hholds hholds')).elim
    · exact .inr ((hrow upload.chunkId).completed hcompleted)
  · intro i j u v expires expires' hu hv hc hholds hholds'
    obtain ⟨hu, -⟩ := hrunning i u hu hholds.running
    obtain ⟨hv, -⟩ := hrunning j v hv hholds'.running
    rw [hnow] at hholds hholds'
    exact h.unique i j u v expires expires' hu hv hc hholds hholds'
  · intro c rest hloop
    obtain ⟨hknown, hfree⟩ := h.claim c rest (hclaim c rest hloop)
    rw [hnow]
    exact ⟨step_known hstep hknown,
      fun expires hleased => hfree expires ((hrow c).leased_before hleased)⟩

theorem plain_of_afterOther {state : State} {e : Event} (hafter : s.afterOther state e = some t) :
    e.Plain := by
  cases e with
  | loop rows now available throws => cases hafter
  | restartUploadsDownloads => cases hafter
  | _ => trivial

/-- An event of the tasks keeps the invariant. -/
theorem Leases.afterOther {state : State} {e : Event} (h : s.Leases) (hp : s.Parallel)
    (hreach : Reach (Uploader.step cfg) Any .init s.state)
    (hok : s.RestartsOwn (.other e)) (hstarting : s.starting = false)
    (hstep : Uploader.step cfg s.state e = some state) (hafter : s.afterOther state e = some t) :
    t.Leases := by
  have he := plain_of_afterOther hafter
  have hstate : t.state = state := state_of_afterOther hafter
  subst hstate
  obtain ⟨hnow, hmemory⟩ := memory_afterOther (step_loop hstep) hafter
  apply h.plain hp hreach he hok hstep hnow
  · exact fun j upload hupload hrunning => running_afterOther hafter hupload hrunning
  · intro c rest hclaim
    obtain ⟨hloop, -⟩ | ⟨hloop, -⟩ := hmemory
    · rw [← hloop]
      exact hclaim
    · rw [hloop] at hclaim
      cases hclaim
  · intro hstart
    obtain ⟨-, hsame⟩ | ⟨hloop, hcalls, hscheduled⟩ := hmemory
    · rw [hsame, hstarting] at hstart
      cases hstart
    · exact ⟨hcalls, hloop, hscheduled⟩

/-- A call of the loop keeps the invariant. -/
theorem Leases.callLoop (h : s.Leases) (hp : s.Parallel)
    (hreach : Reach (Uploader.step cfg) Any .init s.state) (hstarting : s.starting = false)
    (hcall : s.callLoop cfg = some t) : t.Leases := by
  have hfalse : s.starting = true → False := by
    intro hstart
    rw [hstarting] at hstart
    cases hstart
  obtain ⟨hloop, state, hstep, rfl⟩ | ⟨hloop, rfl⟩ := callLoop_cases hcall
  · have hstate := loop_of_uploadLoop hloop hstep
    apply h.plain (t := { s with state, asked := s.now }) (e := .uploadLoop) hp hreach trivial trivial
      hstep rfl
    · exact fun j upload hupload _ => ⟨hupload, fun i answer heq => by cases heq⟩
    · intro c rest hclaim
      rw [show state.loop = some (.claim c rest) from hclaim] at hstate
      cases hstate
    · exact fun hstart => (hfalse hstart).elim
  · exact ⟨h.covered, h.unique, h.claim, fun hstart => (hfalse hstart).elim⟩

theorem now_afterLoop {phase : LoopPhase} {move : LoopMove} :
    (s.afterLoop cfg phase move).now = s.now ∧
      (s.afterLoop cfg phase move).starting = s.starting := by
  have hgoOn : ∀ (p : Process) (l : List JsString),
      (p.goOn cfg phase l).now = p.now ∧ (p.goOn cfg phase l).starting = p.starting := by
    intro p l
    unfold goOn finish
    split
    · split
      · exact ⟨rfl, rfl⟩
      · split <;> exact ⟨rfl, rfl⟩
    · split <;> exact ⟨rfl, rfl⟩
  cases move with
  | await => exact ⟨rfl, rfl⟩
  | fail => exact ⟨rfl, rfl⟩
  | goOn l =>
    have hhand : (s.handOver cfg phase).now = s.now ∧
        (s.handOver cfg phase).starting = s.starting := by
      cases phase with
      | find chunksToUpload =>
        show s.giveBack.now = s.now ∧ s.giveBack.starting = s.starting
        unfold giveBack
        split <;> exact ⟨rfl, rfl⟩
      | _ => exact ⟨rfl, rfl⟩
    rw [← hhand.1, ← hhand.2]
    exact hgoOn _ l

section

variable {rows : List JsString} {throws : Bool} {phase : LoopPhase} {st : Statement}
  {loop : Option LoopPhase} {start : Option JsString} {move : LoopMove}

theorem goOn_ne_claim {l rest : List JsString} {available : Bool} {c : JsString} :
    LoopPhase.goOn l available ≠ some (.claim c rest) := by
  unfold LoopPhase.goOn
  split_ifs <;> simp

/-- A step of the loop that only reads. -/
theorem Leases.reads (h : s.Leases) (hdb : t.state.store.db = s.state.store.db)
    (hnow : t.now = s.now) (hcalls : t.chunkUploads = s.chunkUploads)
    (hclaim : ∀ c rest, t.state.loop = some (.claim c rest) →
      ∃ chunk, s.state.store.db.findChunk c = some chunk ∧ claimable chunk s.now = true)
    (hstarting : t.starting ≠ true) : t.Leases := by
  refine ⟨?_, ?_, ?_, fun hstart => (hstarting hstart).elim⟩
  · rw [hdb, hnow, hcalls]
    exact h.covered
  · rw [hnow, hcalls]
    exact h.unique
  · intro c rest hloop
    obtain ⟨chunk, hfind, hclaimable⟩ := hclaim c rest hloop
    rw [hdb, hnow]
    unfold Database.chunkStatus
    rw [hfind]
    refine ⟨rfl, ?_⟩
    rintro expires ⟨hstatus, hexpires, hunexpired⟩
    unfold Database.chunkStatus at hstatus
    unfold Database.chunkExpires at hexpires
    rw [hfind] at hstatus hexpires
    have hstatus : chunk.ul_status = .inProgress := Option.some.inj hstatus
    have hexpires : chunk.expires = some expires := hexpires
    unfold claimable Chunk.isExpired at hclaimable
    rw [hstatus, hexpires] at hclaimable
    simp at hclaimable
    omega

/-- The claim of a chunk: nobody holds a lease on it. -/
theorem Leases.claims {c : JsString} {rest : List JsString} (h : s.Leases)
    (hphase : s.state.loop = some (.claim c rest))
    (hdb : t.state.store.db = s.state.store.db.claimChunk c (s.asked + cfg.UPLOAD_EXPIRE))
    (hnow : t.now = s.now)
    (hcalls : t.chunkUploads =
      s.chunkUploads ++ [⟨c, s.worker.getD 0, s.leaseOf cfg c, true⟩])
    (hclaim : ∀ c rest, t.state.loop ≠ some (.claim c rest))
    (hstarting : t.starting ≠ true) : t.Leases := by
  obtain ⟨hknown, hfree⟩ := h.claim c rest hphase
  -- a lease of an upload on the chunk belongs to a completed one
  have hcompleted : ∀ upload ∈ s.chunkUploads, upload.chunkId = c → ∀ expires,
      upload.Holds s.now expires → s.state.store.db.chunkStatus c = some .completed := by
    rintro upload hupload rfl expires hholds
    obtain hleased | hcompleted := h.covered upload hupload expires hholds
    · exact (hfree expires hleased).elim
    · exact hcompleted
  have hlease : ∀ expires, s.leaseOf cfg c = some expires →
      expires = s.asked + cfg.UPLOAD_EXPIRE ∧ ∃ old, s.state.store.db.chunkStatus c = some old ∧
        old ≠ .failed ∧ old ≠ .completed := by
    intro expires hlease
    obtain ⟨old, hold⟩ := Option.isSome_iff_exists.mp hknown
    unfold leaseOf at hlease
    rw [hold] at hlease
    cases old <;> cases hlease <;> exact ⟨rfl, _, hold, by simp, by simp⟩
  have hnew : ∀ upload ∈ s.chunkUploads, upload.chunkId = c → ∀ expires expires',
      upload.Holds s.now expires → s.leaseOf cfg c ≠ some expires' := by
    intro upload hupload hc expires expires' hholds heq
    obtain ⟨-, old, hold, -, hne⟩ := hlease expires' heq
    rw [hcompleted upload hupload hc expires hholds] at hold
    cases hold
    exact hne rfl
  refine ⟨?_, ?_, fun c rest hloop => (hclaim c rest hloop).elim,
    fun hstart => (hstarting hstart).elim⟩
  · rw [hdb, hnow, hcalls]
    intro upload hupload expires hholds
    obtain hupload | hupload := List.mem_append.mp hupload
    · obtain hleased | hdone := h.covered upload hupload expires hholds
      · have hne : upload.chunkId ≠ c := by
          rintro rfl
          exact hfree expires hleased
        refine .inl ⟨?_, ?_, hleased.unexpired⟩
        · rw [Database.chunkStatus_claimChunk, hleased.status]
          simp
        · rw [Database.chunkExpires_claimChunk hne, hleased.expires_eq]
      · right
        rw [Database.chunkStatus_claimChunk, hdone]
        simp
    · obtain rfl := List.mem_singleton.mp hupload
      obtain ⟨rfl, old, hold, hne⟩ := hlease expires hholds.expires_eq
      exact .inl (Database.leased_claimChunk hold hne hholds.unexpired)
  · rw [hnow, hcalls]
    have hlast : ∀ (k : ℕ) (upload call : ChunkUpload), [call][k]? = some upload →
        k = 0 ∧ upload = call := by
      intro k upload call hget
      cases k with
      | zero => exact ⟨rfl, (Option.some.inj hget).symm⟩
      | succ k => cases hget
    intro i j u v expires expires' hu hv hc hholds hholds'
    rw [List.getElem?_append] at hu hv
    split_ifs at hu hv with hi hj hj
    · exact h.unique i j u v expires expires' hu hv hc hholds hholds'
    · obtain ⟨-, rfl⟩ := hlast _ _ _ hv
      exact (hnew u (List.mem_of_getElem? hu) hc _ _ hholds hholds'.expires_eq).elim
    · obtain ⟨-, rfl⟩ := hlast _ _ _ hu
      exact (hnew v (List.mem_of_getElem? hv) hc.symm _ _ hholds' hholds.expires_eq).elim
    · obtain ⟨hi', -⟩ := hlast _ _ _ hu
      obtain ⟨hj', -⟩ := hlast _ _ _ hv
      omega

theorem Leases.stepLoop (h : s.Leases)
    (hloop : s.LoopStep cfg rows throws phase st loop start move t) : t.Leases := by
  have hmemory : t.now = s.now ∧ t.starting = s.starting := by
    rw [hloop.memory]
    exact now_afterLoop
  have hstarting : t.starting ≠ true := by
    intro hstart
    rw [hmemory.2] at hstart
    have hnone := (h.starting hstart).2.1
    rw [hloop.phase_eq] at hnone
    cases hnone
  have hcalls := hloop.chunkUploads
  obtain ⟨hphase, -, -, hnext, hloop, hdb, -⟩ := hloop
  -- the steps that start no upload and do not come to claim a chunk
  have hread : st = .nothing → phase.starts throws = none →
      (∀ c rest, loop = some (.claim c rest) →
        ∃ chunk, s.state.store.db.findChunk c = some chunk ∧ claimable chunk s.now = true) →
      t.Leases := by
    rintro rfl hstarts hclaim
    rw [hstarts] at hcalls
    rw [← hloop] at hclaim
    exact h.reads hdb hmemory.1 (hcalls.trans (List.append_nil _)) hclaim hstarting
  cases hnext with
  | throws => exact hread rfl LoopPhase.starts_throws fun c rest heq => by cases heq
  | awaiting hrows => exact hread rfl rfl fun c rest heq => by cases heq
  | stale hrows => exact hread rfl rfl fun c rest heq => (goOn_ne_claim heq).elim
  | nothing => exact hread rfl rfl fun c rest heq => by cases heq
  | missing hfind => exact hread rfl rfl fun c rest heq => by cases heq
  | ready hfind hclaim =>
    refine hread rfl rfl ?_
    intro c rest heq
    cases heq
    exact ⟨_, hfind, hclaim⟩
  | skip hfind hclaim => exact hread rfl rfl fun c rest heq => (goOn_ne_claim heq).elim
  | claim =>
    refine h.claims hphase hdb hmemory.1 hcalls ?_ hstarting
    intro c rest heq
    rw [hloop] at heq
    exact goOn_ne_claim heq

end

/-! ## The runs -/

theorem Leases.step (h : s.Leases) (hp : s.Parallel)
    (hreach : Reach (Uploader.step cfg) Any .init s.state) (hok : s.RestartsOwn a)
    (hs : s.step cfg a = some t) : t.Leases := by
  cases a with
  | tick ms =>
    cases hs
    exact h.tick ms
  | init =>
    obtain ⟨hstart, state, hstep, hcall⟩ := init_cases hs
    obtain ⟨hcalls, hloop, -⟩ := h.starting hstart
    have hstate : state.loop = none := (step_loop hstep).trans hloop
    -- no upload has been started, so that nobody holds a lease
    have hnone : Leases { s with state, starting := false } := by
      refine ⟨?_, ?_, ?_, fun heq => by cases heq⟩
      · intro upload hupload
        rw [show ({ s with state, starting := false } : Process).chunkUploads = [] from hcalls]
          at hupload
        cases hupload
      · intro i j u v expires expires' hu
        rw [show ({ s with state, starting := false } : Process).chunkUploads = [] from hcalls]
          at hu
        cases hu
      · intro c rest hclaim
        rw [show state.loop = some (.claim c rest) from hclaim] at hstate
        cases hstate
    have hp' : Parallel { s with state, starting := false } :=
      Eq.trans (step_views (waiting_of_reach hreach) hstep).2 hp
    exact hnone.callLoop hp' (hreach.step trivial hstep) rfl hcall
  | uploadLoop =>
    obtain ⟨hscheduled, hcall⟩ := uploadLoop_cases hs
    have hstarting : s.starting = false := by
      rw [← Bool.not_eq_true]
      intro hstart
      have hzero := (h.starting hstart).2.2
      omega
    have h' : Leases { s with scheduled := s.scheduled - 1 } := by
      refine ⟨h.covered, h.unique, h.claim, ?_⟩
      intro hstart
      rw [show s.starting = true from hstart] at hstarting
      cases hstarting
    exact h'.callLoop hp hreach hstarting hcall
  | loop rows throws =>
    obtain ⟨phase, st, loop, start, move, hloop⟩ := stepLoop_cases hs
    exact h.stepLoop hloop
  | other e =>
    obtain ⟨hstarting, state, hstep, hafter⟩ := other_cases hs
    exact h.afterOther hp hreach hok hstarting hstep hafter

theorem leases_of_reach (h : Reach (Process.step cfg) RestartsOwn .init s) : s.Leases :=
  h.invariant_of_reach leases_init fun _ _ _ hr hleases hok hs =>
    hleases.step (parallel_of_reach hr) (reach_state hr) hok hs

/-- How a lease that has not expired ends in a step: with the upload, or by its holder. -/
def LeaseKept (s : Process) (a : Act) (t : Process) (c : JsString) (expires : ℕ) : Prop :=
  t.state.store.db.chunkStatus c = some .inProgress ∧
      t.state.store.db.chunkExpires c = some expires ∨
    t.state.store.db.chunkStatus c = some .completed ∨
    (∃ i answer upload, a = .other (.worker i answer) ∧ s.chunkUploads[i]? = some upload ∧
      upload.chunkId = c ∧ upload.Holds s.now expires) ∨
    (a = .init ∧ s.chunkUploads = [])

theorem Leases.kept {c : JsString} {expires : ℕ} (h : s.Leases) (hp : s.Parallel)
    (hreach : Reach (Uploader.step cfg) Any .init s.state) (hok : s.RestartsOwn a)
    (hs : s.step cfg a = some t) (hleased : s.state.store.db.Leased s.now c expires) :
    s.LeaseKept a t c expires := by
  cases a with
  | tick ms =>
    cases hs
    exact .inl ⟨hleased.status, hleased.expires_eq⟩
  | init =>
    obtain ⟨hstart, -⟩ := init_cases hs
    exact .inr (.inr (.inr ⟨rfl, (h.starting hstart).1⟩))
  | uploadLoop =>
    obtain ⟨-, hcall⟩ := uploadLoop_cases hs
    obtain ⟨-, state, hstep, rfl⟩ | ⟨-, rfl⟩ := callLoop_cases hcall
    · obtain hkept | hcompleted | ⟨i, answer, w, heq, -⟩ :=
        (step_row (e := .uploadLoop) hreach trivial hstep).leased hleased
      · exact .inl ⟨hkept.status, hkept.expires_eq⟩
      · exact .inr (.inl hcompleted)
      · cases heq
    · exact .inl ⟨hleased.status, hleased.expires_eq⟩
  | loop rows throws =>
    obtain ⟨phase, st, loop, start, move, hphase, -, -, hnext, -, hdb, -⟩ := stepLoop_cases hs
    unfold LeaseKept
    rw [hdb]
    left
    cases hnext with
    -- a loop claims only a chunk whose lease has run out
    | @claim c' rest =>
      have hne : c ≠ c' := by
        rintro rfl
        exact (h.claim c rest hphase).2 expires hleased
      refine ⟨?_, ?_⟩
      · refine (Database.chunkStatus_claimChunk _ _).trans ?_
        rw [hleased.status]
        simp
      · exact (Database.chunkExpires_claimChunk hne).trans hleased.expires_eq
    | _ => exact ⟨hleased.status, hleased.expires_eq⟩
  | other e =>
    obtain ⟨-, state, hstep, hafter⟩ := other_cases hs
    have he := plain_of_afterOther hafter
    have hstate : t.state = state := state_of_afterOther hafter
    subst hstate
    obtain hkept | hcompleted | ⟨i, answer, w, rfl, hw, rfl, hrestarts, -⟩ :=
      (step_row hreach he hstep).leased hleased
    · exact .inl ⟨hkept.status, hkept.expires_eq⟩
    · exact .inr (.inl hcompleted)
    -- the row was written by the upload that holds the lease
    · obtain ⟨upload, hupload, hc, hholds⟩ := hok.holder hp hw hrestarts hleased
      exact .inr (.inr (.inl ⟨i, answer, upload, rfl, hupload, hc, hholds⟩))

/-- As long as failed workers give back only what they hold, at most one worker holds an unexpired
lease on a chunk, the loop never claims the chunk, and the lease ends by its holder, by the
completion of the chunk, or with the process. -/
theorem lease_exclusive (h : Reach (Process.step cfg) RestartsOwn .init s) :
    (∀ (i j : ℕ) (u v : ChunkUpload) (expires expires' : ℕ), s.chunkUploads[i]? = some u →
      s.chunkUploads[j]? = some v → u.chunkId = v.chunkId → u.Holds s.now expires →
        v.Holds s.now expires' → i = j) ∧
    ∀ c expires, s.state.store.db.Leased s.now c expires →
      (∀ rest, s.state.loop ≠ some (.claim c rest)) ∧
      ∀ a t, s.RestartsOwn a → s.step cfg a = some t → s.LeaseKept a t c expires := by
  have hleases := leases_of_reach h
  refine ⟨hleases.unique, ?_⟩
  intro c expires hleased
  refine ⟨?_, ?_⟩
  · intro rest hloop
    exact (hleases.claim c rest hloop).2 expires hleased
  · intro a t hok hs
    exact hleases.kept (parallel_of_reach h) (reach_state h) hok hs hleased

/-- A chunk is claimed by a worker, and by another when the lease of the first is over. -/
def reclaimRun : List Act :=
  [.init, .loop [] false, .loop [] false] ++ (callRun 0 [1]).map .other ++
    [.uploadLoop, .loop [chunkId 1] false, .loop [] false, .loop [] false, .loop [] false,
      .tick 11] ++ (callRun 1 [1]).map .other ++
    [.uploadLoop, .loop [] false, .loop [chunkId 1] false, .loop [] false, .loop [] false]

/-- With a retry for each chunk. -/
def retrying : Config := { Config.small with UPLOAD_RETRY_LIMIT := 1 }

/-- Where this run ends. -/
def reclaimState : Process := after (guarded (Process.step retrying) RestartsOwn) .init reclaimRun

theorem lease_exclusive_reclaim :
    (∀ (i j : ℕ) (u v : ChunkUpload) (expires expires' : ℕ),
      reclaimState.chunkUploads[i]? = some u → reclaimState.chunkUploads[j]? = some v →
        u.chunkId = v.chunkId → u.Holds reclaimState.now expires →
          v.Holds reclaimState.now expires' → i = j) ∧
    ∀ c expires, reclaimState.state.store.db.Leased reclaimState.now c expires →
      (∀ rest, reclaimState.state.loop ≠ some (.claim c rest)) ∧
      ∀ a t, reclaimState.RestartsOwn a → reclaimState.step retrying a = some t →
        reclaimState.LeaseKept a t c expires :=
  lease_exclusive (.of_after reclaimRun (by decide +kernel))

/-- The first worker fails now, and gives the chunk back; a third worker claims it. -/
def takenRun : List Act :=
  reclaimRun ++ ([.worker 0 .throws, .worker 0 .ok, .worker 0 .ok] : List Event).map .other ++
    [.uploadLoop, .loop [chunkId 1] false, .loop [] false, .loop [] false, .loop [] false]

/-- Where this run ends. -/
def takenState : Process := after (guarded (Process.step retrying) Any) .init takenRun

/-- Two workers hold an unexpired lease on one chunk. -/
theorem lease_taken : Reach (Process.step retrying) Any .init takenState ∧ takenState.now = 11 ∧
    takenState.chunkUploads = [⟨chunkId 1, 0, some 10, false⟩, ⟨chunkId 1, 1, some 21, true⟩,
      ⟨chunkId 1, 0, some 21, true⟩] :=
  ⟨.of_after takenRun (by decide +kernel), by decide +kernel, by decide +kernel⟩

end Process

end PointNetwork.Uploader
