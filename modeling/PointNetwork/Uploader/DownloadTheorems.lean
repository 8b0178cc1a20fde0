import PointNetwork.Uploader.Downloads
import PointNetwork.Uploader.WorkerTheorems

/-!
# Downloads in progress

The status IN_PROGRESS of a download is in the tables, its task in the memory of the process. A task
that has set the status sets another one before it ends, so that there is a task as long as the
status is there; when the process ends, the tasks are gone, and nothing sets the status back:
`restartUploadsDownloads` names the column of the uploads twice, and no column of the files.

* `Download.Keeps`, `Download.next_keeps`: the instance that a call of `getChunk` saves at its end;
* `Downloads.Attended`: every download in progress has a task;
* `attended_of_reach`: the runs in which the process does not end during a download;
* `download_abandoned`: a run in which it does.
-/

namespace PointNetwork.Uploader

open Js Storage Machine

/-! ## The download status of a chunk -/

namespace Database

/-- The download status of a chunk. -/
def dlStatus (db : Database) (c : JsString) : Option DownloadStatus :=
  (db.findChunk c).map Chunk.dl_status

variable {db : Database} {c : JsString}

theorem dlStatus_updateChunks {p : Chunk → Bool} {f : Chunk → Chunk}
    (hid : ∀ chunk, (f chunk).id = chunk.id) :
    (db.updateChunks p f).dlStatus c = (db.findChunk c).map fun chunk =>
      if p chunk then (f chunk).dl_status else chunk.dl_status := by
  unfold dlStatus findChunk updateChunks
  rw [Table.find_update hid, Option.map_map]
  congr 1
  funext chunk
  exact apply_ite Chunk.dl_status _ _ _

/-- An update that does not begin a download. -/
theorem inProgress_of_updateChunks {p : Chunk → Bool} {f : Chunk → Chunk}
    (hid : ∀ chunk, (f chunk).id = chunk.id)
    (hf : ∀ chunk, (f chunk).dl_status = .inProgress → chunk.dl_status = .inProgress)
    (h : (db.updateChunks p f).dlStatus c = some .inProgress) :
    db.dlStatus c = some .inProgress := by
  rw [dlStatus_updateChunks hid] at h
  obtain ⟨chunk, hfind, hstatus⟩ := Option.map_eq_some_iff.mp h
  unfold dlStatus
  rw [hfind]
  split at hstatus
  · exact congrArg some (hf chunk hstatus)
  · exact congrArg some hstatus

/-- New rows are not in progress. -/
theorem inProgress_of_insertIgnore {entries : List Chunk}
    (hentries : ∀ chunk ∈ entries, chunk.dl_status ≠ .inProgress)
    (h : ({ db with chunks := Table.insertIgnore Chunk.id entries db.chunks } : Database).dlStatus c =
      some .inProgress) : db.dlStatus c = some .inProgress := by
  unfold dlStatus findChunk at h ⊢
  rw [Table.find_insertIgnore, Option.map_or] at h
  obtain h | ⟨-, h⟩ := Option.or_eq_some_iff.mp h
  · exact h
  · obtain ⟨chunk, hfind, hstatus⟩ := Option.map_eq_some_iff.mp h
    exact (hentries chunk (List.mem_of_find?_eq_some hfind) hstatus).elim

/-- A copy whose status has changed is written, whatever the row says. -/
theorem dlStatus_saveChunk {m : Instance} : (db.saveChunk m).dlStatus c =
    (db.dlStatus c).map fun old => if c = m.id ∧ m.dlChanged then m.dl_status else old := by
  refine (dlStatus_updateChunks ?_).trans ?_
  · exact fun _ => rfl
  unfold dlStatus
  rw [Option.map_map]
  cases hfind : db.findChunk c with
  | none => rfl
  | some chunk =>
    have hkey : chunk.id = c := Table.key_of_find hfind
    by_cases hid : c = m.id
    · simp [hkey, hid]
    · simp [hkey, hid]

end Database

section

variable {s : Store} {st : Statement} {c : JsString}

/-- Only the save of an instance begins a download. -/
theorem Store.downloading_of_dbAfter (hst : ∀ m, st ≠ .saveChunk m)
    (h : (s.dbAfter st).dlStatus c = some .inProgress) : s.db.dlStatus c = some .inProgress := by
  cases st with
  | bulkCreateChunks chunkIds =>
    refine Database.inProgress_of_insertIgnore ?_ h
    intro chunk hchunk
    obtain ⟨id, -, rfl⟩ := List.mem_map.mp hchunk
    simp
  | createChunk chunkId =>
    refine Database.inProgress_of_insertIgnore ?_ h
    intro chunk hchunk
    rw [List.mem_singleton.mp hchunk]
    simp
  | fixStatuses =>
    refine Database.inProgress_of_updateChunks ?_ ?_ h
    · exact fun _ => rfl
    · simp
  | claimChunk chunkId expires =>
    refine Database.inProgress_of_updateChunks ?_ ?_ h
    · exact fun _ => rfl
    · exact fun _ => id
  | completeChunk chunkId worker =>
    refine Database.inProgress_of_updateChunks ?_ ?_ h
    · exact fun _ => rfl
    · exact fun _ => id
  | failOrRestartChunk chunkId ul_status retry_count =>
    refine Database.inProgress_of_updateChunks ?_ ?_ h
    · exact fun _ => rfl
    · exact fun _ => id
  | restartUploadsDownloads =>
    refine Database.inProgress_of_updateChunks ?_ ?_ h
    · exact fun _ => rfl
    · exact fun _ => id
  | saveChunk m => exact (hst m rfl).elim
  | advance =>
    have hdb : s.writeFile.dlStatus c = s.db.dlStatus c := by
      unfold Store.writeFile
      split <;> rfl
    exact hdb.symm.trans h
  | _ => exact h

end

/-! ## The calls of `getChunk` -/

/-- The call has set the status IN_PROGRESS, or failed at it, and has not ended. -/
def DownloadPhase.busy : DownloadPhase → Bool
  | .source _ _ => true
  | .saveCompleted _ _ => true
  | .saveFailed _ => true
  | _ => false

/-- The instance of a call: the save at its end writes a status that is not IN_PROGRESS. -/
def Download.Keeps (d : Download) : Prop :=
  match d.phase with
  | .saveInProgress m => m.id = d.chunkId ∧ m.dl_status = .inProgress
  | .source m _ => m.id = d.chunkId ∧ (m.dlChanged = true ∨ m.dl_status = .inProgress)
  | .saveCompleted m _ => m.id = d.chunkId ∧ m.dlChanged = true ∧ m.dl_status = .completed
  | .saveFailed m => m.id = d.chunkId ∧ m.dlChanged = true ∧ m.dl_status = .failed
  | _ => True

/-- A save of an instance at the end of a download fails. -/
def DownloadPhase.fails (phase : DownloadPhase) (ok : Bool) : Bool :=
  match phase with
  | .saveFailed _ => !ok
  | _ => false

/-- The save of a call: it has begun the download or ends it. -/
def Download.Saves (d : Download) (phase : DownloadPhase) (m : Database.Instance) : Prop :=
  m.id = d.chunkId ∧ (phase.busy = true ∨ m.dlChanged = true ∧ m.dl_status ≠ .inProgress)

/-- A copy that goes from IN_PROGRESS to another status has changed. -/
theorem changed_of_setDl {m : Database.Instance} {status : DownloadStatus}
    (h : m.dlChanged = true ∨ m.dl_status = .inProgress) (hne : status ≠ .inProgress) :
    (m.setDl status).dlChanged = true := by
  unfold Database.Instance.setDl
  obtain hchanged | hprogress := h
  · simp [hchanged]
  · simp [hprogress, hne.symm]

/-- A step of a download stays busy, or saves the status that ends it. -/
theorem Download.next_keeps {cfg : Config} {d : Download} {db : Database}
    {bytes obtained : Option Bytes} {ok : Bool} {st : Statement} {phase : DownloadPhase}
    (hd : d.Keeps) (hok : d.phase.fails ok = false)
    (h : d.next cfg db bytes ok = some (st, phase, obtained)) :
    Download.Keeps { d with phase } ∧
      ((∀ m, st ≠ .saveChunk m) ∧ (d.phase.busy = true → phase.busy = true) ∨
        ∃ m, st = .saveChunk m ∧ d.Saves phase m) := by
  obtain ⟨chunkId, dphase⟩ := d
  cases dphase with
  | find useCache =>
    cases h
    refine ⟨?_, .inl ⟨by simp, by simp [DownloadPhase.busy]⟩⟩
    have hinst : (instanceOf chunkId db).id = chunkId := by
      unfold instanceOf
      cases db.findChunk chunkId <;> rfl
    dsimp only
    split_ifs
    · trivial
    · trivial
    · exact ⟨hinst, rfl⟩
  | waiting =>
    cases h
    exact ⟨trivial, .inl ⟨by simp, by simp [DownloadPhase.busy]⟩⟩
  | saveInProgress m =>
    dsimp only [Download.next] at h
    split_ifs at h
    · cases h
      -- the claim is saved, and the outcome will be another status
      exact ⟨⟨hd.1, .inr hd.2⟩, .inr ⟨m, rfl, hd.1, .inl rfl⟩⟩
    · cases h
      exact ⟨trivial, .inl ⟨by simp, by simp [DownloadPhase.busy]⟩⟩
  | source m remaining =>
    cases remaining with
    | zero =>
      cases h
      exact ⟨⟨hd.1, changed_of_setDl hd.2 (by decide), rfl⟩, .inl ⟨by simp, fun _ => rfl⟩⟩
    | succ remaining =>
      dsimp only [Download.next] at h
      split at h
      · cases h
        exact ⟨hd, .inl ⟨by simp, fun _ => rfl⟩⟩
      · split_ifs at h
        · cases h
          exact ⟨⟨hd.1, changed_of_setDl hd.2 (by decide), rfl⟩, .inl ⟨by simp, fun _ => rfl⟩⟩
        · cases h
          exact ⟨hd, .inl ⟨by simp, fun _ => rfl⟩⟩
  | saveCompleted m remaining =>
    obtain ⟨hid, hchanged, hstatus⟩ := hd
    dsimp only [Download.next] at h
    split_ifs at h
    · cases h
      exact ⟨trivial, .inr ⟨m, rfl, hid, .inr ⟨hchanged, by simp [hstatus]⟩⟩⟩
    · cases h
      exact ⟨⟨hid, .inl hchanged⟩, .inl ⟨by simp, fun _ => rfl⟩⟩
  | saveFailed m =>
    obtain ⟨hid, hchanged, hstatus⟩ := hd
    have hok : ok = true := by simpa [DownloadPhase.fails] using hok
    subst hok
    cases h
    exact ⟨trivial, .inr ⟨m, rfl, hid, .inr ⟨hchanged, by simp [hstatus]⟩⟩⟩
  | done => cases h

/-! ## The tasks of the chunks -/

theorem List.exists_mem_set {α : Type} {P : α → Prop} {xs : List α} {i : ℕ} {x y : α}
    (hx : xs[i]? = some x) (h : ∃ a ∈ xs, P a) (hxy : P x → P y) : ∃ a ∈ xs.set i y, P a := by
  obtain ⟨a, ha, hp⟩ := h
  obtain ⟨j, hj⟩ := List.mem_iff_getElem?.mp ha
  have hlt := (List.getElem?_eq_some_iff.mp hx).1
  by_cases hij : i = j
  · subst hij
    rw [hx] at hj
    cases hj
    exact ⟨y, List.mem_iff_getElem?.mpr ⟨i, List.getElem?_set_self hlt⟩, hxy hp⟩
  · refine ⟨a, List.mem_iff_getElem?.mpr ⟨j, ?_⟩, hp⟩
    rw [List.getElem?_set_ne hij]
    exact hj

/-- Every chunk whose download is in progress has a task. -/
structure State.Attended (s : State) : Prop where
  keeps : ∀ d ∈ s.downloads, d.Keeps
  attended : ∀ c, s.store.db.dlStatus c = some .inProgress →
    ∃ d ∈ s.downloads, d.chunkId = c ∧ d.phase.busy = true

/-- The process does not end while a chunk is in progress, and the save at the end of a failed
download succeeds. -/
def State.Finishes (s : State) : Event → Prop
  | .exit => ∀ chunk ∈ s.store.db.chunks, chunk.dl_status ≠ .inProgress
  | .download i _ ok => ∀ d ∈ s.downloads[i]?, d.phase.fails ok = false
  | _ => True

instance (s : State) (e : Event) : Decidable (s.Finishes e) := by
  unfold State.Finishes
  split <;> infer_instance

section

variable {cfg : Config} {s s' t : State} {e : Event} {st : Statement}

/-- Another task may add downloads, and saves no instance. -/
theorem issue_downloads (hdownload : ∀ i bytes ok, e ≠ .download i bytes ok) (hexit : e ≠ .exit)
    (h : issue cfg s e = some (st, s')) : (∀ m, st ≠ .saveChunk m) ∧
      ∃ more, s'.downloads = s.downloads ++ more ∧ ∀ d ∈ more, ∃ useCache, d.phase = .find useCache := by
  have hsame : ∃ more, s.downloads = s.downloads ++ more ∧
      ∀ d ∈ more, ∃ useCache, d.phase = .find useCache :=
    ⟨[], (List.append_nil _).symm, fun d hd => (List.not_mem_nil hd).elim⟩
  cases e with
  | upload i throws =>
    obtain ⟨u, hu, h⟩ := Option.bind_eq_some_iff.mp h
    obtain ⟨⟨st', phase⟩, hnext, h⟩ := Option.map_eq_some_iff.mp h
    cases h
    refine ⟨?_, hsame⟩
    cases Upload.next_step hnext <;> simp
  | uploadLoop =>
    dsimp only [issue] at h
    split_ifs at h <;> cases h <;> exact ⟨by simp, hsame⟩
  | loop rows now available throws =>
    obtain ⟨phase, hphase, h⟩ := Option.bind_eq_some_iff.mp h
    obtain ⟨⟨st', loop, start⟩, hnext, h⟩ := Option.map_eq_some_iff.mp h
    cases h
    refine ⟨?_, hsame⟩
    obtain rfl | ⟨chunkId, expires, rfl⟩ := LoopPhase.next_statement hnext <;> simp
  | worker i answer =>
    obtain ⟨w, hw, h⟩ := Option.bind_eq_some_iff.mp h
    obtain ⟨⟨st', phase, acknowledged⟩, hnext, h⟩ := Option.map_eq_some_iff.mp h
    cases h
    refine ⟨?_, hsame⟩
    obtain rfl | rfl | ⟨ul_status, retry_count, rfl⟩ := Worker.next_statement hnext <;> simp
  | progress =>
    obtain ⟨u, hu, h⟩ := Option.map_eq_some_iff.mp h
    cases h
    exact ⟨by simp, hsame⟩
  | getChunk chunkId useCache =>
    cases h
    refine ⟨by simp, [⟨chunkId, .find useCache⟩], rfl, ?_⟩
    intro d hd
    rw [List.mem_singleton.mp hd]
    exact ⟨useCache, rfl⟩
  | download i bytes ok => exact (hdownload i bytes ok rfl).elim
  | exit => exact (hexit rfl).elim
  | _ =>
    cases h
    exact ⟨by simp, hsame⟩

/-- New calls of `getChunk` have not begun a download. -/
theorem State.Attended.append {more : List Download} (h : s.Attended)
    (hmore : ∀ d ∈ more, ∃ useCache, d.phase = .find useCache) :
    State.Attended { s with downloads := s.downloads ++ more } := by
  refine ⟨?_, ?_⟩
  · intro d hd
    obtain hd | hd := List.mem_append.mp hd
    · exact h.keeps d hd
    · obtain ⟨useCache, hphase⟩ := hmore d hd
      unfold Download.Keeps
      rw [hphase]
      trivial
  · intro c hc
    obtain ⟨d, hd, hbusy⟩ := h.attended c hc
    exact ⟨d, List.mem_append_left _ hd, hbusy⟩

/-- A step of the tasks keeps the invariant. -/
theorem State.Attended.step (h : s.Attended) (hok : s.Finishes e) (hs : step cfg s e = some t) :
    t.Attended := by
  obtain ⟨⟨st, s'⟩, hissue, rfl⟩ := Option.map_eq_some_iff.mp hs
  have hdb : (s'.perform st).store.db = s.store.dbAfter st := by
    show s'.store.dbAfter st = _
    rw [issue_store hissue]
  dsimp only
  by_cases hexit : e = .exit
  · subst hexit
    cases hissue
    refine ⟨fun d hd => (List.not_mem_nil hd).elim, ?_⟩
    intro c hc
    obtain ⟨chunk, hfind, hstatus⟩ := Option.map_eq_some_iff.mp hc
    exact (hok chunk (List.mem_of_find?_eq_some hfind) hstatus).elim
  by_cases hdownload : ∃ i bytes ok, e = .download i bytes ok
  · obtain ⟨i, bytes, ok, rfl⟩ := hdownload
    obtain ⟨d, hd, hissue⟩ := Option.bind_eq_some_iff.mp hissue
    obtain ⟨⟨st', phase, obtained⟩, hnext, hissue⟩ := Option.map_eq_some_iff.mp hissue
    obtain ⟨rfl, hs'⟩ := Prod.mk.inj hissue
    have hdownloads : (s'.perform st').downloads = s.downloads.set i { d with phase } := by
      show s'.downloads = _
      rw [← hs']
    obtain ⟨hkeeps, hsaves⟩ :=
      Download.next_keeps (h.keeps d (List.mem_of_getElem? hd)) (hok d hd) hnext
    refine ⟨?_, ?_⟩
    · rw [hdownloads]
      exact List.forall_mem_set h.keeps hkeeps
    · rw [hdownloads, hdb]
      intro c hc
      obtain ⟨hsave, hbusy⟩ | ⟨m, rfl, hid, hsaves⟩ := hsaves
      · exact List.exists_mem_set hd (h.attended c (Store.downloading_of_dbAfter hsave hc))
          fun hd => ⟨hd.1, hbusy hd.2⟩
      · -- the save is of the row of this task
        have hc : (s.store.db.saveChunk m).dlStatus c = some .inProgress := hc
        rw [Database.dlStatus_saveChunk] at hc
        obtain ⟨old, hold, hif⟩ := Option.map_eq_some_iff.mp hc
        by_cases hcid : c = d.chunkId
        · have hbusy : phase.busy = true := by
            obtain hbusy | ⟨hchanged, hne⟩ := hsaves
            · exact hbusy
            · rw [if_pos ⟨hcid.trans hid.symm, hchanged⟩] at hif
              exact (hne hif).elim
          refine ⟨{ d with phase }, ?_, hcid.symm, hbusy⟩
          exact List.mem_iff_getElem?.mpr
            ⟨i, List.getElem?_set_self (List.getElem?_eq_some_iff.mp hd).1⟩
        · rw [if_neg (fun hm => hcid (hm.1.trans hid))] at hif
          rw [hif] at hold
          exact List.exists_mem_set hd (h.attended c hold) fun hd => (hcid hd.1.symm).elim
  · have hdownload' : ∀ i bytes ok, e ≠ .download i bytes ok :=
      fun i bytes ok heq => hdownload ⟨i, bytes, ok, heq⟩
    obtain ⟨hsave, more, hdownloads, hmore⟩ := issue_downloads hdownload' hexit hissue
    obtain ⟨hkeeps, hattended⟩ := h.append hmore
    have hdownloads : (s'.perform st).downloads = s.downloads ++ more := hdownloads
    refine ⟨?_, ?_⟩
    · rw [hdownloads]
      exact hkeeps
    · rw [hdownloads, hdb]
      exact fun c hc => hattended c (Store.downloading_of_dbAfter hsave hc)

end

/-! ## The calls of `getFile` -/

namespace DownloadRow

variable {files : List DownloadRow} {fileId id : JsString} {status : FileStatus}

/-- The status is written unless the file is COMPLETED. -/
theorem dlStatus_setDownloadStatus : dlStatus (setDownloadStatus status fileId files) id =
    (dlStatus files id).map fun old =>
      if id = fileId ∧ old ≠ .completed then status else old := by
  unfold dlStatus setDownloadStatus
  rw [Table.find_update, Option.map_map, Option.map_map]
  · cases hfind : Table.find DownloadRow.id id files with
    | none => rfl
    | some file =>
      have hkey : file.id = id := Table.key_of_find hfind
      by_cases hid : id = fileId
      · by_cases hold : file.dl_status = .completed
        · simp [hkey, hid, hold]
        · simp [hkey, hid, hold]
      · simp [hkey, hid]
  · exact fun _ => rfl

theorem inProgress_of_findByIdOrCreate
    (h : dlStatus (findByIdOrCreate fileId files) id = some .inProgress) :
    dlStatus files id = some .inProgress := by
  unfold dlStatus findByIdOrCreate at h
  rw [Table.find_insertIgnore, Option.map_or] at h
  obtain h | ⟨-, h⟩ := Option.or_eq_some_iff.mp h
  · exact h
  · obtain ⟨file, hfind, hstatus⟩ := Option.map_eq_some_iff.mp h
    rw [List.mem_singleton.mp (List.mem_of_find?_eq_some hfind)] at hstatus
    cases hstatus

/-- A mark that is not IN_PROGRESS: the file is not in progress after it. -/
theorem inProgress_of_setDownloadStatus (hstatus : status ≠ .inProgress)
    (h : dlStatus (setDownloadStatus status fileId files) id = some .inProgress) :
    dlStatus files id = some .inProgress ∧ id ≠ fileId := by
  rw [dlStatus_setDownloadStatus] at h
  obtain ⟨old, hold, hif⟩ := Option.map_eq_some_iff.mp h
  split_ifs at hif with hid
  · exact (hstatus hif).elim
  · subst hif
    exact ⟨hold, fun heq => hid ⟨heq, by simp⟩⟩

end DownloadRow

/-- The call has set the status IN_PROGRESS, or failed at it, and has not ended. -/
def FilePhase.busy : FilePhase → Bool
  | .infoChunk _ => true
  | .chunks _ => true
  | .writeFile => true
  | .markCompleted => true
  | .markFailed => true
  | _ => false

/-- The mark at the end of a failed download fails. -/
def FilePhase.fails (phase : FilePhase) (ok : Bool) : Bool := phase = .markFailed && !ok

/-- A file that is in progress after a step of a call was so before, and the call has not ended the
download; or the call has begun it. -/
theorem FileDownload.next_busy {cfg : Config} {d : FileDownload} {downloads : List Download}
    {files files' : List DownloadRow} {bytes : Option Bytes} {ok : Bool} {phase : FilePhase}
    {chunkIds : List JsString} {id : JsString} (hok : d.phase.fails ok = false)
    (h : d.next cfg downloads files bytes ok = some (files', phase, chunkIds))
    (hid : DownloadRow.dlStatus files' id = some .inProgress) :
    (DownloadRow.dlStatus files id = some .inProgress ∧
      (id ≠ d.fileId ∨ (d.phase.busy = true → phase.busy = true))) ∨
    (id = d.fileId ∧ phase.busy = true) := by
  obtain ⟨fileId, dphase⟩ := d
  cases dphase with
  | find useCache =>
    cases h
    exact .inl ⟨DownloadRow.inProgress_of_findByIdOrCreate hid,
      .inr fun hbusy => by simp [FilePhase.busy] at hbusy⟩
  | waiting useCache =>
    cases h
    exact .inl ⟨hid, .inr fun hbusy => by simp [FilePhase.busy] at hbusy⟩
  | markInProgress =>
    dsimp only [next] at h
    split_ifs at h
    · cases h
      by_cases heq : id = fileId
      · exact .inr ⟨heq, rfl⟩
      -- another file keeps its status
      · unfold DownloadRow.markFileAsInProgressDownload at hid
        rw [DownloadRow.dlStatus_setDownloadStatus] at hid
        obtain ⟨old, hold, hif⟩ := Option.map_eq_some_iff.mp hid
        rw [if_neg (fun hm => heq hm.1)] at hif
        rw [hif] at hold
        exact .inl ⟨hold, .inl heq⟩
    · cases h
      exact .inl ⟨hid, .inr fun _ => rfl⟩
  | infoChunk call =>
    dsimp only [next] at h
    split_ifs at h
    split at h
    · cases h
      exact .inl ⟨hid, .inr fun _ => rfl⟩
    · split_ifs at h
      · split at h
        · cases h
          exact .inl ⟨hid, .inr fun _ => rfl⟩
        · cases h
          exact .inl ⟨hid, .inr fun _ => rfl⟩
      · cases h
        exact .inl ⟨hid, .inr fun _ => rfl⟩
  | chunks calls =>
    dsimp only [next] at h
    split_ifs at h
    · cases h
      exact .inl ⟨hid, .inr fun _ => rfl⟩
    · cases h
      exact .inl ⟨hid, .inr fun _ => rfl⟩
  | writeFile =>
    cases h
    refine .inl ⟨hid, .inr fun _ => ?_⟩
    cases ok <;> rfl
  | markCompleted =>
    dsimp only [next] at h
    split_ifs at h
    · cases h
      obtain ⟨hold, hne⟩ := DownloadRow.inProgress_of_setDownloadStatus (by decide) hid
      exact .inl ⟨hold, .inl hne⟩
    · cases h
      exact .inl ⟨hid, .inr fun _ => rfl⟩
  | markFailed =>
    have hok : ok = true := by simpa [FilePhase.fails] using hok
    subst hok
    cases h
    obtain ⟨hold, hne⟩ := DownloadRow.inProgress_of_setDownloadStatus (by decide) hid
    exact .inl ⟨hold, .inl hne⟩
  | done => cases h

/-! ## The runs -/

namespace Downloads

/-- Every chunk and every file whose download is in progress has a task. -/
structure Attended (s : Downloads) : Prop where
  state : s.state.Attended
  files : ∀ id, DownloadRow.dlStatus s.files id = some .inProgress →
    ∃ d ∈ s.fileDownloads, d.fileId = id ∧ d.phase.busy = true

/-- The process does not end while a chunk or a file is in progress, and the statement at the end of
a failed download succeeds. -/
def Finishes (s : Downloads) : DownloadEvent → Prop
  | .getFile _ _ => True
  | .fileDownload i _ ok => ∀ d ∈ s.fileDownloads[i]?, d.phase.fails ok = false
  | .other e => s.state.Finishes e ∧
      (e = .exit → ∀ file ∈ s.files, file.dl_status ≠ .inProgress)

instance (s : Downloads) (e : DownloadEvent) : Decidable (s.Finishes e) := by
  unfold Finishes
  split <;> infer_instance

variable {cfg : Config} {s t : Downloads} {e : DownloadEvent}

theorem attended_init : Attended .init where
  state := ⟨fun d hd => (List.not_mem_nil hd).elim, fun c hc => by cases hc⟩
  files id hid := by cases hid

/-- A step of the downloads keeps the invariant. -/
theorem Attended.step (h : s.Attended) (hok : s.Finishes e) (hs : s.step cfg e = some t) :
    t.Attended := by
  cases e with
  | getFile rawId useCache =>
    dsimp only [Downloads.step] at hs
    split at hs
    · cases hs
      exact h
    · cases hs
      refine ⟨h.state, ?_⟩
      intro id hid
      obtain ⟨d, hd, hbusy⟩ := h.files id hid
      exact ⟨d, List.mem_append_left _ hd, hbusy⟩
  | fileDownload i bytes ok =>
    obtain ⟨d, hd, hs⟩ := Option.bind_eq_some_iff.mp hs
    obtain ⟨⟨files, phase, chunkIds⟩, hnext, hs⟩ := Option.map_eq_some_iff.mp hs
    cases hs
    refine ⟨?_, ?_⟩
    · refine h.state.append ?_
      intro d' hd'
      obtain ⟨chunkId, -, rfl⟩ := List.mem_map.mp hd'
      exact ⟨true, rfl⟩
    · intro id hid
      obtain ⟨hold, hkept⟩ | ⟨rfl, hbusy⟩ := FileDownload.next_busy (hok d hd) hnext hid
      -- the download of the file goes on
      · refine List.exists_mem_set hd (h.files id hold) ?_
        rintro ⟨hdid, hbusy⟩
        obtain hne | hkept := hkept
        · exact (hne hdid.symm).elim
        · exact ⟨hdid, hkept hbusy⟩
      -- the status has just been set by this download
      · refine ⟨{ d with phase }, ?_, rfl, hbusy⟩
        exact List.mem_iff_getElem?.mpr
          ⟨i, List.getElem?_set_self (List.getElem?_eq_some_iff.mp hd).1⟩
  | other e =>
    obtain ⟨state, hstep, hs⟩ := Option.map_eq_some_iff.mp hs
    cases hs
    refine ⟨h.state.step hok.1 hstep, ?_⟩
    intro id hid
    by_cases hexit : e = .exit
    · obtain ⟨file, hfind, hstatus⟩ := Option.map_eq_some_iff.mp hid
      exact (hok.2 hexit file (List.mem_of_find?_eq_some hfind) hstatus).elim
    · show ∃ d ∈ if e = .exit then [] else s.fileDownloads, _
      rw [if_neg hexit]
      exact h.files id hid

/-- As long as the process does not end during a download, and failed downloads can be marked, every
chunk or file row whose download is in progress has a task that runs. -/
theorem attended_of_reach (h : Reach (Downloads.step cfg) Finishes .init s) :
    (∀ c, s.state.store.db.dlStatus c = some .inProgress →
      ∃ d ∈ s.state.downloads, d.chunkId = c ∧ d.phase.busy = true) ∧
    ∀ id, DownloadRow.dlStatus s.files id = some .inProgress →
      ∃ d ∈ s.fileDownloads, d.fileId = id ∧ d.phase.busy = true := by
  have hattended : s.Attended :=
    h.invariant attended_init fun _ _ _ hinv hok hs => hinv.step hok hs
  exact ⟨hattended.state.attended, hattended.files⟩

/-- A call of `getFile`, whose call of `getChunk` asks the first source. -/
def fileRun : List DownloadEvent :=
  [.getFile (chunkId 1) true, .fileDownload 0 none true, .fileDownload 0 none true,
    .other (.download 0 none false), .other (.download 0 none true)]

/-- Where this run ends. -/
def fileState : Downloads := after (guarded (Downloads.step .small) Finishes) .init fileRun

theorem attended_of_reach_file :
    (∀ c, fileState.state.store.db.dlStatus c = some .inProgress →
      ∃ d ∈ fileState.state.downloads, d.chunkId = c ∧ d.phase.busy = true) ∧
    ∀ id, DownloadRow.dlStatus fileState.files id = some .inProgress →
      ∃ d ∈ fileState.fileDownloads, d.fileId = id ∧ d.phase.busy = true :=
  attended_of_reach (.of_after fileRun (by decide +kernel))

/-- The process ends, is started again, and the file and the chunk are asked for once more. -/
def abandonedRun : List DownloadEvent :=
  fileRun ++ [.other .exit, .other .restartUploadsDownloads, .getFile (chunkId 1) true,
    .fileDownload 0 none true, .other (.getChunk (chunkId 1) true), .other (.download 0 none true)]

/-- Where this run ends. -/
def abandonedState : Downloads := after (guarded (Downloads.step .small) Any) .init abandonedRun

/-- Both rows are in progress, and the only calls wait for the status to change. -/
theorem download_abandoned : Reach (Downloads.step .small) Any .init abandonedState ∧
    abandonedState.state.store.db.dlStatus (chunkId 1) = some .inProgress ∧
    abandonedState.state.downloads = [⟨chunkId 1, .waiting⟩] ∧
    DownloadRow.dlStatus abandonedState.files (chunkId 1) = some .inProgress ∧
    abandonedState.fileDownloads = [⟨chunkId 1, .waiting true⟩] :=
  ⟨.of_after abandonedRun (by decide +kernel), by decide +kernel, by decide +kernel,
    by decide +kernel, by decide +kernel⟩

end Downloads

end PointNetwork.Uploader
