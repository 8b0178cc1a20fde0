import PointNetwork.Uploader.DirectoryInvariant

/-!
# The completion of directories

Every step of a call and every other event keeps the invariant, so that in a run that meets the
condition a COMPLETED directory lists COMPLETED files only (`accurate_of_regular`). Without the
condition it may list a file that is being uploaded (`completed_before_file`).
-/

namespace PointNetwork.Directories

open Js Machine Storage Uploader

/-! ## Counts -/

/-- A row of what has been reported is settled. -/
lemma State.settled_of_reported (s : State) {row : DirMap} (h : s.tables.Reported row) :
    s.Settled row.is_dir row.file_id := by
  unfold Tables.Reported at h
  unfold State.Settled
  split at h
  · rename_i hkind
    rw [if_pos hkind]
    exact .inr ⟨row.file_id, h, .refl⟩
  · rename_i hkind
    rw [if_neg hkind]
    exact .inl h

section Count

variable {s : State} (inv : Inv s)

include inv

/-- What the maps take to be uploaded is settled. -/
lemma Inv.settled_of_flags {id : JsString} {is_dir : Bool} {flags : Bool × Bool}
    (h : s.caches.flags id is_dir = some flags) (huploaded : flags.1 = true) :
    s.Settled is_dir id := by
  unfold Caches.flags at h
  cases is_dir with
  | true =>
    obtain ⟨dir, hdir, rfl⟩ := Option.map_eq_some_iff.mp h
    exact inv.dirFlag id dir hdir huploaded
  | false =>
    obtain ⟨file, hfile, rfl⟩ := Option.map_eq_some_iff.mp h
    exact inv.fileFlag id file hfile huploaded

/-- All items were uploaded, and the rows of other items are of COMPLETED ones. -/
lemma Inv.settled_of_counted {D : JsString} {file_ids index : ℕ}
    (hcounted : s.Counted D file_ids index index)
    (hend : (s.caches.fileIds file_ids)[index]? = none)
    (hmissed : ∀ row ∈ s.tables.dirMapsOf D, row.file_id ∉ s.caches.fileIds file_ids →
      s.tables.Reported row) :
    ∀ row ∈ s.tables.dirMapsOf D, s.Settled row.is_dir row.file_id := by
  intro row hrow
  by_cases hlisted : row.file_id ∈ s.caches.fileIds file_ids
  · obtain ⟨j, hj⟩ := List.getElem?_of_mem hlisted
    have hlt : j < index :=
      (List.getElem?_eq_some_iff.mp hj).1.trans_le (List.getElem?_eq_none_iff.mp hend)
    obtain ⟨id, hid, row', hrow', rfl, hsettled⟩ := hcounted.2 rfl j hlt
    have heq : row.file_id = row'.file_id := Option.some.inj (hj.symm.trans hid)
    rw [inv.unmixed D row hrow row' hrow' heq, heq]
    exact hsettled
  · exact s.settled_of_reported (hmissed row hrow hlisted)

/-- One more item is counted. -/
lemma Inv.counted_succ {D id : JsString} {is_dir : Bool} {file_ids index uploaded : ℕ}
    {flags : Bool × Bool} (hcounted : s.Counted D file_ids index uploaded)
    (hid : (s.caches.fileIds file_ids)[index]? = some id)
    (hrow : ∃ row ∈ s.tables.dirMapsOf D, row.file_id = id ∧ row.is_dir = is_dir)
    (hflags : s.caches.flags id is_dir = some flags) :
    s.Counted D file_ids (index + 1) (if flags.1 then uploaded + 1 else uploaded) := by
  have hle := hcounted.1
  by_cases huploaded : flags.1 = true
  · rw [if_pos huploaded]
    refine ⟨Nat.succ_le_succ hle, ?_⟩
    intro hall j hj
    rcases Nat.lt_succ_iff_lt_or_eq.mp hj with hj | rfl
    · exact hcounted.2 (Nat.succ.inj hall) j hj
    · obtain ⟨row, hrow, hrowid, rfl⟩ := hrow
      exact ⟨id, hid, row, hrow, hrowid, inv.settled_of_flags hflags huploaded⟩
  · rw [if_neg huploaded]
    refine ⟨Nat.le_succ_of_le hle, ?_⟩
    intro hall
    omega

end Count

/-! ## The steps of a call -/

lemma pull_good (s : State) (id : JsString) (is_dir : Bool) : (pull id is_dir).Good s := by
  unfold pull
  split
  · trivial
  · trivial

section Calls

variable {s : State} (inv : Inv s) {i : ℕ} {task : Task} (htask : s.tasks[i]? = some task)

include inv htask

/-- A step that changes no entry. -/
lemma Inv.next_same (hquiet : task.Quiet) {m : Caches} (hsame : s.caches.Same m)
    {outcome : Outcome} (hgood : s.Grows (s.next i task (s.tables, m, outcome)) →
      outcome.Good (s.next i task (s.tables, m, outcome))) :
    Inv (s.next i task (s.tables, m, outcome)) :=
  Inv.next htask hquiet (inv.keeps hsame outcome) inv
    (hgood (grows_next htask hquiet (inv.keeps hsame outcome)))

/-- A step of the update of a file keeps the invariant. -/
lemma Inv.file_next {f : JsString} {updateParents : Bool} {stage : FileStage}
    (htop : task.top = some (.file f updateParents stage)) (changed : Bool) :
    Inv (s.next i task (fileNext s.tables s.caches changed f updateParents stage)) := by
  have hgood := (inv.tasks task (List.mem_of_getElem? htask)).top _ htop
  -- the write of the status is the only step that can complete the file
  by_cases hwrite : ∃ status, stage = .write status
  · obtain ⟨status, rfl⟩ := hwrite
    exact inv.write_file htask htop changed
  have hquiet : task.Quiet := by
    intro g up htop'
    rw [htop] at htop'
    cases htop'
    exact hwrite ⟨_, rfl⟩
  cases stage with
  | start =>
    apply inv.next_same htask hquiet (.refl _)
    intro _
    split
    · trivial
    · split <;> trivial
  | findMaps => exact inv.next_same htask hquiet (.refl _) fun _ => trivial
  | findFile chunkIds =>
    by_cases hrow : (s.tables.db.findFile f).isSome = true
    · rw [show fileNext s.tables s.caches changed f updateParents (.findFile chunkIds) = _ from
        if_pos hrow]
      refine Inv.next htask hquiet ?_ inv trivial
      refine inv.keeps_files ?_ rfl rfl rfl
      intro g file hg
      have hg : ((s.caches.toMemory.setFile f { chunk_ids := chunkIds }).addParents f
        chunkIds).fileUploadCache g = some file := hg
      rw [addParents_other.1] at hg
      rcases cached_setFile hg with ⟨rfl, rfl⟩ | hg
      -- the new entry of the cache is for a file with a row, and has no flag
      · refine .inr ⟨?_, fun huploaded => by cases huploaded⟩
        unfold Database.fileStatus
        rw [ne_eq, Option.map_eq_none_iff]
        exact Option.isSome_iff_ne_none.mp hrow
      · exact .inl hg
    · rw [show fileNext s.tables s.caches changed f updateParents (.findFile chunkIds) = _ from
        if_neg hrow]
      exact inv.next_same htask hquiet (.refl _) fun _ => trivial
  | check =>
    cases hf : s.caches.fileUploadCache f with
    | none =>
      simp only [fileNext, hf]
      exact inv.next_same htask hquiet (.refl _) fun _ => trivial
    | some file =>
      have hrow := inv.fileRow f file hf
      simp only [fileNext, hf]
      split
      · exact inv.next_same htask hquiet (.refl _) fun _ => trivial
      · obtain ⟨hkeeps, hout⟩ :=
          inv.countChunks (.refl _) f updateParents changed [] file.chunk_ids
        exact Inv.next htask hquiet hkeeps inv (hout _ hrow)
  | count counted c todo =>
    cases hstatus : s.tables.db.chunkStatus c with
    | none =>
      simp only [fileNext, hstatus]
      exact inv.next_same htask hquiet (.refl _) fun _ => trivial
    | some status =>
      simp only [fileNext, hstatus]
      obtain ⟨hkeeps, hout⟩ := @Inv.countChunks s inv _
        (Caches.Same.onFiles (f := fun files => files.setChunk c (some status)) rfl) f updateParents
        changed (counted ++ [(c, status)]) todo
      exact Inv.next htask hquiet hkeeps inv (hout _ hgood)
  | write status => exact (hwrite ⟨status, rfl⟩).elim

/-- A count has come to its end. -/
lemma Inv.decide_dir {D : JsString} {updateParents : Bool} {file_ids index uploaded failed : ℕ}
    (hquiet : task.Quiet) (hcounted : s.Counted D file_ids index uploaded)
    (hend : (s.caches.fileIds file_ids)[index]? = none)
    (hmissed : failed = 0 → uploaded = index → ∀ row ∈ s.tables.dirMapsOf D,
      row.file_id ∉ s.caches.fileIds file_ids → s.tables.Reported row) (changed : Bool) :
    Inv (s.next i task
      (s.tables, decideDir D updateParents changed index uploaded failed s.caches)) := by
  unfold decideDir
  split
  · refine Inv.next htask hquiet (inv.keeps_setDirFlags _ ?_) inv (.inr rfl)
    intro hstatus
    cases hstatus
  · rename_i hfailed
    split
    · rename_i huploaded
      subst huploaded
      have hsettled := inv.settled_of_counted hcounted hend
        (hmissed (Nat.eq_zero_of_not_pos hfailed) rfl)
      refine Inv.next htask hquiet (inv.keeps_setDirFlags _ fun _ => hsettled) inv ?_
      exact .inl ⟨rfl, .inl List.mem_cons_self⟩
    · apply inv.next_same htask hquiet (.refl _)
      intro _
      split
      · trivial
      · trivial

/-- A step of the update of a directory keeps the invariant. -/
lemma Inv.dir_next {D : JsString} {updateParents : Bool} {stage : DirStage}
    (htop : task.top = some (.dir D updateParents stage))
    (hregular : Frame.Regular s (.dir D updateParents stage)) (changed : Bool) :
    Inv (s.next i task (dirNext s.tables s.caches changed D updateParents stage)) := by
  have hgood := (inv.tasks task (List.mem_of_getElem? htask)).top _ htop
  have hquiet : task.Quiet := by
    intro g up htop'
    rw [htop] at htop'
    cases htop'
  cases stage with
  | start =>
    apply inv.next_same htask hquiet (.refl _)
    intro _
    split
    · trivial
    · split <;> trivial
  | findMaps => exact Inv.next htask hquiet (inv.keeps_newDir D _) inv trivial
  | fill rows =>
    cases rows with
    | nil => exact inv.next_same htask hquiet (.refl _) fun _ => trivial
    | cons row rows =>
      refine Inv.next htask hquiet (inv.keeps_push D row _) inv ?_
      split
      · trivial
      · exact ⟨trivial, pull_good _ _ _⟩
  | check =>
    cases hD : s.caches.dirUploadCache D with
    | none =>
      simp only [dirNext, hD]
      exact inv.next_same htask hquiet (.refl _) fun _ => trivial
    | some dir =>
      simp only [dirNext, hD]
      split
      · exact inv.next_same htask hquiet (.refl _) fun _ => trivial
      · apply inv.next_same htask hquiet (.refl _)
        exact fun _ => ⟨le_rfl, fun _ j hj => (Nat.not_lt_zero j hj).elim⟩
  | count file_ids index uploaded failed =>
    have hgood : s.Counted D file_ids index uploaded := hgood
    obtain ⟨hitem, hend⟩ : s.CountRegular D file_ids index uploaded failed := hregular
    cases hD : s.caches.dirUploadCache D with
    | none =>
      simp only [dirNext, hD]
      exact inv.next_same htask hquiet (.refl _) fun _ => trivial
    | some dir =>
      cases hid : (s.caches.fileIds file_ids)[index]? with
      | none =>
        simp only [dirNext, hid, hD]
        -- all items have been counted
        exact inv.decide_dir htask hquiet hgood hid (hend hid) changed
      | some id =>
        -- the update of the next item begins, and comes back to this place
        have hcaller : Caller.Good s (.counted D updateParents id (dir.is_dir id) file_ids index
          uploaded failed) := ⟨hgood, hid, hitem id hid dir hD⟩
        simp only [dirNext, hid, hD]
        split
        · exact inv.next_same htask hquiet (.refl _) fun grows => hcaller.grow grows
        · exact inv.next_same htask hquiet (.refl _) fun grows =>
            ⟨hcaller.grow grows, pull_good _ _ _⟩
  | write status => exact inv.write_dir htask htop hregular changed

/-- A caller that goes on keeps the invariant. -/
lemma Inv.caller_next {caller : Caller} (htop : task.top = some (.resumed caller)) :
    Inv (s.next i task (caller.next s.tables s.caches)) := by
  have hgood := (inv.tasks task (List.mem_of_getElem? htask)).top _ htop
  have hquiet : task.Quiet := by
    intro g up htop'
    rw [htop] at htop'
    cases htop'
  cases caller with
  | files rest =>
    cases rest with
    | nil => exact inv.next_same htask hquiet (.refl _) fun _ => trivial
    | cons f rest => exact inv.next_same htask hquiet (.refl _) fun _ => ⟨trivial, trivial⟩
  | parents rest =>
    cases rest with
    | nil => exact inv.next_same htask hquiet (.refl _) fun _ => trivial
    | cons D rest => exact inv.next_same htask hquiet (.refl _) fun _ => ⟨trivial, trivial⟩
  | filled D updateParents row rows =>
    exact inv.next_same htask hquiet (.addParentOf _ row) fun _ => trivial
  | counted D updateParents id is_dir file_ids index uploaded failed =>
    obtain ⟨hcounted, hid, hrow⟩ := hgood
    cases hflags : s.caches.flags id is_dir with
    | none =>
      simp only [Caller.next, hflags]
      exact inv.next_same htask hquiet (.refl _) fun _ => trivial
    | some flags =>
      simp only [Caller.next, hflags]
      apply inv.next_same htask hquiet (.refl _)
      exact fun grows => (inv.counted_succ hcounted hid hrow hflags).grow grows

/-- A step of a task keeps the invariant. -/
lemma Inv.resume {changed : Bool} {s' : State} (hstep : s.resume i changed = some s')
    (hregular : Regular s (.resume i changed)) : Inv s' := by
  obtain ⟨task', htask', hstep⟩ := Option.bind_eq_some_iff.mp hstep
  obtain rfl : task = task' := Option.some.inj (htask.symm.trans htask')
  obtain ⟨frame, htop, rfl⟩ := Option.map_eq_some_iff.mp hstep
  have hregular := hregular task htask frame htop
  have hquiet (h : ∀ f up stage, frame ≠ .file f up stage) : task.Quiet := by
    intro g up htop'
    rw [htop] at htop'
    exact h g up _ (Option.some.inj htop')
  cases frame with
  | realUpdateChunkProgress c =>
    have hquiet := hquiet (by simp)
    have hsame := @Caches.Same.onFiles s.caches
      (fun files => files.setChunk c (some .completed)) rfl
    simp only [Frame.next]
    split
    · exact inv.next_same htask hquiet hsame fun _ => trivial
    · exact inv.next_same htask hquiet hsame fun _ => trivial
  | findParents c =>
    have hquiet := hquiet (by simp)
    have hsame := @Caches.Same.onFiles s.caches
      (fun files => files.addFiles (s.tables.db.fileIdsOf c) c) addFiles_other.1
    simp only [Frame.next]
    split
    · exact inv.next_same htask hquiet hsame fun _ => trivial
    · exact inv.next_same htask hquiet hsame fun _ => trivial
  | file f updateParents stage => exact inv.file_next htask htop changed
  | dir D updateParents stage => exact inv.dir_next htask htop hregular changed
  | resumed caller => exact inv.caller_next htask htop

end Calls

/-! ## The other events -/

/-- A row after an upsert is the new one or an old one. -/
lemma mem_dirMapsOf_upsert {t : Tables} {row r : DirMap} {D : JsString}
    (h : r ∈ (t.upsert row).dirMapsOf D) : r = row ∧ row.dir_id = D ∨ r ∈ t.dirMapsOf D := by
  obtain ⟨hmem, hD⟩ := List.mem_filter.mp h
  rcases Table.of_mem_upsert hmem with rfl | ⟨hmem, -⟩
  · exact .inl ⟨rfl, of_decide_eq_true hD⟩
  · exact .inr (List.mem_filter.mpr ⟨hmem, hD⟩)

/-- A row of the same kind is not lost when a row takes its place. -/
lemma dirMapsOf_subset_upsert {t : Tables} {row r : DirMap} {D : JsString}
    (hkind : r.dir_id = row.dir_id → r.file_id = row.file_id → r.is_dir = row.is_dir)
    (h : r ∈ t.dirMapsOf D) : r ∈ (t.upsert row).dirMapsOf D := by
  obtain ⟨hmem, hD⟩ := List.mem_filter.mp h
  refine List.mem_filter.mpr ⟨?_, hD⟩
  by_cases hkey : (r.dir_id, r.file_id, r.offset) = (row.dir_id, row.file_id, row.offset)
  · simp only [Prod.mk.injEq] at hkey
    have heq : r = row := by
      cases r
      cases row
      simp only [DirMap.mk.injEq]
      exact ⟨hkey.1, hkey.2.1, hkind hkey.1 hkey.2.1, hkey.2.2⟩
    rw [heq]
    exact Table.mem_upsert_self _ _ _
  · exact Table.mem_upsert_of_ne hmem hkey

/-- What is in a COMPLETED directory after a row is written was in one before. -/
lemma inside_of_upsert {s : State} {row : DirMap} (hregular : row.Regular s) {E D : JsString}
    (hE : s.tables.dirStatus E = .completed)
    (h : Relation.ReflTransGen (s.tables.upsert row).Sub E D) :
    ∃ E', s.tables.dirStatus E' = .completed ∧ Relation.ReflTransGen s.tables.Sub E' D := by
  induction h with
  | refl => exact ⟨E, hE, .refl⟩
  | tail _ hsub ih =>
    obtain ⟨E', hE', hinside⟩ := ih
    obtain ⟨r, hr, hkind, rfl⟩ := hsub
    rcases mem_dirMapsOf_upsert hr with ⟨rfl, rfl⟩ | hr
    · have hreported := hregular.2 (.inr ⟨E', hE', hinside⟩)
      unfold Tables.Reported at hreported
      rw [if_pos hkind] at hreported
      exact ⟨r.file_id, hreported, .refl⟩
    · exact ⟨E', hE', hinside.tail ⟨r, hr, hkind, rfl⟩⟩

section Events

variable {s s' : State} (inv : Inv s)

include inv

/-- An event that changes no table and no entry; the tasks stay, and there may be new ones. -/
lemma Inv.of_same (htables : s'.tables = s.tables) (hsame : s.caches.Same s'.caches)
    (hold : ∀ task ∈ s.tasks, task ∈ s'.tasks)
    (hnew : ∀ task ∈ s'.tasks, task ∈ s.tasks ∨ task.Good s') : Inv s' := by
  have hsure : ∀ f, s.Sure f → s'.Sure f := by
    rintro f (hf | ⟨task, hmem, htop⟩)
    · exact .inl (htables ▸ hf)
    · exact .inr ⟨task, hold task hmem, htop⟩
  have hdecided : ∀ D, s.Decided D ↔ s'.Decided D := by
    intro D
    unfold State.Decided
    rw [htables, hsame.decided]
  have grows : s.Grows s' := by
    refine ⟨?_, ?_, hsure, fun D => (hdecided D).mp, ?_⟩
    · rw [htables]
      exact fun _ _ => id
    · rw [htables]
      exact fun _ => id
    · intro file_ids j id
      unfold Caches.fileIds
      rw [hsame.arrays]
      exact fun h => h
  refine inv.of_grows grows hnew ?_ ?_ ?_ ?_ ?_
  · intro f file hf
    rw [hsame.file] at hf
    rw [htables]
    exact ⟨inv.fileRow f file hf, fun h => hsure f (inv.fileFlag f file hf h)⟩
  · intro D dir hdir huploaded
    rw [hsame.dir] at hdir
    exact grows.decided D (inv.dirFlag D dir hdir huploaded)
  · intro D hD row hrow
    rw [htables] at hrow
    exact .inl ⟨(hdecided D).mpr hD, hrow⟩
  · rw [htables]
    exact inv.unmixed
  · rw [htables]
    exact inv.accurate

/-- A task starts. -/
lemma Inv.start {m : Caches} (hsame : s.caches.Same m) (update : Bool) (frame : Frame)
    (hgood : ∀ s', frame.Good s') : Inv ({ s with caches := m }.start update frame) := by
  refine inv.of_same rfl hsame ?_ ?_
  · exact fun task hmem => List.mem_append_left _ hmem
  · intro task hmem
    refine (List.mem_append.mp hmem).imp_right ?_
    intro hmem
    obtain rfl := List.mem_singleton.mp hmem
    refine ⟨?_, ?_⟩
    · intro frame' hframe
      cases hframe
      exact hgood _
    · intro caller hcaller
      cases hcaller

/-- An update that starts keeps the invariant. -/
lemma Inv.processQueue : Inv s.processQueue := by
  unfold State.processQueue
  split
  · exact inv
  · split
    · exact inv
    · rename_i queue _
      exact inv.start (m := { s.caches with queue }) ⟨rfl, rfl, rfl, rfl⟩ true
        (.realUpdateChunkProgress _) fun _ => trivial

/-- A statement of the uploader keeps the invariant. -/
lemma Inv.statement {st : Statement} (hexit : st ≠ .exit) : Inv (s.statement st) := by
  have hsure : ∀ f, s.Sure f → (s.statement st).Sure f := by
    rintro f (hf | hwriting)
    · exact .inl (external_fileDone (a := ⟨s.tables.db, s.caches.toMemory, .idle⟩) hf)
    · exact .inr hwriting
  have hfile : ∀ f, s.tables.db.fileStatus f ≠ none →
      (s.statement st).tables.db.fileStatus f ≠ none :=
    fun f hf => external_fileRow (a := ⟨s.tables.db, s.caches.toMemory, .idle⟩) hf
  refine inv.of_grows ⟨fun _ _ => id, hfile, hsure, fun _ => id, fun _ _ _ => id⟩
    (fun _ => .inl) ?_ inv.dirFlag ?_ inv.unmixed ?_
  · intro f file hf
    have hcache : (s.statement st).caches.fileUploadCache = s.caches.fileUploadCache :=
      external_fileUploadCache (a := ⟨s.tables.db, s.caches.toMemory, .idle⟩) hexit
    rw [hcache] at hf
    exact ⟨hfile f (inv.fileRow f file hf), fun h => hsure f (inv.fileFlag f file hf h)⟩
  · exact fun D hD row hrow => .inl ⟨hD, hrow⟩
  · intro D f hD hf
    exact external_fileDone (a := ⟨s.tables.db, s.caches.toMemory, .idle⟩) (inv.accurate D f hD hf)

/-- A row is written. -/
lemma Inv.upsert {row : DirMap} (hregular : row.Regular s)
    (htables : s'.tables = s.tables.upsert row) (hcaches : s'.caches = s.caches)
    (htasks : s'.tasks = s.tasks) : Inv s' := by
  -- the row decides no directory that was not decided before
  have hdecided : ∀ D, s'.Decided D → s.Decided D := by
    unfold State.Decided
    rw [htables, hcaches]
    rintro D (hD | ⟨E, hE, hinside⟩)
    · exact .inl hD
    · exact .inr (inside_of_upsert hregular hE hinside)
  have hkept : ∀ D, ∀ r ∈ s.tables.dirMapsOf D, r ∈ s'.tables.dirMapsOf D := by
    intro D r hr
    rw [htables]
    apply dirMapsOf_subset_upsert _ hr
    intro hdir
    exact hregular.1 r (List.mem_filter.mpr ⟨(List.mem_filter.mp hr).1, decide_eq_true hdir⟩)
  have hsure : ∀ f, s.Sure f → s'.Sure f := by
    unfold State.Sure State.Writing
    rw [htables, htasks]
    exact fun _ => id
  have grows : s.Grows s' := by
    refine ⟨hkept, ?_, hsure, ?_, ?_⟩
    · rw [htables]
      exact fun _ => id
    · rintro D (hD | ⟨E, hE, hinside⟩)
      · exact .inl (hcaches ▸ hD)
      · refine .inr ⟨E, htables ▸ hE, hinside.lift id ?_⟩
        rintro X Y ⟨r, hr, hrow⟩
        exact ⟨r, hkept X r hr, hrow⟩
    · rw [hcaches]
      exact fun _ _ _ => id
  have hreported : s.tables.Reported row → s'.tables.Reported row := by
    rw [htables]
    exact id
  refine inv.of_grows grows ?_ ?_ ?_ ?_ ?_ ?_
  · rw [htasks]
    exact fun _ => .inl
  · rw [hcaches]
    exact fun f file hf =>
      ⟨grows.file f (inv.fileRow f file hf), fun h => hsure f (inv.fileFlag f file hf h)⟩
  · rw [hcaches]
    exact fun D dir hdir h => grows.decided D (inv.dirFlag D dir hdir h)
  · intro D hD r hr
    rw [htables] at hr
    rcases mem_dirMapsOf_upsert hr with ⟨rfl, rfl⟩ | hr
    -- a decided directory gets only an item that is reported
    · exact .inr (s'.settled_of_reported (hreported (hregular.2 (hdecided _ hD))))
    · exact .inl ⟨hdecided D hD, hr⟩
  · rw [htables]
    intro D r hr r' hr' heq
    rcases mem_dirMapsOf_upsert hr with ⟨rfl, rfl⟩ | hold
    · rcases mem_dirMapsOf_upsert hr' with ⟨rfl, -⟩ | hold'
      · rfl
      · exact (hregular.1 r' hold' heq.symm).symm
    · rcases mem_dirMapsOf_upsert hr' with ⟨rfl, rfl⟩ | hold'
      · exact hregular.1 r hold heq
      · exact inv.unmixed D r hold r' hold' heq
  · rw [htables]
    rintro E f hE ⟨S, hinside, r, hr, hkind, rfl⟩
    obtain ⟨E', hE', hbefore⟩ := inside_of_upsert hregular hE hinside
    rcases mem_dirMapsOf_upsert hr with ⟨rfl, rfl⟩ | hold
    · have hfile := hregular.2 (.inr ⟨E', hE', hbefore⟩)
      unfold Tables.Reported at hfile
      rwa [hkind, if_neg Bool.false_ne_true] at hfile
    · exact inv.accurate E' _ hE' ⟨S, hbefore, r, hold, hkind, rfl⟩

/-- The process ends: what is in the tables stays. -/
lemma Inv.exit : Inv { State.init with tables := s.tables } where
  tasks task htask := by cases htask
  fileRow f file hf := by cases hf
  fileFlag f file hf := by cases hf
  dirFlag D dir hdir := by cases hdir
  closed D hD row hrow := by
    obtain ⟨E, hE, hinside⟩ := hD.resolve_left List.not_mem_nil
    unfold State.Settled
    split
    · rename_i hkind
      exact .inr ⟨E, hE, hinside.tail ⟨row, hrow, hkind, rfl⟩⟩
    · rename_i hkind
      rw [Bool.not_eq_true] at hkind
      exact .inl (inv.accurate E _ hE ⟨D, hinside, row, hrow, hkind, rfl⟩)
  unmixed := inv.unmixed
  accurate := inv.accurate

/-- A regular step keeps the invariant. -/
lemma Inv.step {e : Event} (hregular : Regular s e) (hstep : Directories.step s e = some s') :
    Inv s' := by
  cases e with
  | resume i changed =>
    obtain ⟨-, hstep⟩ := Option.ite_none_right_eq_some.mp hstep
    obtain ⟨task, htask, -⟩ := Option.bind_eq_some_iff.mp hstep
    exact inv.resume htask hstep hregular
  | statement st =>
    obtain ⟨hst, hstep⟩ := Option.ite_none_right_eq_some.mp hstep
    cases hstep
    rw [Bool.and_eq_true, bne_iff_ne] at hst
    exact inv.statement hst.2
  | uploadDir dir_id files =>
    obtain ⟨-, hstep⟩ := Option.ite_none_right_eq_some.mp hstep
    cases hstep
    exact inv.of_same rfl (.refl _) (fun _ => id) fun _ => .inl
  | upsert i j =>
    obtain ⟨-, hstep⟩ := Option.ite_none_right_eq_some.mp hstep
    obtain ⟨r, hr, hstep⟩ := Option.bind_eq_some_iff.mp hstep
    obtain ⟨row, hrow, rfl⟩ := Option.map_eq_some_iff.mp hstep
    exact inv.upsert (hregular r hr row hrow) rfl rfl rfl
  | addParent i j =>
    obtain ⟨-, hstep⟩ := Option.ite_none_right_eq_some.mp hstep
    obtain ⟨r, -, hstep⟩ := Option.bind_eq_some_iff.mp hstep
    obtain ⟨row, -, rfl⟩ := Option.map_eq_some_iff.mp hstep
    exact inv.of_same rfl (.addParentOf _ row) (fun _ => id) fun _ => .inl
  | getDirProgress dir_id =>
    obtain ⟨-, hstep⟩ := Option.ite_none_right_eq_some.mp hstep
    cases hstep
    split
    · exact inv
    · exact inv.start (.refl _) false (.dir _ true .start) fun _ => trivial
  | processQueue =>
    obtain ⟨-, hstep⟩ := Option.ite_none_right_eq_some.mp hstep
    cases hstep
    exact inv.processQueue
  | exit =>
    cases hstep
    exact inv.exit

end Events

lemma inv_init : Inv State.init where
  tasks task htask := by cases htask
  fileRow f file hf := by cases hf
  fileFlag f file hf := by cases hf
  dirFlag D dir hdir := by cases hdir
  closed D hD row hrow := by cases hrow
  unmixed D row hrow := by cases hrow
  accurate D f hD := by cases hD

/-- Let no count take an item for what it is not or end with all its items uploaded while `DirMap`
has a row of another item that is not COMPLETED; let no row of such an item be written for a
directory whose completion is decided, and no completion of a directory before that of a file in it.
Then a COMPLETED directory lists COMPLETED files only. -/
theorem accurate_of_regular {s : State} (h : Reach step Regular .init s) : s.tables.Accurate :=
  (h.invariant (P := Inv) inv_init fun _ _ _ inv => inv.step).accurate

/-! ## Runs -/

/-- The task is about to write that a file is COMPLETED. -/
def Task.writes (task : Task) : Bool :=
  match task.top with
  | some (.file _ _ (.write .completed)) => true
  | _ => false

/-- What can be decided, and is enough. -/
def Frame.Calm (s : State) : Frame → Prop
  | .dir dir_id _ (.count file_ids index uploaded failed) =>
    s.CountRegular dir_id file_ids index uploaded failed
  | .dir _ _ (.write .completed) => ∀ task ∈ s.tasks, task.writes = false
  | _ => True

/-- The condition on a step. -/
def Calm (s : State) : Event → Prop
  | .resume i _ => ∀ task ∈ s.tasks[i]?, ∀ frame ∈ task.top, frame.Calm s
  | .upsert i j => ∀ r ∈ s.registrations[i]?, ∀ row ∈ r.pending[j]?,
    s.tables.Unmixed row ∧ s.tables.Reported row
  | _ => True

instance (s : State) (dir_id : JsString) (file_ids index uploaded failed : ℕ) :
    Decidable (s.CountRegular dir_id file_ids index uploaded failed) :=
  inferInstanceAs (Decidable (_ ∧ _))

instance (s : State) (frame : Frame) : Decidable (frame.Calm s) := by
  unfold Frame.Calm
  split <;> infer_instance

instance (s : State) (e : Event) : Decidable (Calm s e) := by
  unfold Calm
  split <;> infer_instance

lemma Task.writes_of_top {task : Task} {f : JsString} {updateParents : Bool}
    (h : task.top = some (.file f updateParents (.write .completed))) : task.writes = true := by
  unfold Task.writes
  rw [h]

lemma Frame.Calm.regular {s : State} {frame : Frame} (h : frame.Calm s) : frame.Regular s := by
  cases frame with
  | dir D updateParents stage =>
    cases stage with
    | count file_ids index uploaded failed => exact h
    | write status =>
      cases status with
      | completed =>
        rintro f - ⟨task, hmem, up, htop⟩
        have hwrites : task.writes = false := h task hmem
        rw [Task.writes_of_top htop] at hwrites
        cases hwrites
      | _ => trivial
    | _ => trivial
  | _ => trivial

lemma regular_of_calm {s : State} {e : Event} (h : Calm s e) : Regular s e := by
  cases e with
  | resume i changed => exact fun task htask frame hframe => (h task htask frame hframe).regular
  | upsert i j =>
    intro r hr row hrow
    obtain ⟨hunmixed, hreported⟩ := h r hr row hrow
    exact ⟨hunmixed, fun _ => hreported⟩
  | _ => trivial

/-- The statements of an upload with one chunk. -/
def uploadOf (file_id chunk_id : JsString) : List Event :=
  [.createFile file_id, .bulkCreateChunks [chunk_id], .createFileMaps file_id [(0, chunk_id)],
    .markFileAsBeingUploaded file_id 1].map .statement

/-- A chunk is uploaded. -/
def completionOf (chunk_id : JsString) : List Event :=
  [.claimChunk chunk_id 0, .completeChunk chunk_id 0].map .statement

/-- `n` rows are written, one after the other. -/
def registrationOf (i n : ℕ) : List Event :=
  (List.replicate n [Event.upsert i 0, .addParent i 0]).flatten

/-- The task goes on. -/
def stepsOf (i n : ℕ) : List Event := List.replicate n (.resume i true)

/-- A file in a directory in another, each uploaded before it is listed. -/
def sampleRun : List Event :=
  uploadOf (js "a") (js "ca") ++ completionOf (js "ca") ++ [.processQueue] ++ stepsOf 0 9 ++
    uploadOf (js "s") (js "cs") ++ completionOf (js "cs") ++ [.processQueue] ++ stepsOf 1 9 ++
      uploadOf (js "d") (js "cd") ++ completionOf (js "cd") ++ [.processQueue] ++ stepsOf 2 9 ++
        [.uploadDir (js "s") [(js "a", false)]] ++ registrationOf 0 2 ++
          [.getDirProgress (js "s")] ++ stepsOf 3 15 ++
            [.uploadDir (js "d") [(js "s", true)]] ++ registrationOf 1 2 ++
              [.getDirProgress (js "d")] ++ stepsOf 4 15

theorem accurate_of_regular_nested :
    let t := (after (guarded step Calm) .init sampleRun).tables
    t.dirStatus (js "d") = .completed ∧ t.FileDone (js "a") := by
  have hreach : Reach step Calm .init (after (guarded step Calm) .init sampleRun) :=
    .of_after sampleRun (by decide +kernel)
  have hstatus : (after (guarded step Calm) .init sampleRun).tables.dirStatus (js "d") =
    .completed := by decide +kernel
  refine ⟨hstatus, accurate_of_regular (hreach.mono fun _ _ => regular_of_calm) _ _ hstatus ?_⟩
  refine ⟨js "s", .single ⟨⟨js "d", js "s", true, 0⟩, ?_, rfl, rfl⟩,
    ⟨js "s", js "a", false, 0⟩, ?_, rfl, rfl⟩
  · decide +kernel
  · decide +kernel

/-- All rows of a directory with two files are written, and its progress is asked for. Its entry
lists the first file only, whose entry is being made, when the chunk of that file is uploaded. -/
def sampleRace : List Event :=
  uploadOf (js "a") (js "ca") ++ uploadOf (js "b") (js "cb") ++ uploadOf (js "d") (js "cd") ++
    [.uploadDir (js "d") [(js "a", false), (js "b", false)]] ++ registrationOf 0 3 ++
      completionOf (js "ca") ++ [.getDirProgress (js "d")] ++ stepsOf 0 4 ++
        [.processQueue] ++ stepsOf 1 14

/-- The directory is COMPLETED, and its second file is being uploaded. -/
theorem completed_before_file :
    ∃ s, Reach step Any .init s ∧ ¬ s.tables.Accurate := by
  refine ⟨after (guarded step Any) .init sampleRace, .of_after _ (by decide +kernel), ?_⟩
  intro haccurate
  have hdone := haccurate (js "d") (js "b") (by decide +kernel)
    ⟨js "d", .refl, ⟨js "d", js "b", false, 1⟩, by decide +kernel, rfl, rfl⟩
  revert hdone
  decide +kernel

end PointNetwork.Directories
