import PointNetwork.Uploader.Directories
import PointNetwork.Uploader.StoreTheorems

/-!
# The completion of directories: the invariant

A directory is to be COMPLETED only when every file in it is. It is not so: `updateDirProgress`
counts what the entry of the directory lists, while rows of `DirMap` are still to be put in the
entry or to be written, and takes a file for uploaded before its status is written.

`Regular` is the condition for the runs in which no row is missed, nothing is counted as what it is
not, and no status comes too early. The invariant `Inv` follows a directory from the count of its
items to the write of its status. Here is what the writes to the caches and to the tables do to it,
one at a time.
-/

namespace PointNetwork.Directories

open Js Machine Storage Uploader

/-! ## What is to hold -/

namespace Tables

/-- The file is COMPLETED. -/
def FileDone (t : Tables) (f : JsString) : Prop := t.db.fileStatus f = some .completed

instance (t : Tables) (f : JsString) : Decidable (t.FileDone f) :=
  inferInstanceAs (Decidable (_ = _))

/-- `S` is a subdirectory of `D`. -/
def Sub (t : Tables) (D S : JsString) : Prop :=
  ∃ row ∈ t.dirMapsOf D, row.is_dir = true ∧ row.file_id = S

/-- The file is listed in the directory or in a directory inside. -/
def Lists (t : Tables) (D f : JsString) : Prop :=
  ∃ S, Relation.ReflTransGen t.Sub D S ∧ ∃ row ∈ t.dirMapsOf S, row.is_dir = false ∧ row.file_id = f

/-- A COMPLETED directory lists COMPLETED files only. -/
def Accurate (t : Tables) : Prop :=
  ∀ D f, t.dirStatus D = .completed → t.Lists D f → t.FileDone f

/-- The item of a row has the status COMPLETED. -/
def Reported (t : Tables) (row : DirMap) : Prop :=
  if row.is_dir then t.dirStatus row.file_id = .completed else t.FileDone row.file_id

instance (t : Tables) (row : DirMap) : Decidable (t.Reported row) := by
  unfold Reported
  infer_instance

/-- The rows of a directory for the item of this one say the same of its kind. -/
def Unmixed (t : Tables) (row : DirMap) : Prop :=
  ∀ r ∈ t.dirMapsOf row.dir_id, r.file_id = row.file_id → r.is_dir = row.is_dir

instance (t : Tables) (row : DirMap) : Decidable (t.Unmixed row) :=
  inferInstanceAs (Decidable (∀ r ∈ _, _ → _))

end Tables

namespace State

variable (s : State)

/-- The completion of a file is noted, but not written. -/
def Writing (f : JsString) : Prop :=
  ∃ task ∈ s.tasks, ∃ updateParents, task.top = some (.file f updateParents (.write .completed))

/-- The directory has been decided to be COMPLETED, or is in one that is COMPLETED. -/
def Decided (D : JsString) : Prop :=
  D ∈ s.caches.decided ∨
    ∃ E, s.tables.dirStatus E = .completed ∧ Relation.ReflTransGen s.tables.Sub E D

end State

/-! ## The condition -/

/-- The next item of a count has a row that says the same of its kind as the entry. At the end of a
count that has found all items uploaded, the rows of other items are of COMPLETED ones. -/
def State.CountRegular (s : State) (dir_id : JsString) (file_ids index uploaded failed : ℕ) :
    Prop :=
  (∀ id ∈ (s.caches.fileIds file_ids)[index]?, ∀ dir ∈ s.caches.dirUploadCache dir_id,
    ∃ row ∈ s.tables.dirMapsOf dir_id, row.file_id = id ∧ row.is_dir = dir.is_dir id) ∧
  ((s.caches.fileIds file_ids)[index]? = none → failed = 0 → uploaded = index →
    ∀ row ∈ s.tables.dirMapsOf dir_id, row.file_id ∉ s.caches.fileIds file_ids →
      s.tables.Reported row)

/-- Before the completion of a directory is written, that of every file in it is. -/
def Frame.Regular (s : State) : Frame → Prop
  | .dir dir_id _ (.count file_ids index uploaded failed) =>
    s.CountRegular dir_id file_ids index uploaded failed
  | .dir dir_id _ (.write .completed) => ∀ f, s.tables.Lists dir_id f → ¬ s.Writing f
  | _ => True

/-- A row that is written is of the same kind as those of the item that are there. It comes before
the completion of its directory is decided, or its item is COMPLETED. -/
def DirMap.Regular (s : State) (row : DirMap) : Prop :=
  s.tables.Unmixed row ∧ (s.Decided row.dir_id → s.tables.Reported row)

/-- The condition on a step. -/
def Regular (s : State) : Event → Prop
  | .resume i _ => ∀ task ∈ s.tasks[i]?, ∀ frame ∈ task.top, frame.Regular s
  | .upsert i j => ∀ r ∈ s.registrations[i]?, ∀ row ∈ r.pending[j]?, row.Regular s
  | _ => True

/-! ## The invariant -/

namespace State

variable (s : State)

/-- The completion of a file is written, or about to be. -/
def Sure (f : JsString) : Prop := s.tables.FileDone f ∨ s.Writing f

/-- What a count may rely on for an item of this kind. -/
def Settled (is_dir : Bool) (id : JsString) : Prop := if is_dir then s.Decided id else s.Sure id

/-- A count has gone over `index` items; if all were uploaded, they are settled. -/
def Counted (D : JsString) (file_ids index uploaded : ℕ) : Prop :=
  uploaded ≤ index ∧ (uploaded = index →
    ∀ j < index, ∃ id, (s.caches.fileIds file_ids)[j]? = some id ∧
      ∃ row ∈ s.tables.dirMapsOf D, row.file_id = id ∧ s.Settled row.is_dir id)

end State

section

variable (s : State)

/-- The row of the file is there, and only a final status is written. -/
def FileStage.Good (f : JsString) : FileStage → Prop
  | .count _ _ _ => s.tables.db.fileStatus f ≠ none
  | .write status => s.tables.db.fileStatus f ≠ none ∧ (status = .completed ∨ status = .failed)
  | _ => True

/-- What the update has counted is so, and COMPLETED is written only where all items are. -/
def DirStage.Good (D : JsString) : DirStage → Prop
  | .count file_ids index uploaded _ => s.Counted D file_ids index uploaded
  | .write status => status = .completed ∧ s.Decided D ∨ status = .failed
  | _ => True

/-- What the caller has counted is so. -/
def Caller.Good : Caller → Prop
  | .counted D _ id is_dir file_ids index uploaded _ =>
    s.Counted D file_ids index uploaded ∧ (s.caches.fileIds file_ids)[index]? = some id ∧
      ∃ row ∈ s.tables.dirMapsOf D, row.file_id = id ∧ row.is_dir = is_dir
  | _ => True

/-- What the call knows is so. -/
def Frame.Good : Frame → Prop
  | .file f _ stage => stage.Good s f
  | .dir D _ stage => stage.Good s D
  | .resumed caller => caller.Good s
  | _ => True

/-- What the calls of the task know is so. -/
structure Task.Good (task : Task) : Prop where
  top : ∀ frame, task.top = some frame → frame.Good s
  callers : ∀ caller ∈ task.callers, caller.Good s

/-- What the calls of the outcome know is so. -/
def Outcome.Good : Outcome → Prop
  | .goOn frame => frame.Good s
  | .await frame => frame.Good s
  | .call caller callee => caller.Good s ∧ callee.Good s
  | _ => True

/-- The flags tell the truth, and what is decided is settled. -/
structure Inv : Prop where
  tasks : ∀ task ∈ s.tasks, task.Good s
  fileRow : ∀ f file, s.caches.fileUploadCache f = some file → s.tables.db.fileStatus f ≠ none
  fileFlag : ∀ f file, s.caches.fileUploadCache f = some file → file.uploaded = true → s.Sure f
  dirFlag : ∀ D dir, s.caches.dirUploadCache D = some dir → dir.uploaded = true → s.Decided D
  closed : ∀ D, s.Decided D → ∀ row ∈ s.tables.dirMapsOf D, s.Settled row.is_dir row.file_id
  unmixed : ∀ D, ∀ row ∈ s.tables.dirMapsOf D, ∀ row' ∈ s.tables.dirMapsOf D,
    row.file_id = row'.file_id → row.is_dir = row'.is_dir
  accurate : s.tables.Accurate

end

/-! ## What is never taken back -/

/-- The later state knows all that the earlier one does. -/
structure State.Grows (s s' : State) : Prop where
  row : ∀ D, ∀ row ∈ s.tables.dirMapsOf D, row ∈ s'.tables.dirMapsOf D
  file : ∀ f, s.tables.db.fileStatus f ≠ none → s'.tables.db.fileStatus f ≠ none
  sure : ∀ f, s.Sure f → s'.Sure f
  decided : ∀ D, s.Decided D → s'.Decided D
  id : ∀ (file_ids j : ℕ) (id : JsString),
    (s.caches.fileIds file_ids)[j]? = some id → (s'.caches.fileIds file_ids)[j]? = some id

section Grows

variable {s s' : State} (grows : s.Grows s')

include grows

/-- What is settled stays settled. -/
lemma State.Settled.grow {is_dir : Bool} {id : JsString} (h : s.Settled is_dir id) :
    s'.Settled is_dir id := by
  unfold State.Settled at h ⊢
  cases is_dir with
  | true => exact grows.decided id h
  | false => exact grows.sure id h

/-- What has been counted stays counted. -/
lemma State.Counted.grow {D : JsString} {file_ids index uploaded : ℕ}
    (h : s.Counted D file_ids index uploaded) : s'.Counted D file_ids index uploaded := by
  refine ⟨h.1, ?_⟩
  intro hall j hj
  obtain ⟨id, hid, row, hrow, hrowid, hsettled⟩ := h.2 hall j hj
  exact ⟨id, grows.id _ _ _ hid, row, grows.row D row hrow, hrowid, hsettled.grow grows⟩

lemma Caller.Good.grow {caller : Caller} (h : caller.Good s) : caller.Good s' := by
  cases caller with
  | counted D updateParents id is_dir file_ids index uploaded failed =>
    obtain ⟨hcounted, hid, row, hrow, hkind⟩ := h
    exact ⟨hcounted.grow grows, grows.id _ _ _ hid, row, grows.row D row hrow, hkind⟩
  | _ => trivial

lemma Frame.Good.grow {frame : Frame} (h : frame.Good s) : frame.Good s' := by
  cases frame with
  | file f updateParents stage =>
    cases stage with
    | count counted c todo => exact grows.file f h
    | write status => exact ⟨grows.file f h.1, h.2⟩
    | _ => trivial
  | dir D updateParents stage =>
    cases stage with
    | count file_ids index uploaded failed => exact State.Counted.grow grows h
    | write status => exact h.imp_left fun h => ⟨h.1, grows.decided D h.2⟩
    | _ => trivial
  | resumed caller => exact Caller.Good.grow grows h
  | _ => trivial

lemma Task.Good.grow {task : Task} (h : task.Good s) : task.Good s' where
  top frame hframe := (h.top frame hframe).grow grows
  callers caller hcaller := (h.callers caller hcaller).grow grows

end Grows

/-- A task stays good after a good outcome. -/
lemma Task.Good.after {s : State} {task : Task} (h : task.Good s) {outcome : Outcome}
    (hgood : outcome.Good s) : (task.after outcome).Good s := by
  cases outcome with
  | goOn frame =>
    refine ⟨?_, h.callers⟩
    intro frame' hframe
    cases hframe
    exact hgood
  | await frame =>
    refine ⟨?_, h.callers⟩
    intro frame' hframe
    cases hframe
    exact hgood
  | call caller callee =>
    refine ⟨?_, ?_⟩
    · intro frame hframe
      cases hframe
      exact hgood.2
    · intro caller' hcaller
      rcases List.mem_cons.mp hcaller with rfl | hcaller
      · exact hgood.1
      · exact h.callers caller' hcaller
  -- the caller goes on, and was good while it waited
  | returns =>
    refine ⟨?_, fun caller hcaller => h.callers caller (List.mem_of_mem_tail hcaller)⟩
    intro frame hframe
    obtain ⟨caller, hcaller, rfl⟩ := Option.map_eq_some_iff.mp hframe
    exact h.callers caller (List.mem_of_mem_head? hcaller)
  | throws =>
    refine ⟨?_, ?_⟩
    · intro frame hframe
      cases hframe
    · intro caller hcaller
      cases hcaller

/-! ## Steps that leave the tables alone -/

section Inv

variable {s : State} (inv : Inv s)

include inv

/-- The directories in a decided one are decided. -/
lemma Inv.decided_of_inside {D S : JsString} (hD : s.Decided D)
    (h : Relation.ReflTransGen s.tables.Sub D S) : s.Decided S := by
  induction h with
  | refl => exact hD
  | tail _ hsub ih =>
    obtain ⟨row, hrow, hkind, rfl⟩ := hsub
    have hsettled := inv.closed _ ih row hrow
    rw [hkind] at hsettled
    exact hsettled

/-- The files in a decided directory are sure to be COMPLETED. -/
lemma Inv.sure_of_lists {D f : JsString} (hD : s.Decided D) (h : s.tables.Lists D f) :
    s.Sure f := by
  obtain ⟨S, hS, row, hrow, hkind, rfl⟩ := h
  have hsettled := inv.closed S (inv.decided_of_inside hD hS) row hrow
  rw [hkind] at hsettled
  exact hsettled

/-- What is left to show when the later state knows all that the earlier one does. -/
lemma Inv.of_grows {s' : State} (grows : s.Grows s')
    (htasks : ∀ task ∈ s'.tasks, task ∈ s.tasks ∨ task.Good s')
    (hfile : ∀ f file, s'.caches.fileUploadCache f = some file →
      s'.tables.db.fileStatus f ≠ none ∧ (file.uploaded = true → s'.Sure f))
    (hdir : ∀ D dir, s'.caches.dirUploadCache D = some dir → dir.uploaded = true → s'.Decided D)
    (hclosed : ∀ D, s'.Decided D → ∀ row ∈ s'.tables.dirMapsOf D,
      s.Decided D ∧ row ∈ s.tables.dirMapsOf D ∨ s'.Settled row.is_dir row.file_id)
    (hunmixed : ∀ D, ∀ row ∈ s'.tables.dirMapsOf D, ∀ row' ∈ s'.tables.dirMapsOf D,
      row.file_id = row'.file_id → row.is_dir = row'.is_dir)
    (haccurate : s'.tables.Accurate) : Inv s' where
  tasks task htask := by
    rcases htasks task htask with hold | hgood
    · exact (inv.tasks task hold).grow grows
    · exact hgood
  fileRow f file hf := (hfile f file hf).1
  fileFlag f file hf := (hfile f file hf).2
  dirFlag := hdir
  closed D hD row hrow := by
    rcases hclosed D hD row hrow with ⟨hD, hrow⟩ | hsettled
    · exact (inv.closed D hD row hrow).grow grows
    · exact hsettled
  unmixed := hunmixed
  accurate := haccurate

end Inv

/-- The task of a step is in the place of the one before. -/
lemma mem_next {s : State} {i : ℕ} {task : Task} (htask : s.tasks[i]? = some task)
    {r : Tables × Caches × Outcome} : task.after r.2.2 ∈ (s.next i task r).tasks := by
  obtain ⟨hi, -⟩ := List.getElem?_eq_some_iff.mp htask
  exact List.mem_set hi _

lemma mem_tasks_of_mem_next {s : State} {i : ℕ} {task task' : Task}
    {r : Tables × Caches × Outcome} (h : task' ∈ (s.next i task r).tasks) :
    task' ∈ s.tasks ∨ task' = task.after r.2.2 := List.mem_or_eq_of_mem_set h

/-- Another task than that of the step stays. -/
lemma mem_next_of_ne {s : State} {i : ℕ} {task task' : Task} (htask : s.tasks[i]? = some task)
    {r : Tables × Caches × Outcome} (h : task' ∈ s.tasks) (hne : task' ≠ task) :
    task' ∈ (s.next i task r).tasks := by
  obtain ⟨j, hj⟩ := List.getElem?_of_mem h
  have hij : i ≠ j := by
    rintro rfl
    exact hne (Option.some.inj (hj.symm.trans htask))
  apply List.mem_of_getElem? (i := j)
  show (s.tasks.set i _)[j]? = some task'
  rw [List.getElem?_set_ne hij, hj]

/-- The top of a task is not about to write that a file is COMPLETED. -/
def Task.Quiet (task : Task) : Prop :=
  ∀ f updateParents, task.top ≠ some (.file f updateParents (.write .completed))

/-- The caches after a step are right, given how it ends. -/
structure Keeps (s : State) (m : Caches) (outcome : Outcome) : Prop where
  file : ∀ f file, m.fileUploadCache f = some file →
    s.tables.db.fileStatus f ≠ none ∧ (file.uploaded = true → s.Sure f ∨
      ∃ updateParents, outcome = .await (.file f updateParents (.write .completed)))
  dir : ∀ D dir, m.dirUploadCache D = some dir → dir.uploaded = true →
    D ∈ m.decided ∨ s.Decided D
  decided : ∀ D ∈ m.decided, s.Decided D ∨
    ∀ row ∈ s.tables.dirMapsOf D, s.Settled row.is_dir row.file_id
  subset : ∀ D ∈ s.caches.decided, D ∈ m.decided
  id : ∀ (file_ids j : ℕ) (id : JsString),
    (s.caches.fileIds file_ids)[j]? = some id → (m.fileIds file_ids)[j]? = some id

section Next

variable {s : State} {i : ℕ} {task : Task} {m : Caches} {outcome : Outcome}
  (htask : s.tasks[i]? = some task) (hquiet : task.Quiet) (hkeeps : Keeps s m outcome)

include htask hquiet hkeeps

lemma grows_next : s.Grows (s.next i task (s.tables, m, outcome)) where
  row _ _ := id
  file _ := id
  sure f hsure := by
    refine hsure.imp id ?_
    rintro ⟨task', hmem, updateParents, htop⟩
    refine ⟨task', mem_next_of_ne htask hmem ?_, updateParents, htop⟩
    rintro rfl
    exact hquiet f updateParents htop
  decided D := Or.imp_left (hkeeps.subset D)
  id := hkeeps.id

/-- A step with a good outcome keeps the invariant. -/
lemma Inv.next (inv : Inv s) (hgood : outcome.Good (s.next i task (s.tables, m, outcome))) :
    Inv (s.next i task (s.tables, m, outcome)) := by
  have grows := grows_next htask hquiet hkeeps
  refine inv.of_grows grows ?_ ?_ ?_ ?_ inv.unmixed inv.accurate
  · intro task' hmem
    refine (mem_tasks_of_mem_next hmem).imp_right ?_
    rintro rfl
    exact ((inv.tasks task (List.mem_of_getElem? htask)).grow grows).after hgood
  · intro f file hf
    obtain ⟨hrow, hflag⟩ := hkeeps.file f file hf
    refine ⟨hrow, ?_⟩
    intro huploaded
    rcases hflag huploaded with hsure | ⟨updateParents, rfl⟩
    · exact grows.sure f hsure
    · exact .inr ⟨_, mem_next htask, updateParents, rfl⟩
  · intro D dir hdir huploaded
    rcases hkeeps.dir D dir hdir huploaded with hD | hD
    · exact .inl hD
    · exact grows.decided D hD
  · rintro D (hD | hD) row hrow
    · rcases hkeeps.decided D hD with hD | hsettled
      · exact .inl ⟨hD, hrow⟩
      · exact .inr ((hsettled row hrow).grow grows)
    · exact .inl ⟨.inr hD, hrow⟩

end Next

/-! ## Files -/

/-- The entries of the files and the directories are the same. -/
structure Caches.Same (m m' : Caches) : Prop where
  file : m'.fileUploadCache = m.fileUploadCache
  dir : m'.dirUploadCache = m.dirUploadCache
  arrays : m'.arrays = m.arrays
  decided : m'.decided = m.decided

lemma Caches.Same.refl (m : Caches) : m.Same m := ⟨rfl, rfl, rfl, rfl⟩

lemma Caches.Same.onFiles {m : Caches} {f : Memory → Memory}
    (hf : (f m.toMemory).fileUploadCache = m.fileUploadCache) : m.Same (m.onFiles f) :=
  ⟨hf, rfl, rfl, rfl⟩

lemma Caches.Same.addParentOf (m : Caches) (row : DirMap) : m.Same (m.addParentOf row) := by
  unfold Caches.addParentOf
  split
  · exact ⟨rfl, rfl, rfl, rfl⟩
  · exact ⟨rfl, rfl, rfl, rfl⟩

lemma finalStatus_eq_or {counted : List (JsString × ChunkStatus)} {status : FileStatus}
    (h : Memory.finalStatus counted = some status) :
    status = .completed ∨ status = .failed := by
  unfold Memory.finalStatus at h
  split_ifs at h
  · exact .inr (Option.some.inj h).symm
  · exact .inl (Option.some.inj h).symm

section Files

variable {s : State} (inv : Inv s) {m : Caches}

include inv

/-- The entries of the directories are the same, and those of the files are right. -/
lemma Inv.keeps_files {outcome : Outcome}
    (hfile : ∀ f file, m.fileUploadCache f = some file →
      s.caches.fileUploadCache f = some file ∨ s.tables.db.fileStatus f ≠ none ∧
        (file.uploaded = true →
          ∃ updateParents, outcome = .await (.file f updateParents (.write .completed))))
    (hdir : m.dirUploadCache = s.caches.dirUploadCache) (harrays : m.arrays = s.caches.arrays)
    (hdecided : m.decided = s.caches.decided) : Keeps s m outcome where
  file f file hf := by
    rcases hfile f file hf with hold | ⟨hrow, hnew⟩
    · exact ⟨inv.fileRow f file hold, fun huploaded => .inl (inv.fileFlag f file hold huploaded)⟩
    · exact ⟨hrow, fun huploaded => .inr (hnew huploaded)⟩
  dir D dir hD huploaded := by
    rw [hdir] at hD
    exact .inr (inv.dirFlag D dir hD huploaded)
  decided D hD := by
    rw [hdecided] at hD
    exact .inl (.inl hD)
  subset D hD := by
    rw [hdecided]
    exact hD
  id file_ids j id hid := by
    unfold Caches.fileIds
    rw [harrays]
    exact hid

lemma Inv.keeps (hsame : s.caches.Same m) (outcome : Outcome) : Keeps s m outcome := by
  refine inv.keeps_files ?_ hsame.dir hsame.arrays hsame.decided
  intro f file hf
  rw [hsame.file] at hf
  exact .inl hf

/-- A status of a file is noted, and is to be written. -/
lemma Inv.keeps_setFlags (hsame : s.caches.Same m) (f : JsString) (updateParents : Bool)
    (status : FileStatus) :
    Keeps s (m.onFiles (Memory.setFlags f status))
      (.await (.file f updateParents (.write status))) := by
  refine inv.keeps_files ?_ hsame.dir hsame.arrays hsame.decided
  intro g file hg
  have hg : (m.toMemory.setFlags f status).fileUploadCache g = some file := hg
  cases hf : m.fileUploadCache f with
  | none =>
    have heq : m.toMemory.setFlags f status = m.toMemory := by
      unfold Memory.setFlags
      rw [hf]
    rw [heq, hsame.file] at hg
    exact .inl hg
  | some old =>
    rcases cached_setFlags hf hg with ⟨rfl, rfl⟩ | hg
    · rw [hsame.file] at hf
      refine .inr ⟨inv.fileRow g old hf, ?_⟩
      intro huploaded
      obtain rfl : status = .completed := of_decide_eq_true huploaded
      exact ⟨updateParents, rfl⟩
    · rw [hsame.file] at hg
      exact .inl hg

/-- The count of the chunks keeps the invariant. -/
lemma Inv.countChunks (hsame : s.caches.Same m) (f : JsString) (updateParents changed : Bool)
    (counted : List (JsString × ChunkStatus)) (todo : List JsString) :
    let r := countChunks f updateParents changed counted todo m
    Keeps s r.1 r.2 ∧
      ∀ s' : State, s'.tables.db.fileStatus f ≠ none → r.2.Good s' := by
  unfold Directories.countChunks
  split
  · exact ⟨inv.keeps hsame _, fun s' hrow => hrow⟩
  · unfold decideFile
    split
    · exact ⟨inv.keeps hsame _, fun _ _ => trivial⟩
    · rename_i status _ hstatus
      exact ⟨inv.keeps_setFlags hsame f updateParents status,
        fun s' hrow => ⟨hrow, finalStatus_eq_or hstatus⟩⟩
    · refine ⟨inv.keeps hsame _, ?_⟩
      intro s' hrow
      split
      · trivial
      · trivial

end Files

/-! ## Writes of a status -/

section Tables

variable {t t' : Tables}

/-- The rows of `DirMap` say what is in a directory. -/
lemma dirMapsOf_congr (h : t.dirMaps = t'.dirMaps) (D : JsString) :
    t.dirMapsOf D = t'.dirMapsOf D := by
  unfold Tables.dirMapsOf
  rw [h]

lemma sub_congr (h : t.dirMaps = t'.dirMaps) : t.Sub = t'.Sub := by
  funext D S
  unfold Tables.Sub
  rw [dirMapsOf_congr h]

lemma lists_congr (h : t.dirMaps = t'.dirMaps) {D f : JsString} :
    t.Lists D f ↔ t'.Lists D f := by
  unfold Tables.Lists
  rw [sub_congr h]
  simp only [dirMapsOf_congr h]

variable {D E : JsString} {status : FileStatus}

lemma updateFileDirUlStatus_db : (t.updateFileDirUlStatus D status).db = t.db := by
  unfold Tables.updateFileDirUlStatus
  split
  · rfl
  · rfl

lemma updateFileDirUlStatus_dirMaps : (t.updateFileDirUlStatus D status).dirMaps = t.dirMaps := by
  unfold Tables.updateFileDirUlStatus
  split
  · rfl
  · rfl

/-- A directory is COMPLETED because it was, or by the write. -/
lemma completed_of_updateFileDirUlStatus
    (h : (t.updateFileDirUlStatus D status).dirStatus E = .completed) :
    t.dirStatus E = .completed ∨ E = D ∧ status = .completed := by
  unfold Tables.updateFileDirUlStatus at h
  split at h
  · by_cases hE : E = D
    · subst hE
      exact .inr ⟨rfl, (Function.update_self _ _ _).symm.trans h⟩
    · exact .inl ((Function.update_of_ne hE _ _).symm.trans h)
  · exact .inl h

/-- A COMPLETED directory stays so. -/
lemma updateFileDirUlStatus_kept (hstatus : status = .completed ∨ status = .failed)
    (h : t.dirStatus E = .completed) :
    (t.updateFileDirUlStatus D status).dirStatus E = .completed := by
  unfold Tables.updateFileDirUlStatus
  split
  · rename_i hwrite
    by_cases hE : E = D
    · subst hE
      refine (Function.update_self _ _ _).trans ?_
      rcases hstatus with rfl | rfl
      · rfl
      · simp [h] at hwrite
    · exact (Function.update_of_ne hE _ _).trans h
  · exact h

end Tables

section Write

variable {s : State} (inv : Inv s) {i : ℕ} {task : Task} (htask : s.tasks[i]? = some task)
  {t : Tables} {outcome : Outcome}

include inv htask

/-- A step that writes a status: there is no new row, and only decided directories are newly
COMPLETED. -/
lemma Inv.next_of_write (hrows : t.dirMaps = s.tables.dirMaps)
    (hfile : ∀ f, s.tables.db.fileStatus f ≠ none → t.db.fileStatus f ≠ none)
    (hsure : ∀ f, s.Sure f → (s.next i task (t, s.caches, outcome)).Sure f)
    (hkept : ∀ D, s.tables.dirStatus D = .completed → t.dirStatus D = .completed)
    (hdecided : ∀ D, t.dirStatus D = .completed → s.Decided D)
    (haccurate : t.Accurate) (hgood : outcome.Good (s.next i task (t, s.caches, outcome))) :
    Inv (s.next i task (t, s.caches, outcome)) := by
  have hmaps := dirMapsOf_congr hrows
  have hsub := sub_congr hrows
  have grows : s.Grows (s.next i task (t, s.caches, outcome)) := by
    refine ⟨?_, hfile, hsure, ?_, fun _ _ _ => id⟩
    · intro D row hrow
      exact (hmaps D).symm ▸ hrow
    · rintro D (hD | ⟨E, hE, hinside⟩)
      · exact .inl hD
      · exact .inr ⟨E, hkept E hE, hsub.symm ▸ hinside⟩
  refine inv.of_grows grows ?_ ?_ ?_ ?_ ?_ haccurate
  · intro task' hmem
    refine (mem_tasks_of_mem_next hmem).imp_right ?_
    rintro rfl
    exact ((inv.tasks task (List.mem_of_getElem? htask)).grow grows).after hgood
  · intro f file hf
    exact ⟨hfile f (inv.fileRow f file hf), fun h => hsure f (inv.fileFlag f file hf h)⟩
  · intro D dir hdir huploaded
    exact grows.decided D (inv.dirFlag D dir hdir huploaded)
  · rintro D (hD | ⟨E, hE, hinside⟩) row hrow
    · exact .inl ⟨.inl hD, hmaps D ▸ hrow⟩
    · exact .inl ⟨inv.decided_of_inside (hdecided E hE) (hsub ▸ hinside), hmaps D ▸ hrow⟩
  · intro D row hrow row' hrow'
    exact inv.unmixed D row (hmaps D ▸ hrow) row' (hmaps D ▸ hrow')

/-- The status of a file is written. -/
lemma Inv.write_file {f : JsString} {updateParents : Bool} {status : FileStatus}
    (htop : task.top = some (.file f updateParents (.write status))) (changed : Bool) :
    Inv (s.next i task
      (fileNext s.tables s.caches changed f updateParents (.write status))) := by
  obtain ⟨hrow, hstatus⟩ := (inv.tasks task (List.mem_of_getElem? htask)).top _ htop
  have hdone : ∀ g, s.tables.FileDone g → (s.tables.updateFileUlStatus f status).FileDone g :=
    fun g hg => write_fileDone (m := s.caches.toMemory) (p := .idle) (q := .idle) hg hstatus
  have hfile : ∀ g, s.tables.db.fileStatus g ≠ none →
      (s.tables.updateFileUlStatus f status).db.fileStatus g ≠ none := by
    intro g hg
    show (s.tables.db.updateFileUlStatus f status).fileStatus g ≠ none
    rw [fileStatus_write]
    exact fun hnone => hg (Option.map_eq_none_iff.mp hnone)
  refine inv.next_of_write htask rfl hfile ?_ (fun _ => id) ?_ ?_ ?_
  · rintro g (hg | ⟨task', hmem, up, htop'⟩)
    · exact .inl (hdone g hg)
    · by_cases hsame : task' = task
      · rw [hsame, htop] at htop'
        cases htop'
        rcases written_status .completed hrow with h | ⟨h, -⟩
        · exact .inl h
        · cases h
      · exact .inr ⟨task', mem_next_of_ne htask hmem hsame, up, htop'⟩
  · intro D hD
    exact .inr ⟨D, hD, .refl⟩
  · intro D g hD hg
    exact hdone g (inv.accurate D g hD hg)
  · trivial

/-- The status of a directory is written. -/
lemma Inv.write_dir {D : JsString} {updateParents : Bool} {status : FileStatus}
    (htop : task.top = some (.dir D updateParents (.write status)))
    (hregular : Frame.Regular s (.dir D updateParents (.write status))) (changed : Bool) :
    Inv (s.next i task (dirNext s.tables s.caches changed D updateParents (.write status))) := by
  have hgood := (inv.tasks task (List.mem_of_getElem? htask)).top _ htop
  have hstatus : status = .completed ∨ status = .failed := hgood.imp_left And.left
  have hnew : ∀ E, (s.tables.updateFileDirUlStatus D status).dirStatus E = .completed →
      s.tables.dirStatus E = .completed ∨ E = D ∧ status = .completed :=
    fun E => completed_of_updateFileDirUlStatus
  refine inv.next_of_write htask updateFileDirUlStatus_dirMaps ?_ ?_ ?_ ?_ ?_ ?_
  · intro f hf
    rw [updateFileDirUlStatus_db]
    exact hf
  · rintro f (hf | ⟨task', hmem, up, htop'⟩)
    · left
      show (s.tables.updateFileDirUlStatus D status).db.fileStatus f = _
      rw [updateFileDirUlStatus_db]
      exact hf
    · refine .inr ⟨task', mem_next_of_ne htask hmem ?_, up, htop'⟩
      rintro rfl
      rw [htop] at htop'
      cases htop'
  · intro E hE
    exact updateFileDirUlStatus_kept hstatus hE
  · intro E hE
    -- the status of the directory itself is written, after all items were counted
    rcases hnew E hE with hE | ⟨rfl, rfl⟩
    · exact .inr ⟨E, hE, .refl⟩
    · rcases hgood with ⟨-, hD⟩ | hfailed
      · exact hD
      · cases hfailed
  · intro E f hE hf
    rw [lists_congr updateFileDirUlStatus_dirMaps] at hf
    show (s.tables.updateFileDirUlStatus D status).db.fileStatus f = _
    rw [updateFileDirUlStatus_db]
    rcases hnew E hE with hE | ⟨rfl, rfl⟩
    · exact inv.accurate E f hE hf
    -- a file that is listed in it is completed, or its status is about to be written
    · rcases hgood with ⟨-, hD⟩ | hfailed
      · exact (inv.sure_of_lists hD hf).resolve_right (hregular f hf)
      · cases hfailed
  · trivial

end Write

/-! ## Entries of directories -/

/-- The arrays only grow. -/
lemma fileIds_of_append {m m' : Caches}
    (h : ∀ (file_ids : ℕ) (ids : List JsString), m.arrays[file_ids]? = some ids →
      ∃ more, m'.arrays[file_ids]? = some (ids ++ more)) {file_ids j : ℕ} {id : JsString}
    (hid : (m.fileIds file_ids)[j]? = some id) : (m'.fileIds file_ids)[j]? = some id := by
  unfold Caches.fileIds at hid ⊢
  cases hids : m.arrays[file_ids]? with
  | none =>
    rw [hids] at hid
    cases hid
  | some ids =>
    obtain ⟨more, hmore⟩ := h file_ids ids hids
    rw [hids, Option.getD_some] at hid
    rw [hmore, Option.getD_some]
    exact (List.getElem?_append_left (List.getElem?_eq_some_iff.mp hid).1).trans hid

section Dirs

variable {s : State} (inv : Inv s)

include inv

/-- An entry is made. -/
lemma Inv.keeps_newDir (D : JsString) (outcome : Outcome) :
    Keeps s (s.caches.newDir D) outcome where
  file f file hf := ⟨inv.fileRow f file hf, fun h => .inl (inv.fileFlag f file hf h)⟩
  dir E dir hE huploaded := by
    by_cases heq : E = D
    · subst heq
      have hnew := (Function.update_self E _ _).symm.trans hE
      cases hnew
      cases huploaded
    · exact .inr (inv.dirFlag E dir ((Function.update_of_ne heq _ _).symm.trans hE) huploaded)
  decided E hE := .inl (.inl hE)
  subset _ := id
  id file_ids j id := by
    apply fileIds_of_append
    intro file_ids ids hids
    refine ⟨[], ?_⟩
    rw [List.append_nil]
    exact (List.getElem?_append_left (List.getElem?_eq_some_iff.mp hids).1).trans hids

/-- A row is put in an entry. -/
lemma Inv.keeps_push (D : JsString) (row : DirMap) (outcome : Outcome) :
    Keeps s (s.caches.push D row) outcome := by
  cases hD : s.caches.dirUploadCache D with
  | none =>
    have heq : s.caches.push D row = s.caches := by
      unfold Caches.push
      rw [hD]
    rw [heq]
    exact inv.keeps (.refl _) outcome
  | some dir =>
    have heq : s.caches.push D row = { s.caches with
        arrays := s.caches.arrays.modify dir.file_ids (· ++ [row.file_id])
        dirUploadCache := Function.update s.caches.dirUploadCache D
          (some { dir with is_dir := Function.update dir.is_dir row.file_id row.is_dir }) } := by
      unfold Caches.push
      rw [hD]
    rw [heq]
    refine ⟨?_, ?_, fun E hE => .inl (.inl hE), fun _ => id, ?_⟩
    · intro f file hf
      exact ⟨inv.fileRow f file hf, fun h => .inl (inv.fileFlag f file hf h)⟩
    · intro E new hE huploaded
      by_cases hsame : E = D
      · subst hsame
        have hnew := (Function.update_self E _ _).symm.trans hE
        cases hnew
        exact .inr (inv.dirFlag E dir hD huploaded)
      · exact .inr (inv.dirFlag E new ((Function.update_of_ne hsame _ _).symm.trans hE) huploaded)
    -- the list of items only grows, in its own place
    · intro file_ids j id
      apply fileIds_of_append
      intro place ids hids
      show ∃ more, (s.caches.arrays.modify dir.file_ids _)[place]? = some (ids ++ more)
      rw [List.getElem?_modify, hids]
      by_cases hplace : dir.file_ids = place
      · exact ⟨[row.file_id], congrArg some (if_pos hplace)⟩
      · exact ⟨[], congrArg some ((if_neg hplace).trans (List.append_nil ids).symm)⟩

/-- A status of a directory is noted; if it is COMPLETED, all items are settled. -/
lemma Inv.keeps_setDirFlags {D : JsString} {status : FileStatus} (outcome : Outcome)
    (h : status = .completed →
      ∀ row ∈ s.tables.dirMapsOf D, s.Settled row.is_dir row.file_id) :
    Keeps s (s.caches.setDirFlags D status) outcome where
  file f file hf := ⟨inv.fileRow f file hf, fun h => .inl (inv.fileFlag f file hf h)⟩
  dir E dir hE huploaded := by
    by_cases heq : E = D
    · subst heq
      obtain ⟨old, -, rfl⟩ := Option.map_eq_some_iff.mp ((Function.update_self E _ _).symm.trans hE)
      left
      show E ∈ if status = .completed then _ else _
      rw [if_pos (of_decide_eq_true huploaded)]
      exact List.mem_cons_self
    · exact .inr (inv.dirFlag E dir ((Function.update_of_ne heq _ _).symm.trans hE) huploaded)
  decided E hE := by
    have hE : E ∈ if status = .completed then D :: s.caches.decided else s.caches.decided := hE
    split at hE
    · rename_i hstatus
      rcases List.mem_cons.mp hE with rfl | hE
      · exact .inr (h hstatus)
      · exact .inl (.inl hE)
    · exact .inl (.inl hE)
  subset E hE := by
    show E ∈ if status = .completed then _ else _
    split
    · exact List.mem_cons_of_mem D hE
    · exact hE
  id _ _ _ := id

end Dirs

end PointNetwork.Directories
