import PointNetwork.Uploader.DirectoryInvariant

/-!
# The completion of directories is reached: the condition

When nothing is left to do, a directory that `uploadDir` has uploaded is to be COMPLETED if all
files and subdirectories in it are. It need not be so: a directory is updated when one of its items
is, and `uploadDir` makes it a parent of the items after they have been uploaded, without an update.

`Told` is the condition for the runs in which the last item of a directory is COMPLETED, or its last
row written, while something is under way that goes on to update the directory. The invariant
(`Waking`) is that such a directory is COMPLETED, or that a task owes it an update (`Task.Owes`).
Here is what a step of a call does to the caches and the tables under this condition.
-/

namespace PointNetwork.Directories

open Js Machine Storage Uploader

/-! ## What is to hold -/

/-- Nothing is left to do. -/
structure State.Quiescent (s : State) : Prop where
  chunks : ∀ chunk ∈ s.tables.db.chunks, chunk.ul_status ≠ .enqueued ∧ chunk.ul_status ≠ .inProgress
  queue : s.caches.queue = []
  tasks : ∀ task ∈ s.tasks, task.top = none
  registrations : ∀ r ∈ s.registrations, r.pending = [] ∧ r.written = []

/-- A directory whose rows are all written is COMPLETED if its items are. -/
def Tables.Reached (t : Tables) : Prop :=
  ∀ D, ownRow D ∈ t.dirMapsOf D → (∀ row ∈ t.dirMapsOf D, t.Reported row) →
    t.dirStatus D = .completed

/-! ## Directories that are owed an update -/

/-- The entry of a file or a directory says that it is uploaded. -/
def Caches.Noted (m : Caches) (is_dir : Bool) (id : JsString) : Prop :=
  m.flags id is_dir = some (true, false)

/-- All rows of the directory are written, and all its items are noted. -/
def Ready (t : Tables) (m : Caches) (D : JsString) : Prop :=
  ownRow D ∈ t.dirMapsOf D ∧ ∀ row ∈ t.dirMapsOf D, m.Noted row.is_dir row.file_id

/-- The call is about to write that a file or a directory is COMPLETED. -/
def Frame.Writes (is_dir : Bool) (id : JsString) : Frame → Prop
  | .file file_id _ (.write status) => file_id = id ∧ is_dir = false ∧ status = .completed
  | .dir dir_id _ (.write status) => dir_id = id ∧ is_dir = true ∧ status = .completed
  | _ => False

/-- What has been counted so far is uploaded. -/
def DirStage.OnCourse : DirStage → Prop
  | .count _ index uploaded failed => uploaded = index ∧ failed = 0
  | .write status => status = .completed
  | _ => True

/-- What follows the call that is awaited updates the directory. -/
def Caller.Owes (D : JsString) : Caller → Prop
  | .files _ => False
  | .parents rest => D ∈ rest
  | .filled dir_id _ _ _ => dir_id = D
  | .counted dir_id _ _ _ _ index uploaded failed => dir_id = D ∧ uploaded = index ∧ failed = 0

/-- The call updates the directory. -/
def Frame.Updates (D : JsString) : Frame → Prop
  | .dir dir_id _ stage => dir_id = D ∧ stage.OnCourse
  | .resumed caller => caller.Owes D
  | _ => False

/-- The task updates the directory, or writes that an item of it is COMPLETED. -/
def Task.Owes (t : Tables) (D : JsString) (task : Task) : Prop :=
  ∃ frame ∈ task.top, frame.Updates D ∨
    (∃ row ∈ t.dirMapsOf D, frame.Writes row.is_dir row.file_id) ∨
      ∃ caller ∈ task.callers, caller.Owes D

/-- The directory is COMPLETED, or a task owes it an update. -/
def State.Attended (s : State) (D : JsString) : Prop :=
  s.tables.dirStatus D = .completed ∨ ∃ task ∈ s.tasks, task.Owes s.tables D

/-! ## The condition -/

/-- Of the directories that list the item, those that are ready are COMPLETED, or among the parents,
or will be updated by a caller. -/
def State.Tells (s : State) (task : Task) (is_dir : Bool) (id : JsString)
    (parents : List JsString) : Prop :=
  ∀ row ∈ s.tables.dirMaps, row.is_dir = is_dir → row.file_id = id →
    Ready s.tables s.caches row.dir_id →
      s.tables.dirStatus row.dir_id = .completed ∨ row.dir_id ∈ parents ∨
        ∃ caller ∈ task.callers, caller.Owes row.dir_id

/-- No entry that is noted is made again, an item is counted as what its row says, and when a
completion is written, those that wait for it are told. -/
def Frame.Told (s : State) (task : Task) : Frame → Prop
  | .file file_id _ (.findFile _) => ¬ s.caches.Noted false file_id
  | .file file_id updateParents (.write status) => status = .completed →
    s.Tells task false file_id
      (if updateParents then (s.caches.fileParents file_id).getD [] else [])
  | .dir dir_id _ .findMaps => ¬ s.caches.Noted true dir_id
  | .dir dir_id updateParents (.write status) => s.tables.db.findFile dir_id ≠ none ∧
    (status = .completed → s.Tells task true dir_id
      (if updateParents then (s.caches.dirParents dir_id).getD [] else []))
  | .resumed (.counted dir_id _ id is_dir _ _ _ _) =>
    ∃ row ∈ s.tables.dirMapsOf dir_id, row.file_id = id ∧ row.is_dir = is_dir
  | _ => True

/-- No call throws, and none finds that an item has failed which is noted. -/
def Outcome.Told (m : Caches) : Outcome → Prop
  | .throws => False
  | .await (.file file_id _ (.write status)) => status = .failed → ¬ m.Noted false file_id
  | .await (.dir dir_id _ (.write status)) => status = .failed → ¬ m.Noted true dir_id
  | _ => True

/-- The process does not end; and when the last row of a directory is written, the directory is
COMPLETED, or owed an update, or an item is not noted. -/
def Told (s : State) : Event → Prop
  | .resume i changed => ∀ task ∈ s.tasks[i]?, ∀ frame ∈ task.top,
    frame.Told s task ∧ (frame.next s.tables s.caches changed).2.2.Told s.caches
  | .upsert i j => ∀ r ∈ s.registrations[i]?, ∀ row ∈ r.pending[j]?,
    s.tables.Unmixed row ∧ (Ready (s.tables.upsert row) s.caches row.dir_id →
      State.Attended { s with tables := s.tables.upsert row } row.dir_id)
  | .exit => False
  | _ => True

/-! ## The invariant -/

/-- A task is about to write that a file or a directory is COMPLETED. -/
def State.Writes (s : State) (is_dir : Bool) (id : JsString) : Prop :=
  ∃ task ∈ s.tasks, ∃ frame ∈ task.top, frame.Writes is_dir id

/-- A status that is to be written of a directory is COMPLETED or FAILED. -/
def Frame.Final : Frame → Prop
  | .dir _ _ (.write status) => status = .completed ∨ status = .failed
  | _ => True

/-- What holds in runs in which each completion is told. -/
structure Waking (s : State) : Prop where
  attended : ∀ D, Ready s.tables s.caches D → s.Attended D
  /-- The completion of a directory that is noted is written, or about to be. -/
  dirFlag : ∀ D, ∀ dir ∈ s.caches.dirUploadCache D, dir.uploaded = true →
    s.tables.dirStatus D = .completed ∨ s.Writes true D
  file : ∀ f, s.tables.FileDone f ∨ s.Writes false f → s.caches.Noted false f
  dir : ∀ D, s.tables.dirStatus D = .completed ∨ s.Writes true D → s.caches.Noted true D
  final : ∀ task ∈ s.tasks, ∀ frame ∈ task.top, frame.Final

/-! ## What a step does to the caches -/

/-- The call that is on top after a step that does not return. -/
def Outcome.top : Outcome → Option Frame
  | .goOn frame => some frame
  | .await frame => some frame
  | .call _ callee => some callee
  | .returns => none
  | .throws => none

/-- What is noted stays noted, and what is new is about to be written. -/
structure CacheEffect (m m' : Caches) (outcome : Outcome) : Prop where
  kept : ∀ is_dir id, m.Noted is_dir id → m'.Noted is_dir id
  new : ∀ is_dir id, m'.Noted is_dir id →
    m.Noted is_dir id ∨ ∃ frame ∈ outcome.top, frame.Writes is_dir id
  dirFlag : ∀ D, ∀ dir ∈ m'.dirUploadCache D, dir.uploaded = true →
    (∃ old ∈ m.dirUploadCache D, old.uploaded = true) ∨
      ∃ frame ∈ outcome.top, frame.Writes true D
  noted : ∀ frame ∈ outcome.top, ∀ is_dir id, frame.Writes is_dir id → m'.Noted is_dir id
  final : ∀ frame ∈ outcome.top, frame.Final

/-- The call writes nothing. -/
def Frame.Plain (frame : Frame) : Prop :=
  frame.Final ∧ ∀ is_dir id, ¬ frame.Writes is_dir id

/-- The call that goes on writes nothing. -/
def Outcome.Plain : Outcome → Prop
  | .goOn frame => frame.Plain
  | .await frame => frame.Plain
  | .call _ callee => callee.Plain
  | _ => True

lemma Outcome.Plain.top {outcome : Outcome} (h : outcome.Plain) :
    ∀ frame ∈ outcome.top, frame.Plain := by
  intro frame hframe
  cases outcome with
  | goOn frame' =>
    cases hframe
    exact h
  | await frame' =>
    cases hframe
    exact h
  | call caller callee =>
    cases hframe
    exact h
  | returns => cases hframe
  | throws => cases hframe

lemma plain_pull (id : JsString) (is_dir : Bool) : (pull id is_dir).Plain := by
  unfold pull
  split
  · exact ⟨trivial, fun _ _ => not_false⟩
  · exact ⟨trivial, fun _ _ => not_false⟩

section CacheEffect

variable {m m' : Caches} {outcome : Outcome}

/-- A step that notes nothing has no effect on what is noted. -/
lemma CacheEffect.of_plain (hkept : ∀ is_dir id, m.Noted is_dir id → m'.Noted is_dir id)
    (hnew : ∀ is_dir id, m'.Noted is_dir id → m.Noted is_dir id)
    (hdir : ∀ D, ∀ dir ∈ m'.dirUploadCache D, dir.uploaded = true →
      ∃ old ∈ m.dirUploadCache D, old.uploaded = true)
    (hplain : outcome.Plain) : CacheEffect m m' outcome where
  kept := hkept
  new is_dir id hid := .inl (hnew is_dir id hid)
  dirFlag D dir hD huploaded := .inl (hdir D dir hD huploaded)
  noted frame hframe is_dir id hwrites := ((hplain.top frame hframe).2 is_dir id hwrites).elim
  final frame hframe := (hplain.top frame hframe).1

/-- A step that leaves the maps alone has no effect. -/
lemma CacheEffect.of_same (hsame : m.Same m') (hplain : outcome.Plain) :
    CacheEffect m m' outcome := by
  have hnoted : ∀ is_dir id, m'.Noted is_dir id ↔ m.Noted is_dir id := by
    intro is_dir id
    unfold Caches.Noted Caches.flags
    rw [hsame.file, hsame.dir]
  refine .of_plain (fun is_dir id => (hnoted is_dir id).mpr)
    (fun is_dir id => (hnoted is_dir id).mp) ?_ hplain
  intro D dir hD huploaded
  rw [hsame.dir] at hD
  exact ⟨dir, hD, huploaded⟩

/-- One entry of a directory is new. -/
lemma noted_of_dir {D : JsString} {dir : DirUpload}
    (hfile : m'.fileUploadCache = m.fileUploadCache)
    (hdir : m'.dirUploadCache = Function.update m.dirUploadCache D (some dir)) (is_dir : Bool)
    (id : JsString) : m'.Noted is_dir id ↔
      if is_dir = true ∧ id = D then dir.uploaded = true ∧ dir.failed = false
      else m.Noted is_dir id := by
  unfold Caches.Noted Caches.flags
  rw [hfile, hdir]
  cases is_dir with
  | false => simp
  | true =>
    by_cases hid : id = D
    · subst hid
      simp
    · simp [hid]

/-- One entry of a file is new. -/
lemma noted_of_file {f : JsString} {file : FileUpload}
    (hfile : m'.fileUploadCache = Function.update m.fileUploadCache f (some file))
    (hdir : m'.dirUploadCache = m.dirUploadCache) (is_dir : Bool) (id : JsString) :
    m'.Noted is_dir id ↔
      if is_dir = false ∧ id = f then file.uploaded = true ∧ file.failed = false
      else m.Noted is_dir id := by
  unfold Caches.Noted Caches.flags
  rw [hfile, hdir]
  cases is_dir with
  | true => simp
  | false =>
    by_cases hid : id = f
    · subst hid
      simp
    · simp [hid]

/-- An entry of a directory that is not noted is made or made again, or gets a row. -/
lemma CacheEffect.of_dir {D : JsString} {dir : DirUpload}
    (hfile : m'.fileUploadCache = m.fileUploadCache)
    (hdir : m'.dirUploadCache = Function.update m.dirUploadCache D (some dir))
    (hsame : (dir.uploaded = false ∧ ¬ m.Noted true D) ∨
      ∃ old ∈ m.dirUploadCache D, old.uploaded = dir.uploaded ∧ old.failed = dir.failed)
    (hplain : outcome.Plain) : CacheEffect m m' outcome := by
  -- the directory is noted as completed after the write just when it was before
  have hD : m.Noted true D ↔ dir.uploaded = true ∧ dir.failed = false := by
    rcases hsame with ⟨huploaded, hnot⟩ | ⟨old, hold, huploaded, hfailed⟩
    · rw [huploaded]
      simp [hnot]
    · unfold Caches.Noted Caches.flags
      rw [Option.mem_def.mp hold]
      simp [huploaded, hfailed]
  have hnoted : ∀ is_dir id, m'.Noted is_dir id ↔ m.Noted is_dir id := by
    intro is_dir id
    rw [noted_of_dir hfile hdir]
    split
    · rename_i h
      obtain ⟨rfl, rfl⟩ := h
      exact hD.symm
    · exact Iff.rfl
  refine .of_plain (fun is_dir id => (hnoted is_dir id).mpr)
    (fun is_dir id => (hnoted is_dir id).mp) ?_ hplain
  intro E new hE huploaded
  rw [hdir] at hE
  by_cases heq : E = D
  · subst heq
    obtain rfl : dir = new := by simpa using hE
    rcases hsame with ⟨hnone, -⟩ | ⟨old, hold, hsame, -⟩
    · rw [hnone] at huploaded
      cases huploaded
    · exact ⟨old, hold, hsame.trans huploaded⟩
  · rw [Function.update_of_ne heq] at hE
    exact ⟨new, hE, huploaded⟩

/-- A status of an item is noted, and is to be written. -/
lemma CacheEffect.of_status {is_dir : Bool} {x : JsString} {status : FileStatus} {frame : Frame}
    (hnoted : ∀ kind id, m'.Noted kind id ↔
      if kind = is_dir ∧ id = x then status = .completed else m.Noted kind id)
    (hframe : ∀ kind id, frame.Writes kind id ↔ x = id ∧ kind = is_dir ∧ status = .completed)
    (hstatus : status = .completed ∨ status = .failed)
    (htold : status = .failed → ¬ m.Noted is_dir x)
    (hdir : ∀ D, ∀ dir ∈ m'.dirUploadCache D, dir.uploaded = true →
      (∃ old ∈ m.dirUploadCache D, old.uploaded = true) ∨ frame.Writes true D)
    (hfinal : frame.Final) : CacheEffect m m' (.await frame) where
  kept kind id hid := by
    rw [hnoted]
    split
    · rename_i h
      obtain ⟨rfl, rfl⟩ := h
      exact hstatus.resolve_right fun hfailed => htold hfailed hid
    · exact hid
  new kind id hid := by
    rw [hnoted] at hid
    split at hid
    · rename_i h
      exact .inr ⟨frame, rfl, (hframe kind id).mpr ⟨h.2.symm, h.1, hid⟩⟩
    · exact .inl hid
  dirFlag D dir hD huploaded :=
    (hdir D dir hD huploaded).imp_right fun hwrites => ⟨frame, rfl, hwrites⟩
  noted frame' hframe' kind id hwrites := by
    cases hframe'
    obtain ⟨hid, hkind, hcompleted⟩ := (hframe kind id).mp hwrites
    rw [hnoted, if_pos ⟨hkind, hid.symm⟩]
    exact hcompleted
  final frame' hframe' := by
    cases hframe'
    exact hfinal

lemma uploaded_iff (status : FileStatus) :
    decide (status = .completed) = true ∧ decide (status = .failed) = false ↔
      status = .completed := by
  cases status <;> decide

/-- The status of a file is noted. -/
lemma CacheEffect.of_setFlags (hsame : m.Same m') {f : JsString} {file : FileUpload}
    (hf : m'.fileUploadCache f = some file) {status : FileStatus} (updateParents : Bool)
    (hstatus : status = .completed ∨ status = .failed)
    (htold : status = .failed → ¬ m.Noted false f) :
    CacheEffect m (m'.onFiles (Memory.setFlags f status))
      (.await (.file f updateParents (.write status))) := by
  have hcache : (m'.onFiles (Memory.setFlags f status)).fileUploadCache =
      Function.update m.fileUploadCache f
        (some ⟨status = .completed, status = .failed, file.chunk_ids⟩) := by
    rw [← hsame.file]
    exact congrArg Memory.fileUploadCache (setFlags_eq hf)
  refine @CacheEffect.of_status m _ false f status _ ?_ (fun _ _ => Iff.rfl) hstatus htold
    ?_ trivial
  · intro kind id
    rw [noted_of_file hcache hsame.dir, uploaded_iff]
  · intro D dir hD huploaded
    have hD : dir ∈ m'.dirUploadCache D := hD
    rw [hsame.dir] at hD
    exact .inl ⟨dir, hD, huploaded⟩

/-- The status of a directory is noted. -/
lemma CacheEffect.of_setDirFlags {D : JsString} {dir : DirUpload}
    (hD : m.dirUploadCache D = some dir) {status : FileStatus} (updateParents : Bool)
    (hstatus : status = .completed ∨ status = .failed)
    (htold : status = .failed → ¬ m.Noted true D) :
    CacheEffect m (m.setDirFlags D status)
      (.await (.dir D updateParents (.write status))) := by
  have hcache : (m.setDirFlags D status).dirUploadCache = Function.update m.dirUploadCache D
      (some { dir with uploaded := status = .completed, failed := status = .failed }) := by
    unfold Caches.setDirFlags
    rw [hD]
    rfl
  refine @CacheEffect.of_status m _ true D status _ ?_ (fun _ _ => Iff.rfl) hstatus htold ?_ hstatus
  · intro kind id
    rw [@noted_of_dir m (m.setDirFlags D status) D _ rfl hcache, uploaded_iff]
  · intro E new hE huploaded
    rw [hcache] at hE
    by_cases heq : E = D
    · subst heq
      obtain rfl := Option.some.inj ((Function.update_self E _ _).symm.trans hE)
      exact .inr ⟨rfl, rfl, of_decide_eq_true huploaded⟩
    · rw [Function.update_of_ne heq] at hE
      exact .inl ⟨new, hE, huploaded⟩

end CacheEffect

section Steps

variable {m m' : Caches} {f : JsString} {updateParents changed : Bool}

lemma plain_toParents (parents : Option (List JsString)) :
    (toParents updateParents parents).Plain := ⟨trivial, fun _ _ => not_false⟩

/-- Parents follow, if a number has changed. -/
lemma plain_ite_toParents (parents : Option (List JsString)) :
    (if changed then toParents updateParents parents else .returns).Plain := by
  split
  · exact plain_toParents parents
  · trivial

/-- An entry of a file that is not noted is made. -/
lemma CacheEffect.of_file {file : FileUpload} {outcome : Outcome}
    (hfile : m'.fileUploadCache = Function.update m.fileUploadCache f (some file))
    (hdir : m'.dirUploadCache = m.dirUploadCache) (huploaded : file.uploaded = false)
    (hnot : ¬ m.Noted false f) (hplain : outcome.Plain) :
    CacheEffect m m' outcome := by
  have hnoted : ∀ is_dir id, m'.Noted is_dir id ↔ m.Noted is_dir id := by
    intro is_dir id
    rw [noted_of_file hfile hdir]
    split
    · rename_i h
      obtain ⟨rfl, rfl⟩ := h
      rw [huploaded]
      simp [hnot]
    · exact Iff.rfl
  refine .of_plain (fun is_dir id => (hnoted is_dir id).mpr)
    (fun is_dir id => (hnoted is_dir id).mp) ?_ hplain
  intro D dir hD h
  rw [hdir] at hD
  exact ⟨dir, hD, h⟩

/-- The decision on a file is noted and written. -/
lemma effect_decideFile (hsame : m.Same m') (counted : List (JsString × ChunkStatus))
    (htold : (decideFile f updateParents changed counted m').2.Told m) :
    CacheEffect m (decideFile f updateParents changed counted m').1
      (decideFile f updateParents changed counted m').2 := by
  unfold decideFile at htold ⊢
  cases hf : m'.fileUploadCache f with
  | none =>
    rw [hf] at htold
    exact htold.elim
  | some file =>
    cases hstatus : Memory.finalStatus counted with
    | some status =>
      simp only [hf, hstatus] at htold ⊢
      exact .of_setFlags hsame hf updateParents (finalStatus_eq_or hstatus) htold
    | none =>
      simp only
      exact .of_same hsame (plain_ite_toParents _)

/-- The count of the chunks goes on or is decided. -/
lemma effect_countChunks (hsame : m.Same m') (counted : List (JsString × ChunkStatus))
    (todo : List JsString)
    (htold : (countChunks f updateParents changed counted todo m').2.Told m) :
    CacheEffect m (countChunks f updateParents changed counted todo m').1
      (countChunks f updateParents changed counted todo m').2 := by
  unfold countChunks at htold ⊢
  split
  · exact .of_same hsame ⟨trivial, fun _ _ => not_false⟩
  · rename_i heq
    rw [heq] at htold
    exact effect_decideFile hsame _ htold

end Steps

/-! ## What a step of a call does to the caches -/

section Effects

variable {s : State} {task : Task} {updateParents changed : Bool}

/-- What a step of the update of a file does to the maps. -/
lemma effect_file {f : JsString} {stage : FileStage}
    (htold : Frame.Told s task (.file f updateParents stage))
    (hout : (fileNext s.tables s.caches changed f updateParents stage).2.2.Told s.caches) :
    CacheEffect s.caches (fileNext s.tables s.caches changed f updateParents stage).2.1
      (fileNext s.tables s.caches changed f updateParents stage).2.2 := by
  cases stage with
  | start =>
    apply CacheEffect.of_same (.refl _)
    simp only [fileNext]
    split
    · trivial
    · split
      · exact ⟨trivial, fun _ _ => not_false⟩
      · exact ⟨trivial, fun _ _ => not_false⟩
  | findMaps =>
    exact .of_same (.refl _) ⟨trivial, fun _ _ => not_false⟩
  | findFile chunkIds =>
    by_cases hrow : (s.tables.db.findFile f).isSome = true
    · rw [show fileNext s.tables s.caches changed f updateParents (.findFile chunkIds) = _ from
        if_pos hrow]
      exact @CacheEffect.of_file _ _ f { chunk_ids := chunkIds } _ addParents_other.1 rfl rfl htold
        ⟨trivial, fun _ _ => not_false⟩
    · rw [show fileNext s.tables s.caches changed f updateParents (.findFile chunkIds) = _ from
        if_neg hrow] at hout
      -- an update of a file without a row ends here, which the condition excludes
      exact hout.elim
  | check =>
    cases hf : s.caches.fileUploadCache f with
    | none =>
      simp only [fileNext, hf] at hout
      exact hout.elim
    | some file =>
      simp only [fileNext, hf] at hout ⊢
      split
      · exact .of_same (.refl _) trivial
      · rename_i hundecided
        rw [if_neg hundecided] at hout
        exact effect_countChunks (.refl _) _ _ hout
  | count counted c todo =>
    cases hstatus : s.tables.db.chunkStatus c with
    | none =>
      simp only [fileNext, hstatus] at hout
      exact hout.elim
    | some status =>
      simp only [fileNext, hstatus] at hout ⊢
      exact effect_countChunks (.onFiles rfl) _ _ hout
  | write status => exact .of_same (.refl _) (plain_toParents _)

/-- The decision on a directory is noted and written. -/
lemma effect_decideDir {D : JsString} {dir : DirUpload} {index uploaded failed : ℕ}
    (hD : s.caches.dirUploadCache D = some dir)
    (hout : (decideDir D updateParents changed index uploaded failed s.caches).2.Told s.caches) :
    CacheEffect s.caches (decideDir D updateParents changed index uploaded failed s.caches).1
      (decideDir D updateParents changed index uploaded failed s.caches).2 := by
  unfold decideDir at hout ⊢
  split
  · rename_i hfailed
    rw [if_pos hfailed] at hout
    exact .of_setDirFlags hD updateParents (.inr rfl) hout
  · split
    · exact .of_setDirFlags hD updateParents (.inl rfl) fun h => by cases h
    · exact .of_same (.refl _) (plain_ite_toParents _)

lemma effect_push {D : JsString} {row : DirMap} {outcome : Outcome}
    (hplain : outcome.Plain) :
    CacheEffect s.caches (s.caches.push D row) outcome := by
  cases hD : s.caches.dirUploadCache D with
  | none =>
    have heq : s.caches.push D row = s.caches := by
      unfold Caches.push
      rw [hD]
    rw [heq]
    exact .of_same (.refl _) hplain
  | some dir =>
    refine @CacheEffect.of_dir _ _ _ D
      { dir with is_dir := Function.update dir.is_dir row.file_id row.is_dir } ?_ ?_
      (.inr ⟨dir, hD, rfl, rfl⟩) hplain
    · unfold Caches.push
      rw [hD]
    · unfold Caches.push
      rw [hD]

/-- What a step of the update of a directory does to the maps. -/
lemma effect_dir {D : JsString} {stage : DirStage}
    (htold : Frame.Told s task (.dir D updateParents stage))
    (hout : (dirNext s.tables s.caches changed D updateParents stage).2.2.Told s.caches) :
    CacheEffect s.caches (dirNext s.tables s.caches changed D updateParents stage).2.1
      (dirNext s.tables s.caches changed D updateParents stage).2.2 := by
  cases stage with
  | start =>
    apply CacheEffect.of_same (.refl _)
    simp only [dirNext]
    split
    · trivial
    · split
      · exact ⟨trivial, fun _ _ => not_false⟩
      · exact ⟨trivial, fun _ _ => not_false⟩
  | findMaps =>
    exact @CacheEffect.of_dir _ _ _ D { file_ids := s.caches.arrays.length } rfl rfl
      (.inl ⟨rfl, htold⟩) ⟨trivial, fun _ _ => not_false⟩
  | fill rows =>
    cases rows with
    | nil =>
      exact .of_same (.refl _) ⟨trivial, fun _ _ => not_false⟩
    | cons row rows =>
      apply effect_push
      simp only [dirNext]
      split
      · exact ⟨trivial, fun _ _ => not_false⟩
      -- the item is pulled in before its parents are told
      · exact plain_pull _ _
  | check =>
    cases hD : s.caches.dirUploadCache D with
    | none =>
      simp only [dirNext, hD] at hout
      exact hout.elim
    | some dir =>
      simp only [dirNext, hD]
      split
      · exact .of_same (.refl _) trivial
      · exact .of_same (.refl _) ⟨trivial, fun _ _ => not_false⟩
  | count file_ids index uploaded failed =>
    cases hD : s.caches.dirUploadCache D with
    | none =>
      simp only [dirNext, hD] at hout
      exact hout.elim
    | some dir =>
      cases hid : (s.caches.fileIds file_ids)[index]? with
      | none =>
        simp only [dirNext, hD, hid] at hout ⊢
        exact effect_decideDir hD hout
      | some id =>
        simp only [dirNext, hD, hid]
        apply CacheEffect.of_same (.refl _)
        split
        · exact ⟨trivial, fun _ _ => not_false⟩
        · exact plain_pull _ _
  | write status => exact .of_same (.refl _) (plain_toParents _)

/-- What a caller that goes on does to the maps. -/
lemma effect_caller {caller : Caller}
    (hout : (caller.next s.tables s.caches).2.2.Told s.caches) :
    CacheEffect s.caches (caller.next s.tables s.caches).2.1
      (caller.next s.tables s.caches).2.2 := by
  cases caller with
  | files rest =>
    cases rest with
    | nil => exact .of_same (.refl _) trivial
    | cons f rest => exact .of_same (.refl _) ⟨trivial, fun _ _ => not_false⟩
  | parents rest =>
    cases rest with
    | nil => exact .of_same (.refl _) trivial
    | cons D rest => exact .of_same (.refl _) ⟨trivial, fun _ _ => not_false⟩
  | filled D updateParents row rows =>
    exact .of_same (.addParentOf _ row) ⟨trivial, fun _ _ => not_false⟩
  | counted D updateParents id is_dir file_ids index uploaded failed =>
    cases hflags : s.caches.flags id is_dir with
    | none =>
      simp only [Caller.next, hflags] at hout
      exact hout.elim
    | some flags =>
      simp only [Caller.next, hflags]
      exact .of_same (.refl _) ⟨trivial, fun _ _ => not_false⟩

/-- A step of a call. -/
lemma effect_frame {frame : Frame} (htold : frame.Told s task)
    (hout : (frame.next s.tables s.caches changed).2.2.Told s.caches) :
    CacheEffect s.caches (frame.next s.tables s.caches changed).2.1
      (frame.next s.tables s.caches changed).2.2 := by
  cases frame with
  | realUpdateChunkProgress c =>
    have hsame := @Caches.Same.onFiles s.caches
      (fun files => files.setChunk c (some .completed)) rfl
    simp only [Frame.next]
    split
    · exact .of_same hsame ⟨trivial, fun _ _ => not_false⟩
    · exact .of_same hsame ⟨trivial, fun _ _ => not_false⟩
  | findParents c =>
    have hsame := @Caches.Same.onFiles s.caches
      (fun files => files.addFiles (s.tables.db.fileIdsOf c) c) addFiles_other.1
    simp only [Frame.next]
    split
    · exact .of_same hsame trivial
    · exact .of_same hsame ⟨trivial, fun _ _ => not_false⟩
  | file f updateParents stage => exact effect_file htold hout
  | dir D updateParents stage => exact effect_dir htold hout
  | resumed caller => exact effect_caller hout

end Effects

/-! ## What a step of a call does to the tables -/

/-- What is COMPLETED stays so, and what is new is what the call writes. -/
structure TableEffect (t t' : Tables) (frame : Frame) : Prop where
  rows : t'.dirMaps = t.dirMaps
  file : ∀ f, t'.FileDone f → t.FileDone f ∨ frame.Writes false f
  dir : ∀ D, t'.dirStatus D = .completed → t.dirStatus D = .completed ∨ frame.Writes true D
  kept : ∀ D, t.dirStatus D = .completed → t'.dirStatus D = .completed
  written : ∀ D, frame.Writes true D → t'.dirStatus D = .completed

lemma dirStatus_self {t : Tables} {D : JsString} (hrow : t.db.findFile D ≠ none) :
    (t.updateFileDirUlStatus D .completed).dirStatus D = .completed := by
  unfold Tables.updateFileDirUlStatus
  have hsome : (t.db.findFile D).isSome = true := Option.isSome_iff_ne_none.mpr hrow
  rw [hsome]
  exact Function.update_self D _ _

/-- Only a write of a status changes the tables. -/
lemma tables_next {t : Tables} {m : Caches} {changed : Bool} {frame : Frame}
    (hfile : ∀ f updateParents status, frame ≠ .file f updateParents (.write status))
    (hdir : ∀ D updateParents status, frame ≠ .dir D updateParents (.write status)) :
    (frame.next t m changed).1 = t := by
  cases frame with
  | realUpdateChunkProgress c =>
    simp only [Frame.next]
    split <;> rfl
  | findParents c =>
    simp only [Frame.next]
    split <;> rfl
  | file f updateParents stage =>
    cases stage with
    | write status => exact (hfile f updateParents status rfl).elim
    | findFile chunkIds =>
      simp only [Frame.next, fileNext]
      split <;> rfl
    | check =>
      simp only [Frame.next, fileNext]
      split
      · rfl
      · split <;> rfl
    | count counted c todo =>
      simp only [Frame.next, fileNext]
      split <;> rfl
    | _ => rfl
  | dir D updateParents stage =>
    cases stage with
    | write status => exact (hdir D updateParents status rfl).elim
    | fill rows => cases rows <;> rfl
    | check =>
      simp only [Frame.next, dirNext]
      split
      · rfl
      · split <;> rfl
    | count file_ids index uploaded failed =>
      simp only [Frame.next, dirNext]
      split <;> rfl
    | _ => rfl
  | resumed caller =>
    cases caller with
    | files rest => cases rest <;> rfl
    | parents rest => cases rest <;> rfl
    | filled D updateParents row rows => rfl
    | counted D updateParents id is_dir file_ids index uploaded failed =>
      -- whatever the caller goes on with, no table changes
      simp only [Frame.next, Caller.next]
      split <;> rfl

/-- What the write of a file does to the tables. -/
lemma tables_write_file (t : Tables) (f : JsString) (updateParents : Bool) (status : FileStatus) :
    TableEffect t (t.updateFileUlStatus f status) (.file f updateParents (.write status)) := by
  refine ⟨rfl, ?_, fun _ => .inl, fun _ => id, ?_⟩
  · intro g hg
    have hg : (t.db.updateFileUlStatus f status).fileStatus g = some .completed := hg
    rw [fileStatus_write] at hg
    obtain ⟨old, hold, hnew⟩ := Option.map_eq_some_iff.mp hg
    split at hnew
    · rename_i h
      exact .inr ⟨h.1.symm, rfl, hnew⟩
    · left
      show t.db.fileStatus g = _
      rw [hold, hnew]
  · rintro D ⟨-, hkind, -⟩
    cases hkind

/-- What the write of a directory does to the tables. -/
lemma tables_write_dir {t : Tables} {D : JsString} (updateParents : Bool) {status : FileStatus}
    (hrow : t.db.findFile D ≠ none) (hstatus : status = .completed ∨ status = .failed) :
    TableEffect t (t.updateFileDirUlStatus D status) (.dir D updateParents (.write status)) := by
  refine ⟨updateFileDirUlStatus_dirMaps, ?_, ?_, ?_, ?_⟩
  · intro g hg
    left
    have hg : (t.updateFileDirUlStatus D status).db.fileStatus g = some .completed := hg
    rw [updateFileDirUlStatus_db] at hg
    exact hg
  · intro E hE
    refine (completed_of_updateFileDirUlStatus hE).imp_right ?_
    rintro ⟨rfl, rfl⟩
    exact ⟨rfl, rfl, rfl⟩
  · exact fun E hE => updateFileDirUlStatus_kept hstatus hE
  · rintro E ⟨rfl, -, rfl⟩
    exact dirStatus_self hrow

/-- A step of a call. -/
lemma tables_frame {s : State} {task : Task} {frame : Frame} {changed : Bool}
    (htold : frame.Told s task) (hfinal : frame.Final) :
    TableEffect s.tables (frame.next s.tables s.caches changed).1 frame := by
  by_cases hfile : ∃ f updateParents status, frame = .file f updateParents (.write status)
  · obtain ⟨f, updateParents, status, rfl⟩ := hfile
    exact tables_write_file s.tables f updateParents status
  by_cases hdir : ∃ D updateParents status, frame = .dir D updateParents (.write status)
  · obtain ⟨D, updateParents, status, rfl⟩ := hdir
    exact tables_write_dir updateParents htold.1 hfinal
  push Not at hfile hdir
  have hwrites : ∀ D, ¬ frame.Writes true D := by
    intro D hwrites
    unfold Frame.Writes at hwrites
    split at hwrites
    · exact hfile _ _ _ rfl
    · exact hdir _ _ _ rfl
    · exact hwrites
  rw [tables_next hfile hdir]
  exact ⟨rfl, fun _ => .inl, fun _ => .inl, fun _ => id, fun D hD => (hwrites D hD).elim⟩

end PointNetwork.Directories
