import PointNetwork.Uploader.DirectoryCompletion
import PointNetwork.Uploader.DirectoryEffects
import PointNetwork.Uploader.GenuineTheorems

/-!
# The completion of directories is reached

What a task owes to a directory it does, or goes on owing, and no other event takes an update away.
In a run that meets the condition the directories are COMPLETED when nothing is left to do
(`reached_of_told`). Without the condition one may never be (`never_reached`).
-/

namespace PointNetwork.Directories

open Js Machine Storage Uploader

/-! ## What is owed is done or goes on -/

section Owes

variable {t : Tables} {D : JsString} {task : Task} {outcome : Outcome}

/-- A caller that will update the directory is still there after the step, or goes on. -/
lemma owes_of_callers (h : ∃ caller ∈ task.callers, caller.Owes D) (hthrows : outcome ≠ .throws) :
    (task.after outcome).Owes t D := by
  cases outcome with
  | goOn frame => exact ⟨frame, rfl, .inr (.inr h)⟩
  | await frame => exact ⟨frame, rfl, .inr (.inr h)⟩
  | call caller callee =>
    obtain ⟨caller', hmem, howes⟩ := h
    exact ⟨callee, rfl, .inr (.inr ⟨caller', List.mem_cons_of_mem caller hmem, howes⟩)⟩
  | returns =>
    obtain ⟨caller, hmem, howes⟩ := h
    unfold Task.Owes Task.after
    cases hcallers : task.callers with
    | nil =>
      rw [hcallers] at hmem
      cases hmem
    | cons first rest =>
      rw [hcallers] at hmem
      refine ⟨.resumed first, rfl, ?_⟩
      rcases List.mem_cons.mp hmem with rfl | hmem
      · exact .inl howes
      · exact .inr (.inr ⟨caller, hmem, howes⟩)
  | throws => exact (hthrows rfl).elim

lemma owes_goOn {frame : Frame} (h : frame.Updates D) : (task.after (.goOn frame)).Owes t D :=
  ⟨frame, rfl, .inl h⟩

lemma owes_await {frame : Frame} (h : frame.Updates D) : (task.after (.await frame)).Owes t D :=
  ⟨frame, rfl, .inl h⟩

/-- A directory that is called for, or owed by a caller, goes on being owed. -/
lemma owes_call {caller : Caller} {callee : Frame} (h : callee.Updates D ∨ caller.Owes D) :
    (task.after (.call caller callee)).Owes t D := by
  refine ⟨callee, rfl, h.imp_right fun howes => .inr ⟨caller, List.mem_cons_self, howes⟩⟩

/-- The directory is among the parents, or a caller will update it. -/
lemma owes_toParents {updateParents : Bool} {parents : Option (List JsString)}
    (h : D ∈ (if updateParents then parents.getD [] else []) ∨
      ∃ caller ∈ task.callers, caller.Owes D) :
    (task.after (toParents updateParents parents)).Owes t D := by
  rcases h with hmem | hcallers
  · exact owes_goOn hmem
  · exact owes_of_callers hcallers fun h => by cases h

variable {s : State} {updateParents changed : Bool}

/-- An update of the directory goes on, or finds that it has been done. -/
lemma owes_of_dir (inv : Waking s) {stage : DirStage} (hcourse : stage.OnCourse)
    (hout : (dirNext s.tables s.caches changed D updateParents stage).2.2.Told s.caches) :
    (∃ status, stage = .write status) ∨ s.tables.dirStatus D = .completed ∨ s.Writes true D ∨
      (task.after (dirNext s.tables s.caches changed D updateParents stage).2.2).Owes t D := by
  cases stage with
  | start =>
    simp only [dirNext] at hout ⊢
    right; right; right
    split
    · rename_i hempty
      rw [if_pos hempty] at hout
      exact hout.elim
    · split
      · exact owes_goOn ⟨rfl, trivial⟩
      · exact owes_await ⟨rfl, trivial⟩
  | findMaps => exact .inr (.inr (.inr (owes_goOn ⟨rfl, trivial⟩)))
  | fill rows =>
    right; right; right
    cases rows with
    | nil => exact owes_goOn ⟨rfl, trivial⟩
    | cons row rows =>
      simp only [dirNext]
      split
      · exact owes_goOn rfl
      · exact owes_call (.inr rfl)
  | check =>
    cases hD : s.caches.dirUploadCache D with
    | none =>
      simp only [dirNext, hD] at hout
      exact hout.elim
    | some dir =>
      simp only [dirNext, hD]
      by_cases huploaded : dir.uploaded = true
      -- the flag is there already: the status is written, or is about to be
      · rcases inv.dirFlag D dir hD huploaded with hdone | hwrites
        · exact .inr (.inl hdone)
        · exact .inr (.inr (.inl hwrites))
      · rw [if_neg huploaded]
        exact .inr (.inr (.inr (owes_goOn ⟨rfl, rfl, rfl⟩)))
  | count file_ids index uploaded failed =>
    obtain ⟨rfl, rfl⟩ := hcourse
    right; right; right
    cases hD : s.caches.dirUploadCache D with
    | none =>
      simp only [dirNext, hD] at hout
      exact hout.elim
    | some dir =>
      cases hid : (s.caches.fileIds file_ids)[uploaded]? with
      | none =>
        simp only [dirNext, hD, hid]
        -- all items have been counted as uploaded, so that COMPLETED is written next
        unfold decideDir
        rw [if_neg (Nat.lt_irrefl 0), if_pos rfl]
        exact owes_await ⟨rfl, rfl⟩
      | some id =>
        simp only [dirNext, hD, hid]
        split
        · exact owes_goOn ⟨rfl, rfl, rfl⟩
        · exact owes_call (.inr ⟨rfl, rfl, rfl⟩)
  | write status => exact .inl ⟨status, rfl⟩

/-- A caller that goes on with an update of the directory. -/
lemma owes_of_caller {caller : Caller} (hready : Ready s.tables s.caches D)
    (htold : Frame.Told s task (.resumed caller)) (howes : caller.Owes D) :
    (task.after (caller.next s.tables s.caches).2.2).Owes t D := by
  cases caller with
  | files rest => exact howes.elim
  | parents rest =>
    cases rest with
    | nil => cases howes
    | cons E rest =>
      rcases List.mem_cons.mp howes with rfl | hmem
      · exact owes_call (.inl ⟨rfl, trivial⟩)
      · exact owes_call (.inr hmem)
  | filled E updateParents row rows =>
    obtain rfl : E = D := howes
    exact owes_goOn ⟨rfl, trivial⟩
  | counted E updateParents id is_dir file_ids index uploaded failed =>
    obtain ⟨rfl, rfl, rfl⟩ := howes
    obtain ⟨row, hrow, rfl, rfl⟩ := htold
    have hnoted : s.caches.flags row.file_id row.is_dir = some (true, false) := hready.2 row hrow
    simp only [Caller.next, hnoted]
    exact owes_goOn ⟨rfl, rfl, rfl⟩

end Owes

/-! ## The invariant is kept -/

/-- The call of the outcome is on top. -/
lemma top_after {task : Task} {outcome : Outcome} {frame : Frame} (h : frame ∈ outcome.top) :
    frame ∈ (task.after outcome).top := by
  cases outcome with
  | goOn frame' => exact h
  | await frame' => exact h
  | call caller callee => exact h
  | returns => cases h
  | throws => cases h

/-- On top after a step is the call it goes on with, or one that has been awaited. -/
lemma of_top_after {task : Task} {outcome : Outcome} {frame : Frame}
    (h : frame ∈ (task.after outcome).top) :
    frame ∈ outcome.top ∨ ∃ caller, frame = .resumed caller := by
  cases outcome with
  | goOn frame' => exact .inl h
  | await frame' => exact .inl h
  | call caller callee => exact .inl h
  | returns =>
    obtain ⟨caller, -, rfl⟩ := Option.map_eq_some_iff.mp h
    exact .inr ⟨caller, rfl⟩
  | throws => cases h

/-- What a task owes depends on the rows of the directory. -/
lemma Task.Owes.mono {t t' : Tables} {D : JsString} {task : Task}
    (hrows : ∀ row ∈ t.dirMapsOf D, row ∈ t'.dirMapsOf D) (h : task.Owes t D) :
    task.Owes t' D := by
  obtain ⟨frame, hframe, hupdates | ⟨row, hrow, hwrites⟩ | hcallers⟩ := h
  · exact ⟨frame, hframe, .inl hupdates⟩
  · exact ⟨frame, hframe, .inr (.inl ⟨row, hrows row hrow, hwrites⟩)⟩
  · exact ⟨frame, hframe, .inr (.inr hcallers)⟩

/-- The task that is about to write the directory owes it that. -/
lemma attended_of_writes {s : State} {t : Tables} {D : JsString} (h : s.Writes true D) :
    ∃ task ∈ s.tasks, task.Owes t D := by
  obtain ⟨task, hmem, frame, hframe, hwrites⟩ := h
  refine ⟨task, hmem, frame, hframe, .inl ?_⟩
  cases frame with
  | dir E updateParents stage =>
    cases stage with
    | write status => exact ⟨hwrites.1, hwrites.2.2⟩
    | _ => exact hwrites.elim
  | file f updateParents stage =>
    cases stage with
    | write status => exact Bool.noConfusion hwrites.2.1
    | _ => exact hwrites.elim
  | _ => exact hwrites.elim

section Resume

variable {s : State} (inv : Waking s) {i : ℕ} {task : Task} {frame : Frame} {changed : Bool}
  (htop : task.top = some frame) (htold : frame.Told s task)
  (hout : (frame.next s.tables s.caches changed).2.2.Told s.caches)

include inv htop htold hout

/-- What the task of a step owes to a directory. -/
lemma Waking.owes_next {D : JsString} (hfinal : frame.Final)
    (hready : Ready s.tables s.caches D) (howes : task.Owes s.tables D) :
    (frame.next s.tables s.caches changed).1.dirStatus D = .completed ∨ s.Writes true D ∨
      (task.after (frame.next s.tables s.caches changed).2.2).Owes
        (frame.next s.tables s.caches changed).1 D := by
  have htables : TableEffect s.tables (frame.next s.tables s.caches changed).1 frame :=
    tables_frame htold hfinal
  have hthrows : (frame.next s.tables s.caches changed).2.2 ≠ .throws := by
    intro h
    rw [h] at hout
    exact hout
  obtain ⟨frame', hframe', howes⟩ := howes
  obtain rfl : frame = frame' := Option.some.inj (htop.symm.trans hframe')
  rcases howes with hupdates | ⟨row, hrow, hwrites⟩ | hcallers
  -- the task updates the directory itself
  · cases frame with
    | dir E updateParents stage =>
      obtain ⟨rfl, hcourse⟩ := hupdates
      have hcases := @owes_of_dir
        (Frame.next s.tables s.caches changed (.dir E updateParents stage)).1 E task s
        updateParents changed inv stage hcourse hout
      rcases hcases with ⟨status, rfl⟩ | hdone | hwrites | howes
      · exact .inl (htables.written E ⟨rfl, rfl, hcourse⟩)
      · exact .inl (htables.kept E hdone)
      · exact .inr (.inl hwrites)
      · exact .inr (.inr howes)
    | resumed caller => exact .inr (.inr (owes_of_caller hready htold hupdates))
    | _ => exact hupdates.elim
  -- it writes the status of an item of the directory
  · obtain ⟨hmem, hdir⟩ := List.mem_filter.mp hrow
    have hdir : row.dir_id = D := of_decide_eq_true hdir
    subst hdir
    cases frame with
    | file f updateParents stage =>
      cases stage with
      | write status =>
        obtain ⟨rfl, hkind, rfl⟩ := hwrites
        rcases htold rfl row hmem hkind rfl hready with hdone | hparents
        · exact .inl (htables.kept _ hdone)
        · exact .inr (.inr (owes_toParents hparents))
      | _ => exact hwrites.elim
    | dir E updateParents stage =>
      cases stage with
      | write status =>
        obtain ⟨rfl, hkind, rfl⟩ := hwrites
        rcases htold.2 rfl row hmem hkind rfl hready with hdone | hparents
        · exact .inl (htables.kept _ hdone)
        · exact .inr (.inr (owes_toParents hparents))
      | _ => exact hwrites.elim
    | _ => exact hwrites.elim
  -- one of its callers is to come to the directory
  · exact .inr (.inr (owes_of_callers hcallers hthrows))

variable (htask : s.tasks[i]? = some task)

include htask

omit inv hout in
/-- What the task of the step was about to write is written; the others still are about to. -/
lemma Frame.Told.writes_next {is_dir : Bool} {id : JsString} (hwrites : s.Writes is_dir id) :
    frame.Writes is_dir id ∨
      (s.next i task (frame.next s.tables s.caches changed)).Writes is_dir id := by
  obtain ⟨task', hmem, frame', hframe', hwrites⟩ := hwrites
  by_cases hsame : task' = task
  · subst hsame
    obtain rfl : frame = frame' := Option.some.inj (htop.symm.trans hframe')
    exact .inl hwrites
  · exact .inr ⟨task', mem_next_of_ne htask hmem hsame, frame', hframe', hwrites⟩

omit inv htop htask in
/-- A task that writes after the step has done so before it, or notes what it writes. -/
lemma Frame.Told.writes_before {is_dir : Bool} {id : JsString}
    (hwrites : (s.next i task (frame.next s.tables s.caches changed)).Writes is_dir id) :
    s.Writes is_dir id ∨ (frame.next s.tables s.caches changed).2.1.Noted is_dir id := by
  obtain ⟨task', hmem, frame', hframe', hwrites⟩ := hwrites
  rcases mem_tasks_of_mem_next hmem with hmem | rfl
  · exact .inl ⟨task', hmem, frame', hframe', hwrites⟩
  · rcases of_top_after hframe' with hframe' | ⟨caller, rfl⟩
    · exact .inr ((effect_frame htold hout).noted frame' hframe' is_dir id hwrites)
    · exact hwrites.elim

omit hout in
/-- A directory that is COMPLETED, or about to be, still is. -/
lemma Waking.dir_next {D : JsString} (h : s.tables.dirStatus D = .completed ∨ s.Writes true D) :
    (frame.next s.tables s.caches changed).1.dirStatus D = .completed ∨
      (s.next i task (frame.next s.tables s.caches changed)).Writes true D := by
  have htables : TableEffect s.tables (frame.next s.tables s.caches changed).1 frame :=
    tables_frame htold (inv.final task (List.mem_of_getElem? htask) frame htop)
  rcases h with hdone | hwrites
  · exact .inl (htables.kept D hdone)
  · rcases htold.writes_next htop htask hwrites with hframe | hwrites
    · exact .inl (htables.written D hframe)
    · exact .inr hwrites

/-- A directory that is ready is attended to after the step: it was ready before, or an item that
has been noted in the step is about to be written. -/
lemma Waking.attended_next {D : JsString}
    (hready : Ready (frame.next s.tables s.caches changed).1
      (frame.next s.tables s.caches changed).2.1 D) :
    (s.next i task (frame.next s.tables s.caches changed)).Attended D := by
  have hfinal := inv.final task (List.mem_of_getElem? htask) frame htop
  have htables : TableEffect s.tables (frame.next s.tables s.caches changed).1 frame :=
    tables_frame htold hfinal
  have hcaches := effect_frame htold hout
  have hmaps := dirMapsOf_congr htables.rows
  obtain ⟨hown, hnoted⟩ := hready
  rw [hmaps] at hown hnoted
  by_cases hready : Ready s.tables s.caches D
  · rcases inv.attended D hready with hdone | ⟨task', hmem, howes⟩
    · exact .inl (htables.kept D hdone)
    · by_cases hsame : task' = task
      · subst hsame
        rcases inv.owes_next htop htold hout hfinal hready howes with hdone | hwrites | howes
        · exact .inl hdone
        · exact (inv.dir_next htop htold htask (.inr hwrites)).imp_right attended_of_writes
        · exact .inr ⟨_, mem_next htask, howes⟩
      · refine .inr ⟨task', mem_next_of_ne htask hmem hsame, howes.mono ?_⟩
        intro row hrow
        exact (hmaps D).symm ▸ hrow
  · obtain ⟨row, hrow, hnew⟩ : ∃ row ∈ s.tables.dirMapsOf D,
        ¬ s.caches.Noted row.is_dir row.file_id := by
      by_contra hall
      push Not at hall
      exact hready ⟨hown, hall⟩
    obtain ⟨frame', hframe', hwrites⟩ :=
      (hcaches.new row.is_dir row.file_id (hnoted row hrow)).resolve_left hnew
    refine .inr ⟨_, mem_next htask, frame', top_after hframe', .inr (.inl ⟨row, ?_, hwrites⟩)⟩
    exact (hmaps D).symm ▸ hrow

/-- A step of a task keeps the invariant. -/
lemma Waking.resume : Waking (s.next i task (frame.next s.tables s.caches changed)) := by
  have hfinal := inv.final task (List.mem_of_getElem? htask) frame htop
  have htables : TableEffect s.tables (frame.next s.tables s.caches changed).1 frame :=
    tables_frame htold hfinal
  have hcaches := effect_frame htold hout
  have hself : ∀ is_dir id, frame.Writes is_dir id → s.Writes is_dir id :=
    fun _ _ h => ⟨task, List.mem_of_getElem? htask, frame, htop, h⟩
  refine ⟨fun D => inv.attended_next htop htold hout htask, ?_, ?_, ?_, ?_⟩
  · intro D dir hD huploaded
    rcases hcaches.dirFlag D dir hD huploaded with
      ⟨old, hold, huploaded⟩ | ⟨frame', hframe', hwrites⟩
    · exact inv.dir_next htop htold htask (inv.dirFlag D old hold huploaded)
    · exact .inr ⟨_, mem_next htask, frame', top_after hframe', hwrites⟩
  · rintro f (hdone | hwrites)
    · apply hcaches.kept
      rcases htables.file f hdone with hdone | hframe
      · exact inv.file f (.inl hdone)
      · exact inv.file f (.inr (hself _ _ hframe))
    -- a task about to write was so before, or notes the row in this step
    · rcases htold.writes_before hout hwrites with hwrites | hnoted
      · exact hcaches.kept _ _ (inv.file f (.inr hwrites))
      · exact hnoted
  · rintro D (hdone | hwrites)
    · apply hcaches.kept
      rcases htables.dir D hdone with hdone | hframe
      · exact inv.dir D (.inl hdone)
      · exact inv.dir D (.inr (hself _ _ hframe))
    · rcases htold.writes_before hout hwrites with hwrites | hnoted
      · exact hcaches.kept _ _ (inv.dir D (.inr hwrites))
      · exact hnoted
  · intro task' hmem frame' hframe'
    rcases mem_tasks_of_mem_next hmem with hmem | rfl
    · exact inv.final task' hmem frame' hframe'
    · rcases of_top_after hframe' with hframe' | ⟨caller, rfl⟩
      · exact hcaches.final frame' hframe'
      · trivial

end Resume

section Events

variable {s s' : State} (inv : Waking s)

include inv

/-- An event that leaves the entries, the rows and the completions as they are. The tasks stay, and
there may be new ones, which write nothing. -/
lemma Waking.of_same (hrows : s'.tables.dirMaps = s.tables.dirMaps)
    (hstatus : s'.tables.dirStatus = s.tables.dirStatus)
    (hfile : ∀ f, s'.tables.FileDone f → s.tables.FileDone f)
    (hsame : s.caches.Same s'.caches) (hold : ∀ task ∈ s.tasks, task ∈ s'.tasks)
    (hnew : ∀ task ∈ s'.tasks, task ∈ s.tasks ∨ ∀ frame ∈ task.top, frame.Plain) :
    Waking s' := by
  have hmaps := dirMapsOf_congr hrows
  have hnoted : ∀ is_dir id, s'.caches.Noted is_dir id ↔ s.caches.Noted is_dir id := by
    intro is_dir id
    unfold Caches.Noted Caches.flags
    rw [hsame.file, hsame.dir]
  have hwrites : ∀ is_dir id, s.Writes is_dir id ↔ s'.Writes is_dir id := by
    intro is_dir id
    constructor
    · rintro ⟨task, hmem, hframe⟩
      exact ⟨task, hold task hmem, hframe⟩
    · rintro ⟨task, hmem, frame, hframe, hwrites⟩
      rcases hnew task hmem with hmem | hplain
      · exact ⟨task, hmem, frame, hframe, hwrites⟩
      -- a new task does not write
      · exact ((hplain frame hframe).2 is_dir id hwrites).elim
  refine ⟨?_, ?_, ?_, ?_, ?_⟩
  · rintro D ⟨hown, hready⟩
    rw [hmaps] at hown hready
    unfold State.Attended
    rw [hstatus]
    refine (inv.attended D ⟨hown, fun row hrow => (hnoted _ _).mp (hready row hrow)⟩).imp_right ?_
    rintro ⟨task, hmem, howes⟩
    refine ⟨task, hold task hmem, howes.mono ?_⟩
    intro row hrow
    rw [hmaps]
    exact hrow
  · intro D dir hD huploaded
    rw [hsame.dir] at hD
    rw [hstatus, ← hwrites]
    exact inv.dirFlag D dir hD huploaded
  · intro f hf
    rw [hnoted]
    exact inv.file f (hf.imp (hfile f) (hwrites false f).mpr)
  · intro D hD
    rw [hstatus, ← hwrites] at hD
    rw [hnoted]
    exact inv.dir D hD
  · intro task hmem frame hframe
    rcases hnew task hmem with hmem | hplain
    · exact inv.final task hmem frame hframe
    · exact (hplain frame hframe).1

/-- A task starts. -/
lemma Waking.start {m : Caches} (hsame : s.caches.Same m) (update : Bool) (frame : Frame)
    (hplain : frame.Plain) : Waking ({ s with caches := m }.start update frame) := by
  refine inv.of_same rfl rfl (fun _ => id) hsame ?_ ?_
  · exact fun task hmem => List.mem_append_left _ hmem
  · intro task hmem
    refine (List.mem_append.mp hmem).imp_right ?_
    intro hmem frame' hframe
    obtain rfl := List.mem_singleton.mp hmem
    cases hframe
    exact hplain

/-- An update that starts keeps the invariant. -/
lemma Waking.processQueue : Waking s.processQueue := by
  unfold State.processQueue
  split
  · exact inv
  · split
    · exact inv
    · rename_i queue _
      exact inv.start (m := { s.caches with queue }) ⟨rfl, rfl, rfl, rfl⟩ true
        (.realUpdateChunkProgress _) ⟨trivial, fun _ _ => not_false⟩

/-- A statement of the uploader keeps the invariant. -/
lemma Waking.statement {st : Statement} (hexit : st ≠ .exit) : Waking (s.statement st) := by
  refine inv.of_same rfl rfl ?_ ⟨?_, rfl, rfl, rfl⟩ (fun _ => id) fun _ => .inl
  · intro f hf
    exact fileDone_of_external (a := ⟨s.tables.db, s.caches.toMemory, .idle⟩) hf
  · exact external_fileUploadCache (a := ⟨s.tables.db, s.caches.toMemory, .idle⟩) hexit

/-- A row is written. -/
lemma Waking.upsert {row : DirMap} (hunmixed : s.tables.Unmixed row)
    (htold : Ready (s.tables.upsert row) s.caches row.dir_id →
      State.Attended { s with tables := s.tables.upsert row } row.dir_id)
    (htables : s'.tables = s.tables.upsert row) (hcaches : s'.caches = s.caches)
    (htasks : s'.tasks = s.tasks) : Waking s' := by
  have hkept : ∀ D, ∀ r ∈ s.tables.dirMapsOf D, r ∈ (s.tables.upsert row).dirMapsOf D := by
    intro D r hr
    apply dirMapsOf_subset_upsert _ hr
    intro hdir
    exact hunmixed r (List.mem_filter.mpr ⟨(List.mem_filter.mp hr).1, decide_eq_true hdir⟩)
  have hwrites : s'.Writes = s.Writes := by
    unfold State.Writes
    rw [htasks]
  have hstatus : s'.tables.dirStatus = s.tables.dirStatus := by
    rw [htables]
    rfl
  have hdone : ∀ f, s'.tables.FileDone f ↔ s.tables.FileDone f := by
    intro f
    rw [htables]
    exact Iff.rfl
  refine ⟨?_, ?_, ?_, ?_, ?_⟩
  · intro D hready
    rw [htables, hcaches] at hready
    unfold State.Attended
    rw [htables, htasks]
    by_cases hD : D = row.dir_id
    · subst hD
      exact htold hready
    · -- The rows of the other directories are the same.
      have hsame : ∀ r ∈ (s.tables.upsert row).dirMapsOf D, r ∈ s.tables.dirMapsOf D := by
        intro r hr
        rcases mem_dirMapsOf_upsert hr with ⟨-, h⟩ | hr
        · exact (hD h.symm).elim
        · exact hr
      refine (inv.attended D ⟨hsame _ hready.1, fun r hr => hready.2 r (hkept D r hr)⟩).imp_right ?_
      rintro ⟨task, hmem, howes⟩
      exact ⟨task, hmem, howes.mono (hkept D)⟩
  · rw [hcaches, hstatus, hwrites]
    exact inv.dirFlag
  · intro f
    rw [hcaches, hwrites, hdone]
    exact inv.file f
  · rw [hcaches, hstatus, hwrites]
    exact inv.dir
  · rw [htasks]
    exact inv.final

/-- A step that tells of its completion keeps the invariant. -/
lemma Waking.step {e : Event} (htold : Told s e) (hstep : Directories.step s e = some s') :
    Waking s' := by
  cases e with
  | resume i changed =>
    obtain ⟨-, hstep⟩ := Option.ite_none_right_eq_some.mp hstep
    obtain ⟨task, htask, hstep⟩ := Option.bind_eq_some_iff.mp hstep
    obtain ⟨frame, htop, rfl⟩ := Option.map_eq_some_iff.mp hstep
    obtain ⟨htold, hout⟩ := htold task htask frame htop
    exact inv.resume htop htold hout htask
  | statement st =>
    obtain ⟨hst, hstep⟩ := Option.ite_none_right_eq_some.mp hstep
    cases hstep
    rw [Bool.and_eq_true, bne_iff_ne] at hst
    exact inv.statement hst.2
  | uploadDir dir_id files =>
    obtain ⟨-, hstep⟩ := Option.ite_none_right_eq_some.mp hstep
    cases hstep
    -- the files that are listed are not in the tables yet
    exact inv.of_same rfl rfl (fun _ => id) (.refl _) (fun _ => id) fun _ => .inl
  | upsert i j =>
    obtain ⟨-, hstep⟩ := Option.ite_none_right_eq_some.mp hstep
    obtain ⟨r, hr, hstep⟩ := Option.bind_eq_some_iff.mp hstep
    obtain ⟨row, hrow, rfl⟩ := Option.map_eq_some_iff.mp hstep
    obtain ⟨hunmixed, htold⟩ := htold r hr row hrow
    exact inv.upsert hunmixed htold rfl rfl rfl
  | addParent i j =>
    obtain ⟨-, hstep⟩ := Option.ite_none_right_eq_some.mp hstep
    obtain ⟨r, -, hstep⟩ := Option.bind_eq_some_iff.mp hstep
    obtain ⟨row, -, rfl⟩ := Option.map_eq_some_iff.mp hstep
    exact inv.of_same rfl rfl (fun _ => id) (.addParentOf _ row) (fun _ => id) fun _ => .inl
  | getDirProgress dir_id =>
    obtain ⟨-, hstep⟩ := Option.ite_none_right_eq_some.mp hstep
    cases hstep
    split
    · exact inv
    · exact inv.start (.refl _) false (.dir _ true .start) ⟨trivial, fun _ _ => not_false⟩
  | processQueue =>
    obtain ⟨-, hstep⟩ := Option.ite_none_right_eq_some.mp hstep
    cases hstep
    exact inv.processQueue
  | exit => exact htold.elim

/-- When no task runs, no update is owed. -/
lemma Waking.reached (hquiet : ∀ task ∈ s.tasks, task.top = none) : s.tables.Reached := by
  intro D hown hreported
  have hready : Ready s.tables s.caches D := by
    refine ⟨hown, ?_⟩
    intro row hrow
    have hdone := hreported row hrow
    unfold Tables.Reported at hdone
    cases hkind : row.is_dir with
    | true =>
      rw [if_pos hkind] at hdone
      exact inv.dir row.file_id (.inl hdone)
    | false =>
      rw [hkind, if_neg Bool.false_ne_true] at hdone
      exact inv.file row.file_id (.inl hdone)
  rcases inv.attended D hready with hdone | ⟨task, hmem, frame, hframe, -⟩
  · exact hdone
  · rw [hquiet task hmem] at hframe
    cases hframe

end Events

lemma waking_init : Waking State.init where
  attended D h := by cases h.1
  dirFlag D dir h := by cases h
  file f h := by
    rcases h with h | ⟨task, htask, -⟩
    · cases h
    · cases htask
  dir D h := by
    rcases h with h | ⟨task, htask, -⟩
    · cases h
    · cases htask
  final task htask := by cases htask

/-- Let no call throw, no entry that is noted be made again or failed, and no item be counted as
what it is not; and whenever the last item of a directory is COMPLETED or its last row is written,
let the directory be among those that are updated next. Then, when nothing is left to do, each
directory whose files and subdirectories are COMPLETED is COMPLETED. -/
theorem reached_of_told {s : State} (h : Reach step Told .init s) (hquiet : s.Quiescent) :
    s.tables.Reached :=
  Waking.reached (h.invariant (P := Waking) waking_init fun _ _ _ inv => inv.step) hquiet.tasks

/-! ## Runs -/

section Decidable

instance (m : Caches) (is_dir : Bool) (id : JsString) : Decidable (m.Noted is_dir id) :=
  inferInstanceAs (Decidable (_ = _))

instance (t : Tables) (m : Caches) (D : JsString) : Decidable (Ready t m D) :=
  inferInstanceAs (Decidable (_ ∧ _))

instance (is_dir : Bool) (id : JsString) (frame : Frame) : Decidable (frame.Writes is_dir id) := by
  unfold Frame.Writes
  split <;> infer_instance

instance (stage : DirStage) : Decidable stage.OnCourse := by
  unfold DirStage.OnCourse
  split <;> infer_instance

instance (D : JsString) : (caller : Caller) → Decidable (caller.Owes D)
  | .files _ => isFalse id
  | .parents rest => inferInstanceAs (Decidable (D ∈ rest))
  | .filled dir_id _ _ _ => inferInstanceAs (Decidable (dir_id = D))
  | .counted _ _ _ _ _ _ _ _ => inferInstanceAs (Decidable (_ = D ∧ _ = _ ∧ _ = 0))

instance (D : JsString) (frame : Frame) : Decidable (frame.Updates D) := by
  unfold Frame.Updates
  split <;> infer_instance

instance (t : Tables) (D : JsString) (task : Task) : Decidable (task.Owes t D) := by
  unfold Task.Owes
  infer_instance

instance (s : State) (D : JsString) : Decidable (s.Attended D) :=
  inferInstanceAs (Decidable (_ ∨ _))

instance (s : State) (task : Task) (is_dir : Bool) (id : JsString) (parents : List JsString) :
    Decidable (s.Tells task is_dir id parents) :=
  inferInstanceAs (Decidable (∀ row ∈ s.tables.dirMaps, row.is_dir = is_dir → row.file_id = id →
    Ready s.tables s.caches row.dir_id → _ ∨ _ ∨ ∃ caller ∈ task.callers, caller.Owes row.dir_id))

instance (s : State) (task : Task) (frame : Frame) : Decidable (frame.Told s task) := by
  unfold Frame.Told
  split <;> infer_instance

instance (m : Caches) (outcome : Outcome) : Decidable (outcome.Told m) := by
  unfold Outcome.Told
  split <;> infer_instance

instance (s : State) : (e : Event) → Decidable (Told s e)
  | .resume i changed => inferInstanceAs (Decidable (∀ task ∈ s.tasks[i]?, ∀ frame ∈ task.top,
    frame.Told s task ∧ (frame.next s.tables s.caches changed).2.2.Told s.caches))
  | .upsert i j => inferInstanceAs (Decidable (∀ r ∈ s.registrations[i]?, ∀ row ∈ r.pending[j]?,
    s.tables.Unmixed row ∧ (Ready (s.tables.upsert row) s.caches row.dir_id →
      State.Attended { s with tables := s.tables.upsert row } row.dir_id)))
  | .exit => isFalse id
  | .statement _ | .uploadDir _ _ | .addParent _ _ | .getDirProgress _ | .processQueue => isTrue trivial

end Decidable

/-- A directory in another, both registered while their files are being uploaded. -/
def sampleUpload : List Event :=
  uploadOf (js "a") (js "ca") ++ uploadOf (js "s") (js "cs") ++ uploadOf (js "d") (js "cd") ++
    [.uploadDir (js "s") [(js "a", false)]] ++ registrationOf 0 2 ++
      [.uploadDir (js "d") [(js "s", true)]] ++ registrationOf 1 2 ++
        completionOf (js "ca") ++ [.processQueue] ++ stepsOf 0 51 ++
          completionOf (js "cs") ++ [.processQueue] ++ stepsOf 1 26 ++
            completionOf (js "cd") ++ [.processQueue] ++ stepsOf 2 17

theorem reached_of_told_nested :
    (after (guarded step Told) .init sampleUpload).tables.dirStatus (js "d") = .completed := by
  have hreach : Reach step Told .init (after (guarded step Told) .init sampleUpload) :=
    .of_after sampleUpload (by decide +kernel)
  refine reached_of_told hreach ⟨?_, ?_, ?_, ?_⟩ (js "d") ?_ ?_
  · decide +kernel
  · decide +kernel
  · decide +kernel
  · decide +kernel
  · decide +kernel
  · decide +kernel

/-- A directory that is registered when its files have been uploaded, as `uploadDir` does that waits
for each upload. -/
def sampleWait : List Event :=
  uploadOf (js "a") (js "ca") ++ completionOf (js "ca") ++ [.processQueue] ++ stepsOf 0 9 ++
    uploadOf (js "d") (js "cd") ++ completionOf (js "cd") ++ [.processQueue] ++ stepsOf 1 9 ++
      [.uploadDir (js "d") [(js "a", false)]] ++ registrationOf 0 2

/-- Nothing is left to do, all files are COMPLETED, and the directory is not. -/
theorem never_reached :
    ∃ s, Reach step Any .init s ∧ s.Quiescent ∧ ¬ s.tables.Reached := by
  refine ⟨after (guarded step Any) .init sampleWait, .of_after _ (by decide +kernel),
    ⟨?_, ?_, ?_, ?_⟩, ?_⟩
  · decide +kernel
  · decide +kernel
  · decide +kernel
  · decide +kernel
  · intro hreached
    have hdone := hreached (js "d") (by decide +kernel) (by decide +kernel)
    revert hdone
    decide +kernel

end PointNetwork.Directories
