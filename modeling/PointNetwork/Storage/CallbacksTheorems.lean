import PointNetwork.Storage.Callbacks

/-!
# When no waiter is missed

A call reads a status and puts its callback into the queue later. If the status becomes final in between
and notifies, nobody calls the callback any more: `missed`. In every run in which callbacks come in time no
waiter is missed (`not_missed`): a callback whose status is final has a notification to come (`Woken`).
-/

namespace PointNetwork.Storage.Callbacks

open Js Machine

variable {s s' : State} {db : Database} {w : Write} {key : Key} {call : Call} {task : Task} {i : ℕ}

/-! ## What the statements do to a status -/

lemma named_iff {id : Option JsString} {rowId : JsString} :
    named id rowId = true ↔ ∀ x, id = some x → rowId = x := by
  cases id with
  | none => simp [named]
  | some id => simp [named]

section

variable {α : Type} {id : JsString} {rowId : α → JsString} {column : α → Status} {rows new : List α}

/-- An update that leaves a column of the row with an id. -/
lemma column_update {p : α → Bool} {f : α → α} (hf : ∀ row, rowId (f row) = rowId row)
    (h : ∀ row, rowId row = id → p row = true → column (f row) = column row) :
    (Table.find rowId id (Table.update p f rows)).map column =
      (Table.find rowId id rows).map column := by
  rw [Table.find_update hf, Option.map_map]
  apply Option.map_congr
  intro row hrow
  show column (if p row then f row else row) = column row
  by_cases hp : p row = true
  · rw [if_pos hp]
    exact h row (Table.key_of_find hrow) hp
  · rw [if_neg hp]

/-- A final status of a table with new rows, whose statuses are not, is one of the table. -/
lemma column_insertIgnore {status : Status} (hnew : ∀ row ∈ new, (column row).final = false)
    (hfinal : status.final = true)
    (h : (Table.find rowId id (Table.insertIgnore rowId new rows)).map column = some status) :
    (Table.find rowId id rows).map column = some status := by
  rw [Table.find_insertIgnore] at h
  cases hold : Table.find rowId id rows with
  | some row =>
    rw [hold] at h
    exact h
  | none =>
    rw [hold, Option.none_or] at h
    obtain ⟨row, hrow, rfl⟩ := Option.map_eq_some_iff.mp h
    rw [hnew row (Table.mem_of_find hrow)] at hfinal
    cases hfinal

end

/-- A write that does not name the row, or not the status, leaves the status. -/
theorem status_perform (h : ¬ ((w.field key.1).isSome ∧ named w.id key.2 = true)) :
    (db.perform w).status key = db.status key := by
  obtain ⟨type, id⟩ := key
  have hfield : named w.id id = true → w.field type = none := by
    intro hname
    rw [← Option.not_isSome_iff_eq_none]
    exact fun hsome => h ⟨hsome, hname⟩
  -- the columns of the other table are those of another update
  cases w with
  | file target rest ul_status dir_ul_status dl_status =>
    cases type with
    | FILE_UPLOAD_STATUS_CHANGED =>
      refine column_update (fun _ => rfl) fun row hid hp => ?_
      rw [Bool.and_eq_true, hid] at hp
      obtain rfl : ul_status = none := hfield hp.1
      rfl
    | FILE_DIR_UPLOAD_STATUS_CHANGED =>
      refine column_update (fun _ => rfl) fun row hid hp => ?_
      rw [Bool.and_eq_true, hid] at hp
      obtain rfl : dir_ul_status = none := hfield hp.1
      rfl
    | FILE_DOWNLOAD_STATUS_CHANGED =>
      refine column_update (fun _ => rfl) fun row hid hp => ?_
      rw [Bool.and_eq_true, hid] at hp
      obtain rfl : dl_status = none := hfield hp.1
      rfl
    | CHUNK_DOWNLOAD_STATUS_CHANGED => rfl
  | chunk target rest dl_status =>
    cases type with
    | CHUNK_DOWNLOAD_STATUS_CHANGED =>
      refine column_update (fun _ => rfl) fun row hid hp => ?_
      rw [Bool.and_eq_true, hid] at hp
      obtain rfl : dl_status = none := hfield hp.1
      rfl
    | _ => rfl

/-- A write with an id notifies of all that it may change. -/
theorem mem_keys {id : JsString} (hid : w.id = some id) (hfield : (w.field key.1).isSome)
    (hname : named w.id key.2 = true) : key ∈ w.keys := by
  have hkey : key.2 = id := named_iff.mp hname id hid
  obtain ⟨status, hstatus⟩ := Option.isSome_iff_exists.mp hfield
  unfold Write.keys
  rw [hid]
  refine List.mem_filterMap.mpr ⟨key.1, ?_, ?_⟩
  · cases key.1 <;> simp
  · rw [hstatus, ← hkey]
    rfl

/-- A row that is created has no final status. -/
theorem status_create {other : Key} {status : Status} (hfinal : status.final = true)
    (h : (db.create other).status key = some status) : db.status key = some status := by
  obtain ⟨type, id⟩ := key
  obtain ⟨otherType, otherId⟩ := other
  have hfile : ∀ column : File → Status, (column { id := otherId }).final = false →
      ∀ row ∈ [({ id := otherId } : File)], (column row).final = false := by
    intro column hcolumn row hrow
    rwa [List.mem_singleton.mp hrow]
  have hchunk : ∀ row ∈ [({ id := otherId } : Chunk)], row.dl_status.final = false := by
    intro row hrow
    rw [List.mem_singleton.mp hrow]
    rfl
  cases otherType with
  | CHUNK_DOWNLOAD_STATUS_CHANGED =>
    cases type with
    | CHUNK_DOWNLOAD_STATUS_CHANGED => exact column_insertIgnore hchunk hfinal h
    | _ => exact h
  | _ =>
    cases type with
    | CHUNK_DOWNLOAD_STATUS_CHANGED => exact h
    | FILE_UPLOAD_STATUS_CHANGED => exact column_insertIgnore (hfile File.ul_status rfl) hfinal h
    | FILE_DIR_UPLOAD_STATUS_CHANGED =>
      exact column_insertIgnore (hfile File.dir_ul_status rfl) hfinal h
    | FILE_DOWNLOAD_STATUS_CHANGED => exact column_insertIgnore (hfile File.dl_status rfl) hfinal h

/-! ## The invariant -/

/-- A callback whose status is final has a notification to come. -/
def Woken (s : State) : Prop := ∀ call ∈ s.callbacks, s.Final call.key → s.Notifying call.key

/-- A task that is to notify stays, if another one is replaced. -/
lemma notifying_next {tasks : List Task} (htask : s.tasks[i]? = some task)
    (hkey : key ∉ task.notices) (h : s.Notifying key) : (s.next i tasks).Notifying key := by
  obtain ⟨writer, hmem, hwriter⟩ := h
  obtain ⟨j, hj⟩ := List.mem_iff_getElem?.mp hmem
  have hne : j ≠ i := by
    rintro rfl
    obtain rfl : task = writer := Option.some.inj (htask.symm.trans hj)
    exact hkey hwriter
  exact ⟨writer, List.mem_append_left _ (List.mem_eraseIdx_iff_getElem?.mpr ⟨j, hne, hj⟩), hwriter⟩

/-- A step that leaves the tables and the queues, and all tasks that are to notify. -/
lemma Woken.next {tasks : List Task} (h : Woken s) (htask : s.tasks[i]? = some task)
    (hquiet : task.notices = []) : Woken (s.next i tasks) := by
  intro call hcall hfinal
  refine notifying_next htask ?_ (h call hcall hfinal)
  rw [hquiet]
  exact List.not_mem_nil

/-- A new task wakes nobody less. -/
lemma Woken.append {tasks : List Task} (h : Woken s) :
    Woken { s with tasks := s.tasks ++ tasks } := by
  intro call hcall hfinal
  obtain ⟨writer, hmem, hrest⟩ := h call hcall hfinal
  exact ⟨writer, List.mem_append_left _ hmem, hrest⟩

lemma key_again (call : Call) : call.again.key = call.key := by
  cases call <;> rfl

/-- A statement keeps the invariant. -/
lemma Woken.query (h : Woken s) (htask : s.tasks[i]? = some task)
    (hintime : InTime s (.query i)) (hstep : s.query i task = some s') : Woken s' := by
  cases task with
  | create call =>
    cases hstep
    intro waiting hcall hfinal
    obtain ⟨status, hstatus, hstatusFinal⟩ := hfinal
    have hold : s.Final waiting.key := ⟨status, status_create hstatusFinal hstatus, hstatusFinal⟩
    exact notifying_next htask List.not_mem_nil (h waiting hcall hold)
  | find call first =>
    cases hstep
    exact h.next htask rfl
  | write w rest =>
    cases hstep
    intro waiting hcall hfinal
    have hnext : s.Notifying waiting.key →
        (({ s with db := s.db.perform w }).next i [.written w.keys rest]).Notifying waiting.key :=
      fun hold => notifying_next htask List.not_mem_nil hold
    by_cases hwrites : (w.field waiting.key.1).isSome ∧ named w.id waiting.key.2 = true
    · -- the row of the callback is written: with an id that is notified, without one by assumption
      cases hid : w.id with
      | some id =>
        have hkeys := mem_keys hid hwrites.1 hwrites.2
        exact ⟨_, List.mem_append_right _ (List.mem_singleton_self _), hkeys⟩
      | none => exact hnext (hintime _ htask w (if_pos hid) waiting hcall hfinal)
    · obtain ⟨status, hstatus, hstatusFinal⟩ := hfinal
      have hsame : s.db.status waiting.key = some status := (status_perform hwrites).symm.trans hstatus
      exact hnext (h waiting hcall ⟨status, hsame, hstatusFinal⟩)
  | _ => cases hstep

/-- The answer of a statement keeps the invariant. -/
lemma Woken.deliver {exist : Bool} (h : Woken s) (htask : s.tasks[i]? = some task)
    (hintime : InTime s (.deliver i exist)) (hstep : s.deliver i exist task = some s') :
    Woken s' := by
  cases task with
  | found call first status =>
    have hnext : ∀ tasks, Woken (s.next i tasks) :=
      fun tasks => h.next htask rfl
    cases status with
    | none =>
      cases hstep
      exact hnext _
    | some status =>
      cases first with
      | true =>
        cases hstep
        exact hnext _
      | false =>
        simp only [State.deliver] at hstep
        cases hdecide : call.decide exist status with
        | «return» =>
          rw [hdecide] at hstep
          cases hstep
          exact hnext _
        | download =>
          rw [hdecide] at hstep
          cases hstep
          exact hnext _
        | wait =>
          rw [hdecide] at hstep
          cases hstep
          intro waiting hcall hfinal
          rcases List.mem_append.mp hcall with hold | hnew
          · exact hnext _ waiting hold hfinal
          · obtain rfl := List.mem_singleton.mp hnew
            rw [key_again] at hfinal ⊢
            -- the call begins to wait: the condition on the step gives the notification that is to
            -- come
            have hintime' := hintime _ htask call (if_pos hdecide)
            have hnotifying := hintime'.resolve_left fun hnot => hnot hfinal
            exact notifying_next htask List.not_mem_nil hnotifying
  | written keys rest =>
    cases hstep
    intro waiting hcall hfinal
    obtain ⟨hold, hkeys⟩ := List.mem_filter.mp hcall
    exact notifying_next htask (of_decide_eq_true hkeys) (h waiting hold hfinal)
  | _ => cases hstep

/-- A statement that fails replaces its task, which is not one that is to notify. -/
lemma of_reject (h : s.reject i task = some s') :
    (∃ tasks, s' = s.next i tasks) ∧ task.notices = [] := by
  unfold State.reject at h
  split at h
  case h_7 => cases h
  all_goals
    cases h
    exact ⟨⟨_, rfl⟩, rfl⟩

/-- The invariant holds in every reachable state. -/
theorem woken (h : Reach step InTime (.init db) s) : Woken s := by
  refine h.invariant (fun call hcall => (List.not_mem_nil hcall).elim) ?_
  intro s e s' hs hintime hstep
  cases e with
  | call call =>
    cases hstep
    exact hs.append
  | update w =>
    cases hstep
    exact hs.append
  | query i =>
    obtain ⟨task, htask, hquery⟩ := Option.bind_eq_some_iff.mp hstep
    exact hs.query htask hintime hquery
  | deliver i exist =>
    obtain ⟨task, htask, hdeliver⟩ := Option.bind_eq_some_iff.mp hstep
    exact hs.deliver htask hintime hdeliver
  | downloaded i success =>
    simp only [step] at hstep
    split at hstep
    · rename_i call htask
      cases hstep
      exact hs.next htask rfl
    · cases hstep
  | reject i =>
    obtain ⟨task, htask, hreject⟩ := Option.bind_eq_some_iff.mp hstep
    obtain ⟨⟨tasks, rfl⟩, hquiet⟩ := of_reject hreject
    exact hs.next htask hquiet
  | timer i =>
    obtain ⟨call, -, rfl⟩ := Option.map_eq_some_iff.mp hstep
    exact hs.append

/-- In every run in which callbacks come in time no waiter is missed. -/
theorem not_missed (h : Reach step InTime (.init db) s) (key : Key) : ¬ s.Missed key := by
  rintro ⟨⟨call, hcall, rfl⟩, hfinal, hquiet, -⟩
  obtain ⟨task, hmem, hkey⟩ := woken h call hcall hfinal
  refine hquiet task hmem ?_
  cases task with
  | written keys rest => exact hkey
  | _ => exact (List.not_mem_nil hkey).elim

/-! ## Two runs -/

/-- A file that is being uploaded. -/
def uploading : Database := ⟨[{ id := js "f", ul_status := .IN_PROGRESS }], []⟩

/-- The update that completes its upload. -/
def complete : Write := .file (some (js "f")) (fun _ => true) (some .COMPLETED) none none

/-- The status is read, then completed and notified of, and then the callback comes. -/
def readTooEarly : State :=
  after (guarded step Any) (.init uploading)
    [.call (.waitForFileToUpload (js "f")), .query 0, .update complete, .query 1, .deliver 1 true,
      .deliver 0 true]

/-- Without the condition a call may never be told. -/
theorem missed : ¬ ∀ (db : Database) (s : State) (key : Key), Reach step Any (.init db) s →
    ¬ s.Missed key := by
  intro h
  refine h uploading readTooEarly (.FILE_UPLOAD_STATUS_CHANGED, js "f")
    (.of_after _ (by decide +kernel)) ?_
  have hcallbacks : readTooEarly.callbacks = [.waitForFileToUpload (js "f")] := by decide +kernel
  have htasks : readTooEarly.tasks = [] := List.eq_nil_of_length_eq_zero (by decide +kernel)
  have htimers : readTooEarly.timers = [] := by decide +kernel
  refine ⟨⟨_, hcallbacks ▸ List.mem_singleton_self _, rfl⟩, ⟨.COMPLETED, ?_, rfl⟩, ?_, ?_⟩
  · decide +kernel
  · rw [htasks]
    exact fun task hmem => (List.not_mem_nil hmem).elim
  · rw [htimers]
    exact fun call hmem => (List.not_mem_nil hmem).elim

instance (s : State) (key : Key) : Decidable (s.Final key) :=
  inferInstanceAs (Decidable (∃ status ∈ s.db.status key, status.final = true))

instance (s : State) (key : Key) : Decidable (s.Notifying key) :=
  inferInstanceAs (Decidable (∃ task ∈ s.tasks, key ∈ task.notices))

instance (s : State) (e : Event) : Decidable (InTime s e) := by
  unfold InTime
  split <;> infer_instance

/-- The callback comes before the status is completed, which is then notified of. -/
def readInTime : State :=
  after (guarded step InTime) (.init uploading)
    [.call (.waitForFileToUpload (js "f")), .query 0, .deliver 0 true, .update complete, .query 0]

theorem not_missed_readInTime : readInTime.callbacks.length = 1 ∧
    ¬ readInTime.Missed (.FILE_UPLOAD_STATUS_CHANGED, js "f") :=
  ⟨by decide +kernel, not_missed (.of_after _ (by decide +kernel)) _⟩

end PointNetwork.Storage.Callbacks
