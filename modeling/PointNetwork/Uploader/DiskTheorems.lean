import PointNetwork.Uploader.Disk

/-!
# What the files of the chunks contain

A temporary file belongs to one writer from its opening to the rename, so that what is renamed is the
whole chunk, unless two writers of one chunk choose the same name in the same millisecond. The file that
`getChunk` writes has its name from the beginning.

* `Disk.Sound`: the files of the chunks, the writers and the readers, in one invariant;
* `Disk.cache_intact`: the runs in which `getChunk` opens no file for writing, and no writer the
  temporary file of another one;
* `Disk.broken_of_save`: what `getChunk` breaks when it opens a file;
* `Disk.cache_broken`: a run in which the process ends before the file is whole.
-/

namespace PointNetwork.Uploader

open Js Storage Machine Folder

theorem List.getElem?_set_cases {α : Type} {xs : List α} {i j : ℕ} {x y : α}
    (h : (xs.set i y)[j]? = some x) : (j = i ∧ x = y) ∨ (j ≠ i ∧ xs[j]? = some x) := by
  by_cases hij : j = i
  · subst hij
    have hlt : j < xs.length := by
      have hlt := (List.getElem?_eq_some_iff.mp h).1
      rwa [List.length_set] at hlt
    rw [List.getElem?_set_self hlt] at h
    exact .inl ⟨rfl, (Option.some.inj h).symm⟩
  · rw [List.getElem?_set_ne (Ne.symm hij)] at h
    exact .inr ⟨hij, h⟩

theorem Function.update_eq_some_cases {α β : Type} [DecidableEq α] {f : α → Option β} {a b : α}
    {x : Option β} {y : β} (h : Function.update f a x b = some y) :
    (b = a ∧ x = some y) ∨ (b ≠ a ∧ f b = some y) := by
  by_cases hab : b = a
  · rw [hab, Function.update_self] at h
    exact .inl ⟨hab, h⟩
  · rw [Function.update_of_ne hab] at h
    exact .inr ⟨hab, h⟩

/-! ## The invariant -/

section

variable (H : HashFn) (folder : CacheFolder)

/-- Every file of a chunk contains bytes whose hash is its id. -/
def Intact : Prop :=
  ∀ chunkId inode, folder.entry (.chunk chunkId) = some inode →
    H.id (folder.contents inode) = chunkId

/-- What is written is a chunk with the id of the data. -/
def WriterPhase.Sound : WriterPhase → Prop
  | .next => True
  | .named chunkId data _ => H.id data = chunkId
  | .writing chunkId time file => H.id file.data = chunkId ∧
      folder.entry (.tmp chunkId time) = some file.inode ∧ file.Holds folder

/-- The data of the writer have the ids that it writes them under. -/
structure Writer.Sound (w : Writer) : Prop where
  chunks : ∀ p ∈ w.chunks, H.id p.2 = p.1
  phase : w.phase.Sound H folder

/-- The temporary file that the writer has opened. -/
def WriterPhase.tmp : WriterPhase → Option CacheFile
  | .writing chunkId time _ => some (.tmp chunkId time)
  | _ => none

/-- The file that is read contains the chunk, and is no temporary file. -/
structure Load.Sound (load : Load) : Prop where
  bytes : H.id (folder.contents load.file.inode) = load.chunkId
  got : load.file.got <+: folder.contents load.file.inode
  bounded : load.file.inode < folder.files.length
  apart : ∀ chunkId time, folder.entry (.tmp chunkId time) ≠ some load.file.inode

/-- What holds in runs whose saves are not cut short. -/
structure Disk.Sound (s : Disk) : Prop where
  intact : Intact H s.folder
  writers : ∀ {i : ℕ} {w : Writer}, s.writers[i]? = some w → w.Sound H s.folder
  /-- Two writers do not write the same temporary file. -/
  apart : ∀ {i j : ℕ} {w w' : Writer} {name}, s.writers[i]? = some w → s.writers[j]? = some w' →
    w.phase.tmp = some name → w'.phase.tmp = some name → i = j
  saves : ∀ {i : ℕ} {save : Save}, s.saves i = some save → save.file.data = [] ∧ H.id [] = save.chunkId
  loads : ∀ {reader} {load : Load}, s.loads reader = some load → load.Sound H s.folder
  buffers : ∀ {i : ℕ} {p : JsString × Bytes}, s.buffers i = some p → H.id p.2 = p.1
  returned : ∀ p ∈ s.returned, H.id p.2 = p.1
  sent : ∀ p ∈ s.sent, H.id p.2 = p.1

end

variable {H : HashFn} {F F' : CacheFolder} {c : JsString} {time inode : ℕ}

/-! ## What the operations on the files keep -/

section

/-- An operation on a temporary file. -/
theorem Intact.touches (h : Intact H F) (ht : Touches F F' (.tmp c time) inode) : Intact H F' := by
  intro chunkId j hj
  rw [ht.entry_of_ne (by simp)] at hj
  rw [ht.contents_of_entry (by simp) hj]
  exact h chunkId j hj

/-- A writer stays sound when another temporary file is touched. -/
theorem WriterPhase.Sound.touches {phase : WriterPhase} (h : phase.Sound H F)
    (ht : Touches F F' (.tmp c time) inode) (hne : phase.tmp ≠ some (.tmp c time)) :
    phase.Sound H F' := by
  cases phase with
  | next => trivial
  | named chunkId data time' => exact h
  | writing chunkId time' file =>
    have hname : CacheFile.tmp chunkId time' ≠ .tmp c time := fun heq => hne (congrArg some heq)
    obtain ⟨hid, hentry, hlt, hcontents⟩ := h
    refine ⟨hid, ?_, ?_, ?_⟩
    · rw [ht.entry_of_ne hname]
      exact hentry
    · exact lt_of_lt_of_le hlt ht.length_le
    · rw [ht.contents_of_entry hname hentry]
      exact hcontents

/-- A reader stays sound when a temporary file is touched. -/
theorem Load.Sound.touches {load : Load} (h : load.Sound H F)
    (ht : Touches F F' (.tmp c time) inode) : load.Sound H F' := by
  obtain ⟨hne, hcontents⟩ := ht.contents_of_open h.bounded (h.apart c time)
  refine ⟨?_, ?_, lt_of_lt_of_le h.bounded ht.length_le, ?_⟩
  · rw [hcontents]
    exact h.bytes
  · rw [hcontents]
    exact h.got
  · intro chunkId time'
    by_cases hname : CacheFile.tmp chunkId time' = .tmp c time
    · rw [hname, ht.entry_self]
      exact fun heq => hne (Option.some.inj heq).symm
    · rw [ht.entry_of_ne hname]
      exact h.apart chunkId time'

/-- The whole chunk gets its name. -/
theorem Intact.move {file : Writing UInt8} (h : Intact H F) (hid : H.id file.data = c)
    (hentry : F.entry (.tmp c time) = some file.inode) (hfile : file.Holds F)
    (hend : file.isFinished) : Intact H (F.move (.tmp c time) (.chunk c)) := by
  intro chunkId j hj
  show H.id (F.contents j) = chunkId
  by_cases hc : chunkId = c
  · subst hc
    rw [F.entry_move_target, hentry] at hj
    rw [← Option.some.inj hj, hfile.contents_eq hend]
    exact hid
  · rw [F.entry_move_of_ne (by simp) (by simpa using hc)] at hj
    exact h chunkId j hj

/-- A writer stays sound when another temporary file is renamed. -/
theorem WriterPhase.Sound.move {phase : WriterPhase} (h : phase.Sound H F)
    (hne : phase.tmp ≠ some (.tmp c time)) :
    phase.Sound H (F.move (.tmp c time) (.chunk c)) := by
  cases phase with
  | next => trivial
  | named chunkId data time' => exact h
  | writing chunkId time' file =>
    refine ⟨h.1, ?_, h.2.2⟩
    rw [F.entry_move_of_ne (fun heq => hne (congrArg some heq)) (by simp)]
    exact h.2.1

/-- A reader stays sound when a temporary file is renamed. -/
theorem Load.Sound.move {load : Load} (h : load.Sound H F) :
    load.Sound H (F.move (.tmp c time) (.chunk c)) := by
  refine ⟨h.bytes, h.got, h.bounded, ?_⟩
  intro chunkId time'
  by_cases hname : CacheFile.tmp chunkId time' = .tmp c time
  · rw [hname, F.entry_move_source (by simp)]
    simp
  · rw [F.entry_move_of_ne hname (by simp)]
    exact h.apart chunkId time'

/-- An operation that changes no contents and no entry of a temporary file. -/
theorem WriterPhase.Sound.congr {phase : WriterPhase} (h : phase.Sound H F)
    (hentry : ∀ chunkId time, F'.entry (.tmp chunkId time) = F.entry (.tmp chunkId time))
    (hcontents : F'.contents = F.contents) (hlen : F.files.length ≤ F'.files.length) :
    phase.Sound H F' := by
  cases phase with
  | next => trivial
  | named chunkId data time => exact h
  | writing chunkId time file =>
    obtain ⟨hid, hfile, hlt, hheld⟩ := h
    refine ⟨hid, (hentry chunkId time).trans hfile, lt_of_lt_of_le hlt hlen, ?_⟩
    rw [hcontents]
    exact hheld

theorem Load.Sound.congr {load : Load} (h : load.Sound H F)
    (hentry : ∀ chunkId time, F'.entry (.tmp chunkId time) = F.entry (.tmp chunkId time))
    (hcontents : F'.contents = F.contents) (hlen : F.files.length ≤ F'.files.length) :
    load.Sound H F' := by
  refine ⟨?_, ?_, lt_of_lt_of_le h.bounded hlen, ?_⟩
  · rw [hcontents]
    exact h.bytes
  · rw [hcontents]
    exact h.got
  · intro chunkId time
    rw [hentry]
    exact h.apart chunkId time

/-- The empty chunk is written where there are no bytes. -/
theorem contents_openTruncate_of_empty (F : CacheFolder) (name : CacheFile)
    (hempty : ((F.read name).getD []).isEmpty) :
    (F.openTruncate name).1.contents = F.contents := by
  funext j
  have ht := F.touches_openTruncate name
  by_cases hj : j = (F.openTruncate name).2
  · rw [hj, F.contents_openTruncate_self]
    obtain hold | hnew := ht.old_or_new
    · unfold Folder.read at hempty
      rw [hold] at hempty
      exact (List.isEmpty_iff.mp hempty).symm
    · rw [hnew]
      show [] = F.files.getD F.files.length []
      simp
  · exact ht.contents_of_ne hj

/-- A reader goes on. -/
theorem Load.Sound.next {load : Load} (h : load.Sound H F) (n : ℕ) :
    Load.Sound H F { load with file := load.file.next F n } :=
  ⟨h.bytes, Reading.next_prefix h.got n, h.bounded, h.apart⟩

/-- What has been read whole has the id of its chunk. -/
theorem Load.Sound.hash_eq {load : Load} (h : load.Sound H F) (hend : load.file.atEnd F) :
    H.id load.file.got = load.chunkId := by
  rw [Reading.got_eq h.got hend]
  exact h.bytes

end

/-! ## The steps -/

/-- The temporary file that the writer has chosen, and not opened yet. -/
def WriterPhase.chosen : WriterPhase → Option CacheFile
  | .named chunkId _ time => some (.tmp chunkId time)
  | _ => none

namespace Disk

/-- A writer does not open the temporary file that another one is writing, and `getChunk` writes
nothing but the empty chunk where there are no bytes. -/
def Undisturbed (s : Disk) : DiskEvent → Prop
  | .writer i .open => ∀ w ∈ s.writers[i]?, ∀ name ∈ w.phase.chosen,
      ∀ other ∈ s.writers, other.phase.tmp ≠ some name
  | .save i (.open data) => data.isEmpty ∧
      ∀ d ∈ s.state.downloads[i]?, ((s.folder.read (.chunk d.chunkId)).getD []).isEmpty
  | _ => True

instance (s : Disk) (e : DiskEvent) : Decidable (s.Undisturbed e) := by
  unfold Undisturbed
  split <;> infer_instance

variable {cfg : Config} {s t : Disk} {e : DiskEvent} {i : ℕ}

/-- A writer goes on, and its step leaves what the others need. -/
theorem Sound.update {w' : Writer} (h : s.Sound H) (hintact : Intact H F) (hself : w'.Sound H F)
    (hothers : ∀ {j : ℕ} {v : Writer}, j ≠ i → s.writers[j]? = some v → v.phase.Sound H F)
    (hname : ∀ {j : ℕ} {name} {v : Writer}, j ≠ i → s.writers[j]? = some v → w'.phase.tmp = some name →
      v.phase.tmp ≠ some name)
    (hloads : ∀ {load : Load}, load.Sound H s.folder → load.Sound H F) :
    Sound H { s with folder := F, writers := s.writers.set i w' } where
  intact := hintact
  writers {j v} hv := by
    obtain ⟨-, rfl⟩ | ⟨hj, hv⟩ := List.getElem?_set_cases hv
    · exact hself
    · exact ⟨(h.writers hv).chunks, hothers hj hv⟩
  apart {j k v v' name} hv hv' hn hn' := by
    obtain ⟨hj, rfl⟩ | ⟨hj, hold⟩ := List.getElem?_set_cases hv
    · obtain ⟨hk, rfl⟩ | ⟨hk, hold'⟩ := List.getElem?_set_cases hv'
      · exact hj.trans hk.symm
      · exact (hname hk hold' hn hn').elim
    · obtain ⟨-, rfl⟩ | ⟨-, hold'⟩ := List.getElem?_set_cases hv'
      · exact (hname hj hold hn' hn).elim
      · exact h.apart hold hold' hn hn'
  saves := h.saves
  loads hload := hloads (h.loads hload)
  buffers := h.buffers
  returned := h.returned
  sent := h.sent

/-- A step of a writer keeps the invariant. -/
theorem Sound.writer {step : WriterStep} (h : s.Sound H) (hok : s.Undisturbed (.writer i step))
    (hs : s.stepWriter i step = some t) : t.Sound H := by
  unfold stepWriter at hs
  split at hs
  case h_2 => cases hs
  case h_1 u w hu hw =>
    split at hs
    case isFalse => cases hs
    obtain ⟨⟨folder, w'⟩, hnext, rfl⟩ := Option.map_eq_some_iff.mp hs
    have hsound := h.writers hw
    have hphase := hsound.phase
    -- a step on the file that the writer has opened
    have hholds : ∀ {name}, w.phase.tmp = some name → ∀ {j : ℕ} {v : Writer}, j ≠ i →
        s.writers[j]? = some v → v.phase.tmp ≠ some name := by
      intro name hn j v hj hv hn'
      exact hj (h.apart hv hw hn' hn)
    unfold Writer.next at hnext
    split at hnext
    · -- the check
      rename_i time
      split at hnext
      case h_2 => cases hnext
      rename_i chunkId data chunks hnextPhase hchunks
      have hrest : ∀ p ∈ chunks, H.id p.2 = p.1 := by
        intro p hp
        exact hsound.chunks p (hchunks ▸ List.mem_cons_of_mem _ hp)
      split at hnext
      · cases hnext
        exact h.update h.intact ⟨hrest, trivial⟩ (fun _ hv => (h.writers hv).phase)
          (fun _ _ hn => by cases hn) id
      · cases hnext
        refine h.update h.intact ⟨hrest, ?_⟩ (fun _ hv => (h.writers hv).phase)
          (fun _ _ hn => by cases hn) id
        exact hsound.chunks (chunkId, data) (hchunks ▸ List.mem_cons_self)
    · -- the temporary file is opened
      split at hnext
      case h_2 => cases hnext
      rename_i chunkId data time hnamed
      cases hnext
      have hfree : ∀ v ∈ s.writers, v.phase.tmp ≠ some (.tmp chunkId time) :=
        hok w hw (.tmp chunkId time) (by rw [hnamed]; rfl)
      have ht := s.folder.touches_openTruncate (.tmp chunkId time)
      rw [hnamed] at hphase
      refine h.update (h.intact.touches ht) ⟨hsound.chunks, hphase, ht.entry_self, ?_, ?_⟩ ?_ ?_ ?_
      · exact Folder.bounded _ ht.entry_self
      · exact s.folder.contents_openTruncate_self _
      · exact fun _ hv => (h.writers hv).phase.touches ht (hfree _ (List.mem_of_getElem? hv))
      · intro j name v _ hv hn
        cases hn
        exact hfree v (List.mem_of_getElem? hv)
      · exact fun hload => hload.touches ht
    · -- a piece is written
      split at hnext
      case h_2 => cases hnext
      rename_i n _ chunkId time file hwriting
      obtain ⟨⟨folder', file'⟩, hpiece, heq⟩ := Option.map_eq_some_iff.mp hnext
      cases heq
      rw [hwriting] at hphase
      obtain ⟨hid, hentry, hfile⟩ := hphase
      have hfile' := hfile.next hpiece
      obtain ⟨-, -, rfl, rfl⟩ := Writing.next_eq hpiece
      have ht := s.folder.touches_write hentry file.written ((file.data.drop file.written).take n)
      have hmine : w.phase.tmp = some (.tmp chunkId time) := by rw [hwriting]; rfl
      refine h.update (h.intact.touches ht) ⟨hsound.chunks, hid, ht.entry_self, hfile'⟩ ?_ ?_ ?_
      · exact fun hj hv => (h.writers hv).phase.touches ht (hholds hmine hj hv)
      · intro j name v hj hv hn
        cases hn
        exact hholds hmine hj hv
      · exact fun hload => hload.touches ht
    · -- the rename
      split at hnext
      case h_2 => cases hnext
      rename_i chunkId time file hwriting
      split at hnext
      case isFalse => cases hnext
      rename_i hend
      obtain ⟨folder', hrename, heq⟩ := Option.map_eq_some_iff.mp hnext
      cases heq
      rw [hwriting] at hphase
      obtain ⟨hid, hentry, hfile⟩ := hphase
      have hmine : w.phase.tmp = some (.tmp chunkId time) := by rw [hwriting]; rfl
      unfold Folder.rename at hrename
      rw [hentry] at hrename
      cases hrename
      refine h.update (h.intact.move hid hentry hfile hend) ⟨hsound.chunks, trivial⟩ ?_ ?_ ?_
      · exact fun hj hv => (h.writers hv).phase.move (hholds hmine hj hv)
      · exact fun _ _ hn => by cases hn
      · exact fun hload => hload.move

/-- A step of a save keeps the invariant. -/
theorem Sound.save {step : SaveStep} (h : s.Sound cfg.hashFn)
    (hok : s.Undisturbed (.save i step)) (hs : s.stepSave cfg i step = some t) :
    t.Sound cfg.hashFn := by
  cases step with
  | write n =>
    -- there is nothing to write
    obtain ⟨save, hsave, hs⟩ := Option.bind_eq_some_iff.mp hs
    obtain ⟨⟨folder, file⟩, hnext, -⟩ := Option.map_eq_some_iff.mp hs
    obtain ⟨hpos, hle, -, -⟩ := Writing.next_eq hnext
    rw [(h.saves hsave).1, List.length_nil] at hle
    omega
  | «open» data =>
    dsimp only [stepSave] at hs
    split at hs
    case h_2 => cases hs
    case h_1 d hd hnone =>
      split at hs
      case isFalse => cases hs
      rename_i hasks
      cases hs
      obtain ⟨hempty, hfile⟩ := hok
      rw [List.isEmpty_iff.mp hempty] at hasks ⊢
      have hid : cfg.hashFn.id [] = d.chunkId :=
        of_decide_eq_true (Bool.and_eq_true_iff.mp hasks).2
      have ht := s.folder.touches_openTruncate (.chunk d.chunkId)
      have hcontents := contents_openTruncate_of_empty s.folder _ (hfile d hd)
      have hentry : ∀ chunkId time, (s.folder.openTruncate (.chunk d.chunkId)).1.entry
          (.tmp chunkId time) = s.folder.entry (.tmp chunkId time) :=
        fun _ _ => ht.entry_of_ne (by simp)
      refine ⟨?_, ?_, h.apart, ?_, ?_, h.buffers, h.returned, h.sent⟩
      · intro chunkId j hj
        have hj : (s.folder.openTruncate (.chunk d.chunkId)).1.entry (.chunk chunkId) = some j := hj
        show cfg.hashFn.id ((s.folder.openTruncate (.chunk d.chunkId)).1.contents j) = chunkId
        by_cases hc : chunkId = d.chunkId
        · rw [hc, ht.entry_self] at hj
          rw [← Option.some.inj hj, s.folder.contents_openTruncate_self, hc]
          exact hid
        · rw [ht.entry_of_ne (by simpa using hc)] at hj
          rw [hcontents]
          exact h.intact chunkId j hj
      · intro j w hw
        exact ⟨(h.writers hw).chunks, (h.writers hw).phase.congr hentry hcontents ht.length_le⟩
      · intro j save hsave
        obtain ⟨-, hsave⟩ | ⟨-, hsave⟩ := Function.update_eq_some_cases hsave
        · cases hsave
          exact ⟨rfl, hid⟩
        · exact h.saves hsave
      · exact fun hload => (h.loads hload).congr hentry hcontents ht.length_le

/-! ## The readers -/

/-- A reader that opens its file keeps the invariant. -/
theorem Sound.openLoad {reader : Reader} (h : s.Sound H) (hs : s.openLoad reader = some t) :
    t.Sound H := by
  unfold Disk.openLoad at hs
  split at hs
  case h_2 => cases hs
  case h_1 chunkId hnone hawaited =>
    obtain ⟨inode, hentry, rfl⟩ := Option.map_eq_some_iff.mp hs
    refine { h with loads := ?_ }
    intro reader' load hload
    obtain ⟨-, hload⟩ | ⟨-, hload⟩ := Function.update_eq_some_cases hload
    · cases hload
      refine ⟨h.intact _ _ hentry, List.nil_prefix, s.folder.bounded hentry, ?_⟩
      -- a file has one name
      intro chunkId' time htmp
      cases s.folder.injective hentry htmp
    · exact h.loads hload

/-- A reader that reads on keeps the invariant. -/
theorem Sound.load {reader : Reader} {n : ℕ} (h : s.Sound H) (hs : s.load reader n = some t) :
    t.Sound H := by
  unfold Disk.load at hs
  split at hs
  case h_2 => cases hs
  case h_1 load _ hload _ =>
    cases hs
    refine { h with loads := ?_ }
    intro reader' load' hload'
    obtain ⟨-, hload'⟩ | ⟨-, hload'⟩ := Function.update_eq_some_cases hload'
    · cases hload'
      exact (h.loads hload).next n
    · exact h.loads hload'

/-- What is returned from the cache has its id. -/
theorem Sound.returnCached (h : s.Sound H) (hs : s.returnCached i = some t) : t.Sound H := by
  unfold Disk.returnCached at hs
  split at hs
  case isFalse => cases hs
  rename_i hloaded
  obtain ⟨load, hload, rfl⟩ := Option.map_eq_some_iff.mp hs
  unfold loaded at hloaded
  rw [hload] at hloaded
  refine { h with loads := ?_, returned := ?_ }
  · intro reader' load' hload'
    obtain ⟨-, hload'⟩ | ⟨-, hload'⟩ := Function.update_eq_some_cases hload'
    · cases hload'
    · exact h.loads hload'
  · intro p hp
    obtain rfl | hp := List.mem_cons.mp hp
    · exact (h.loads hload).hash_eq hloaded
    · exact h.returned p hp

/-! ## The other events -/

/-- What a worker sends has its id. -/
theorem Sound.afterWorker {w : Worker} {answer : Answer} (h : s.Sound H)
    (hw : s.state.workers[i]? = some w) (hpermits : s.permits cfg (.worker i answer) = true) :
    (s.afterWorker i w answer).Sound H := by
  unfold Disk.afterWorker
  split
  · -- the worker has read its file
    rename_i hphase
    split
    · exact h
    · rename_i hanswer
      refine { h with buffers := ?_ }
      intro j p hp
      obtain ⟨-, hp⟩ | ⟨-, hp⟩ := Function.update_eq_some_cases hp
      · obtain ⟨load, hload, rfl⟩ := Option.map_eq_some_iff.mp hp
        have hloaded : s.loaded (.worker i) = true := by
          simpa [permits, hw, hphase, hanswer] using hpermits
        unfold loaded at hloaded
        rw [hload] at hloaded
        exact (h.loads hload).hash_eq hloaded
      · exact h.buffers hp
  · split
    · exact h
    · refine { h with sent := ?_ }
      intro p hp
      obtain hp | hp := List.mem_append.mp hp
      · exact h.buffers (Option.mem_toList.mp hp)
      · exact h.sent p hp
  · exact h

theorem Sound.dropSave (h : s.Sound H) : (s.dropSave i).Sound H := by
  refine { h with saves := ?_ }
  intro j save hsave
  obtain ⟨-, hsave⟩ | ⟨-, hsave⟩ := Function.update_eq_some_cases hsave
  · cases hsave
  · exact h.saves hsave

theorem Sound.returnSaved (h : s.Sound H) : (s.returnSaved i).Sound H := by
  unfold Disk.returnSaved
  split
  · rename_i save hsave
    refine { h with returned := ?_ }
    intro p hp
    obtain rfl | hp := List.mem_cons.mp hp
    · obtain ⟨hdata, hid⟩ := h.saves hsave
      show H.id save.file.data = save.chunkId
      rw [hdata]
      exact hid
    · exact h.returned p hp
  · exact h

theorem Sound.afterDownload {d : Download} {bytes : Option Bytes} {ok : Bool} (h : s.Sound H) :
    (s.afterDownload cfg i d bytes ok).Sound H := by
  unfold Disk.afterDownload
  split
  · split
    · exact { h with }
    · exact h
  · split
    · exact h
    · exact h.dropSave
  · cases ok with
    | true => exact h.returnSaved.dropSave
    | false => exact h.dropSave
  · exact h

/-- A new call of `uploadData`. -/
theorem Sound.append {w : Writer} (h : s.Sound H) (hw : w.Sound H s.folder)
    (hphase : w.phase = .next) : Sound H { s with writers := s.writers ++ [w] } := by
  -- a writer that has opened a file is an old one
  have hold : ∀ {j : ℕ} {v : Writer} {name}, (s.writers ++ [w])[j]? = some v →
      v.phase.tmp = some name → s.writers[j]? = some v := by
    intro j v name hv hn
    rw [List.getElem?_append] at hv
    split at hv
    · exact hv
    · have hmem := List.mem_singleton.mp (List.mem_of_getElem? hv)
      rw [hmem, hphase] at hn
      cases hn
  refine { h with writers := ?_, apart := ?_ }
  · intro j v hv
    obtain hv | hv := List.mem_append.mp (List.mem_of_getElem? hv)
    · obtain ⟨k, hk⟩ := List.mem_iff_getElem?.mp hv
      exact h.writers hk
    · exact List.mem_singleton.mp hv ▸ hw
  · intro j k v v' name hv hv' hn hn'
    exact h.apart (hold hv hn) (hold hv' hn') hn hn'

/-- An event of the tasks keeps the invariant. -/
theorem Sound.afterOther {e : Event} (h : s.Sound cfg.hashFn) (hpermits : s.permits cfg e = true) :
    (s.afterOther cfg e).Sound cfg.hashFn := by
  unfold Disk.afterOther
  split
  · rename_i data _
    refine h.append ⟨?_, trivial⟩ rfl
    intro p hp
    obtain ⟨chunk, -, rfl⟩ := List.mem_map.mp hp
    rfl
  · split
    · exact h.update h.intact ⟨fun p hp => (List.not_mem_nil hp).elim, trivial⟩
        (fun _ hv => (h.writers hv).phase) (fun _ _ hn => by cases hn) id
    · exact h
  · split
    · exact h.afterWorker ‹_› hpermits
    · exact h
  · split
    · exact h.afterDownload
    · exact h
  · -- the process has ended, and the folder is as it was
    exact
      { intact := h.intact
        writers := fun hv => by cases hv
        apart := fun hv => by cases hv
        saves := fun hsave => by cases hsave
        loads := fun hload => by cases hload
        buffers := fun hp => by cases hp
        returned := h.returned
        sent := h.sent }
  · exact h

/-! ## The runs -/

theorem Sound.init : Sound H .init where
  intact _ _ hentry := by cases hentry
  writers hv := by cases hv
  apart hv := by cases hv
  saves hsave := by cases hsave
  loads hload := by cases hload
  buffers hp := by cases hp
  returned p hp := (List.not_mem_nil hp).elim
  sent p hp := (List.not_mem_nil hp).elim

/-- An undisturbed step keeps the invariant. -/
theorem Sound.step (h : s.Sound cfg.hashFn) (hok : s.Undisturbed e) (hs : s.step cfg e = some t) :
    t.Sound cfg.hashFn := by
  cases e with
  | writer i step => exact h.writer hok hs
  | save i step => exact h.save hok hs
  | openLoad reader => exact h.openLoad hs
  | load reader n => exact h.load hs
  | returnCached i => exact h.returnCached hs
  | other e =>
    dsimp only [Disk.step] at hs
    split at hs
    case isFalse => cases hs
    rename_i hpermits
    obtain ⟨state, -, rfl⟩ := Option.map_eq_some_iff.mp hs
    exact { h.afterOther hpermits with }

/-- As long as `getChunk` writes no file itself and no temporary file has two writers, every file of
a chunk contains bytes that hash to its id, in every state, also between the steps of a write and
after the process has ended; and so do the bytes that `getChunk` returns and the uploader sends. -/
theorem cache_intact (h : Reach (Disk.step cfg) Undisturbed .init s) :
    (∀ chunkId bytes, s.folder.read (.chunk chunkId) = some bytes →
      cfg.hashFn.id bytes = chunkId) ∧
    (∀ p ∈ s.returned, cfg.hashFn.id p.2 = p.1) ∧ ∀ p ∈ s.sent, cfg.hashFn.id p.2 = p.1 := by
  have hsound : s.Sound cfg.hashFn :=
    h.invariant .init fun _ _ _ hinv hok hs => hinv.step hok hs
  refine ⟨?_, hsound.returned, hsound.sent⟩
  intro chunkId bytes hread
  obtain ⟨inode, hentry, rfl⟩ := Option.map_eq_some_iff.mp hread
  exact hsound.intact chunkId inode hentry

/-- When `getChunk` opens its file, the file is empty: what it contains is wrong at once, unless the
empty chunk has the same id. -/
theorem broken_of_save {data : Bytes} (hs : s.stepSave cfg i (.open data) = some t)
    (hne : cfg.hashFn.id [] ≠ cfg.hashFn.id data) : ∃ chunkId bytes,
      t.folder.read (.chunk chunkId) = some bytes ∧ cfg.hashFn.id bytes ≠ chunkId := by
  dsimp only [stepSave] at hs
  split at hs
  case h_2 => cases hs
  case h_1 d hd hnone =>
    split at hs
    case isFalse => cases hs
    rename_i hasks
    cases hs
    have hid : cfg.hashFn.id data = d.chunkId :=
      of_decide_eq_true (Bool.and_eq_true_iff.mp hasks).2
    refine ⟨d.chunkId, [], ?_, hid ▸ hne⟩
    unfold Folder.read
    rw [s.folder.entry_openTruncate_self, Option.map_some, s.folder.contents_openTruncate_self]

/-- A call of `uploadData` whose only chunk is written and renamed, and a worker that sends it. -/
def sendRun : List DiskEvent :=
  [.other (.uploadData [2, 3] false), .other (.upload 0 false), .writer 0 (.check 5),
    .writer 0 .open, .writer 0 (.write 1), .writer 0 (.write 1), .writer 0 .rename,
    .other (.upload 0 false), .other (.upload 0 false), .other (.upload 0 false)] ++
  (loopRun [HashFn.firstBytes.id [2, 3]]).map .other ++
  [.openLoad (.worker 0), .load (.worker 0) 2, .other (.worker 0 .ok), .other (.worker 0 .refused)]

/-- Where this run ends. -/
def sentState : Disk := after (guarded (Disk.step .small) Undisturbed) .init sendRun

theorem cache_intact_send :
    (∀ chunkId bytes, sentState.folder.read (.chunk chunkId) = some bytes →
      Config.small.hashFn.id bytes = chunkId) ∧
    (∀ p ∈ sentState.returned, Config.small.hashFn.id p.2 = p.1) ∧
    ∀ p ∈ sentState.sent, Config.small.hashFn.id p.2 = p.1 :=
  cache_intact (.of_after sendRun (by decide +kernel))

/-- The process ends while `getChunk` writes its file; then the same bytes are uploaded, and the
chunk is asked for. -/
def cutRun : List DiskEvent :=
  [.other (.getChunk (HashFn.firstBytes.id [2, 3]) true), .other (.download 0 none true),
    .other (.download 0 none true), .save 0 (.open [2, 3]), .save 0 (.write 1), .other .exit,
    .other .restartUploadsDownloads,
    -- the file is there
    .other (.uploadData [2, 3] false), .other (.upload 0 false), .writer 0 (.check 5),
    .other (.upload 0 false), .other (.upload 0 false), .other (.upload 0 false)] ++
  (loopRun [HashFn.firstBytes.id [2, 3]]).map .other ++
  [.openLoad (.worker 0), .load (.worker 0) 2, .other (.worker 0 .ok), .other (.worker 0 .refused),
    .other (.getChunk (HashFn.firstBytes.id [2, 3]) true), .other (.download 0 none true),
    .openLoad (.download 0), .load (.download 0) 2, .returnCached 0]

/-- Where this run ends. -/
def cutState : Disk := after (guarded (Disk.step .small) Any) .init cutRun

/-- The file, what `getChunk` returns and what the uploader sends are the first byte. -/
theorem cache_broken : Reach (Disk.step .small) Any .init cutState ∧
    cutState.folder.read (.chunk (HashFn.firstBytes.id [2, 3])) = some [2] ∧
    cutState.returned = [(HashFn.firstBytes.id [2, 3], [2])] ∧
    cutState.sent = [(HashFn.firstBytes.id [2, 3], [2])] ∧
    Config.small.hashFn.id [2] ≠ HashFn.firstBytes.id [2, 3] :=
  ⟨.of_after cutRun (by decide +kernel), by decide +kernel, by decide +kernel, by decide +kernel,
    by decide +kernel⟩

end Disk

end PointNetwork.Uploader
