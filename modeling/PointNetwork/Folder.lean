import Mathlib.Data.List.Basic
import Mathlib.Logic.Function.Basic

/-!
# Folders

A folder of files: the entry of a name is an inode, and an inode has contents. A write changes a
file in place and may be cut short; a rename is one step. A file whose name is given to another one
keeps its contents for those who have it open.

* `Folder.openTruncate`, `Folder.write`, `Folder.rename`, with what they leave of entries and contents;
* `Folder.Touches`: all that the first two do to the other files;
* `Writing`, a file that is written from its beginning on, piece by piece; `Writing.next_contents`;
* `Reading`, a file that is read so; `Reading.next_prefix`, `Reading.got_eq`.
-/

/-- A folder whose names stand for files in a list; two names never stand for one file. -/
structure Folder (ν β : Type*) where
  entry : ν → Option ℕ
  files : List (List β)
  bounded : ∀ {name inode}, entry name = some inode → inode < files.length
  injective : ∀ {a b inode}, entry a = some inode → entry b = some inode → a = b

namespace Folder

variable {ν β : Type*}

/-- The folder without files. -/
def empty : Folder ν β where
  entry _ := none
  files := []
  bounded h := by cases h
  injective h := by cases h

variable (F : Folder ν β)

/-- The bytes of a file, also when no name stands for it any more. -/
def contents (inode : ℕ) : List β := F.files.getD inode []

/-- The bytes under a name. -/
def read (name : ν) : Option (List β) := (F.entry name).map F.contents

/-- The folder with other bytes in one file. -/
def setContents (inode : ℕ) (contents : List β) : Folder ν β where
  entry := F.entry
  files := F.files.set inode contents
  bounded h := by
    rw [List.length_set]
    exact F.bounded h
  injective := F.injective

@[simp] theorem entry_setContents (inode : ℕ) (contents : List β) :
    (F.setContents inode contents).entry = F.entry := rfl

/-- The contents of the file are the new ones. -/
theorem contents_setContents_self {inode : ℕ} (hlt : inode < F.files.length) (contents : List β) :
    (F.setContents inode contents).contents inode = contents := by
  show (F.files.set inode contents).getD inode [] = contents
  rw [List.getD_eq_getElem?_getD, List.getElem?_set_self hlt]
  rfl

/-- The contents of the other files stay. -/
theorem contents_setContents_of_ne {inode other : ℕ} (hne : other ≠ inode) (contents : List β) :
    (F.setContents inode contents).contents other = F.contents other := by
  show (F.files.set inode contents).getD other [] = F.files.getD other []
  rw [List.getD_eq_getElem?_getD, List.getElem?_set_ne hne.symm, ← List.getD_eq_getElem?_getD]

/-- Some bytes from a position on; a hole before them is filled with zeros. -/
def overwrite [Zero β] (old : List β) (pos : ℕ) (bytes : List β) : List β :=
  old.take pos ++ List.replicate (pos - old.length) 0 ++ bytes ++ old.drop (pos + bytes.length)

/-- Bytes written into a file at a position. -/
def write [Zero β] (inode pos : ℕ) (bytes : List β) : Folder ν β :=
  F.setContents inode (overwrite (F.contents inode) pos bytes)

/-- The next piece of the data goes to the end of what is written. -/
theorem overwrite_take [Zero β] {data : List β} {k n : ℕ} (hk : k + n ≤ data.length) :
    overwrite (data.take k) k ((data.drop k).take n) = data.take (k + n) := by
  unfold overwrite
  have hlen : (data.take k).length = k := by
    rw [List.length_take]
    omega
  have hrest : (data.take k).drop (k + ((data.drop k).take n).length) = [] :=
    List.drop_eq_nil_of_le (by omega)
  rw [List.take_take, Nat.min_self, hlen, Nat.sub_self, List.replicate_zero, List.append_nil, hrest,
    List.append_nil, List.take_add]

/-- `F'` comes from `F` by an operation on the file of a name, which has the inode. -/
structure Touches (F F' : Folder ν β) (name : ν) (inode : ℕ) : Prop where
  entry_self : F'.entry name = some inode
  entry_of_ne : ∀ {other}, other ≠ name → F'.entry other = F.entry other
  contents_of_ne : ∀ {other}, other ≠ inode → F'.contents other = F.contents other
  length_le : F.files.length ≤ F'.files.length
  old_or_new : F.entry name = some inode ∨ inode = F.files.length

/-- A write touches the file of the name only. -/
theorem touches_write [Zero β] {name : ν} {inode : ℕ} (h : F.entry name = some inode) (pos : ℕ)
    (bytes : List β) : Touches F (F.write inode pos bytes) name inode where
  entry_self := h
  entry_of_ne _ := rfl
  contents_of_ne hne := F.contents_setContents_of_ne hne _
  length_le := Nat.le_of_eq List.length_set.symm
  old_or_new := .inl h

namespace Touches

variable {F} {F' : Folder ν β} {name : ν} {inode : ℕ}

/-- The file of another name. -/
theorem contents_of_entry (h : Touches F F' name inode) {other : ν} {j : ℕ} (hne : other ≠ name)
    (hj : F.entry other = some j) : F'.contents j = F.contents j := by
  apply h.contents_of_ne
  intro heq
  have hj' : F'.entry other = some inode := by rw [h.entry_of_ne hne, hj, heq]
  exact hne (F'.injective hj' h.entry_self)

/-- A file that is open, and that the name does not have. -/
theorem contents_of_open (h : Touches F F' name inode) {j : ℕ} (hlt : j < F.files.length)
    (hj : F.entry name ≠ some j) : j ≠ inode ∧ F'.contents j = F.contents j := by
  have hne : j ≠ inode := by
    intro heq
    obtain hold | hnew := h.old_or_new
    · exact hj (heq ▸ hold)
    · omega
  exact ⟨hne, h.contents_of_ne hne⟩

end Touches

variable [DecidableEq ν]

/-- A new empty file under a name. -/
def create (name : ν) : Folder ν β where
  entry := Function.update F.entry name (some F.files.length)
  files := F.files ++ [[]]
  bounded {other inode} h := by
    rw [List.length_append, List.length_singleton]
    by_cases hname : other = name
    · rw [hname, Function.update_self] at h
      cases h
      omega
    · rw [Function.update_of_ne hname] at h
      have hlt := F.bounded h
      omega
  injective {a b inode} ha hb := by
    by_cases hna : a = name
    · by_cases hnb : b = name
      · exact hna.trans hnb.symm
      · rw [hna, Function.update_self] at ha
        rw [Function.update_of_ne hnb] at hb
        cases ha
        exact (Nat.lt_irrefl _ (F.bounded hb)).elim
    · rw [Function.update_of_ne hna] at ha
      by_cases hnb : b = name
      · rw [hnb, Function.update_self] at hb
        cases hb
        exact (Nat.lt_irrefl _ (F.bounded ha)).elim
      · rw [Function.update_of_ne hnb] at hb
        exact F.injective ha hb

/-- Open a file for writing: it is created, or made empty. -/
def openTruncate (name : ν) : Folder ν β × ℕ :=
  match F.entry name with
  | some inode => (F.setContents inode [], inode)
  | none => (F.create name, F.files.length)

/-- A file that is there is emptied. -/
theorem openTruncate_of_some {name : ν} {inode : ℕ} (h : F.entry name = some inode) :
    F.openTruncate name = (F.setContents inode [], inode) := by
  unfold openTruncate
  rw [h]

/-- A file that is not there is created. -/
theorem openTruncate_of_none {name : ν} (h : F.entry name = none) :
    F.openTruncate name = (F.create name, F.files.length) := by
  unfold openTruncate
  rw [h]

/-- The name stands for the file that was opened. -/
theorem entry_openTruncate_self (name : ν) :
    (F.openTruncate name).1.entry name = some (F.openTruncate name).2 := by
  cases h : F.entry name with
  | some inode =>
    rw [F.openTruncate_of_some h]
    exact h
  | none =>
    rw [F.openTruncate_of_none h]
    exact Function.update_self _ _ _

/-- The other names stand for what they did. -/
theorem entry_openTruncate_of_ne {name other : ν} (hne : other ≠ name) :
    (F.openTruncate name).1.entry other = F.entry other := by
  cases h : F.entry name with
  | some inode =>
    rw [F.openTruncate_of_some h]
    rfl
  | none =>
    rw [F.openTruncate_of_none h]
    exact Function.update_of_ne hne _ _

/-- The file that was opened is empty. -/
theorem contents_openTruncate_self (name : ν) :
    (F.openTruncate name).1.contents (F.openTruncate name).2 = [] := by
  cases h : F.entry name with
  | some inode =>
    rw [F.openTruncate_of_some h]
    exact F.contents_setContents_self (F.bounded h) []
  | none =>
    rw [F.openTruncate_of_none h]
    show (F.files ++ [[]]).getD F.files.length [] = []
    simp

/-- The other files have the contents they had. -/
theorem contents_openTruncate_of_ne {name : ν} {inode : ℕ} (hne : inode ≠ (F.openTruncate name).2) :
    (F.openTruncate name).1.contents inode = F.contents inode := by
  cases h : F.entry name with
  | some old =>
    rw [F.openTruncate_of_some h] at hne ⊢
    exact F.contents_setContents_of_ne hne []
  | none =>
    rw [F.openTruncate_of_none h] at hne ⊢
    show (F.files ++ [[]]).getD inode [] = F.files.getD inode []
    rw [List.getD_eq_getElem?_getD, List.getD_eq_getElem?_getD]
    rcases Nat.lt_or_gt_of_ne hne with hlt | hgt
    · rw [List.getElem?_append_left hlt]
    · rw [List.getElem?_eq_none, List.getElem?_eq_none (by omega)]
      rw [List.length_append, List.length_singleton]
      omega

/-- The file that is opened is the one of the name, or a new one. -/
theorem inode_openTruncate (name : ν) :
    F.entry name = some (F.openTruncate name).2 ∨ (F.openTruncate name).2 = F.files.length := by
  cases h : F.entry name with
  | some inode =>
    rw [F.openTruncate_of_some h]
    exact .inl rfl
  | none =>
    rw [F.openTruncate_of_none h]
    exact .inr rfl

/-- Opening touches the file of the name only. -/
theorem touches_openTruncate (name : ν) :
    Touches F (F.openTruncate name).1 name (F.openTruncate name).2 where
  entry_self := F.entry_openTruncate_self name
  entry_of_ne hne := F.entry_openTruncate_of_ne hne
  contents_of_ne hne := F.contents_openTruncate_of_ne hne
  length_le := by
    cases h : F.entry name with
    | some inode =>
      rw [F.openTruncate_of_some h]
      exact Nat.le_of_eq List.length_set.symm
    | none =>
      rw [F.openTruncate_of_none h]
      show F.files.length ≤ (F.files ++ [[]]).length
      simp
  old_or_new := F.inode_openTruncate name

/-- The entry of a name goes to another name, whose file it replaces. -/
def move (source target : ν) : Folder ν β where
  entry := Function.update (Function.update F.entry source none) target (F.entry source)
  files := F.files
  bounded {name inode} h := by
    by_cases htarget : name = target
    · rw [htarget, Function.update_self] at h
      exact F.bounded h
    · rw [Function.update_of_ne htarget] at h
      by_cases hsource : name = source
      · rw [hsource, Function.update_self] at h
        cases h
      · rw [Function.update_of_ne hsource] at h
        exact F.bounded h
  injective {a b inode} ha hb := by
    -- a name that keeps its entry is not the source
    have hkept : ∀ {name}, name ≠ target →
        Function.update (Function.update F.entry source none) target (F.entry source) name =
          some inode → F.entry name = some inode ∧ name ≠ source := by
      intro name htarget h
      rw [Function.update_of_ne htarget] at h
      by_cases hsource : name = source
      · rw [hsource, Function.update_self] at h
        cases h
      · rw [Function.update_of_ne hsource] at h
        exact ⟨h, hsource⟩
    by_cases hna : a = target
    · by_cases hnb : b = target
      · exact hna.trans hnb.symm
      · rw [hna, Function.update_self] at ha
        exact ((hkept hnb hb).2 (F.injective (hkept hnb hb).1 ha)).elim
    · by_cases hnb : b = target
      · rw [hnb, Function.update_self] at hb
        exact ((hkept hna ha).2 (F.injective (hkept hna ha).1 hb)).elim
      · exact F.injective (hkept hna ha).1 (hkept hnb hb).1

theorem entry_move_target (source target : ν) :
    (F.move source target).entry target = F.entry source := Function.update_self _ _ _

/-- The old name stands for no file any more. -/
theorem entry_move_source {source target : ν} (hne : source ≠ target) :
    (F.move source target).entry source = none := by
  refine (Function.update_of_ne hne _ _).trans ?_
  exact Function.update_self _ _ _

/-- The other names stand for what they did. -/
theorem entry_move_of_ne {source target other : ν} (hs : other ≠ source) (ht : other ≠ target) :
    (F.move source target).entry other = F.entry other := by
  refine (Function.update_of_ne ht _ _).trans ?_
  exact Function.update_of_ne hs _ _

@[simp] theorem contents_move (source target : ν) :
    (F.move source target).contents = F.contents := rfl

/-- There is nothing to rename without an entry. -/
def rename (source target : ν) : Option (Folder ν β) :=
  if (F.entry source).isSome then some (F.move source target) else none

end Folder

/-! ## Pieces -/

/-- A file that is written from its beginning on: what is to be written, and how much of it is. -/
structure Writing (β : Type*) where
  data : List β
  inode : ℕ
  written : ℕ
  deriving DecidableEq

namespace Writing

variable {ν β : Type*} (w : Writing β) (F : Folder ν β)

/-- All of the data has been written. -/
def isFinished : Bool := w.written = w.data.length

/-- Write a piece of the data. -/
def next [Zero β] (n : ℕ) : Option (Folder ν β × Writing β) :=
  if 0 < n ∧ w.written + n ≤ w.data.length then
    some (F.write w.inode w.written ((w.data.drop w.written).take n),
      { w with written := w.written + n })
  else none

/-- The file contains what is written so far. -/
def Holds : Prop := w.inode < F.files.length ∧ F.contents w.inode = w.data.take w.written

variable {w F} {n : ℕ} {F' : Folder ν β} {w' : Writing β}

/-- A step of a write: that many more bytes, at the place where the last ones ended. -/
theorem next_eq [Zero β] (h : w.next F n = some (F', w')) : 0 < n ∧ w.written + n ≤ w.data.length ∧
    F' = F.write w.inode w.written ((w.data.drop w.written).take n) ∧
    w' = { w with written := w.written + n } := by
  unfold next at h
  split at h
  · cases h
    exact ⟨by omega, by omega, rfl, rfl⟩
  · cases h

/-- The file goes on holding what has been written. -/
theorem Holds.next [Zero β] (hw : w.Holds F) (h : w.next F n = some (F', w')) : w'.Holds F' := by
  obtain ⟨-, hle, rfl, rfl⟩ := next_eq h
  refine ⟨?_, ?_⟩
  · show w.inode < (F.files.set _ _).length
    rw [List.length_set]
    exact hw.1
  · refine (F.contents_setContents_self hw.1 _).trans ?_
    rw [hw.2]
    exact Folder.overwrite_take hle

/-- A file that is finished holds the data. -/
theorem Holds.contents_eq (hw : w.Holds F) (hend : w.isFinished) : F.contents w.inode = w.data := by
  rw [hw.2, of_decide_eq_true hend, List.take_length]

end Writing

/-- A file that is read from its beginning on, and what has been read of it. -/
structure Reading (β : Type*) where
  inode : ℕ
  got : List β
  deriving DecidableEq

namespace Reading

variable {ν β : Type*} (r : Reading β) (F : Folder ν β)

/-- Read a piece of the file. -/
def next (n : ℕ) : Reading β :=
  { r with got := r.got ++ ((F.contents r.inode).drop r.got.length).take n }

/-- As much has been read as the file is long now. -/
def atEnd : Bool := (F.contents r.inode).length ≤ r.got.length

variable {r F}

/-- What has been read is the beginning of the file. -/
theorem next_prefix (h : r.got <+: F.contents r.inode) (n : ℕ) :
    (r.next F n).got <+: F.contents (r.next F n).inode := by
  show r.got ++ _ <+: F.contents r.inode
  obtain ⟨rest, hrest⟩ := h
  rw [← hrest, List.drop_left, List.prefix_append_right_inj]
  exact List.take_prefix n rest

/-- What has been read at the end is the file. -/
theorem got_eq (h : r.got <+: F.contents r.inode) (hend : r.atEnd F) :
    r.got = F.contents r.inode := by
  refine h.eq_of_length ?_
  have hle : (F.contents r.inode).length ≤ r.got.length := of_decide_eq_true hend
  have hge := h.length_le
  omega

end Reading
