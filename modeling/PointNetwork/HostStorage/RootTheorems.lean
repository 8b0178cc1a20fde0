import PointNetwork.Machine
import PointNetwork.HostStorage.UpdateTheorems

/-!
# A root tracker and its file

Runs of `set`, `unset`, `append`, `insertAt`, `removeAt` and `replaceAt` on a root tracker in
memory, which may also be downloaded again. `root_coherent`: after each operation the file of
the root holds what the tracker in memory holds, in all its containers.
-/

namespace PointNetwork.HostStorage

open Js Machine

/-- An operation of a tracker, with its arguments. -/
inductive Op
  | set (path : List Segment) (v : AnyValue)
  | unset (path : List Segment)
  | append (path : List Segment) (v : AnyValue)
  | insertAt (path : List Segment) (v : AnyValue) (index : Segment)
  | removeAt (path : List Segment) (index : Segment)
  | replaceAt (path : List Segment) (v : AnyValue) (index : Segment)

/-- The value an operation is given. -/
def Op.value : Op → AnyValue
  | .set _ v | .append _ v | .insertAt _ v _ | .replaceAt _ v _ => v
  | .unset _ | .removeAt _ _ => .undefined

/-- The tree after an operation. -/
def Tree.apply : Op → Children → Except Exception Children
  | .set path v => Tree.set path v
  | .unset path => Tree.unset path
  | .append path _ => Tree.append path
  | .insertAt path _ _ => Tree.insertAt path
  | .removeAt path _ => Tree.removeAt path
  | .replaceAt path v index => Tree.replaceAt path v index

section

variable {σ : Type} (env : Env σ)

/-- One of the six operations on a tracker. -/
def applyOp : Op → HostStorageTracker → Run σ HostStorageTracker
  | .set path v => set env path v
  | .unset path => unset env path
  | .append path _ => append env path
  | .insertAt path _ _ => insertAt env path
  | .removeAt path _ => removeAt env path
  | .replaceAt path v index => replaceAt env path v index

/-- A root tracker in memory, and the random bytes to come. -/
structure RootState (σ : Type) where
  seed : σ
  root : HostStorageTracker := {}

/-- What happens to a root. -/
inductive RootEvent
  | op (o : Op)
  /-- The root is downloaded from its file. -/
  | reload

/-- An operation that returns normally, or a reload. -/
def rootStep (st : RootState σ) : RootEvent → Option (RootState σ)
  | .op o =>
    match applyOp env o st.root st.seed with
    | (.ok root, _, seed) => some ⟨seed, root⟩
    | (.error _, _, _) => none
  | .reload =>
    match st.root.encFile.map (fromDownload env) with
    | some (.ok root) => some { st with root }
    | _ => none

/-- What an operation uploads is downloaded, and its value is one that JSON keeps. -/
def RootOk (st : RootState σ) : RootEvent → Prop
  | .op o => (∀ material ∈ (applyOp env o st.root).log st.seed, Good env material) ∧
      o.value.plain = true
  | .reload => True

end

/-! ## Runs -/

section

variable {σ : Type} {env : Env σ} {cs : Children} {st st' : RootState σ}

/-- Each operation on the tracker does what it does to the tree. -/
lemma applyOp_agree {o : Op} (ho : o.value.plain = true) {root : HostStorageTracker}
    (h : RepTracker env True cs root) :
    Logged.Agree (Good env) (applyOp env o root) (Tree.apply o cs)
      fun root cs => Stored env True cs root := by
  cases o with
  | set path v => exact set_agree path (fun _ => ho) h
  | unset path => exact unset_agree path h
  | append path v => exact append_agree path h
  | insertAt path v index => exact insertAt_agree path h
  | removeAt path index => exact removeAt_agree path h
  | replaceAt path v index => exact replaceAt_agree path (fun _ => ho) index h

/-- An operation leaves a tracker whose file stands for the same tree. -/
lemma op_stored {o : Op} (h : RepTracker env True cs st.root) (hok : RootOk env st (.op o))
    (hs : rootStep env st (.op o) = some st') : ∃ cs', Stored env True cs' st'.root := by
  unfold rootStep at hs
  simp only at hs
  split at hs
  · rename_i root w seed hrun
    cases hs
    obtain ⟨cs', -, hstored⟩ := (applyOp_agree hok.2 h).run_ok hok.1 (by rw [hrun])
    exact ⟨cs', hstored⟩
  · cases hs

/-- The tracker of a run stands for a tree. Once there is a file, it stands for the same. -/
lemma rootStep_rep {e : RootEvent}
    (h : ∃ cs, RepTracker env True cs st.root ∧ (st.root.encFile = none ∨ Stored env True cs st.root))
    (hok : RootOk env st e) (hs : rootStep env st e = some st') :
    ∃ cs, RepTracker env True cs st'.root ∧
      (st'.root.encFile = none ∨ Stored env True cs st'.root) := by
  obtain ⟨cs, hrep, hfile⟩ := h
  cases e with
  | op o =>
    obtain ⟨cs', hstored⟩ := op_stored hrep hok hs
    exact ⟨cs', hstored.toRepTracker, Or.inr hstored⟩
  | reload =>
    unfold rootStep at hs
    rcases hfile with hnone | hstored
    · simp only [hnone] at hs
      cases hs
    · obtain ⟨f, hf, hholds⟩ := hstored.file
      obtain ⟨items, hload, hstored'⟩ := fromDownload_rep hholds
      simp only [hf, Option.map_some, hload] at hs
      cases hs
      exact ⟨cs, hstored'.toRepTracker, Or.inr hstored'⟩

/-- In every reachable state the root represents some tree. -/
theorem reach_rep {seed : σ} (h : Reach (rootStep env) (RootOk env) ⟨seed, {}⟩ st) :
    ∃ cs, RepTracker env True cs st.root := by
  have hinv := h.invariant
    (P := fun st => ∃ cs, RepTracker env True cs st.root ∧
      (st.root.encFile = none ∨ Stored env True cs st.root))
    ⟨[], RepTracker.empty, Or.inl rfl⟩ fun _ _ _ hrep hok hs => rootStep_rep hrep hok hs
  obtain ⟨cs, hcs, -⟩ := hinv
  exact ⟨cs, hcs⟩

/-- After any sequence of operations that return normally, the last of them being `o`, the root
has a file, and the tracker downloaded from it reads at every path as the one in memory. -/
theorem root_coherent {seed : σ} {o : Op}
    (hst : Reach (rootStep env) (RootOk env) ⟨seed, {}⟩ st) (hok : RootOk env st (.op o))
    (hs : rootStep env st (.op o) = some st') :
    ∃ f root, st'.root.encFile = some f ∧ fromDownload env f = .ok root ∧
      ∀ path, ∃ r, Reads env st'.root path r ∧ Reads env root path r := by
  obtain ⟨cs, hcs⟩ := reach_rep hst
  obtain ⟨cs', hstored⟩ := op_stored hcs hok hs
  obtain ⟨f, hf, hholds⟩ := hstored.file
  obtain ⟨root, hload, hroot, -⟩ := RepTracker.of_download hholds
  exact ⟨f, root, hf, hload, fun path =>
    ⟨_, reads_rep hstored.toRepTracker path, reads_rep hroot.toRepTracker path⟩⟩

/-! A small run: an object is set, then a key inside it. -/

/-- Sets an object with one property. -/
def setObject : Op := .set [.str (js "a")] (.obj [(js "b", .num (.fin (.ofInt 1)))])

/-- Sets that property. -/
def setInside : Op := .set [.str (js "a"), .str (js "b")] (.str (js "x"))

/-- What the two operations upload; they download nothing. -/
def nestedUploads : List Bytes :=
  (applyOp (.small []) setObject {}).log 0 ++
    (rootStep (.small []) ⟨0, {}⟩ (.op setObject)).elim [] fun st =>
      (applyOp (.small []) setInside st.root).log st.seed

/-- The root with the object. -/
def afterSetObject : RootState ℕ :=
  (rootStep (.small nestedUploads) ⟨0, {}⟩ (.op setObject)).getD ⟨0, {}⟩

/-- The root with the property set again. -/
def afterSetInside : RootState ℕ :=
  (rootStep (.small nestedUploads) afterSetObject (.op setInside)).getD ⟨0, {}⟩

theorem root_coherent_nested :
    ∃ f root, afterSetInside.root.encFile = some f ∧
      fromDownload (.small nestedUploads) f = .ok root ∧
      ∀ path, ∃ r, Reads (.small nestedUploads) afterSetInside.root path r ∧
        Reads (.small nestedUploads) root path r := by
  have hstep₁ : rootStep (.small nestedUploads) ⟨0, {}⟩ (.op setObject) = some afterSetObject :=
    (Option.getD_of_ne_none (Option.isSome_iff_ne_none.mp (by decide +kernel)) _).symm
  have hstep₂ : rootStep (.small nestedUploads) afterSetObject (.op setInside)
      = some afterSetInside :=
    (Option.getD_of_ne_none (Option.isSome_iff_ne_none.mp (by decide +kernel)) _).symm
  have hok₁ : RootOk (.small nestedUploads) ⟨0, {}⟩ (.op setObject) := ⟨by decide +kernel, rfl⟩
  have hok₂ : RootOk (.small nestedUploads) afterSetObject (.op setInside) :=
    ⟨by decide +kernel, rfl⟩
  exact root_coherent (Reach.init.step hok₁ hstep₁) hok₂ hstep₂

end

end PointNetwork.HostStorage
