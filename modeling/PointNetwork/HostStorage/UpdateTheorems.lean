import PointNetwork.HostStorage.ReadTheorems

/-!
# The operations of a tracker refine those of trees

* `update_agree`: the shape of the updates;
* `set_agree`, `unset_agree`, `append_agree`, `insertAt_agree`, `removeAt_agree`,
  `replaceAt_agree`: each of them throws where the operation on the tree does, and gives a
  tracker that stands for its result, as does the file the tracker was uploaded to.
-/

namespace PointNetwork.HostStorage

open Js Logged

section

variable {σ : Type} {env : Env σ} {strict : Prop} {cs : Children}
  {tracker : HostStorageTracker}

/-! ## The shape of the updates -/

/-- A leaf operation on a tracker agrees with one on trees. -/
def LeafAgrees (env : Env σ) (strict : Prop)
    (leaf : JsString → HostStorageTracker → Run σ HostStorageTracker)
    (treeLeaf : JsString → Children → Except Exception Children) : Prop :=
  ∀ k cs tracker, RepTracker env strict cs tracker →
    LoadedSlot env strict (treeSlot cs k) (slot tracker.items k) →
    Agree (Good env) (leaf k tracker) (treeLeaf k cs) fun t cs => RepTracker env strict cs t

/-- Where a path does not lead on through a container, tracker and tree give the same error. -/
def BlockedAgrees (env : Env σ) (strict : Prop) (blocked : Slot → Exception)
    (treeBlocked : TreeSlot → Exception) : Prop :=
  ∀ ts s, LoadedSlot env strict ts s → (∀ array sub, ts ≠ .own (.node array sub)) →
    blocked s = treeBlocked ts

/-- An upload stores what the tracker represents. -/
lemma upload_stored (h : RepTracker env strict cs tracker) :
    Agree (Good env) (upload env none tracker) (.ok cs) fun t cs => Stored env strict cs t :=
  (upload_agree h fun _ h => by cases h).known fun _ h => h.1

/-- An update of a tracker agrees with that of its tree. By induction on the path: the container
under its first key is a tracker again. -/
theorem update_agree {blocked : Slot → Exception} {treeBlocked : TreeSlot → Exception}
    {leaf : JsString → HostStorageTracker → Run σ HostStorageTracker}
    {treeLeaf : JsString → Children → Except Exception Children}
    (hblocked : BlockedAgrees env strict blocked treeBlocked)
    (hleaf : LeafAgrees env strict leaf treeLeaf) :
    ∀ (path : List Segment) {cs : Children} {tracker : HostStorageTracker},
      RepTracker env strict cs tracker →
      Agree (Good env) (update env blocked leaf path tracker)
        (Tree.update treeBlocked treeLeaf path cs) fun t cs => Stored env strict cs t
  | [], _, _, _ => .fail _
  | segment :: rest, cs, tracker, h => by
    unfold update Tree.update
    refine Agree.ofExcept_bind fun k _ => ?_
    obtain ⟨tracker', hload, hrep, hslot⟩ := load_slot h k
    rw [ofExcept_bind_eq hload]
    -- what is no container blocks the path, in the tracker as in the tree
    have hfail : ∀ {s ts}, blocked s = treeBlocked ts →
        Agree (Good env) (Logged.fail (blocked s) : Run σ HostStorageTracker)
          (.error (treeBlocked ts)) fun t cs => Stored env strict cs t :=
      fun heq => heq ▸ .fail _
    cases rest with
    | nil =>
      show Agree (Good env) (leaf k tracker' >>= upload env none) (treeLeaf k cs) _
      rw [← bind_pure (treeLeaf k cs)]
      exact (hleaf k cs tracker' hrep hslot).bind fun t cs ht => upload_stored ht
    | cons segment' rest =>
      have hblock := hblocked _ _ hslot
      simp only
      revert hslot hblock
      generalize treeSlot cs k = ts
      generalize slot tracker'.items k = s
      intro hslot hblock
      cases hslot with
      | container hsub =>
        -- the container is uploaded again once the rest of the path is done
        refine (update_agree hblocked hleaf (segment' :: rest) hsub.toRepTracker).bind ?_
        intro t cs' ht
        exact upload_stored (hrep.setItem k ht.rep_node)
      | absent =>
        exact hfail (hblock (by simp))
      | inherited =>
        exact hfail (hblock (by simp))
      | literal hok _ =>
        exact hfail (hblock (by simp))
      | text hfile =>
        exact hfail (hblock (by simp))
      | buffer hfile =>
        exact hfail (hblock (by simp))

lemma blockedSet_agrees : BlockedAgrees env strict blockedSet Tree.blockedSet := by
  intro ts s h hne
  cases h with
  | container hsub => exact absurd rfl (hne _ _)
  | @literal v hok _ =>
    cases v with
    | function => exact absurd rfl hok.ne_function
    | num n => cases n <;> rfl
    | _ => rfl
  | _ => rfl

lemma blockedValue_agrees : BlockedAgrees env strict blockedValue Tree.blockedValue := by
  intro ts s h hne
  cases h with
  | container hsub => exact absurd rfl (hne _ _)
  | _ => rfl

/-! ## The operations -/

lemma setLeaf_agrees {v : AnyValue} (hv : strict → v.plain = true) :
    LeafAgrees env strict (setLeaf env v) (Tree.setLeaf v) := by
  intro k cs tracker h _
  exact (storeValue_agree v hv).bind fun item t hitem => .pure (h.setItem k hitem)

/-- `set` does what it does to the tree. -/
theorem set_agree (path : List Segment) {v : AnyValue} (hv : strict → v.plain = true)
    (h : RepTracker env strict cs tracker) :
    Agree (Good env) (set env path v tracker) (Tree.set path v cs)
      fun t cs => Stored env strict cs t :=
  update_agree blockedSet_agrees (setLeaf_agrees hv) path h

lemma unsetLeaf_agrees : LeafAgrees env strict unsetLeaf Tree.unsetLeaf := by
  intro k cs tracker h hslot
  have hset := h.setItem k (show Rep env strict (.literal .undefined) (.literal .undefined) from
    ⟨rfl, literalOk_undefined, fun _ => rfl⟩)
  unfold unsetLeaf Tree.unsetLeaf
  revert hslot
  generalize treeSlot cs k = ts
  generalize slot tracker.items k = s
  intro hslot
  cases hslot with
  | absent => exact .fail _
  | _ => exact .pure hset

/-- `unset` does what it does to the tree. -/
theorem unset_agree (path : List Segment) (h : RepTracker env strict cs tracker) :
    Agree (Good env) (unset env path tracker) (Tree.unset path cs)
      fun t cs => Stored env strict cs t :=
  update_agree blockedValue_agrees unsetLeaf_agrees path h

/-- The array that a list operation makes of an item. -/
lemma newEncArray_agree (withLen : Bool) (k : JsString) (h : RepTracker env strict cs tracker)
    (hslot : LoadedSlot env strict (treeSlot cs k) (slot tracker.items k)) :
    Agree (Good env) (newEncArray env withLen k tracker) (Tree.newEncArray withLen k cs)
      fun t cs => Stored env strict cs t := by
  -- an array that goes into the new one is empty
  have hone : ∀ v : AnyValue, (strict → v.plain = true) →
      Agree (Good env) (set env [.num (.fin (.ofInt 0))] v {} >>= upload env none)
        (Tree.set [.num (.fin (.ofInt 0))] v []) fun t cs => Stored env strict cs t := by
    intro v hv
    rw [← bind_pure (Tree.set _ v [])]
    exact (set_agree _ hv RepTracker.empty).bind fun t cs ht => upload_stored ht.toRepTracker
  unfold newEncArray Tree.newEncArray
  have hlen : (if withLen then len env [.str k] tracker else pure 0)
      = if withLen then Tree.len [.str k] cs else pure 0 := by
    rw [len_rep [.str k] h]
  rw [hlen]
  refine Agree.ofExcept_bind fun _ _ => ?_
  revert hslot
  generalize treeSlot cs k = ts
  generalize slot tracker.items k = s
  intro hslot
  cases hslot with
  | absent => exact .fail _
  | inherited => exact .fail _
  | text hfile => exact .fail _
  | buffer hfile => exact .fail _
  | @container array sub items encFile hsub =>
    cases array with
    | true => exact .fail _
    | false => exact .fail _
  | @literal v hok _ =>
    cases v with
    | function => exact absurd rfl hok.ne_function
    | undefined => exact hone .undefined fun _ => rfl
    | arr xs =>
      obtain rfl := hok.arr_nil xs rfl
      exact hone (.arr []) fun _ => rfl
    | num n => cases n <;> exact .fail _
    | _ => exact .fail _

lemma encArrayLeaf_agrees (withLen : Bool) :
    LeafAgrees env strict (encArrayLeaf env withLen) (Tree.encArrayLeaf withLen) := by
  intro k cs tracker h hslot
  exact (newEncArray_agree withLen k h hslot).bind fun t sub ht => .pure (h.setItem k ht.rep_node)

/-- `append` does what it does to the tree. -/
theorem append_agree (path : List Segment) (h : RepTracker env strict cs tracker) :
    Agree (Good env) (append env path tracker) (Tree.append path cs)
      fun t cs => Stored env strict cs t :=
  update_agree blockedValue_agrees (encArrayLeaf_agrees true) path h

/-- `insertAt` does what it does to the tree. -/
theorem insertAt_agree (path : List Segment) (h : RepTracker env strict cs tracker) :
    Agree (Good env) (insertAt env path tracker) (Tree.insertAt path cs)
      fun t cs => Stored env strict cs t := by
  unfold insertAt Tree.insertAt
  by_cases hlen : path.length ≤ 1
  · rw [if_pos hlen, if_pos hlen]
    exact update_agree blockedValue_agrees (encArrayLeaf_agrees false) path h
  · rw [if_neg hlen, if_neg hlen]
    exact append_agree path h

/-- `removeAt` does what it does to the tree. -/
theorem removeAt_agree (path : List Segment) (h : RepTracker env strict cs tracker) :
    Agree (Good env) (removeAt env path tracker) (Tree.removeAt path cs)
      fun t cs => Stored env strict cs t :=
  update_agree blockedValue_agrees (encArrayLeaf_agrees true) path h

lemma replaceLeaf_agrees {v : AnyValue} (hv : strict → v.plain = true) (index : Segment) :
    LeafAgrees env strict (replaceLeaf env v index) (Tree.replaceLeaf v index) := by
  intro k cs tracker h hslot
  have hblock := blockedValue_agrees _ _ hslot
  unfold replaceLeaf Tree.replaceLeaf
  revert hslot hblock
  generalize treeSlot cs k = ts
  generalize slot tracker.items k = s
  intro hslot hblock
  cases hslot with
  | container hsub =>
    exact (set_agree [index] hv hsub.toRepTracker).bind fun t sub ht =>
      .pure (h.setItem k ht.rep_node)
  | _ => exact .fail _

/-- `replaceAt` does what it does to the tree. -/
theorem replaceAt_agree (path : List Segment) {v : AnyValue} (hv : strict → v.plain = true)
    (index : Segment) (h : RepTracker env strict cs tracker) :
    Agree (Good env) (replaceAt env path v index tracker) (Tree.replaceAt path v index cs)
      fun t cs => Stored env strict cs t :=
  update_agree blockedValue_agrees (replaceLeaf_agrees hv index) path h

end

end PointNetwork.HostStorage
