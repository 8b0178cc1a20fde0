import Mathlib.Data.List.Nodup
import Mathlib.Data.List.Perm.Basic
import Mathlib.Data.List.Range

/-!
# Slots

A table of slots, each free or taken, and the list of those who own the slots that are taken: each
owns one slot, and no slot is taken without an owner. So a slot is never lost: the slots taken are
as many as the owners.

* `Owns`: the relation between the table and the owners;
* `Owns.append`, `Owns.take`, `Owns.free`: a new slot, a slot that was free, a slot given back;
* `Owns.count`: how many slots are taken.
-/

/-- The slots that are not free are those of the owners, who have different ones. -/
structure Owns (slots : List Bool) (owners : List ℕ) : Prop where
  nodup : owners.Nodup
  taken : ∀ i, slots[i]? = some false ↔ i ∈ owners

namespace Owns

variable {slots : List Bool} {owners owners' : List ℕ} {i : ℕ}

theorem nil : Owns [] [] := ⟨List.nodup_nil, by simp⟩

/-- The order of the owners does not matter. -/
theorem perm (h : Owns slots owners) (hp : owners.Perm owners') : Owns slots owners' :=
  ⟨hp.nodup_iff.mp h.nodup, fun i => (h.taken i).trans hp.mem_iff⟩

/-- A new slot, which is taken at once. -/
theorem append (h : Owns slots owners) : Owns (slots ++ [false]) (slots.length :: owners) := by
  have hnew : slots.length ∉ owners := by
    intro hmem
    have hget := (h.taken _).mpr hmem
    rw [List.getElem?_eq_none (le_refl _)] at hget
    cases hget
  refine ⟨List.nodup_cons.mpr ⟨hnew, h.nodup⟩, ?_⟩
  intro i
  rw [List.mem_cons, ← h.taken]
  by_cases hi : i = slots.length
  · simp [hi]
  · simp only [hi, false_or]
    by_cases hlt : i < slots.length
    · rw [List.getElem?_append_left hlt]
    · rw [List.getElem?_eq_none (by simp; omega), List.getElem?_eq_none (by omega)]

/-- A slot that was free is taken. -/
theorem take (h : Owns slots owners) (hi : slots[i]? = some true) :
    Owns (slots.set i false) (i :: owners) := by
  have hnew : i ∉ owners := by
    intro hmem
    have hget := (h.taken _).mpr hmem
    rw [hi] at hget
    cases hget
  refine ⟨List.nodup_cons.mpr ⟨hnew, h.nodup⟩, ?_⟩
  intro j
  rw [List.mem_cons, ← h.taken]
  by_cases hj : j = i
  · subst hj
    simp [(List.getElem?_eq_some_iff.mp hi).1]
  · rw [List.getElem?_set_ne (Ne.symm hj)]
    simp [hj]

/-- An owner gives its slot back. -/
theorem free (h : Owns slots (i :: owners)) : Owns (slots.set i true) owners := by
  obtain ⟨hnew, hnodup⟩ := List.nodup_cons.mp h.nodup
  refine ⟨hnodup, ?_⟩
  intro j
  by_cases hj : j = i
  · subst hj
    have hlt : j < slots.length :=
      (List.getElem?_eq_some_iff.mp ((h.taken j).mpr List.mem_cons_self)).1
    rw [List.getElem?_set_self hlt]
    simp [hnew]
  · rw [List.getElem?_set_ne (Ne.symm hj), h.taken]
    simp [hj]

/-- There are as many owners as slots that are taken. -/
theorem count (h : Owns slots owners) : slots.count false = owners.length := by
  have hcount : slots.count false =
      ((List.range slots.length).filter fun i => slots[i]? = some false).length := by
    have hslots : slots = (List.range slots.length).map fun i => slots.getD i true := by
      apply List.ext_getElem
      · simp
      · intro i h1 h2
        simp [List.getD, h1]
    rw [← List.countP_eq_length_filter]
    conv_lhs => rw [hslots]
    rw [List.count, List.countP_map]
    apply List.countP_congr
    intro i hi
    have hlt : i < slots.length := List.mem_range.mp hi
    simp [List.getD, hlt]
  have hperm : ((List.range slots.length).filter fun i => slots[i]? = some false).Perm owners := by
    rw [List.perm_ext_iff_of_nodup (List.nodup_range.filter _) h.nodup]
    intro i
    rw [List.mem_filter, List.mem_range, decide_eq_true_eq, h.taken]
    constructor
    · exact fun hi => hi.2
    · exact fun hi => ⟨(List.getElem?_eq_some_iff.mp ((h.taken i).mpr hi)).1, hi⟩
  rw [hcount, hperm.length_eq]

end Owns
