import Mathlib.Data.List.Pairwise
import Mathlib.Data.List.Count

/-!
# Bounded retries

An operation is attempted again and again until an outcome asks for no other attempt or the limit
is reached. The outcome of attempt `n` is `f n`, and `again` says which outcomes ask for another one.

* `attempts`: the outcomes of the attempts that are made;
* `getElem?_attempts`: which attempts are made;
* `countP_attempts_le_one`: at most one of them is of a kind.
-/

namespace Retry

variable {α : Type*} (again : α → Bool) (f : ℕ → α)

/-- The outcomes of the attempts: at most `limit`, but at least one. -/
def attempts : ℕ → (ℕ → α) → List α
  | 0, f => [f 0]
  | limit + 1, f =>
    f 0 :: if again (f 0) ∧ 0 < limit then attempts limit fun n => f (n + 1) else []

/-- Attempt `n` is made: it is the first one, or within the limit and every one before it has asked
for another one. -/
def Made (limit n : ℕ) : Prop := n = 0 ∨ n < limit ∧ ∀ i < n, again (f i)

variable {again f}

/-- The attempts that are made, each with its outcome. -/
theorem getElem?_attempts {limit n : ℕ} {a : α} :
    (attempts again limit f)[n]? = some a ↔ a = f n ∧ Made again f limit n := by
  induction limit generalizing n f with
  | zero =>
    rw [attempts]
    cases n with
    | zero =>
      rw [List.getElem?_cons_zero, Option.some_inj, eq_comm]
      simp [Made]
    | succ n => simp [Made]
  | succ limit ih =>
    rw [attempts]
    cases n with
    | zero =>
      rw [List.getElem?_cons_zero, Option.some_inj, eq_comm]
      simp [Made]
    | succ n =>
      rw [List.getElem?_cons_succ]
      unfold Made
      rw [Nat.forall_lt_succ_left, Nat.add_lt_add_iff_right, or_iff_right n.succ_ne_zero]
      by_cases hagain : again (f 0) ∧ 0 < limit
      · rw [if_pos hagain, ih]
        apply and_congr_right
        intro _
        constructor
        · rintro (rfl | ⟨hlt, hall⟩)
          · exact ⟨hagain.2, hagain.1, fun k hk => (Nat.not_lt_zero k hk).elim⟩
          · exact ⟨hlt, hagain.1, hall⟩
        · exact fun ⟨hlt, _, hall⟩ => .inr ⟨hlt, hall⟩
      · -- the first attempt is the last one
        rw [if_neg hagain]
        constructor
        · simp
        · exact fun ⟨_, hlt, hfirst, _⟩ => (hagain ⟨hfirst, Nat.zero_lt_of_lt hlt⟩).elim

/-- At most one member of a list is of a kind if and only if no two places hold such a member. -/
theorem countP_le_one_iff {p : α → Bool} {l : List α} :
    l.countP p ≤ 1 ↔ l.Pairwise fun a b => ¬(p a ∧ p b) := by
  induction l with
  | nil => simp
  | cons a l ih =>
    rw [List.countP_cons, List.pairwise_cons, ← ih]
    by_cases ha : p a
    · have hnone : l.countP p = 0 ↔ ∀ b ∈ l, ¬(p a ∧ p b) := by
        rw [List.countP_eq_zero]
        simp [ha]
      rw [if_pos ha, ← hnone]
      omega
    · simp [ha]

/-- An attempt comes after all earlier ones. -/
theorem Made.of_lt {limit i j : ℕ} (h : Made again f limit j) (hij : i < j) :
    Made again f limit i := by
  obtain rfl | ⟨hlt, hall⟩ := h
  · exact (Nat.not_lt_zero i hij).elim
  · exact .inr ⟨Nat.lt_trans hij hlt, fun k hk => hall k (Nat.lt_trans hk hij)⟩

/-- At most one attempt is of a kind if and only if none of this kind is made after another. -/
theorem countP_attempts_le_one {p : α → Bool} {limit : ℕ} :
    (attempts again limit f).countP p ≤ 1 ↔
      ∀ i j, i < j → Made again f limit j → p (f i) → ¬p (f j) := by
  rw [countP_le_one_iff, List.pairwise_iff_getElem]
  constructor
  · intro h i j hij hj hpi hpj
    obtain ⟨hi', hi⟩ := List.getElem?_eq_some_iff.mp (getElem?_attempts.mpr ⟨rfl, hj.of_lt hij⟩)
    obtain ⟨hj', hj⟩ := List.getElem?_eq_some_iff.mp (getElem?_attempts.mpr ⟨rfl, hj⟩)
    have hnot := h i j hi' hj' hij
    rw [hi, hj] at hnot
    exact hnot ⟨hpi, hpj⟩
  · rintro h i j hi hj hij ⟨hpi, hpj⟩
    obtain ⟨hfi, -⟩ := getElem?_attempts.mp (List.getElem?_eq_getElem hi)
    obtain ⟨hfj, hmade⟩ := getElem?_attempts.mp (List.getElem?_eq_getElem hj)
    rw [hfi] at hpi
    rw [hfj] at hpj
    exact h i j hij hmade hpi hpj

end Retry
