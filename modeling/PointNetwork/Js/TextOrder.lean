import PointNetwork.Js.Number

/-!
# The order of strings

`<` on two strings of JavaScript: unit by unit. On texts of digits it is not the order of the
numbers: the texts are compared over the digits of the shorter one (`textLt_digits`).
-/

namespace Js

/-- `s < t`. -/
def textLt : JsString → JsString → Bool
  | _, [] => false
  | [], _ :: _ => true
  | u :: s, v :: t => if u = v then textLt s t else decide (u.toNat < v.toNat)

lemma textLt_cons_self (u : UInt16) (s t : JsString) :
    textLt (u :: s) (u :: t) = textLt s t := if_pos rfl

lemma textLt_cons_ne {u v : UInt16} (h : u ≠ v) (s t : JsString) :
    textLt (u :: s) (v :: t) = decide (u.toNat < v.toNat) := if_neg h

@[simp] lemma textLt_irrefl (s : JsString) : textLt s s = false := by
  induction s with
  | nil => rfl
  | cons u s ih => rw [textLt_cons_self, ih]

/-- Of two strings that differ exactly one is less. -/
lemma textLt_swap {s t : JsString} (h : s ≠ t) : textLt t s = !textLt s t := by
  induction s generalizing t with
  | nil =>
    cases t with
    | nil => exact absurd rfl h
    | cons v t => rfl
  | cons u s ih =>
    cases t with
    | nil => rfl
    | cons v t =>
      by_cases huv : u = v
      · subst huv
        rw [textLt_cons_self, textLt_cons_self]
        exact ih fun heq => h (by rw [heq])
      · have hne : u.toNat ≠ v.toNat := fun heq => huv (UInt16.toNat_inj.mp heq)
        rw [textLt_cons_ne huv, textLt_cons_ne (Ne.symm huv), ← decide_not, decide_eq_decide]
        omega

/-- The order of texts is transitive. -/
lemma textLt_trans {s t r : JsString} (h : textLt s t = true) (h' : textLt t r = true) :
    textLt s r = true := by
  induction s generalizing t r with
  | nil =>
    cases r with
    | nil =>
      cases t with
      | nil => exact h'
      | cons v t => exact h'
    | cons w r => rfl
  | cons u s ih =>
    cases t with
    | nil => cases h
    | cons v t =>
      cases r with
      | nil => cases h'
      | cons w r =>
        by_cases huv : u = v
        · subst huv
          by_cases huw : u = w
          · subst huw
            rw [textLt_cons_self] at h h' ⊢
            exact ih h h'
          · rw [textLt_cons_ne huw] at h' ⊢
            exact h'
        · rw [textLt_cons_ne huv, decide_eq_true_eq] at h
          by_cases hvw : v = w
          · subst hvw
            rw [textLt_cons_ne huv, decide_eq_true_eq]
            exact h
          · rw [textLt_cons_ne hvw, decide_eq_true_eq] at h'
            have huw : u ≠ w := by
              intro heq
              rw [heq] at h
              omega
            rw [textLt_cons_ne huw, decide_eq_true_eq]
            omega

/-! ## Texts of digits -/

/-- The value is bounded by the number of the digits. -/
lemma ofDigits_lt {ds : List ℕ} (h : ∀ d ∈ ds, d < 10) : ofDigits ds < 10 ^ ds.length := by
  induction ds using List.reverseRecOn with
  | nil => decide
  | append_singleton ds d ih =>
    have hds := ih fun e he => h e (List.mem_append_left _ he)
    have hd := h d (by simp)
    rw [ofDigits_append_singleton, List.length_append, List.length_singleton, pow_succ]
    omega

lemma ofDigits_cons (d : ℕ) (ds : List ℕ) :
    ofDigits (d :: ds) = d * 10 ^ ds.length + ofDigits ds := by
  rw [← List.singleton_append, ofDigits_append]
  simp [ofDigits]

/-- Two numbers, digit by digit from the front: cut to the digits of the shorter one, the first
is smaller, or they are equal and the first one is the shorter. -/
def DigitsBefore (ds es : List ℕ) : Prop :=
  let n := min ds.length es.length
  ofDigits (ds.take n) < ofDigits (es.take n) ∨
    ofDigits (ds.take n) = ofDigits (es.take n) ∧ ds.length < es.length

instance (ds es : List ℕ) : Decidable (DigitsBefore ds es) :=
  inferInstanceAs (Decidable (_ ∨ _))

/-- Texts of digits are ordered digit by digit, not by value. -/
theorem textLt_digits {ds es : List ℕ} (hds : ∀ d ∈ ds, d < 10) (hes : ∀ e ∈ es, e < 10) :
    textLt (ds.map digitUnit) (es.map digitUnit) = true ↔ DigitsBefore ds es := by
  induction ds generalizing es with
  | nil =>
    cases es with
    | nil => decide
    | cons e es => simp [textLt, DigitsBefore]
  | cons d ds ih =>
    cases es with
    | nil => simp [textLt, DigitsBefore]
    | cons e es =>
      have hd := hds d List.mem_cons_self
      have he := hes e List.mem_cons_self
      have hds' : ∀ x ∈ ds, x < 10 := fun x hx => hds x (List.mem_cons_of_mem _ hx)
      have hes' : ∀ x ∈ es, x < 10 := fun x hx => hes x (List.mem_cons_of_mem _ hx)
      have hmin : min (d :: ds).length (e :: es).length = min ds.length es.length + 1 := by
        simp only [List.length_cons]
        omega
      have hlength : (ds.take (min ds.length es.length)).length =
          (es.take (min ds.length es.length)).length := by
        simp only [List.length_take]
        omega
      have hlt := @ofDigits_lt (ds.take (min ds.length es.length))
        fun x hx => hds' x (List.mem_of_mem_take hx)
      have hlt' := @ofDigits_lt (es.take (min ds.length es.length))
        fun x hx => hes' x (List.mem_of_mem_take hx)
      -- the first digits decide, and where they are the same, the rest does
      have hbefore : DigitsBefore (d :: ds) (e :: es) ↔ d < e ∨ d = e ∧ DigitsBefore ds es := by
        unfold DigitsBefore
        dsimp only
        rw [hmin, List.take_succ_cons, List.take_succ_cons, ofDigits_cons, ofDigits_cons, hlength]
        rw [hlength] at hlt
        -- the power of ten of the digits behind
        generalize 10 ^ (es.take (min ds.length es.length)).length = p at hlt hlt' ⊢
        rcases Nat.lt_trichotomy d e with hde | rfl | hde
        · have hmul : (d + 1) * p ≤ e * p := Nat.mul_le_mul_right p hde
          rw [Nat.add_mul, Nat.one_mul] at hmul
          constructor
          · exact fun _ => .inl hde
          · exact fun _ => .inl (by omega)
        · simp only [List.length_cons, true_and]
          omega
        · have hmul : (e + 1) * p ≤ d * p := Nat.mul_le_mul_right p hde
          rw [Nat.add_mul, Nat.one_mul] at hmul
          constructor
          · intro h
            omega
          · intro h
            omega
      rw [hbefore, List.map_cons, List.map_cons]
      by_cases hde : d = e
      · subst hde
        rw [textLt_cons_self, ih hds' hes']
        simp
      · have hunit : digitUnit d ≠ digitUnit e := by
          intro h
          have hnat := congrArg UInt16.toNat h
          rw [toNat_digitUnit hd, toNat_digitUnit he] at hnat
          omega
        rw [textLt_cons_ne hunit, decide_eq_true_eq, toNat_digitUnit hd, toNat_digitUnit he]
        omega

/-! ## Texts of natural numbers -/

/-- The leading digits of a number. -/
lemma ofDigits_take (a k : ℕ) :
    ofDigits ((natDigits a).take k) = a / 10 ^ ((natDigits a).length - k) := by
  have hsplit : a = ofDigits ((natDigits a).take k) * 10 ^ ((natDigits a).drop k).length +
      ofDigits ((natDigits a).drop k) := by
    rw [← ofDigits_append, List.take_append_drop, ofDigits_natDigits]
  have hlt := @ofDigits_lt ((natDigits a).drop k)
    fun d hd => natDigits_lt (List.mem_of_mem_drop hd)
  rw [List.length_drop] at hsplit hlt
  symm
  apply Nat.div_eq_of_lt_le
  · omega
  · rw [Nat.add_mul, Nat.one_mul]
    omega

/-- A number is below the power of ten of its length. -/
lemma lt_pow_length (a : ℕ) : a < 10 ^ (natDigits a).length := by
  have hlt := @ofDigits_lt (natDigits a) fun d hd => natDigits_lt hd
  rwa [ofDigits_natDigits] at hlt

lemma length_natDigits_pos (a : ℕ) : 0 < (natDigits a).length := by
  rcases natDigits_cases a with h | ⟨d, ds, h, -⟩
  · rw [h]
    decide
  · rw [h]
    exact Nat.succ_pos _

/-- A number reaches the power of ten below its length. -/
lemma pow_length_le {a : ℕ} (ha : a ≠ 0) : 10 ^ ((natDigits a).length - 1) ≤ a := by
  rcases natDigits_cases a with h | ⟨d, ds, h, hd⟩
  · have hzero := ofDigits_natDigits a
    rw [h] at hzero
    exact absurd hzero.symm ha
  · have hvalue := ofDigits_natDigits a
    rw [h, ofDigits_cons] at hvalue
    rw [h, List.length_cons, Nat.add_sub_cancel]
    have hmul : 1 * 10 ^ ds.length ≤ d * 10 ^ ds.length := Nat.mul_le_mul_right _ (by omega)
    omega

/-- A number of so many digits. -/
lemma length_natDigits_eq {a k : ℕ} (hlow : 10 ^ k ≤ a) (hhigh : a < 10 ^ (k + 1)) :
    (natDigits a).length = k + 1 := by
  have hne : a ≠ 0 := by
    have := Nat.pow_pos (n := k) (show 0 < 10 by decide)
    omega
  have hle := pow_length_le hne
  have hlt := lt_pow_length a
  have hpos := length_natDigits_pos a
  have hk : k < (natDigits a).length :=
    (Nat.pow_lt_pow_iff_right (by decide)).mp (hlow.trans_lt hlt)
  have hk' : (natDigits a).length - 1 < k + 1 :=
    (Nat.pow_lt_pow_iff_right (by decide)).mp (hle.trans_lt hhigh)
  omega

/-- The texts of two numbers, the first of no more digits: it is compared with as many leading
digits of the second. -/
lemma textLt_natText_le {a b : ℕ} (h : (natDigits a).length ≤ (natDigits b).length) :
    textLt (natText a) (natText b) = true ↔
      a < b / 10 ^ ((natDigits b).length - (natDigits a).length) ∨
        a = b / 10 ^ ((natDigits b).length - (natDigits a).length) ∧
          (natDigits a).length < (natDigits b).length := by
  unfold natText
  rw [textLt_digits (fun _ hd => natDigits_lt hd) (fun _ hd => natDigits_lt hd), DigitsBefore]
  rw [min_eq_left h, List.take_length, ofDigits_natDigits, ofDigits_take]

/-- The first of no fewer digits. -/
lemma textLt_natText_ge {a b : ℕ} (h : (natDigits b).length ≤ (natDigits a).length) :
    textLt (natText a) (natText b) = true ↔
      a / 10 ^ ((natDigits a).length - (natDigits b).length) < b := by
  unfold natText
  rw [textLt_digits (fun _ hd => natDigits_lt hd) (fun _ hd => natDigits_lt hd), DigitsBefore]
  rw [min_eq_right h, List.take_length, ofDigits_natDigits, ofDigits_take]
  omega

end Js
