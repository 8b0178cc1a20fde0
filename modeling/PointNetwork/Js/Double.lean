import Mathlib.Data.Int.Log
import Mathlib.Data.Rat.Floor
import Mathlib.Tactic.Linarith
import Mathlib.Tactic.NormNum
import PointNetwork.Js.Decimal

/-!
# Doubles

The double nearest to a nonnegative rational number, as JavaScript's `Number` values are rounded:
to 53 significant bits, ties to even, the exponent at least -1074, and to infinity from the largest
double's upper neighbour on. What is printed for a double is the shortest decimal that rounds to it.

* `toDouble`, with `toDouble_mono`, `toDouble_natCast` and `roundSignificand_idem`;
* `shortestAt`: the digits that are printed, with `shortest_of_lt` and `toDouble_shortestAt`;
* `Decimal.text`: `String(x)` of the double `x` nearest to a decimal;
* `Decimal.round`: a fraction as the shortest decimal of its double, with `Decimal.round_round`.
-/

namespace Js

/-! ## Rounding to an integer -/

/-- The nearest integer; of two that are equally near, the even one. -/
def roundHalfEven (x : ℚ) : ℤ :=
  if x - ⌊x⌋ < 1 / 2 ∨ x - ⌊x⌋ = 1 / 2 ∧ ⌊x⌋ % 2 = 0 then ⌊x⌋ else ⌊x⌋ + 1

/-- Integers are not rounded. -/
theorem roundHalfEven_intCast (n : ℤ) : roundHalfEven n = n := by
  unfold roundHalfEven
  rw [Int.floor_intCast, sub_self, if_pos (.inl (by norm_num))]

theorem floor_le_roundHalfEven (x : ℚ) : ⌊x⌋ ≤ roundHalfEven x := by
  unfold roundHalfEven
  split <;> omega

theorem roundHalfEven_le_floor_add_one (x : ℚ) : roundHalfEven x ≤ ⌊x⌋ + 1 := by
  unfold roundHalfEven
  split <;> omega

/-- Rounding keeps the order. -/
theorem roundHalfEven_mono {x y : ℚ} (h : x ≤ y) : roundHalfEven x ≤ roundHalfEven y := by
  have hfloor : ⌊x⌋ ≤ ⌊y⌋ := Int.floor_mono h
  obtain hlt | heq := lt_or_eq_of_le hfloor
  · have hx := roundHalfEven_le_floor_add_one x
    have hy := floor_le_roundHalfEven y
    omega
  · unfold roundHalfEven
    rw [heq]
    by_cases hy : y - ⌊y⌋ < 1 / 2 ∨ y - ⌊y⌋ = 1 / 2 ∧ ⌊y⌋ % 2 = 0
    · -- what is left of `x` is not more than what is left of `y`
      have hx : x - ⌊y⌋ < 1 / 2 ∨ x - ⌊y⌋ = 1 / 2 ∧ ⌊y⌋ % 2 = 0 := by
        obtain hy | ⟨hy, heven⟩ := hy
        · exact .inl (by linarith)
        · obtain hlt | heq := lt_or_eq_of_le h
          · exact .inl (by linarith)
          · exact .inr ⟨by rw [heq, hy], heven⟩
      rw [if_pos hx, if_pos hy]
    · rw [if_neg hy]
      split <;> omega

/-! ## Rounding to a double -/

/-- The exponent of the last bit of the doubles around a positive number. -/
def lastBit (x : ℚ) : ℤ := max (Int.log 2 x - 52) (-1074)

/-- A nonnegative number with its significand rounded. -/
def roundSignificand (x : ℚ) : ℚ := roundHalfEven (x / 2 ^ lastBit x) * 2 ^ lastBit x

/-- The double nearest to a nonnegative number. -/
def toDouble (x : ℚ) : WithTop ℚ :=
  if roundSignificand x < 2 ^ 1024 then roundSignificand x else ⊤

theorem two_zpow_pos (e : ℤ) : (0 : ℚ) < 2 ^ e := zpow_pos (by norm_num) e

/-- A power of two that is no less than the last bit is a multiple of it. -/
theorem exists_zpow_eq {x : ℚ} {e : ℤ} (he : lastBit x ≤ e) :
    ∃ k : ℕ, (2 : ℚ) ^ e = ((2 ^ k : ℤ) : ℚ) * 2 ^ lastBit x := by
  obtain ⟨k, rfl⟩ : ∃ k : ℕ, e = lastBit x + k := ⟨(e - lastBit x).toNat, by omega⟩
  refine ⟨k, ?_⟩
  rw [zpow_add₀ two_ne_zero, zpow_natCast, mul_comm]
  push_cast
  rfl

/-- Rounding does not go beyond a power of two. -/
theorem roundSignificand_le {x : ℚ} {e : ℤ} (he : lastBit x ≤ e) (h : x ≤ 2 ^ e) :
    roundSignificand x ≤ 2 ^ e := by
  have hbit := two_zpow_pos (lastBit x)
  obtain ⟨k, hk⟩ := exists_zpow_eq he
  have hdiv : x / 2 ^ lastBit x ≤ ((2 ^ k : ℤ) : ℚ) := by
    rw [div_le_iff₀ hbit, ← hk]
    exact h
  have hround := roundHalfEven_mono hdiv
  rw [roundHalfEven_intCast] at hround
  unfold roundSignificand
  rw [hk]
  exact mul_le_mul_of_nonneg_right (Int.cast_le.mpr hround) hbit.le

/-- Rounding does not go below a power of two that is reached. -/
theorem le_roundSignificand {x : ℚ} {e : ℤ} (he : lastBit x ≤ e) (h : 2 ^ e ≤ x) :
    2 ^ e ≤ roundSignificand x := by
  have hbit := two_zpow_pos (lastBit x)
  obtain ⟨k, hk⟩ := exists_zpow_eq he
  have hdiv : ((2 ^ k : ℤ) : ℚ) ≤ x / 2 ^ lastBit x := by
    rw [le_div_iff₀ hbit, ← hk]
    exact h
  have hround := roundHalfEven_mono hdiv
  rw [roundHalfEven_intCast] at hround
  unfold roundSignificand
  rw [hk]
  exact mul_le_mul_of_nonneg_right (Int.cast_le.mpr hround) hbit.le

theorem roundSignificand_zero : roundSignificand 0 = 0 := by
  have hzero : roundHalfEven 0 = 0 := by
    simpa using roundHalfEven_intCast 0
  unfold roundSignificand
  rw [zero_div, hzero, Int.cast_zero, zero_mul]

theorem roundSignificand_nonneg {x : ℚ} (hx : 0 ≤ x) : 0 ≤ roundSignificand x := by
  have hbit := two_zpow_pos (lastBit x)
  have hdiv : ((0 : ℤ) : ℚ) ≤ x / 2 ^ lastBit x := by
    rw [Int.cast_zero]
    exact div_nonneg hx hbit.le
  have hround := roundHalfEven_mono hdiv
  rw [roundHalfEven_intCast] at hround
  exact mul_nonneg (Int.cast_nonneg hround) hbit.le

/-- Rounding to doubles keeps the order. -/
theorem roundSignificand_mono {x y : ℚ} (hx : 0 ≤ x) (h : x ≤ y) :
    roundSignificand x ≤ roundSignificand y := by
  obtain rfl | hx := hx.eq_or_lt
  · rw [roundSignificand_zero]
    exact roundSignificand_nonneg h
  have hy : 0 < y := hx.trans_le h
  have hlog : Int.log 2 x ≤ Int.log 2 y := Int.log_mono_right hx h
  have hbit : lastBit x ≤ lastBit y := by
    unfold lastBit
    omega
  obtain hlt | heq := lt_or_eq_of_le hbit
  · -- the power of two at which the binade of `y` begins lies between them
    have hbinade : Int.log 2 x + 1 ≤ Int.log 2 y ∧ lastBit x ≤ Int.log 2 y ∧
        lastBit y ≤ Int.log 2 y := by
      unfold lastBit at hlt ⊢
      omega
    have hbelow : x ≤ 2 ^ Int.log 2 y := by
      have hnext : x < 2 ^ (Int.log 2 x + 1) := Int.lt_zpow_succ_log_self one_lt_two x
      exact hnext.le.trans (zpow_le_zpow_right₀ one_le_two hbinade.1)
    have habove : 2 ^ Int.log 2 y ≤ y := Int.zpow_log_le_self one_lt_two hy
    calc roundSignificand x ≤ 2 ^ Int.log 2 y := roundSignificand_le hbinade.2.1 hbelow
      _ ≤ roundSignificand y := le_roundSignificand hbinade.2.2 habove
  · have hdiv : x / 2 ^ lastBit y ≤ y / 2 ^ lastBit y :=
      div_le_div_of_nonneg_right h (two_zpow_pos _).le
    unfold roundSignificand
    rw [heq]
    exact mul_le_mul_of_nonneg_right (Int.cast_le.mpr (roundHalfEven_mono hdiv))
      (two_zpow_pos _).le

/-- Rounding keeps the order. -/
theorem toDouble_mono {x y : ℚ} (hx : 0 ≤ x) (h : x ≤ y) : toDouble x ≤ toDouble y := by
  have hround := roundSignificand_mono hx h
  unfold toDouble
  by_cases hy : roundSignificand y < 2 ^ 1024
  · rw [if_pos hy, if_pos (hround.trans_lt hy)]
    exact WithTop.coe_le_coe.mpr hround
  · rw [if_neg hy]
    exact le_top

/-- A natural number of at most 53 bits is a double. -/
theorem toDouble_natCast {n : ℕ} (h : n < 2 ^ 53) : toDouble n = (n : ℚ) := by
  have hexact : roundSignificand n = n := by
    obtain rfl | hpos := Nat.eq_zero_or_pos n
    · exact roundSignificand_zero
    have hlog : Int.log 2 (n : ℚ) < 53 := by
      have hself : (2 : ℚ) ^ Int.log 2 (n : ℚ) ≤ n :=
        Int.zpow_log_le_self one_lt_two (Nat.cast_pos.mpr hpos)
      have hbound : (n : ℚ) < 2 ^ (53 : ℤ) := by exact_mod_cast h
      exact (zpow_lt_zpow_iff_right₀ one_lt_two).mp (hself.trans_lt hbound)
    have hbit : lastBit n ≤ 0 := by
      unfold lastBit
      omega
    obtain ⟨k, hk⟩ := exists_zpow_eq hbit
    rw [zpow_zero] at hk
    have hdiv : (n : ℚ) / 2 ^ lastBit n = ((n * 2 ^ k : ℤ) : ℚ) := by
      rw [div_eq_iff (two_zpow_pos _).ne', Int.cast_mul, mul_assoc, ← hk, mul_one, Int.cast_natCast]
    unfold roundSignificand
    rw [hdiv, roundHalfEven_intCast, ← hdiv, div_mul_cancel₀ _ (two_zpow_pos _).ne']
  have hfinite : (n : ℚ) < 2 ^ 1024 := by
    have hbound : (n : ℚ) < 2 ^ 53 := by exact_mod_cast h
    exact hbound.trans_le (pow_le_pow_right₀ one_le_two (by omega))
  unfold toDouble
  rw [hexact, if_pos hfinite]

/-- A multiple of the last bit is not rounded. -/
theorem roundSignificand_of_multiple {x : ℚ} {k : ℤ} {e : ℤ} (he : lastBit x ≤ e)
    (hx : x = k * 2 ^ e) : roundSignificand x = x := by
  obtain ⟨i, hi⟩ := exists_zpow_eq he
  have hdiv : x / 2 ^ lastBit x = ((k * 2 ^ i : ℤ) : ℚ) := by
    rw [div_eq_iff (two_zpow_pos _).ne', Int.cast_mul, mul_assoc, ← hi]
    exact hx
  unfold roundSignificand
  rw [hdiv, roundHalfEven_intCast, ← hdiv, div_mul_cancel₀ _ (two_zpow_pos _).ne']

/-- What has been rounded is a double. -/
theorem roundSignificand_idem {x : ℚ} (hx : 0 ≤ x) :
    roundSignificand (roundSignificand x) = roundSignificand x := by
  obtain rfl | hx := hx.eq_or_lt
  · rw [roundSignificand_zero, roundSignificand_zero]
  set y := roundSignificand x with hy
  obtain hzero | hypos := (roundSignificand_nonneg hx.le).eq_or_lt
  · rw [hy, ← hzero, roundSignificand_zero]
  by_cases hbit : lastBit y ≤ lastBit x
  · exact roundSignificand_of_multiple hbit hy
  -- rounding has gone up to the next power of two
  have hlog : Int.log 2 x + 1 ≤ Int.log 2 y ∧ lastBit x < Int.log 2 y ∧ lastBit y ≤ Int.log 2 y := by
    unfold lastBit at hbit ⊢
    omega
  have hbelow : 2 ^ Int.log 2 y ≤ y := Int.zpow_log_le_self one_lt_two hypos
  have habove : y ≤ 2 ^ Int.log 2 y := by
    refine roundSignificand_le hlog.2.1.le ?_
    have hnext : x < 2 ^ (Int.log 2 x + 1) := Int.lt_zpow_succ_log_self one_lt_two x
    exact hnext.le.trans (zpow_le_zpow_right₀ one_le_two hlog.1)
  refine roundSignificand_of_multiple (k := 1) hlog.2.2 ?_
  rw [Int.cast_one, one_mul]
  exact le_antisymm habove hbelow

/-- The rounded significand, when the result is no infinity. -/
lemma toDouble_eq_coe {x y : ℚ} : toDouble x = (y : WithTop ℚ) ↔
    roundSignificand x = y ∧ y < 2 ^ 1024 := by
  unfold toDouble
  split_ifs with hfinite
  · rw [WithTop.coe_inj]
    exact ⟨fun h => ⟨h, h ▸ hfinite⟩, fun h => h.1⟩
  · constructor
    · intro h
      exact absurd h.symm WithTop.coe_ne_top
    · rintro ⟨rfl, h⟩
      exact absurd h hfinite

/-! ## The shortest digits -/

/-- The multiple of `unit` that rounds to the double `n / 10 ^ j`, if one of the two around `n` over
`10 ^ j` does: the nearer one, and of two that are equally near the one with the even digits. -/
def roundsTo (j n unit : ℕ) : Option ℕ :=
  let s := n / unit
  let ok (s : ℕ) : Bool :=
    s ≠ 0 && toDouble ((s * unit : ℕ) / 10 ^ j) = ((n / 10 ^ j : ℚ) : WithTop ℚ)
  let above := (s + 1) * unit - n
  if ok s && !(ok (s + 1) && (above < n % unit || above = n % unit && s % 2 = 1)) then
    some (s * unit)
  else if ok (s + 1) then some ((s + 1) * unit)
  else none

/-- The number with the most zeros at its end, at most `k`, that rounds to the double `n / 10 ^ j`
when it is taken over `10 ^ j`. -/
def shortestFrom (j n : ℕ) : ℕ → ℕ
  | 0 => n
  | k + 1 => (roundsTo j n (10 ^ (k + 1))).getD (shortestFrom j n k)

/-- The number over `10 ^ j` whose digits are printed for the double `n / 10 ^ j`. -/
def shortestAt (j n : ℕ) : ℕ := shortestFrom j n (natDigits n).length

/-- The number whose digits are printed for the double `n`. -/
def shortest (n : ℕ) : ℕ := shortestAt 0 n

/-- The multiples that are tried round to the double. -/
lemma toDouble_roundsTo {j n unit m : ℕ} (hm : roundsTo j n unit = some m) :
    toDouble (m / 10 ^ j) = ((n / 10 ^ j : ℚ) : WithTop ℚ) := by
  unfold roundsTo at hm
  simp only [Bool.and_eq_true, decide_eq_true_eq] at hm
  split_ifs at hm with h1 h2
  · cases hm
    exact h1.1.2
  · cases hm
    exact h2.2

/-- The digits that are printed for a double round to it. -/
theorem toDouble_shortestAt {j n : ℕ}
    (h : toDouble (n / 10 ^ j) = ((n / 10 ^ j : ℚ) : WithTop ℚ)) :
    toDouble (shortestAt j n / 10 ^ j) = ((n / 10 ^ j : ℚ) : WithTop ℚ) := by
  have hfrom : ∀ k, toDouble (shortestFrom j n k / 10 ^ j) = ((n / 10 ^ j : ℚ) : WithTop ℚ) := by
    intro k
    induction k with
    | zero => exact h
    | succ k ih =>
      rw [shortestFrom]
      cases hm : roundsTo j n (10 ^ (k + 1)) with
      | none => exact ih
      | some m => exact toDouble_roundsTo hm
  exact hfrom _

/-- Small natural numbers are doubles. -/
theorem roundsTo_of_lt {n unit m : ℕ} (h : n + 1 < 2 ^ 53) (hm : roundsTo 0 n unit = some m) :
    m = n := by
  have hround := toDouble_roundsTo hm
  rw [pow_zero, div_one, div_one] at hround
  -- a number from `n + 1` on does not round to `n`
  have hle : m ≤ n := by
    by_contra hlt
    have hmono : toDouble ((n + 1 : ℕ) : ℚ) ≤ toDouble m :=
      toDouble_mono (Nat.cast_nonneg _) (Nat.cast_le.mpr (by omega))
    rw [toDouble_natCast h, hround, WithTop.coe_le_coe, Nat.cast_le] at hmono
    omega
  rw [toDouble_natCast (by omega), WithTop.coe_inj, Nat.cast_inj] at hround
  exact hround

/-- The digits of a number of at most 53 bits are its own. -/
theorem shortest_of_lt {n : ℕ} (h : n + 1 < 2 ^ 53) : shortest n = n := by
  have hfrom : ∀ k, shortestFrom 0 n k = n := by
    intro k
    induction k with
    | zero => rfl
    | succ k ih =>
      rw [shortestFrom, ih]
      cases hm : roundsTo 0 n (10 ^ (k + 1)) with
      | none => rfl
      | some m => exact roundsTo_of_lt h hm
  exact hfrom _

/-! ## Decimals and doubles -/

/-- How many decimal places the double `x` has at most. -/
def places (x : ℚ) : ℕ := if x.den = 1 then 0 else (-lastBit x).toNat

/-- The shortest decimal that rounds to the double `x`, with a sign. -/
def ofDouble (neg : Bool) (x : ℚ) : Decimal :=
  let digits : ℤ := shortestAt (places x) ⌊x * 10 ^ places x⌋.toNat
  Decimal.normalize (if neg then -digits else digits) (places x)

namespace Decimal

/-- The absolute value of a decimal. -/
def magnitude (d : Decimal) : ℚ := d.mantissa.natAbs / 10 ^ d.scale

/-- `String(x)` for the double `x` nearest to a decimal. -/
def text (d : Decimal) : JsString :=
  match toDouble d.magnitude with
  | ⊤ => if d.mantissa < 0 then js "-Infinity" else js "Infinity"
  | some x => (ofDouble (d.mantissa < 0) x).print

/-- The double nearest to a fraction, by its shortest decimal. An integer stays as it is: the lengths
and counters of a model have no bound, and those of a program are far below 2⁵³, up to which the
integers are doubles. -/
def round (d : Decimal) : Decimal :=
  if d.scale = 0 then d else ofDouble (d.mantissa < 0) (roundSignificand d.magnitude)

example : (normalize 400000000000000000001 20).round = ofInt 4 := by decide +kernel

lemma magnitude_nonneg (d : Decimal) : 0 ≤ d.magnitude :=
  div_nonneg (Nat.cast_nonneg _) (by positivity)

/-- A decimal in lowest terms has the value that it had before. -/
lemma magnitude_normalize (m : ℤ) (k : ℕ) : (normalize m k).magnitude = m.natAbs / 10 ^ k := by
  induction k generalizing m with
  | zero => rfl
  | succ k ih =>
    rw [normalize]
    split_ifs with hm
    · obtain ⟨i, rfl⟩ := hm
      rw [ih, Int.mul_ediv_cancel_left i (by decide), Int.natAbs_mul, pow_succ', Nat.cast_mul]
      exact (mul_div_mul_left _ _ (by norm_num)).symm
    · rfl

lemma mantissa_normalize_neg (m : ℤ) (k : ℕ) : (normalize m k).mantissa < 0 ↔ m < 0 := by
  induction k generalizing m with
  | zero => rfl
  | succ k ih =>
    rw [normalize]
    split_ifs with hm
    · obtain ⟨i, rfl⟩ := hm
      rw [ih, Int.mul_ediv_cancel_left i (by decide)]
      omega
    · rfl

/-- Normal form has no more places. -/
lemma scale_normalize_le (m : ℤ) (k : ℕ) : (normalize m k).scale ≤ k := by
  induction k generalizing m with
  | zero => exact Nat.le_refl 0
  | succ k ih =>
    rw [normalize]
    split_ifs with hm
    · exact (ih _).trans (Nat.le_succ k)
    · exact Nat.le_refl _

lemma normalize_zero (k : ℕ) : normalize 0 k = ofInt 0 := by
  induction k with
  | zero => rfl
  | succ k ih =>
    rw [normalize, dif_pos (dvd_zero 10), Int.zero_ediv, ih]

end Decimal

/-- A double has no more decimal places than that. -/
lemma exists_places {x : ℚ} (hx : 0 ≤ x) (hdouble : roundSignificand x = x) :
    ∃ n : ℕ, x * 10 ^ places x = n := by
  unfold places
  split_ifs with hden
  · refine ⟨x.num.toNat, ?_⟩
    have hnum : ((x.num.toNat : ℤ) : ℚ) = x.num := by
      rw [Int.toNat_of_nonneg (Rat.num_nonneg.mpr hx)]
    rw [pow_zero, mul_one]
    calc x = x.num := (Rat.coe_int_num_of_den_eq_one hden).symm
      _ = x.num.toNat := by rw [← hnum, Int.cast_natCast]
  · set e := lastBit x with he
    have hsignificand : 0 ≤ roundHalfEven (x / 2 ^ e) := by
      have hmono := roundHalfEven_mono (div_nonneg hx (two_zpow_pos e).le)
      simpa using (roundHalfEven_intCast 0).symm.le.trans hmono
    obtain ⟨s, hs⟩ := Int.eq_ofNat_of_zero_le hsignificand
    obtain ⟨i, hi⟩ : ∃ i : ℕ, e + ((-e).toNat : ℤ) = i := ⟨(e + (-e).toNat).toNat, by omega⟩
    have hpow : (2 : ℚ) ^ e * 2 ^ (-e).toNat = 2 ^ i := by
      rw [← zpow_natCast 2 (-e).toNat, ← zpow_add₀ two_ne_zero, hi, zpow_natCast]
    refine ⟨s * (2 ^ i * 5 ^ (-e).toNat), ?_⟩
    have hten : (10 : ℚ) ^ (-e).toNat = 2 ^ (-e).toNat * 5 ^ (-e).toNat := by
      rw [← mul_pow]
      norm_num
    calc x * 10 ^ (-e).toNat = s * 2 ^ e * (2 ^ (-e).toNat * 5 ^ (-e).toNat) := by
          rw [hten, ← hdouble]
          unfold roundSignificand
          rw [← he, hs, Int.cast_natCast]
      _ = s * (2 ^ e * 2 ^ (-e).toNat * 5 ^ (-e).toNat) := by ring
      _ = ((s * (2 ^ i * 5 ^ (-e).toNat) : ℕ) : ℚ) := by
          rw [hpow]
          push_cast
          ring

/-- A double that has decimal places is small. -/
lemma lt_of_places {x : ℚ} (h : places x ≠ 0) : x < 2 ^ 1024 := by
  unfold places at h
  split_ifs at h with hden
  · exact absurd rfl h
  · have hlog : Int.log 2 x + 1 ≤ 1024 := by
      unfold lastBit at h
      omega
    have hnext : x < 2 ^ (Int.log 2 x + 1) := Int.lt_zpow_succ_log_self one_lt_two x
    calc x < 2 ^ (Int.log 2 x + 1) := hnext
      _ ≤ 2 ^ (1024 : ℤ) := zpow_le_zpow_right₀ one_le_two hlog
      _ = 2 ^ 1024 := zpow_natCast 2 1024

/-- The magnitude of a printed double. -/
lemma magnitude_ofDouble (neg : Bool) (x : ℚ) : (ofDouble neg x).magnitude =
    shortestAt (places x) ⌊x * 10 ^ places x⌋.toNat / 10 ^ places x := by
  unfold ofDouble
  rw [Decimal.magnitude_normalize]
  cases neg with
  | true => rw [if_pos rfl, Int.natAbs_neg, Int.natAbs_natCast]
  | false => rw [if_neg Bool.false_ne_true, Int.natAbs_natCast]

/-- The decimal that is printed for a double with decimal places rounds to it. -/
lemma roundSignificand_ofDouble {neg : Bool} {x : ℚ} (hx : 0 ≤ x) (hdouble : roundSignificand x = x)
    (hscale : (ofDouble neg x).scale ≠ 0) : roundSignificand (ofDouble neg x).magnitude = x := by
  have hplaces : places x ≠ 0 := by
    intro h
    have hle : (ofDouble neg x).scale ≤ places x := Decimal.scale_normalize_le _ _
    omega
  obtain ⟨n, hn⟩ := exists_places hx hdouble
  have hdiv : (n : ℚ) / 10 ^ places x = x := by
    rw [← hn, mul_div_assoc, div_self (by positivity), mul_one]
  have hself : toDouble (n / 10 ^ places x) = ((n / 10 ^ places x : ℚ) : WithTop ℚ) := by
    rw [hdiv]
    exact toDouble_eq_coe.mpr ⟨hdouble, lt_of_places hplaces⟩
  have hshortest := toDouble_shortestAt hself
  rw [hdiv] at hshortest
  rw [magnitude_ofDouble, hn, Int.floor_natCast, Int.toNat_natCast]
  exact (toDouble_eq_coe.mp hshortest).1

/-- The sign is kept, unless nothing is left. -/
lemma mantissa_ofDouble_neg {neg : Bool} {x : ℚ} (hscale : (ofDouble neg x).scale ≠ 0) :
    decide ((ofDouble neg x).mantissa < 0) = neg := by
  unfold ofDouble at hscale ⊢
  dsimp only at hscale ⊢
  generalize shortestAt (places x) ⌊x * 10 ^ places x⌋.toNat = digits at hscale ⊢
  have hdigits : digits ≠ 0 := by
    rintro rfl
    have hzero : (if neg = true then -((0 : ℕ) : ℤ) else ((0 : ℕ) : ℤ)) = 0 := by
      split_ifs <;> rfl
    rw [hzero, Decimal.normalize_zero] at hscale
    exact hscale rfl
  have hsign : ((if neg = true then -(digits : ℤ) else digits) < 0) ↔ neg = true := by
    cases neg with
    | true =>
      simp only [if_true, iff_true]
      omega
    | false =>
      simp only [Bool.false_eq_true, if_false, iff_false]
      omega
  rw [Bool.eq_iff_iff, decide_eq_true_eq, Decimal.mantissa_normalize_neg]
  exact hsign

namespace Decimal

/-- Rounding once more changes nothing. -/
theorem round_round (d : Decimal) : d.round.round = d.round := by
  unfold round
  by_cases hd : d.scale = 0
  · rw [if_pos hd, if_pos hd]
  · rw [if_neg hd]
    by_cases hscale : (ofDouble (d.mantissa < 0) (roundSignificand d.magnitude)).scale = 0
    · rw [if_pos hscale]
    · rw [if_neg hscale, mantissa_ofDouble_neg hscale,
        roundSignificand_ofDouble (roundSignificand_nonneg d.magnitude_nonneg)
          (roundSignificand_idem d.magnitude_nonneg) hscale]

/-- A fraction that is not changed by rounding is printed as it is. -/
theorem text_of_round {d : Decimal} (hround : d.round = d) (hscale : d.scale ≠ 0) :
    d.text = d.print := by
  have hself : ofDouble (d.mantissa < 0) (roundSignificand d.magnitude) = d := by
    rw [round, if_neg hscale] at hround
    exact hround
  have hplaces : places (roundSignificand d.magnitude) ≠ 0 := by
    intro h
    have hle : (ofDouble (d.mantissa < 0) (roundSignificand d.magnitude)).scale ≤
        places (roundSignificand d.magnitude) := scale_normalize_le _ _
    rw [hself] at hle
    omega
  have hdouble : toDouble d.magnitude = (roundSignificand d.magnitude : WithTop ℚ) :=
    toDouble_eq_coe.mpr ⟨rfl, lt_of_places hplaces⟩
  unfold text
  rw [hdouble]
  dsimp only
  rw [hself]

/-- The text of a natural number of at most 53 bits. -/
theorem text_ofInt {n : ℕ} (h : n + 1 < 2 ^ 53) : (ofInt n).text = (ofInt n).print := by
  have hmagnitude : (ofInt n).magnitude = n := by
    show ((n : ℤ).natAbs : ℚ) / 10 ^ 0 = n
    rw [pow_zero, div_one, Int.natAbs_natCast]
  have hplaces : places n = 0 := if_pos (Rat.den_natCast n)
  have hself : ofDouble false n = ofInt n := by
    unfold ofDouble
    rw [hplaces, pow_zero, mul_one, Int.floor_natCast, Int.toNat_natCast]
    have hshortest : shortestAt 0 n = n := shortest_of_lt h
    rw [hshortest]
    rfl
  have hneg : ¬(ofInt n).mantissa < 0 := Int.not_lt.mpr (Int.natCast_nonneg n)
  unfold text
  rw [hmagnitude, toDouble_natCast (by omega)]
  simp only [hneg, decide_false]
  rw [hself]

end Decimal

/-- `Number.prototype.toString` of the double `n`. -/
def numberText (n : ℕ) : JsString := (Decimal.ofInt (shortest n)).print

example : numberText (2 ^ 70) = js "1.1805916207174113e+21" := by decide +kernel

end Js
