import Mathlib.Data.List.TakeWhile
import Mathlib.Data.Nat.Digits.Lemmas
import Mathlib.Tactic.Ring
import PointNetwork.Js.Text

/-!
# Decimals and their texts

`mantissa / 10 ^ scale` in lowest terms, as JavaScript writes it and as the grammar of JSON numbers
reads it. Nothing is rounded here: which decimals are numbers is the matter of `Js.Number`.

* `Decimal.print`: `Number.prototype.toString`, in positional notation from 10⁻⁶ to 10²¹ and with an
  exponent beyond;
* `readDecimal`: the number at the front of a text, with the round trip `readDecimal_print`.
-/

namespace Js

/-- `mantissa / 10 ^ scale`, the scale as small as possible. -/
structure Decimal where
  mantissa : ℤ
  scale : ℕ
  normal : scale = 0 ∨ ¬ (10 : ℤ) ∣ mantissa
  deriving DecidableEq

namespace Decimal

/-- An integer. -/
def ofInt (n : ℤ) : Decimal := ⟨n, 0, Or.inl rfl⟩

/-- `m / 10 ^ k` in lowest terms. -/
def normalize (m : ℤ) : ℕ → Decimal
  | 0 => ofInt m
  | k + 1 => if h : (10 : ℤ) ∣ m then normalize (m / 10) k else ⟨m, k + 1, Or.inr h⟩

/-- A decimal is in normal form. -/
lemma normalize_self (d : Decimal) : normalize d.mantissa d.scale = d := by
  obtain ⟨m, s, h⟩ := d
  cases s with
  | zero => rfl
  | succ k =>
    have hm : ¬ (10 : ℤ) ∣ m := h.resolve_left (by omega)
    simp [normalize, hm]

end Decimal

/-! ## Decimal digits -/

/-- The code unit of a decimal digit. -/
def digitUnit (d : ℕ) : UInt16 := UInt16.ofNat (0x30 + d)

/-- A decimal digit. -/
def isDigit (u : UInt16) : Bool := 0x30 ≤ u.toNat && u.toNat ≤ 0x39

/-- The decimal digits of a natural number, the most significant first. -/
def natDigits (n : ℕ) : List ℕ := if n = 0 then [0] else (Nat.digits 10 n).reverse

/-- The decimal text of a natural number. -/
def natText (n : ℕ) : JsString := (natDigits n).map digitUnit

/-- The last `k` decimal digits of `r`, zeros included. -/
def fixedDigits : ℕ → ℕ → List ℕ
  | 0, _ => []
  | k + 1, r => fixedDigits k (r / 10) ++ [r % 10]

/-- The number a sequence of digits denotes. -/
def ofDigits (ds : List ℕ) : ℕ := ds.foldl (fun a d => a * 10 + d) 0

/-- The digits at the front of a text, and the rest of it. -/
def spanDigits : JsString → List ℕ × JsString
  | [] => ([], [])
  | u :: rest =>
    if isDigit u then ((u.toNat - 0x30) :: (spanDigits rest).1, (spanDigits rest).2)
    else ([], u :: rest)

/-- The text does not start with a digit. -/
def NoDigit (s : JsString) : Prop := ∀ u rest, s = u :: rest → isDigit u = false

lemma toNat_digitUnit {d : ℕ} (hd : d < 10) : (digitUnit d).toNat = 0x30 + d :=
  UInt16.toNat_ofNat_of_lt' (by simp [UInt16.size]; omega)

lemma isDigit_digitUnit {d : ℕ} (hd : d < 10) : isDigit (digitUnit d) = true := by
  simp [isDigit, toNat_digitUnit hd]
  omega

lemma digitUnit_ascii {d : ℕ} (hd : d < 10) : (digitUnit d).toNat < 0x80 := by
  rw [toNat_digitUnit hd]
  omega

lemma natDigits_lt {n d : ℕ} (hd : d ∈ natDigits n) : d < 10 := by
  unfold natDigits at hd
  split at hd
  · rw [List.mem_singleton.mp hd]
    omega
  · exact Nat.digits_lt_base (by omega) (List.mem_reverse.mp hd)

lemma fixedDigits_lt {k r d : ℕ} (hd : d ∈ fixedDigits k r) : d < 10 := by
  induction k generalizing r with
  | zero => simp [fixedDigits] at hd
  | succ k ih =>
    rcases List.mem_append.mp hd with hd | hd
    · exact ih hd
    · rw [List.mem_singleton.mp hd]
      omega

@[simp] lemma length_fixedDigits (k r : ℕ) : (fixedDigits k r).length = k := by
  induction k generalizing r with
  | zero => rfl
  | succ k ih => simp [fixedDigits, ih]

lemma ofDigits_append_singleton (ds : List ℕ) (d : ℕ) :
    ofDigits (ds ++ [d]) = ofDigits ds * 10 + d := by
  simp [ofDigits]

lemma ofDigits_reverse (ds : List ℕ) : ofDigits ds.reverse = Nat.ofDigits 10 ds := by
  induction ds with
  | nil => rfl
  | cons d ds ih =>
    rw [List.reverse_cons, ofDigits_append_singleton, ih, Nat.ofDigits_cons]
    ring

/-- The digits of a number have its value. -/
@[simp] lemma ofDigits_natDigits (n : ℕ) : ofDigits (natDigits n) = n := by
  unfold natDigits
  split
  · next h => simp [ofDigits, h]
  · rw [ofDigits_reverse, Nat.ofDigits_digits]

/-- A fixed number of digits has the value up to their power of ten. -/
lemma ofDigits_fixedDigits (k r : ℕ) : ofDigits (fixedDigits k r) = r % 10 ^ k := by
  induction k generalizing r with
  | zero => simp [fixedDigits, ofDigits, Nat.mod_one]
  | succ k ih =>
    rw [fixedDigits, ofDigits_append_singleton, ih, pow_succ', Nat.mod_mul]
    ring

/-- The value of two groups of digits. -/
lemma ofDigits_append (ds es : List ℕ) :
    ofDigits (ds ++ es) = ofDigits ds * 10 ^ es.length + ofDigits es := by
  induction es using List.reverseRecOn with
  | nil => simp [ofDigits]
  | append_singleton es e ih =>
    rw [← List.append_assoc, ofDigits_append_singleton, ih, ofDigits_append_singleton,
      List.length_append, List.length_singleton, pow_succ]
    ring

/-- A run of digits is read to its end. -/
lemma spanDigits_append {ds : List ℕ} {rest : JsString} (hds : ∀ d ∈ ds, d < 10)
    (hrest : NoDigit rest) : spanDigits (ds.map digitUnit ++ rest) = (ds, rest) := by
  induction ds with
  | nil =>
    cases rest with
    | nil => rfl
    | cons u r => simp [spanDigits, hrest u r rfl]
  | cons d ds ih =>
    have hd : d < 10 := hds d (by simp)
    have ih' := ih fun e he => hds e (by simp [he])
    simp [spanDigits, isDigit_digitUnit hd, toNat_digitUnit hd, ih']

/-- The leading digit is zero only in the text of zero itself. -/
lemma natDigits_cases (n : ℕ) :
    natDigits n = [0] ∨ ∃ d ds, natDigits n = d :: ds ∧ d ≠ 0 := by
  by_cases hn : n = 0
  · exact Or.inl (by simp [natDigits, hn])
  · right
    have hne : Nat.digits 10 n ≠ [] := Nat.digits_ne_nil_iff_ne_zero.mpr hn
    obtain ⟨d, ds, hds⟩ := List.exists_cons_of_ne_nil (List.reverse_ne_nil_iff.mpr hne)
    refine ⟨d, ds, by simp [natDigits, hn, hds], ?_⟩
    have hlast := Nat.getLast_digit_ne_zero 10 hn
    have : (Nat.digits 10 n).getLast hne = d := by
      rw [← List.head_reverse (by simpa using hne)]
      simp [hds]
    rwa [this] at hlast

/-! ## Printing -/

lemma natText_ne_nil (n : ℕ) : natText n ≠ [] := by
  rcases natDigits_cases n with h | ⟨d, ds, h, -⟩
  · simp [natText, h]
  · simp [natText, h]

/-- The text of a number begins with a digit. -/
lemma exists_cons_natText (n : ℕ) : ∃ d t, natText n = digitUnit d :: t ∧ d < 10 := by
  obtain ⟨d, ds, hds⟩ : ∃ d ds, natDigits n = d :: ds := by
    rcases natDigits_cases n with h | ⟨d, ds, h, -⟩
    · exact ⟨_, _, h⟩
    · exact ⟨_, _, h⟩
  exact ⟨d, ds.map digitUnit, by rw [natText, hds]; rfl, natDigits_lt (n := n) (by simp [hds])⟩

/-- The digits behind the point, and the point if there are any. -/
def fractionText (ds : List ℕ) : JsString := if ds = [] then [] else 0x2E :: ds.map digitUnit

/-- A number below ten with its power of ten. -/
def exponentText (d : ℕ) (ds : List ℕ) (e : ℤ) : JsString :=
  digitUnit d :: (fractionText ds ++ 0x65 :: (if e < 0 then 0x2D else 0x2B) :: natText e.natAbs)

/-- The digits of a number without the zeros at its end. -/
def significant (n : ℕ) : List ℕ := ((natDigits n).reverse.dropWhile (· = 0)).reverse

/-- `n / 10 ^ scale` is zero, or neither below 10⁻⁶ nor 10²¹ or more. -/
def Positional (n scale : ℕ) : Prop :=
  (n = 0 ∨ 10 ^ scale ≤ n * 10 ^ 6) ∧ n < 10 ^ (21 + scale)

instance (n scale : ℕ) : Decidable (Positional n scale) := inferInstanceAs (Decidable (_ ∧ _))

/-- The text of `n / 10 ^ scale`. -/
def magnitudeText (n scale : ℕ) : JsString :=
  if Positional n scale then
    natText (n / 10 ^ scale) ++ fractionText (fixedDigits scale (n % 10 ^ scale))
  else
    exponentText ((significant n).headD 0) (significant n).tail ((natDigits n).length - 1 - scale)

/-- `Number.prototype.toString` -/
def Decimal.print (d : Decimal) : JsString :=
  (if d.mantissa < 0 then [0x2D] else []) ++ magnitudeText d.mantissa.natAbs d.scale

example : (Decimal.normalize 15 8).print = js "1.5e-7" := by decide

lemma ofDigits_zeros (z : ℕ) : ofDigits (List.replicate z 0) = 0 := by
  induction z with
  | zero => rfl
  | succ z ih => rw [List.replicate_succ', ofDigits_append_singleton, ih]

/-- The zeros at the end of a number. -/
lemma exists_significant (n : ℕ) :
    ∃ z, natDigits n = significant n ++ List.replicate z 0 := by
  have hsplit : ((natDigits n).reverse.takeWhile (· = 0)) ++ ((natDigits n).reverse.dropWhile (· = 0))
      = (natDigits n).reverse := List.takeWhile_append_dropWhile
  have hzeros : (natDigits n).reverse.takeWhile (· = 0) =
      List.replicate ((natDigits n).reverse.takeWhile (· = 0)).length 0 := by
    refine List.eq_replicate_of_mem fun d hd => ?_
    simpa using List.mem_takeWhile_imp hd
  refine ⟨((natDigits n).reverse.takeWhile (· = 0)).length, ?_⟩
  have hrev := congrArg List.reverse hsplit
  rw [hzeros, List.reverse_append, List.reverse_replicate, List.reverse_reverse] at hrev
  exact hrev.symm

lemma significant_lt {n d : ℕ} (hd : d ∈ significant n) : d < 10 := by
  obtain ⟨z, hz⟩ := exists_significant n
  exact natDigits_lt (n := n) (by rw [hz]; exact List.mem_append_left _ hd)

/-- A number is its significant digits with zeros behind them. -/
lemma ofDigits_significant (n : ℕ) :
    ∃ z, (natDigits n).length = (significant n).length + z ∧ n = ofDigits (significant n) * 10 ^ z := by
  obtain ⟨z, hz⟩ := exists_significant n
  refine ⟨z, by rw [hz, List.length_append, List.length_replicate], ?_⟩
  have hvalue := ofDigits_natDigits n
  rw [hz, ofDigits_append, ofDigits_zeros, List.length_replicate, Nat.add_zero] at hvalue
  exact hvalue.symm

/-- The first of the digits that are printed is not zero. -/
lemma exists_cons_significant {n : ℕ} (hn : n ≠ 0) :
    ∃ d ds, significant n = d :: ds ∧ d ≠ 0 := by
  obtain ⟨z, hz⟩ := exists_significant n
  cases hs : significant n with
  | nil =>
    obtain ⟨z, -, hvalue⟩ := ofDigits_significant n
    rw [hs] at hvalue
    exact absurd (hvalue.trans (Nat.zero_mul _)) hn
  | cons d ds =>
    refine ⟨d, ds, rfl, ?_⟩
    rw [hs, List.cons_append] at hz
    obtain h0 | ⟨e, es, he, hne⟩ := natDigits_cases n
    · have hvalue := ofDigits_natDigits n
      rw [h0] at hvalue
      exact absurd hvalue.symm hn
    · rw [he] at hz
      exact (List.cons.inj hz).1 ▸ hne

/-- A text of a number without its sign starts with a digit. -/
lemma magnitudeText_head (n scale : ℕ) :
    ∃ d t, magnitudeText n scale = digitUnit d :: t ∧ d < 10 := by
  unfold magnitudeText
  split_ifs with hpos
  · obtain ⟨d, t, ht, hd⟩ := exists_cons_natText (n / 10 ^ scale)
    exact ⟨d, _, by rw [ht]; rfl, hd⟩
  · refine ⟨(significant n).headD 0, _, rfl, ?_⟩
    cases hs : significant n with
    | nil => decide
    | cons d ds => exact significant_lt (n := n) (by simp [hs])

/-! ## Reading -/

/-- The integer part of a JSON number: a lone zero, or digits that do not start with one. -/
def readInt (s : JsString) : Option (List ℕ × JsString) :=
  match s with
  | 0x30 :: rest => some ([0], rest)
  | _ =>
    match spanDigits s with
    | ([], _) => none
    | (d :: ds, rest) => some (d :: ds, rest)

/-- The fraction, if a point follows; then it has at least one digit. -/
def readFrac (s : JsString) : Option (List ℕ × JsString) :=
  match s with
  | 0x2E :: rest =>
    match spanDigits rest with
    | ([], _) => none
    | (d :: ds, rest') => some (d :: ds, rest')
  | _ => some ([], s)

/-- The exponent, if `e` or `E` follows; then it has at least one digit. -/
def readExp (s : JsString) : Option (ℤ × JsString) :=
  match s with
  | u :: rest =>
    if u = 0x65 ∨ u = 0x45 then
      let (neg, rest') := match rest with
        | 0x2B :: r => (false, r)
        | 0x2D :: r => (true, r)
        | r => (false, r)
      match spanDigits rest' with
      | ([], _) => none
      | (d :: ds, r) => some (if neg then -(ofDigits (d :: ds) : ℤ) else ofDigits (d :: ds), r)
    else some (0, s)
  | [] => some (0, s)

/-- The number with the given sign, integer digits, fraction digits and exponent. -/
def assemble (neg : Bool) (ds fs : List ℕ) (e : ℤ) : Decimal :=
  let m : ℤ := if neg then -(ofDigits (ds ++ fs) : ℤ) else ofDigits (ds ++ fs)
  if e ≤ fs.length then Decimal.normalize m (fs.length - e).toNat
  else Decimal.ofInt (m * 10 ^ (e - fs.length).toNat)

/-- The number at the front of a text, after its sign. -/
def readUnsigned (neg : Bool) (s : JsString) : Option (Decimal × JsString) := do
  let (ds, s1) ← readInt s
  let (fs, s2) ← readFrac s1
  let (e, s3) ← readExp s2
  pure (assemble neg ds fs e, s3)

/-- The JSON number at the front of a text, and the rest of it. -/
def readDecimal (s : JsString) : Option (Decimal × JsString) :=
  match s with
  | 0x2D :: rest => readUnsigned true rest
  | _ => readUnsigned false s

/-- The text does not continue a number: no digit, point or exponent follows. -/
def NumberEnds (s : JsString) : Prop :=
  ∀ u rest, s = u :: rest → isDigit u = false ∧ u ≠ 0x2E ∧ u ≠ 0x65 ∧ u ≠ 0x45

/-- Where a number ends no digit follows. -/
lemma NumberEnds.noDigit {s : JsString} (h : NumberEnds s) : NoDigit s :=
  fun u rest hs => (h u rest hs).1

lemma numberEnds_nil : NumberEnds [] := by
  intro u rest h
  simp at h

lemma noDigit_cons {u : UInt16} (hu : isDigit u = false) (rest : JsString) : NoDigit (u :: rest) := by
  intro v r h
  rw [← (List.cons.inj h).1]
  exact hu

/-- A text that starts with a digit other than zero has an integer part of all its digits. -/
lemma readInt_digits {d : ℕ} {ds : List ℕ} (hd : d ≠ 0) (hds : ∀ e ∈ d :: ds, e < 10)
    {rest : JsString} (hrest : NoDigit rest) :
    readInt ((d :: ds).map digitUnit ++ rest) = some (d :: ds, rest) := by
  have hspan := spanDigits_append hds hrest
  have hne : digitUnit d ≠ 0x30 := by
    intro he
    have hunit := congrArg UInt16.toNat he
    rw [toNat_digitUnit (hds d List.mem_cons_self)] at hunit
    exact hd (by simpa using hunit)
  rw [List.map_cons, List.cons_append] at hspan ⊢
  unfold readInt
  split
  · next heq => exact absurd (List.cons.inj heq).1 hne
  · rw [hspan]

/-- The digits of a number are read up to where no digit follows. -/
lemma readInt_natText (n : ℕ) {rest : JsString} (h : NoDigit rest) :
    readInt (natText n ++ rest) = some (natDigits n, rest) := by
  have hlt : ∀ d ∈ natDigits n, d < 10 := fun d hd => natDigits_lt hd
  rcases natDigits_cases n with h0 | ⟨d, ds, hds, hd0⟩
  · rw [natText, h0]
    rfl
  · rw [hds] at hlt
    rw [natText, hds]
    exact readInt_digits hd0 hlt h

/-- A fraction is read to its end. -/
lemma readFrac_fractionText {ds : List ℕ} (hds : ∀ d ∈ ds, d < 10) {rest : JsString}
    (hrest : NoDigit rest) (hpoint : ∀ r, rest ≠ 0x2E :: r) :
    readFrac (fractionText ds ++ rest) = some (ds, rest) := by
  unfold fractionText
  cases ds with
  | nil =>
    rw [if_pos rfl, List.nil_append]
    unfold readFrac
    split
    · next r => exact absurd rfl (hpoint r)
    · rfl
  | cons d ds =>
    rw [if_neg (List.cons_ne_nil d ds), List.cons_append]
    unfold readFrac
    simp only [spanDigits_append hds hrest]

/-- Where a number ends there is no exponent. -/
lemma readExp_absent {s : JsString} (h : NumberEnds s) : readExp s = some (0, s) := by
  unfold readExp
  cases s with
  | nil => rfl
  | cons u rest =>
    obtain ⟨-, -, h1, h2⟩ := h u rest rfl
    simp [h1, h2]

/-- An exponent is read with its sign. -/
lemma readExp_natText (e : ℤ) {rest : JsString} (h : NoDigit rest) :
    readExp (0x65 :: (if e < 0 then 0x2D else 0x2B) :: (natText e.natAbs ++ rest)) =
      some (e, rest) := by
  have hlt : ∀ d ∈ natDigits e.natAbs, d < 10 := fun d hd => natDigits_lt hd
  have hspan : spanDigits (natText e.natAbs ++ rest) = (natDigits e.natAbs, rest) :=
    spanDigits_append hlt h
  obtain ⟨d, ds, hds⟩ : ∃ d ds, natDigits e.natAbs = d :: ds := by
    rcases natDigits_cases e.natAbs with h0 | ⟨d, ds, h0, -⟩
    · exact ⟨_, _, h0⟩
    · exact ⟨_, _, h0⟩
  have hvalue : ofDigits (d :: ds) = e.natAbs := by
    rw [← hds]
    exact ofDigits_natDigits e.natAbs
  unfold readExp
  by_cases hneg : e < 0
  · simp only [if_pos hneg, true_or, if_true, hspan, hds, hvalue]
    rw [show (-(e.natAbs : ℤ)) = e by omega]
  · simp only [if_neg hneg, true_or, if_true, hspan, hds, hvalue, Bool.false_eq_true, if_false]
    rw [show (e.natAbs : ℤ) = e by omega]

/-- The digits of a positional text. -/
lemma readUnsigned_positional (neg : Bool) (q k r : ℕ) {rest : JsString} (hrest : NumberEnds rest) :
    readUnsigned neg (natText q ++ (fractionText (fixedDigits k r) ++ rest)) =
      some (assemble neg (natDigits q) (fixedDigits k r) 0, rest) := by
  have hpoint : ∀ t, rest ≠ 0x2E :: t := fun t h => (hrest _ _ h).2.1 rfl
  have hnoDigit : NoDigit (fractionText (fixedDigits k r) ++ rest) := by
    unfold fractionText
    split_ifs with hnil
    · exact hrest.noDigit
    · exact noDigit_cons (by decide) _
  unfold readUnsigned
  rw [readInt_natText q hnoDigit]
  simp [readFrac_fractionText (fun d hd => fixedDigits_lt hd) hrest.noDigit hpoint,
    readExp_absent hrest]

/-- The digits and the exponent of the other texts. -/
lemma readUnsigned_exponent (neg : Bool) {d : ℕ} {ds : List ℕ} (hd : d ≠ 0)
    (hds : ∀ e ∈ d :: ds, e < 10) (e : ℤ) {rest : JsString} (hrest : NumberEnds rest) :
    readUnsigned neg (exponentText d ds e ++ rest) = some (assemble neg [d] ds e, rest) := by
  let expPart : JsString := 0x65 :: (if e < 0 then 0x2D else 0x2B) :: (natText e.natAbs ++ rest)
  have htext : exponentText d ds e ++ rest = [d].map digitUnit ++ (fractionText ds ++ expPart) := by
    simp [exponentText, expPart]
  have hexp : NoDigit expPart := noDigit_cons (by decide) _
  have hnoDigit : NoDigit (fractionText ds ++ expPart) := by
    unfold fractionText
    split_ifs with hnil
    · exact hexp
    · exact noDigit_cons (by decide) _
  have hint : readInt ([d].map digitUnit ++ (fractionText ds ++ expPart)) =
      some ([d], fractionText ds ++ expPart) :=
    readInt_digits hd (by simpa using hds d List.mem_cons_self) hnoDigit
  have hfrac : readFrac (fractionText ds ++ expPart) = some (ds, expPart) := by
    refine readFrac_fractionText (fun x hx => hds x (List.mem_cons_of_mem d hx)) hexp fun r h => ?_
    exact absurd (List.cons.inj h).1 (by decide)
  have hread : readExp expPart = some (e, rest) := readExp_natText e hrest.noDigit
  rw [htext]
  unfold readUnsigned
  rw [hint]
  simp [hfrac, hread]

/-- All digits of a positional text together make up the mantissa. -/
lemma assemble_positional (d : Decimal) {neg : Bool}
    (hneg : (if neg then -(d.mantissa.natAbs : ℤ) else d.mantissa.natAbs) = d.mantissa) :
    assemble neg (natDigits (d.mantissa.natAbs / 10 ^ d.scale))
      (fixedDigits d.scale (d.mantissa.natAbs % 10 ^ d.scale)) 0 = d := by
  have hvalue : ofDigits (natDigits (d.mantissa.natAbs / 10 ^ d.scale) ++
      fixedDigits d.scale (d.mantissa.natAbs % 10 ^ d.scale)) = d.mantissa.natAbs := by
    rw [ofDigits_append, ofDigits_natDigits, ofDigits_fixedDigits, length_fixedDigits, Nat.mod_mod,
      Nat.div_add_mod']
  unfold assemble
  rw [hvalue, hneg]
  simp [Decimal.normalize_self]

/-- The digits of a text with an exponent are those of the mantissa, without its zeros at the end. -/
lemma assemble_exponent (d : Decimal) {neg : Bool}
    (hneg : (if neg then -(d.mantissa.natAbs : ℤ) else d.mantissa.natAbs) = d.mantissa) {x : ℕ}
    {xs : List ℕ} (hdigits : significant d.mantissa.natAbs = x :: xs) :
    assemble neg [x] xs ((natDigits d.mantissa.natAbs).length - 1 - d.scale) = d := by
  obtain ⟨z, hlen, hvalue⟩ := ofDigits_significant d.mantissa.natAbs
  rw [hdigits] at hlen hvalue
  rw [List.length_cons] at hlen
  have hmantissa : d.mantissa = (if neg then -(ofDigits (x :: xs) : ℤ) else ofDigits (x :: xs)) *
      10 ^ z := by
    rw [← hneg, hvalue]
    split_ifs
    · push_cast
      ring
    · push_cast
      ring
  unfold assemble
  rw [List.singleton_append, hlen]
  dsimp only
  rcases d.normal with hscale | hnormal
  · -- an integer: the zeros come back with the exponent
    rw [hscale]
    rcases Nat.eq_zero_or_pos z with rfl | hz
    · rw [pow_zero, mul_one] at hmantissa
      rw [if_pos (by push_cast; omega), ← hmantissa,
        show ((xs.length : ℤ) - (((xs.length + 1 + 0 : ℕ) : ℤ) - 1 - ((0 : ℕ) : ℤ))).toNat = 0 by
          push_cast; omega, ← hscale, Decimal.normalize_self]
    · have hexp : ((((xs.length + 1 + z : ℕ) : ℤ) - 1 - ((0 : ℕ) : ℤ)) - xs.length).toNat = z := by
        push_cast
        omega
      rw [if_neg (by push_cast; omega), hexp, ← hmantissa]
      have hself := Decimal.normalize_self d
      rw [hscale] at hself
      exact hself
  · -- a fraction has no zeros at its end
    have hz : z = 0 := by
      by_contra hne
      refine hnormal ⟨(if neg then -(ofDigits (x :: xs) : ℤ) else ofDigits (x :: xs)) * 10 ^ (z - 1), ?_⟩
      rw [hmantissa]
      obtain ⟨k, rfl⟩ := Nat.exists_eq_succ_of_ne_zero hne
      rw [Nat.succ_sub_one, pow_succ]
      ring
    subst hz
    rw [pow_zero, mul_one] at hmantissa
    rw [if_pos (by push_cast; omega), ← hmantissa,
      show ((xs.length : ℤ) - (((xs.length + 1 + 0 : ℕ) : ℤ) - 1 - (d.scale : ℤ))).toNat = d.scale by
        push_cast; omega, Decimal.normalize_self]

/-- The text of a magnitude is read back, with the sign that stood before it. -/
lemma readUnsigned_magnitudeText (d : Decimal) (neg : Bool)
    (hneg : (if neg then -(d.mantissa.natAbs : ℤ) else d.mantissa.natAbs) = d.mantissa)
    {rest : JsString} (hrest : NumberEnds rest) :
    readUnsigned neg (magnitudeText d.mantissa.natAbs d.scale ++ rest) = some (d, rest) := by
  unfold magnitudeText
  split_ifs with hpos
  · rw [List.append_assoc, readUnsigned_positional neg _ _ _ hrest, assemble_positional d hneg]
  · have hne : d.mantissa.natAbs ≠ 0 := by
      intro hzero
      have hscale : d.scale = 0 := d.normal.resolve_right fun h => h (by
        rw [Int.natAbs_eq_zero.mp hzero]
        exact dvd_zero 10)
      exact hpos ⟨.inl hzero, by rw [hzero]; positivity⟩
    obtain ⟨x, xs, hdigits, hx⟩ := exists_cons_significant hne
    have hlt : ∀ e ∈ x :: xs, e < 10 := fun e he => significant_lt (hdigits ▸ he)
    rw [hdigits, List.headD_cons, List.tail_cons, readUnsigned_exponent neg hx hlt _ hrest,
      assemble_exponent d hneg hdigits]

/-- A text that starts with a digit has no sign. -/
lemma readDecimal_digit {d : ℕ} (hd : d < 10) (t : JsString) :
    readDecimal (digitUnit d :: t) = readUnsigned false (digitUnit d :: t) := by
  unfold readDecimal
  split
  · next heq =>
    have hunit := congrArg UInt16.toNat (List.cons.inj heq).1
    rw [toNat_digitUnit hd] at hunit
    simp at hunit
    omega
  · rfl

/-- Printing a decimal and reading it back yields the decimal. -/
theorem readDecimal_print (d : Decimal) {rest : JsString} (hrest : NumberEnds rest) :
    readDecimal (d.print ++ rest) = some (d, rest) := by
  unfold Decimal.print
  by_cases hneg : d.mantissa < 0
  · rw [if_pos hneg]
    exact readUnsigned_magnitudeText d true (by rw [if_pos rfl]; omega) hrest
  · rw [if_neg hneg, List.nil_append]
    have hread := readUnsigned_magnitudeText d false (by simp; omega) hrest
    obtain ⟨x, t, ht, hx⟩ := magnitudeText_head d.mantissa.natAbs d.scale
    rw [ht, List.cons_append] at hread ⊢
    rw [readDecimal_digit hx, hread]

/-- A natural number is read as it is, however large. -/
lemma readDecimal_natText (n : ℕ) : readDecimal (natText n) = some (.ofInt n, []) := by
  have hread := readUnsigned_positional false n 0 0 numberEnds_nil
  have hfraction : fractionText (fixedDigits 0 0) = [] := rfl
  have hassemble : assemble false (natDigits n) (fixedDigits 0 0) 0 = .ofInt n := by
    simp [assemble, fixedDigits, Decimal.normalize]
  rw [hfraction, List.nil_append, List.append_nil, hassemble] at hread
  obtain ⟨d, t, ht, hd⟩ := exists_cons_natText n
  rw [ht] at hread ⊢
  rw [readDecimal_digit hd, hread]

/-- Integers below 10²¹ are printed without an exponent. -/
lemma print_ofInt {n : ℕ} (h : n < 10 ^ 21) : (Decimal.ofInt n).print = natText n := by
  have hpos : Positional n 0 := by
    refine ⟨?_, by simpa using h⟩
    rw [pow_zero]
    omega
  have hneg : ¬(Decimal.ofInt n).mantissa < 0 := Int.not_lt.mpr (Int.natCast_nonneg n)
  unfold Decimal.print
  rw [if_neg hneg, List.nil_append]
  show magnitudeText n 0 = natText n
  unfold magnitudeText
  rw [if_pos hpos, pow_zero, Nat.div_one]
  exact List.append_nil _

/-- Greater ones are printed with an exponent. -/
lemma mem_print_ofInt {n : ℕ} (h : ¬n < 10 ^ 21) : (0x65 : UInt16) ∈ (Decimal.ofInt n).print := by
  have hpos : ¬Positional n 0 := fun hpos => h hpos.2
  have hexponent : (0x65 : UInt16) ∈ magnitudeText n 0 := by
    unfold magnitudeText
    rw [if_neg hpos]
    exact List.mem_cons_of_mem _ (List.mem_append_right _ List.mem_cons_self)
  exact List.mem_append_right _ hexponent

end Js
