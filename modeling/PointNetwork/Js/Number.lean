import PointNetwork.Js.Double

/-!
# JavaScript numbers

A finite number is kept as the shortest decimal that rounds to its double, the one that JavaScript
prints. Reading a text rounds, so that the digits beyond a double's precision are lost as in the
language. Integers of any size are numbers too (see `Decimal.round`).

* `Number.print` / `readNumber`: the number grammar of JSON, with the round trip
  `readNumber_print`;
* `Number.text`: `String(n)`, which rounds integers as well;
* `JsNumber` and `stringToNumber`: `Number(s)` for a string, NaN and infinities included.
-/

namespace Js

/-- A finite number: a decimal that stands for a double. -/
structure Number extends Decimal where
  double : toDecimal.round = toDecimal
  deriving DecidableEq

namespace Number

/-- The number nearest to a decimal. -/
def ofDecimal (d : Decimal) : Number := ⟨d.round, d.round_round⟩

/-- An integer, in which nothing is rounded. -/
def ofInt (n : ℤ) : Number := ⟨.ofInt n, rfl⟩

/-- The text of a number in JSON. -/
def print (n : Number) : JsString := n.toDecimal.print

/-- `String(n)` -/
def text (n : Number) : JsString := n.toDecimal.text

/-- The integer part of `n - k`, towards zero. For a fraction this is the difference of two doubles,
which is rounded. -/
def truncSub (n : Number) (k : ℤ) : ℤ :=
  if n.scale = 0 then n.mantissa - k
  else
    let value := roundSignificand n.magnitude
    let difference := (if n.mantissa < 0 then -value else value) - k
    if difference < 0 then -⌊roundSignificand (-difference)⌋ else ⌊roundSignificand difference⌋

/-- The decimal of a number is read back. -/
lemma ofDecimal_toDecimal (n : Number) : ofDecimal n.toDecimal = n := by
  obtain ⟨d, hd⟩ := n
  unfold ofDecimal
  congr

@[simp] lemma ofDecimal_ofInt (n : ℤ) : ofDecimal (.ofInt n) = ofInt n := rfl

@[simp] lemma truncSub_ofInt (n k : ℤ) : (ofInt n).truncSub k = n - k := rfl

@[simp] lemma ofInt_inj {m n : ℤ} : ofInt m = ofInt n ↔ m = n :=
  ⟨fun h => congrArg (fun x : Number => x.mantissa) h, fun h => h ▸ rfl⟩

end Number

/-- The JSON number at the front of a text, and the rest of it. -/
def readNumber (s : JsString) : Option (Number × JsString) :=
  (readDecimal s).map fun read => (.ofDecimal read.1, read.2)

/-- Printing a number and reading it back yields the number. -/
theorem readNumber_print (n : Number) {rest : JsString} (hrest : NumberEnds rest) :
    readNumber (n.print ++ rest) = some (n, rest) := by
  have hread := readDecimal_print n.toDecimal hrest
  unfold readNumber Number.print
  rw [hread, Option.map_some, Number.ofDecimal_toDecimal]

/-! ## Number coercion -/

/-- A JavaScript number. -/
inductive JsNumber
  | nan
  | infinity (neg : Bool)
  | fin (n : Number)
  deriving DecidableEq

/-- What `Number` and `trim` skip at both ends. -/
def isSpace (u : UInt16) : Bool :=
  u = 0x20 || (0x09 ≤ u.toNat && u.toNat ≤ 0x0D) || u = 0xA0 || u = 0xFEFF || u = 0x1680 ||
    (0x2000 ≤ u.toNat && u.toNat ≤ 0x200A) || u = 0x2028 || u = 0x2029 || u = 0x202F ||
    u = 0x205F || u = 0x3000

/-- `String.prototype.trim`. -/
def trim (s : JsString) : JsString :=
  ((s.dropWhile isSpace).reverse.dropWhile isSpace).reverse

/-- The value of a digit in a radix of up to sixteen. -/
def radixDigit (radix : ℕ) (u : UInt16) : Option ℕ :=
  let v :=
    if isDigit u then u.toNat - 0x30
    else if 0x61 ≤ u.toNat ∧ u.toNat ≤ 0x66 then u.toNat - 0x61 + 10
    else if 0x41 ≤ u.toNat ∧ u.toNat ≤ 0x46 then u.toNat - 0x41 + 10
    else radix
  if v < radix then some v else none

/-- A number in a radix, every unit of the text being one of its digits. -/
def radixNumber (radix : ℕ) (s : JsString) : JsNumber :=
  match s, s.mapM (radixDigit radix) with
  | _ :: _, some ds => .fin (.ofInt (ds.foldl (fun a d => a * radix + d) 0 : ℕ))
  | _, _ => .nan

/-- `StrUnsignedDecimalLiteral`, up to the end of the text. -/
def decimalLiteral (neg : Bool) (s : JsString) : JsNumber :=
  if s = js "Infinity" then .infinity neg
  else
    let (ds, s1) := spanDigits s
    let (fs, s2) := match s1 with
      | 0x2E :: r => spanDigits r
      | r => ([], r)
    if ds = [] ∧ fs = [] then .nan
    else
      match readExp s2 with
      | some (e, []) => .fin (.ofDecimal (assemble neg ds fs e))
      | _ => .nan

/-- `Number(s)` for a string. -/
def stringToNumber (s : JsString) : JsNumber :=
  match trim s with
  | [] => .fin (.ofInt 0)
  | 0x30 :: u :: rest =>
    if u = 0x78 ∨ u = 0x58 then radixNumber 16 rest
    else if u = 0x6F ∨ u = 0x4F then radixNumber 8 rest
    else if u = 0x62 ∨ u = 0x42 then radixNumber 2 rest
    else decimalLiteral false (0x30 :: u :: rest)
  | 0x2B :: rest => decimalLiteral false rest
  | 0x2D :: rest => decimalLiteral true rest
  | s' => decimalLiteral false s'

lemma isSpace_digitUnit {d : ℕ} (hd : d < 10) : isSpace (digitUnit d) = false := by
  have h := toNat_digitUnit hd
  have hne : ∀ v : UInt16, v.toNat < 0x30 ∨ 0x39 < v.toNat → digitUnit d ≠ v := by
    intro v hv he
    rw [he] at h
    omega
  simp [isSpace, h, hne 0x20 (by decide), hne 0xA0 (by decide), hne 0xFEFF (by decide),
    hne 0x1680 (by decide), hne 0x2028 (by decide), hne 0x2029 (by decide), hne 0x202F (by decide),
    hne 0x205F (by decide), hne 0x3000 (by decide)]
  omega

/-- Text without white space is left alone. -/
lemma trim_eq_self {s : JsString} (h : ∀ u ∈ s, isSpace u = false) : trim s = s := by
  have drop : ∀ t : JsString, (∀ u ∈ t, isSpace u = false) → t.dropWhile isSpace = t := by
    intro t ht
    cases t with
    | nil => rfl
    | cons u t => simp [ht u (by simp)]
  unfold trim
  rw [drop s h, drop s.reverse (fun u hu => h u (List.mem_reverse.mp hu)), List.reverse_reverse]

/-- The decimal text of a natural number is read as that number. -/
theorem stringToNumber_natText (n : ℕ) : stringToNumber (natText n) = .fin (.ofInt n) := by
  have hlt : ∀ d ∈ natDigits n, d < 10 := fun d hd => natDigits_lt hd
  have hspan : spanDigits (natText n) = (natDigits n, []) := by
    have hnil : NoDigit [] := fun u r h => by simp at h
    have := spanDigits_append hlt hnil
    simpa [natText] using this
  have hlit : decimalLiteral false (natText n) = .fin (.ofInt n) := by
    have hds : natDigits n ≠ [] := by
      rcases natDigits_cases n with h | ⟨d, ds, h, -⟩ <;> simp [h]
    have hInf : natText n ≠ js "Infinity" := by
      intro he
      have hnone : spanDigits (js "Infinity") = ([], js "Infinity") := by decide
      rw [he, hnone] at hspan
      exact hds (Prod.mk.inj hspan).1.symm
    unfold decimalLiteral
    rw [if_neg hInf, hspan]
    simp [hds, readExp, assemble, Decimal.normalize]
  have htrim : trim (natText n) = natText n := by
    refine trim_eq_self fun u hu => ?_
    obtain ⟨d, hd, rfl⟩ := List.mem_map.mp hu
    exact isSpace_digitUnit (hlt d hd)
  unfold stringToNumber
  rw [htrim]
  -- neither a radix prefix nor a sign: the first digit is alone or not zero
  rcases natDigits_cases n with h0 | ⟨d, ds, hds, hd0⟩
  · have ht : natText n = [0x30] := by rw [natText, h0]; rfl
    rw [ht] at hlit ⊢
    exact hlit
  · have hd : d < 10 := hlt d (by simp [hds])
    have hunit := toNat_digitUnit hd
    have ht : natText n = digitUnit d :: ds.map digitUnit := by rw [natText, hds]; rfl
    rw [ht] at hlit ⊢
    split
    · next heq => simp at heq
    · next heq =>
      have := congrArg UInt16.toNat (List.cons.inj heq).1
      rw [hunit] at this
      simp at this
      omega
    · next heq =>
      have := congrArg UInt16.toNat (List.cons.inj heq).1
      rw [hunit] at this
      simp at this
      omega
    · next heq =>
      have := congrArg UInt16.toNat (List.cons.inj heq).1
      rw [hunit] at this
      simp at this
      omega
    · exact hlit

example : stringToNumber (js " 0x1F ") = .fin (.ofInt 31) := by decide

/-- Natural numbers with one text are the same. -/
lemma natText_inj {m n : ℕ} : natText m = natText n ↔ m = n := by
  constructor
  · intro h
    have hnumber := congrArg stringToNumber h
    rw [stringToNumber_natText, stringToNumber_natText] at hnumber
    simpa [Decimal.ofInt] using hnumber
  · intro h
    rw [h]

end Js
