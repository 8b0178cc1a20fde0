import PointNetwork.Js.JsonTheorems

/-!
# Node buffers

* `slice`, `buf.slice(start, end)` with its negative and oversized offsets; the slices with
  offsets that count from the front are given by `slice_nat`.
* `toHex` / `fromHex`, the `'hex'` encoding; decoding stops at the first pair that is not hex.
* `Json.toText` / `Json.toNumber`, the coercions `String(v)` and `Number(v)` that a value takes
  part in when it is used as an offset or written into a header.
-/

namespace Js

/-! ## Slices -/

/-- An offset into a buffer of the given length: a negative one counts from the end, and
both ends of the buffer bound it. -/
def adjustOffset (offset : ℤ) (length : ℕ) : ℕ :=
  if offset < 0 then (offset + length).toNat else min offset.toNat length

/-- `buf.slice(start, end)`. -/
def slice (b : Bytes) (start stop : ℤ) : Bytes :=
  (b.take (adjustOffset stop b.length)).drop (adjustOffset start b.length)

lemma adjustOffset_nat (n length : ℕ) : adjustOffset n length = min n length := by
  unfold adjustOffset
  rw [if_neg (by omega), Int.toNat_natCast]

/-- A slice between two offsets that do not count from the end. -/
lemma slice_nat (b : Bytes) (s e : ℕ) : slice b s e = (b.take e).drop s := by
  unfold slice
  rw [adjustOffset_nat, adjustOffset_nat]
  by_cases hs : s ≤ b.length
  · rw [Nat.min_eq_left hs]
    by_cases he : e ≤ b.length
    · rw [Nat.min_eq_left he]
    · rw [Nat.min_eq_right (by omega), List.take_length, List.take_of_length_le (by omega)]
  · have h1 : (List.take (min e b.length) b).drop (min s b.length) = [] := by
      refine List.drop_eq_nil_of_le ?_
      rw [List.length_take]
      omega
    have h2 : (b.take e).drop s = [] := by
      refine List.drop_eq_nil_of_le ?_
      rw [List.length_take]
      omega
    rw [h1, h2]

/-- The end of a slice may lie behind the buffer. -/
lemma slice_stop_nat (b : Bytes) (start : ℤ) (stop : ℕ) :
    slice b start stop = (b.take stop).drop (adjustOffset start b.length) := by
  unfold slice
  rw [adjustOffset_nat, ← List.take_eq_take_min]

/-! ## The hexadecimal encoding -/

/-- `buf.toString('hex')`. -/
def toHex (b : Bytes) : JsString :=
  b.flatMap fun x => [hexDigitUnit (x.toNat / 16), hexDigitUnit (x.toNat % 16)]

/-- `Buffer.from(s, 'hex')`. -/
def fromHex : JsString → Bytes
  | a :: b :: rest =>
    match radixDigit 16 a, radixDigit 16 b with
    | some x, some y => UInt8.ofNat (x * 16 + y) :: fromHex rest
    | _, _ => []
  | _ => []

/-- Hexadecimal text is read back as the bytes it was written from. -/
@[simp] theorem fromHex_toHex (b : Bytes) : fromHex (toHex b) = b := by
  induction b with
  | nil => rfl
  | cons x b ih =>
    have hx := x.toNat_lt
    have hdiv : x.toNat / 16 * 16 + x.toNat % 16 = x.toNat := by omega
    have hcons : toHex (x :: b)
        = hexDigitUnit (x.toNat / 16) :: hexDigitUnit (x.toNat % 16) :: toHex b := rfl
    rw [hcons, fromHex, radixDigit_hexDigitUnit (by omega), radixDigit_hexDigitUnit (by omega)]
    simp [ih, hdiv]

/-- Bytes with one hexadecimal text are the same. -/
lemma toHex_injective {b c : Bytes} (h : toHex b = toHex c) : b = c := by
  rw [← fromHex_toHex b, h, fromHex_toHex]

lemma length_toHex (b : Bytes) : (toHex b).length = 2 * b.length := by
  induction b with
  | nil => rfl
  | cons x b ih =>
    have hcons : toHex (x :: b)
        = hexDigitUnit (x.toNat / 16) :: hexDigitUnit (x.toNat % 16) :: toHex b := rfl
    simp [hcons, ih]
    omega

/-- Hexadecimal text consists of hexadecimal digits. -/
lemma exists_hexDigitUnit {b : Bytes} {u : UInt16} (h : u ∈ toHex b) :
    ∃ d < 16, u = hexDigitUnit d := by
  obtain ⟨x, -, hx⟩ := List.mem_flatMap.mp h
  have hlt := x.toNat_lt
  simp only [List.mem_cons, List.not_mem_nil, or_false] at hx
  rcases hx with rfl | rfl
  · exact ⟨_, by omega, rfl⟩
  · exact ⟨_, by omega, rfl⟩

lemma ascii_of_mem_toHex {b : Bytes} {u : UInt16} (h : u ∈ toHex b) : u.toNat < 0x80 := by
  obtain ⟨d, hd, rfl⟩ := exists_hexDigitUnit h
  have hall : ∀ d < 16, (hexDigitUnit d).toNat < 0x80 := by decide
  exact hall d hd

/-! ## Coercions of JSON values -/

mutual
/-- `String(v)`. -/
def Json.toText : Json → JsString
  | .null => [0x6E, 0x75, 0x6C, 0x6C]
  | .bool true => [0x74, 0x72, 0x75, 0x65]
  | .bool false => [0x66, 0x61, 0x6C, 0x73, 0x65]
  | .num n => n.text
  | .str s => s
  | .arr xs => joinText xs
  | .obj _ => js "[object Object]"

/-- `xs.join(',')`; `null` elements are empty. -/
def joinText : List Json → JsString
  | [] => []
  | [x] => if x = .null then [] else x.toText
  | x :: y :: xs => (if x = .null then [] else x.toText) ++ 0x2C :: joinText (y :: xs)
end

/-- `Number(v)`. -/
def Json.toNumber : Json → JsNumber
  | .null => .fin (.ofInt 0)
  | .bool b => .fin (.ofInt (if b then 1 else 0))
  | .num n => .fin n
  | .str s => stringToNumber s
  | .arr xs => stringToNumber (joinText xs)
  | .obj _ => .nan

/-- The text of a number of at most 53 bits is that of its digits. -/
lemma text_ofInt {n : ℕ} (h : n + 1 < 2 ^ 53) : (Number.ofInt n).text = natText n := by
  have hprint : (Decimal.ofInt n).print = natText n := print_ofInt (by omega)
  exact (Decimal.text_ofInt h).trans hprint

/-- A number that is written as a natural number is an integer. -/
lemma Number.scale_of_text {m : Number} {n : ℕ} (h : m.text = natText n) : m.scale = 0 := by
  by_contra hscale
  have hprint : m.toDecimal.print = natText n :=
    (Decimal.text_of_round m.double hscale).symm.trans h
  have hread := readDecimal_print m.toDecimal numberEnds_nil
  rw [List.append_nil, hprint, readDecimal_natText] at hread
  have hself : Decimal.ofInt n = m.toDecimal := (Prod.mk.inj (Option.some.inj hread)).1
  exact hscale (congrArg Decimal.scale hself).symm

/-- An integer is given by its mantissa. -/
lemma Number.eq_ofInt {m : Number} (h : m.scale = 0) : m = .ofInt m.mantissa := by
  obtain ⟨⟨mantissa, scale, hnormal⟩, hdouble⟩ := m
  obtain rfl : scale = 0 := h
  rfl

/-- A value written as a natural number counts as an integer. -/
theorem toNumber_of_toText {v : Json} {n : ℕ} (h : v.toText = natText n) :
    ∃ m : ℤ, v.toNumber = .fin (.ofInt m) := by
  obtain ⟨d, t, ht, hd⟩ := exists_cons_natText n
  -- the words that are not numbers do not start with a digit
  have hword : ∀ u s, isDigit u = false → u :: s ≠ natText n := by
    intro u s hu hs
    rw [ht] at hs
    rw [(List.cons.inj hs).1, isDigit_digitUnit hd] at hu
    cases hu
  cases v with
  | null => exact absurd h (hword _ _ (by decide))
  | bool b => cases b <;> exact absurd h (hword _ _ (by decide))
  | num m => exact ⟨m.mantissa, congrArg JsNumber.fin (Number.eq_ofInt (Number.scale_of_text h))⟩
  | str s =>
    rw [Json.toText] at h
    exact ⟨n, by rw [Json.toNumber, h, stringToNumber_natText]⟩
  | arr xs =>
    rw [Json.toText] at h
    exact ⟨n, by rw [Json.toNumber, h, stringToNumber_natText]⟩
  | obj kvs => exact absurd h (hword 0x5B _ (by decide))

end Js
