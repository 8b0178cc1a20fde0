import PointNetwork.Js.Json

/-!
# `JSON.parse` inverts `JSON.stringify`

The strings come first: an escaped code unit is read back (`parseChars_escapeUnit`), hence a
whole string token is (`parseChars_escape`). `parseValue_stringify` then follows the value,
with any text behind it that cannot continue a number. The text itself is well formed
(`wellFormed_stringify`), so nothing is lost in its UTF-8 form either.

`canonical_of_parse` goes the other way: the objects `JSON.parse` builds list their properties
in property order.
-/

namespace Js

/-! ## Strings -/

lemma toNat_hexDigitUnit {d : ℕ} (hd : d < 16) :
    (hexDigitUnit d).toNat = if d < 10 then 0x30 + d else 0x57 + d := by
  unfold hexDigitUnit
  split
  · next h => exact toNat_digitUnit h
  · exact UInt16.toNat_ofNat_of_lt' (by simp [UInt16.size]; omega)

lemma radixDigit_hexDigitUnit {d : ℕ} (hd : d < 16) :
    radixDigit 16 (hexDigitUnit d) = some d := by
  have h := toNat_hexDigitUnit hd
  unfold radixDigit
  by_cases h10 : d < 10
  · rw [if_pos h10] at h
    have hdig : isDigit (hexDigitUnit d) = true := by
      simp [isDigit, h]
      omega
    simp [hdig, h]
    omega
  · rw [if_neg h10] at h
    have hdig : isDigit (hexDigitUnit d) = false := by
      simp [isDigit, h]
      omega
    simp only [hdig, h, Bool.false_eq_true, if_false]
    have h1 : 0x61 ≤ 0x57 + d ∧ 0x57 + d ≤ 0x66 := by omega
    have h2 : 0x57 + d - 0x61 + 10 = d := by omega
    rw [if_pos h1, h2, if_pos hd]

/-- A unit is read back from its four hexadecimal digits. -/
lemma unhex4_hex4 (u : UInt16) :
    unhex4 (hexDigitUnit (u.toNat / 0x1000)) (hexDigitUnit (u.toNat / 0x100 % 0x10))
      (hexDigitUnit (u.toNat / 0x10 % 0x10)) (hexDigitUnit (u.toNat % 0x10)) = some u := by
  have hu := u.toNat_lt
  unfold unhex4
  rw [radixDigit_hexDigitUnit (by omega), radixDigit_hexDigitUnit (by omega),
    radixDigit_hexDigitUnit (by omega), radixDigit_hexDigitUnit (by omega)]
  simp only [Option.bind_eq_bind, Option.bind_some, Option.pure_def]
  have : ((u.toNat / 0x1000 * 16 + u.toNat / 0x100 % 0x10) * 16 + u.toNat / 0x10 % 0x10) * 16
      + u.toNat % 0x10 = u.toNat := by omega
  rw [this, UInt16.ofNat_toNat]

lemma parseChars_quote (t : JsString) : parseChars (0x22 :: t) = some ([], t) := by
  rw [parseChars.eq_def]
  simp

/-- A unit that needs no escape is read as itself. -/
lemma parseChars_plain {u : UInt16} (h1 : u ≠ 0x22) (h2 : u ≠ 0x5C) (h3 : ¬ u.toNat < 0x20)
    (t : JsString) :
    parseChars (u :: t) = (parseChars t).map fun p => (u :: p.1, p.2) := by
  rw [parseChars.eq_def]
  simp only [if_neg h1, if_neg h2, if_neg h3]
  cases parseChars t <;> rfl

/-- A one-letter escape is read as the unit it stands for. -/
lemma parseChars_letter {e v : UInt16} (he : unescape e = some v) (hu : e ≠ 0x75)
    (t : JsString) :
    parseChars (0x5C :: e :: t) = (parseChars t).map fun p => (v :: p.1, p.2) := by
  rw [parseChars.eq_def]
  simp only [if_neg (show (0x5C : UInt16) ≠ 0x22 by decide), if_true, if_neg hu, he]
  cases parseChars t <;> rfl

/-- An escape is read as its unit. -/
lemma parseChars_hex4 (u : UInt16) (t : JsString) :
    parseChars (0x5C :: 0x75 :: (hex4 u ++ t)) = (parseChars t).map fun p => (u :: p.1, p.2) := by
  rw [parseChars.eq_def]
  simp only [if_neg (show (0x5C : UInt16) ≠ 0x22 by decide), if_true, hex4, List.cons_append,
    List.nil_append, unhex4_hex4]
  cases parseChars t <;> rfl

/-- An escaped code unit is read back. -/
lemma parseChars_escapeUnit (u : UInt16) (t : JsString) :
    parseChars (escapeUnit u ++ t) = (parseChars t).map fun p => (u :: p.1, p.2) := by
  unfold escapeUnit
  split_ifs with h1 h2 h3 h4 h5 h6 h7 h8
  · subst h1; exact parseChars_letter rfl (by decide) t
  · subst h2; exact parseChars_letter rfl (by decide) t
  · subst h3; exact parseChars_letter rfl (by decide) t
  · subst h4; exact parseChars_letter rfl (by decide) t
  · subst h5; exact parseChars_letter rfl (by decide) t
  · subst h6; exact parseChars_letter rfl (by decide) t
  · subst h7; exact parseChars_letter rfl (by decide) t
  · exact parseChars_hex4 u t
  · refine parseChars_plain h1 h2 ?_ t
    intro hlt
    simp [hlt] at h8

lemma surrogate_plain {u : UInt16} (h : isHigh u = true ∨ isLow u = true) :
    u ≠ 0x22 ∧ u ≠ 0x5C ∧ ¬ u.toNat < 0x20 := by
  have hu : 0xD800 ≤ u.toNat := by
    rcases h with h | h
    · exact ((isHigh_iff u).mp h).1
    · have := ((isLow_iff u).mp h).1
      omega
  refine ⟨?_, ?_, by omega⟩
  · rintro rfl
    exact absurd hu (by decide)
  · rintro rfl
    exact absurd hu (by decide)

/-- An escaped string is read back up to its closing quote. -/
theorem parseChars_escape (s t : JsString) :
    parseChars (escape s ++ 0x22 :: t) = some (s, t) := by
  fun_induction escape s with
  | case1 => exact parseChars_quote t
  | case2 u => rw [parseChars_escapeUnit, parseChars_quote]; rfl
  | case3 h l rest hp ih =>
    rw [Bool.and_eq_true] at hp
    obtain ⟨h1, h2, h3⟩ := surrogate_plain (Or.inl hp.1)
    obtain ⟨l1, l2, l3⟩ := surrogate_plain (Or.inr hp.2)
    rw [List.cons_append, List.cons_append, parseChars_plain h1 h2 h3, parseChars_plain l1 l2 l3,
      ih]
    rfl
  | case4 h l rest hp ih =>
    rw [List.append_assoc, parseChars_escapeUnit, ih]
    rfl

/-! ## Values -/

lemma skipWs_cons {u : UInt16} (h : isWs u = false) (t : JsString) :
    skipWs (u :: t) = u :: t := by
  simp [skipWs, h]

/-- A number starts with its sign or with a digit. -/
lemma print_head (n : Number) :
    ∃ u t, n.print = u :: t ∧ (u = 0x2D ∨ isDigit u = true) := by
  obtain ⟨d, t, ht, hd⟩ := magnitudeText_head n.mantissa.natAbs n.scale
  unfold Number.print Decimal.print
  rw [ht]
  by_cases hneg : n.mantissa < 0
  · rw [if_pos hneg]
    exact ⟨_, _, rfl, Or.inl rfl⟩
  · rw [if_neg hneg]
    exact ⟨_, _, rfl, Or.inr (isDigit_digitUnit hd)⟩

/-- What a JSON text starts with: neither white space nor a closing bracket or brace. -/
theorem stringify_head (v : Json) :
    ∃ u t, v.stringify = u :: t ∧ isWs u = false ∧ u ≠ 0x5D ∧ u ≠ 0x7D := by
  cases v with
  | null => exact ⟨_, _, rfl, by decide, by decide, by decide⟩
  | bool b => cases b <;> exact ⟨_, _, rfl, by decide, by decide, by decide⟩
  | num d =>
    obtain ⟨u, t, ht, hu⟩ := print_head d
    refine ⟨u, t, ht, ?_⟩
    rcases hu with rfl | hu
    · exact ⟨by decide, by decide, by decide⟩
    · simp only [isDigit, Bool.and_eq_true, decide_eq_true_eq] at hu
      have hne : ∀ w : UInt16, w.toNat < 0x30 ∨ 0x39 < w.toNat → u ≠ w := by
        rintro w hw rfl
        omega
      refine ⟨?_, hne _ (by decide), hne _ (by decide)⟩
      simp [isWs, hne 0x20 (by decide), hne 0x09 (by decide), hne 0x0A (by decide),
        hne 0x0D (by decide)]
  | str s => exact ⟨_, _, rfl, by decide, by decide, by decide⟩
  | arr xs => exact ⟨_, _, rfl, by decide, by decide, by decide⟩
  | obj kvs => exact ⟨_, _, rfl, by decide, by decide, by decide⟩

lemma length_stringify_pos (v : Json) : 0 < v.stringify.length := by
  obtain ⟨u, t, h, -⟩ := stringify_head v
  simp [h]

/-- The text of a value begins with no white space. -/
lemma skipWs_stringify (v : Json) (rest : JsString) :
    skipWs (v.stringify ++ rest) = v.stringify ++ rest := by
  obtain ⟨u, t, h, hu, -⟩ := stringify_head v
  rw [h]
  exact skipWs_cons hu _

/-- The text of the elements begins with that of the first. -/
lemma elementsText_cons (x : Json) (xs : List Json) :
    ∃ t, elementsText (x :: xs) = x.stringify ++ t := by
  cases xs with
  | nil => exact ⟨[], by simp [elementsText]⟩
  | cons y ys => exact ⟨_, rfl⟩

/-- The text of the members begins with a quote. -/
lemma membersText_cons (k : JsString) (v : Json) (kvs : List (JsString × Json)) :
    ∃ t, membersText ((k, v) :: kvs) = 0x22 :: t := by
  cases kvs with
  | nil => exact ⟨_, rfl⟩
  | cons kv kvs => exact ⟨_, rfl⟩

/-- Punctuation ends a number. -/
lemma numberEnds_cons {u : UInt16} (h : isDigit u = false) (h1 : u ≠ 0x2E) (h2 : u ≠ 0x65)
    (h3 : u ≠ 0x45) (t : JsString) : NumberEnds (u :: t) := by
  intro w r hw
  obtain ⟨rfl, -⟩ := List.cons.inj hw
  exact ⟨h, h1, h2, h3⟩

/-- A bracket begins an array that is not empty. -/
lemma parseValue_bracket (n : ℕ) {s : JsString} (h : ∀ r, skipWs s ≠ 0x5D :: r) :
    parseValue (n + 1) (0x5B :: s)
      = (parseElements n (skipWs s)).map fun p => (.arr p.1, p.2) := by
  rw [parseValue, skipWs_cons (by decide)]
  simp only [if_neg (show (0x5B : UInt16) ≠ 0x7B by decide), if_true]
  cases parseElements n (skipWs s) <;> rfl

/-- A brace begins an object that is not empty. -/
lemma parseValue_brace (n : ℕ) {s : JsString} (h : ∀ r, skipWs s ≠ 0x7D :: r) :
    parseValue (n + 1) (0x7B :: s)
      = (parseMembers n (skipWs s)).map fun p => (.obj (ofEntries p.1), p.2) := by
  rw [parseValue, skipWs_cons (by decide)]
  simp only [if_true]
  cases parseMembers n (skipWs s) <;> rfl

/-- A quote begins a string. -/
lemma parseValue_quote (n : ℕ) (s : JsString) :
    parseValue (n + 1) (0x22 :: s) = (parseChars s).map fun p => (.str p.1, p.2) := by
  rw [parseValue, skipWs_cons (by decide)]
  simp only [if_neg (show (0x22 : UInt16) ≠ 0x7B by decide),
    if_neg (show (0x22 : UInt16) ≠ 0x5B by decide), if_true]
  cases parseChars s <;> rfl

/-- A text that starts like a number is read as one. -/
lemma parseValue_number (n : ℕ) {u : UInt16} (hu : u = 0x2D ∨ isDigit u = true) (t : JsString) :
    parseValue (n + 1) (u :: t) = (readNumber (u :: t)).map fun p => (.num p.1, p.2) := by
  have hne : ∀ w : UInt16, w ≠ 0x2D → isDigit w = false → u ≠ w := by
    rintro w hw hd rfl
    rcases hu with h | h
    · exact hw h
    · simp [h] at hd
  have hws : isWs u = false := by
    simp [isWs, hne 0x20 (by decide) (by decide), hne 0x09 (by decide) (by decide),
      hne 0x0A (by decide) (by decide), hne 0x0D (by decide) (by decide)]
  rw [parseValue, skipWs_cons hws]
  simp only [if_neg (hne 0x7B (by decide) (by decide)), if_neg (hne 0x5B (by decide) (by decide)),
    if_neg (hne 0x22 (by decide) (by decide)), if_neg (hne 0x74 (by decide) (by decide)),
    if_neg (hne 0x66 (by decide) (by decide)), if_neg (hne 0x6E (by decide) (by decide))]
  cases readNumber (u :: t) <;> rfl

mutual
/-- A value's text is read back as the value, whatever text follows that cannot be part
of a number. -/
theorem parseValue_stringify : ∀ (v : Json) (n : ℕ) (rest : JsString), v.canonical = true →
    NumberEnds rest → v.stringify.length < n →
    parseValue n (v.stringify ++ rest) = some (v, rest)
  | v, 0, rest, _, _, hn => by omega
  | .null, n + 1, rest, _, _, _ => rfl
  | .bool true, n + 1, rest, _, _, _ => rfl
  | .bool false, n + 1, rest, _, _, _ => rfl
  | .num d, n + 1, rest, _, hrest, _ => by
    obtain ⟨u, t, ht, hu⟩ := print_head d
    have hread := readNumber_print d hrest
    rw [Json.stringify]
    rw [ht, List.cons_append] at hread ⊢
    rw [parseValue_number n hu, hread]
    rfl
  | .str s, n + 1, rest, _, _, _ => by
    rw [Json.stringify, quote, List.cons_append, List.append_assoc, parseValue_quote,
      List.singleton_append, parseChars_escape]
    rfl
  | .arr [], n + 1, rest, _, _, _ => rfl
  | .arr (x :: xs), n + 1, rest, hc, _, hn => by
    obtain ⟨t, ht⟩ := elementsText_cons x xs
    have hskip : skipWs (elementsText (x :: xs) ++ 0x5D :: rest)
        = elementsText (x :: xs) ++ 0x5D :: rest := by
      rw [ht, List.append_assoc]
      exact skipWs_stringify x _
    -- the array is not taken for an empty one
    have hne : ∀ r, skipWs (elementsText (x :: xs) ++ 0x5D :: rest) ≠ 0x5D :: r := by
      intro r hr
      obtain ⟨u, t', hu, -, h1, -⟩ := stringify_head x
      rw [hskip, ht, hu, List.append_assoc, List.cons_append] at hr
      exact h1 (List.cons.inj hr).1
    have hlen : (elementsText (x :: xs)).length + 1 < n := by
      simp [Json.stringify] at hn
      omega
    rw [Json.canonical] at hc
    rw [Json.stringify, List.cons_append, List.append_assoc, List.singleton_append,
      parseValue_bracket n hne, hskip, parseElements_elementsText x xs n rest hc hlen]
    rfl
  | .obj [], n + 1, rest, _, _, _ => rfl
  | .obj ((k, v) :: kvs), n + 1, rest, hc, _, hn => by
    obtain ⟨t, ht⟩ := membersText_cons k v kvs
    have hskip : skipWs (membersText ((k, v) :: kvs) ++ 0x7D :: rest)
        = membersText ((k, v) :: kvs) ++ 0x7D :: rest := by
      rw [ht]
      exact skipWs_cons (by decide) _
    have hne : ∀ r, skipWs (membersText ((k, v) :: kvs) ++ 0x7D :: rest) ≠ 0x7D :: r := by
      intro r hr
      rw [hskip, ht, List.cons_append] at hr
      exact absurd (List.cons.inj hr).1 (by decide)
    have hlen : (membersText ((k, v) :: kvs)).length + 1 < n := by
      simp [Json.stringify] at hn
      omega
    rw [Json.canonical, Bool.and_eq_true] at hc
    rw [Json.stringify, List.cons_append, List.append_assoc, List.singleton_append,
      parseValue_brace n hne, hskip, parseMembers_membersText k v kvs n rest hc.2 hlen]
    -- the properties are in the order of the language already
    simp [ofEntries_of_ordered hc.1]

/-- The elements are read back from their text. -/
theorem parseElements_elementsText : ∀ (x : Json) (xs : List Json) (n : ℕ) (rest : JsString),
    canonicalList (x :: xs) = true → (elementsText (x :: xs)).length + 1 < n →
    parseElements n (elementsText (x :: xs) ++ 0x5D :: rest) = some (x :: xs, rest)
  | x, xs, 0, rest, _, hn => by omega
  | x, [], n + 1, rest, hc, hn => by
    simp only [canonicalList, Bool.and_true] at hc
    simp only [elementsText] at hn ⊢
    rw [parseElements, parseValue_stringify x n _ hc
      (numberEnds_cons (by decide) (by decide) (by decide) (by decide) _) (by omega)]
    simp [skipWs_cons (show isWs 0x5D = false by decide)]
  | x, y :: ys, n + 1, rest, hc, hn => by
    rw [canonicalList, Bool.and_eq_true] at hc
    have hpos := length_stringify_pos x
    simp only [elementsText, List.length_append, List.length_cons] at hn
    rw [parseElements, elementsText, List.append_assoc, List.cons_append,
      parseValue_stringify x n _ hc.1
        (numberEnds_cons (by decide) (by decide) (by decide) (by decide) _) (by omega)]
    simp [skipWs_cons (show isWs 0x2C = false by decide),
      parseElements_elementsText y ys n rest hc.2 (by omega)]

/-- The members are read back from their text. -/
theorem parseMembers_membersText : ∀ (k : JsString) (v : Json) (kvs : List (JsString × Json))
    (n : ℕ) (rest : JsString), canonicalProps ((k, v) :: kvs) = true →
    (membersText ((k, v) :: kvs)).length + 1 < n →
    parseMembers n (membersText ((k, v) :: kvs) ++ 0x7D :: rest) = some ((k, v) :: kvs, rest)
  | k, v, kvs, 0, rest, _, hn => by omega
  | k, v, [], n + 1, rest, hc, hn => by
    simp only [canonicalProps, Bool.and_true] at hc
    simp only [membersText, quote, List.length_append, List.length_cons] at hn
    rw [membersText, quote, List.append_assoc, List.cons_append, List.append_assoc,
      List.singleton_append, List.cons_append, parseMembers, skipWs_cons (by decide)]
    simp only [parseChars_escape]
    simp [skipWs_cons (show isWs 0x3A = false by decide), parseValue_stringify v n _ hc
      (numberEnds_cons (u := 0x7D) (by decide) (by decide) (by decide) (by decide) rest)
      (by omega), skipWs_cons (show isWs 0x7D = false by decide)]
  | k, v, (k', v') :: kvs, n + 1, rest, hc, hn => by
    rw [canonicalProps, Bool.and_eq_true] at hc
    simp only [membersText, quote, List.length_append, List.length_cons] at hn
    rw [membersText, quote, List.append_assoc, List.cons_append, List.append_assoc,
      List.singleton_append, List.cons_append, parseMembers, skipWs_cons (by decide)]
    simp only [parseChars_escape, List.append_assoc, List.cons_append]
    simp [skipWs_cons (show isWs 0x3A = false by decide), parseValue_stringify v n _ hc.1
      (numberEnds_cons (u := 0x2C) (by decide) (by decide) (by decide) (by decide) _)
      (by omega), skipWs_cons (show isWs 0x2C = false by decide),
      parseMembers_membersText k' v' kvs n rest hc.2 (by omega)]
end

/-- `JSON.parse` inverts `JSON.stringify` on the values JavaScript can hold. -/
theorem parse_stringify {v : Json} (hv : v.canonical = true) :
    Json.parse v.stringify = some v := by
  have h := parseValue_stringify v (v.stringify.length + 1) [] hv numberEnds_nil (by omega)
  rw [List.append_nil] at h
  simp [Json.parse, h, skipWs]

/-! ## The text as bytes -/

lemma wellFormed_escapeUnit (u : UInt16) : WellFormed (escapeUnit u) := by
  have hhex : ∀ d, d < 16 → (hexDigitUnit d).toNat < 0x80 := by
    intro d hd
    rw [toNat_hexDigitUnit hd]
    split <;> omega
  have hu := u.toNat_lt
  unfold escapeUnit
  split_ifs with h1 h2 h3 h4 h5 h6 h7 h8
  · exact .of_ascii (by simp)
  · exact .of_ascii (by simp)
  · exact .of_ascii (by simp)
  · exact .of_ascii (by simp)
  · exact .of_ascii (by simp)
  · exact .of_ascii (by simp)
  · exact .of_ascii (by simp)
  · refine .of_ascii fun w hw => ?_
    simp only [hex4, List.cons_append, List.nil_append, List.mem_cons, List.not_mem_nil,
      or_false] at hw
    rcases hw with rfl | rfl | rfl | rfl | rfl | rfl
    · decide
    · decide
    · exact hhex _ (by omega)
    · exact hhex _ (by omega)
    · exact hhex _ (by omega)
    · exact hhex _ (by omega)
  · refine .unit ?_ .nil
    simp only [Bool.or_eq_true, not_or, Bool.not_eq_true] at h8
    simp [h8.1.2, h8.2]

/-- Surrogates that stand alone are escaped. -/
lemma wellFormed_escape (s : JsString) : WellFormed (escape s) := by
  fun_induction escape s with
  | case1 => exact .nil
  | case2 u => exact wellFormed_escapeUnit u
  | case3 h l rest hp ih =>
    rw [Bool.and_eq_true] at hp
    exact .pair hp.1 hp.2 ih
  | case4 h l rest hp ih => exact (wellFormed_escapeUnit h).append ih

/-- A plain ASCII unit in front changes nothing. -/
lemma WellFormed.ascii_cons {u : UInt16} {s : JsString} (hu : u.toNat < 0x80)
    (hs : WellFormed s) : WellFormed (u :: s) :=
  .unit ((notSurrogate_iff u).mpr (by omega)) hs

lemma wellFormed_quote (s : JsString) : WellFormed (quote s) :=
  .ascii_cons (by decide) ((wellFormed_escape s).append (.ascii_cons (by decide) .nil))

lemma wellFormed_digits {ds : List ℕ} (h : ∀ d ∈ ds, d < 10) :
    WellFormed (ds.map digitUnit) := by
  refine .of_ascii fun u hu => ?_
  obtain ⟨d, hd, rfl⟩ := List.mem_map.mp hu
  exact digitUnit_ascii (h d hd)

lemma wellFormed_fractionText {ds : List ℕ} (h : ∀ d ∈ ds, d < 10) :
    WellFormed (fractionText ds) := by
  unfold fractionText
  split_ifs
  · exact .nil
  · exact .ascii_cons (by decide) (wellFormed_digits h)

lemma wellFormed_natText (n : ℕ) : WellFormed (natText n) :=
  wellFormed_digits fun _ hd => natDigits_lt hd

lemma wellFormed_exponentText {d : ℕ} {ds : List ℕ} (h : ∀ x ∈ d :: ds, x < 10) (e : ℤ) :
    WellFormed (exponentText d ds e) := by
  have hds : ∀ x ∈ ds, x < 10 := fun x hx => h x (List.mem_cons_of_mem d hx)
  refine .ascii_cons (digitUnit_ascii (h d List.mem_cons_self)) ?_
  refine (wellFormed_fractionText hds).append (.ascii_cons (by decide) (.ascii_cons ?_ ?_))
  · split_ifs <;> decide
  · exact wellFormed_natText e.natAbs

/-- The text of a number is well formed. -/
lemma wellFormed_print (n : Number) : WellFormed n.print := by
  refine WellFormed.append ?_ ?_
  · split
    · exact .ascii_cons (by decide) .nil
    · exact .nil
  · unfold magnitudeText
    split_ifs
    · exact (wellFormed_natText _).append (wellFormed_fractionText fun _ hd => fixedDigits_lt hd)
    · refine wellFormed_exponentText (fun x hx => ?_) _
      cases hs : significant n.mantissa.natAbs with
      | nil =>
        rw [hs] at hx
        obtain rfl : x = 0 := by simpa using hx
        decide
      | cons d ds =>
        rw [hs, List.headD_cons, List.tail_cons, ← hs] at hx
        exact significant_lt hx

mutual
/-- `JSON.stringify` escapes every lone surrogate. -/
theorem wellFormed_stringify : ∀ v : Json, WellFormed v.stringify
  | .null => .of_ascii (by simp [Json.stringify])
  | .bool true => .of_ascii (by simp [Json.stringify])
  | .bool false => .of_ascii (by simp [Json.stringify])
  | .num d => wellFormed_print d
  | .str s => wellFormed_quote s
  | .arr xs => .ascii_cons (by decide)
    ((wellFormed_elementsText xs).append (.ascii_cons (by decide) .nil))
  | .obj kvs => .ascii_cons (by decide)
    ((wellFormed_membersText kvs).append (.ascii_cons (by decide) .nil))

theorem wellFormed_elementsText : ∀ xs : List Json, WellFormed (elementsText xs)
  | [] => .nil
  | [x] => wellFormed_stringify x
  | x :: y :: xs => (wellFormed_stringify x).append
    (.ascii_cons (by decide) (wellFormed_elementsText (y :: xs)))

theorem wellFormed_membersText : ∀ kvs : List (JsString × Json), WellFormed (membersText kvs)
  | [] => .nil
  | [(k, v)] => (wellFormed_quote k).append (.ascii_cons (by decide) (wellFormed_stringify v))
  | (k, v) :: kv :: kvs => (wellFormed_quote k).append (.ascii_cons (by decide)
    ((wellFormed_stringify v).append
      (.ascii_cons (by decide) (wellFormed_membersText (kv :: kvs)))))
end

/-- Writing a value as UTF-8 JSON and reading it back yields the value. -/
theorem decode_encode {v : Json} (hv : v.canonical = true) : Json.decode v.encode = some v := by
  unfold Json.decode Json.encode
  rw [(wellFormed_stringify v).bufferToString_eq, parse_stringify hv]

/-! ## What `JSON.parse` returns -/

/-- A word is read as its value. -/
lemma canonical_of_expect {word : JsString} {w v : Json} {s r : JsString}
    (h : expect word w s = some (v, r)) : v = w := by
  unfold expect at h
  split_ifs at h
  cases h
  rfl

/-- What the reader of values builds is canonical if its parts are. -/
lemma canonical_of_parseValue {n : ℕ}
    (hx : ∀ s xs r, parseElements n s = some (xs, r) → canonicalList xs = true)
    (hm : ∀ s kvs r, parseMembers n s = some (kvs, r) → canonicalProps kvs = true)
    {s : JsString} {v : Json} {r : JsString} (h : parseValue (n + 1) s = some (v, r)) :
    v.canonical = true := by
  rw [parseValue] at h
  split at h
  · cases h
  · split_ifs at h
    · -- an object: its entries are put in the order of the language
      split at h
      · cases h
        rfl
      · simp only [Option.bind_eq_bind, Option.bind_eq_some_iff, Option.pure_def,
          Option.some.injEq, Prod.mk.injEq] at h
        obtain ⟨⟨kvs, r'⟩, hkvs, rfl, -⟩ := h
        have hmem := canonicalProps_iff.mp (hm _ _ _ hkvs)
        refine canonical_obj.mpr ⟨orderedKeys_ofEntries kvs, ?_⟩
        exact fun kv hkv => hmem kv (mem_of_mem_ofEntries kv hkv)
    · split at h
      · cases h
        rfl
      · simp only [Option.bind_eq_bind, Option.bind_eq_some_iff, Option.pure_def,
          Option.some.injEq, Prod.mk.injEq] at h
        obtain ⟨⟨xs, r'⟩, hxs, rfl, -⟩ := h
        exact hx _ _ _ hxs
    · simp only [Option.bind_eq_bind, Option.bind_eq_some_iff, Option.pure_def,
        Option.some.injEq, Prod.mk.injEq] at h
      obtain ⟨⟨t, r'⟩, -, rfl, -⟩ := h
      rfl
    · rw [canonical_of_expect h]
      rfl
    · rw [canonical_of_expect h]
      rfl
    · rw [canonical_of_expect h]
      rfl
    · simp only [Option.bind_eq_bind, Option.bind_eq_some_iff, Option.pure_def,
        Option.some.injEq, Prod.mk.injEq] at h
      obtain ⟨⟨d, r'⟩, -, rfl, -⟩ := h
      rfl

/-- The elements of an array are canonical if the values read are. -/
lemma canonical_of_parseElements {n : ℕ}
    (hv : ∀ s v r, parseValue n s = some (v, r) → v.canonical = true)
    (hx : ∀ s xs r, parseElements n s = some (xs, r) → canonicalList xs = true)
    {s : JsString} {xs : List Json} {r : JsString} (h : parseElements (n + 1) s = some (xs, r)) :
    canonicalList xs = true := by
  rw [parseElements] at h
  simp only [Option.bind_eq_bind, Option.bind_eq_some_iff] at h
  obtain ⟨⟨x, r₁⟩, hread, h⟩ := h
  have hcx := hv _ _ _ hread
  dsimp only at h
  split at h
  · simp only [Option.bind_eq_some_iff, Option.pure_def, Option.some.injEq, Prod.mk.injEq] at h
    obtain ⟨⟨ys, r₂⟩, hys, rfl, -⟩ := h
    rw [canonicalList, hcx, hx _ _ _ hys]
    rfl
  · cases h
    rw [canonicalList, hcx]
    rfl
  · cases h

/-- So are the members of an object. -/
lemma canonical_of_parseMembers {n : ℕ}
    (hv : ∀ s v r, parseValue n s = some (v, r) → v.canonical = true)
    (hm : ∀ s kvs r, parseMembers n s = some (kvs, r) → canonicalProps kvs = true)
    {s : JsString} {kvs : List (JsString × Json)} {r : JsString}
    (h : parseMembers (n + 1) s = some (kvs, r)) : canonicalProps kvs = true := by
  rw [parseMembers] at h
  split at h
  · simp only [Option.bind_eq_bind, Option.bind_eq_some_iff] at h
    obtain ⟨⟨k, r₁⟩, -, h⟩ := h
    dsimp only at h
    split at h
    · simp only [Option.bind_eq_some_iff] at h
      obtain ⟨⟨v, r₂⟩, hread, h⟩ := h
      have hcv := hv _ _ _ hread
      dsimp only at h
      split at h
      · simp only [Option.bind_eq_some_iff, Option.pure_def, Option.some.injEq,
          Prod.mk.injEq] at h
        obtain ⟨⟨kvs', r₃⟩, hkvs, rfl, -⟩ := h
        rw [canonicalProps, hcv, hm _ _ _ hkvs]
        rfl
      · cases h
        rw [canonicalProps, hcv]
        rfl
      · cases h
    · cases h
  · cases h

/-- All three readers build canonical values only. -/
lemma canonical_of_reader (n : ℕ) :
    (∀ s v r, parseValue n s = some (v, r) → v.canonical = true) ∧
    (∀ s xs r, parseElements n s = some (xs, r) → canonicalList xs = true) ∧
    (∀ s kvs r, parseMembers n s = some (kvs, r) → canonicalProps kvs = true) := by
  induction n with
  | zero => exact ⟨nofun, nofun, nofun⟩
  | succ n ih =>
    obtain ⟨ihv, ihx, ihm⟩ := ih
    exact ⟨fun s v r h => canonical_of_parseValue ihx ihm h,
      fun s xs r h => canonical_of_parseElements ihv ihx h,
      fun s kvs r h => canonical_of_parseMembers ihv ihm h⟩

/-- Every value `JSON.parse` returns is one JavaScript can hold. -/
theorem canonical_of_parse {s : JsString} {v : Json} (h : Json.parse s = some v) :
    v.canonical = true := by
  unfold Json.parse at h
  split at h
  · next w r hw =>
    split_ifs at h
    cases h
    exact (canonical_of_reader _).1 _ _ _ hw
  · cases h

end Js
