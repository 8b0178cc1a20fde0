import Mathlib.Tactic.Common
import Mathlib.Data.List.Basic

/-!
# JavaScript strings and their UTF-8 form

A JavaScript string is a list of UTF-16 code units, not necessarily well formed: a
surrogate may stand alone. This file defines

* `codePoints` / `codeUnits`, the two directions between code units and code points,
  a lone surrogate reading as U+FFFD;
* `bufferFrom`, `Buffer.from(s, 'utf8')`, and `bufferToString`, `buf.toString('utf8')`,
  the latter as the WHATWG decoder runs: one byte at a time, one U+FFFD for every
  maximal ill-formed subpart;
* `toWellFormed`, what is left of a string after both (`bufferToString_bufferFrom`), and
  `WellFormed`, the strings on which the two are inverse.
-/

namespace Js

/-- A JavaScript string, as its UTF-16 code units. -/
abbrev JsString := List UInt16

/-- Texts are equal if their units are. -/
instance : LawfulBEq JsString := inferInstance

/-- The contents of a Node `Buffer`. -/
abbrev Bytes := List UInt8

/-- U+FFFD, the replacement character. -/
def replacement : ℕ := 0xFFFD

/-! ## Code units and code points -/

/-- The first half of a surrogate pair. -/
def isHigh (u : UInt16) : Bool := 0xD800 ≤ u.toNat && u.toNat < 0xDC00

/-- The second half of a surrogate pair. -/
def isLow (u : UInt16) : Bool := 0xDC00 ≤ u.toNat && u.toNat < 0xE000

/-- The code point of a single code unit; a lone surrogate has none and is replaced. -/
def scalarOf (u : UInt16) : ℕ := if isHigh u || isLow u then replacement else u.toNat

/-- The code point of a surrogate pair. -/
def pairOf (h l : UInt16) : ℕ :=
  0x10000 + (h.toNat - 0xD800) * 0x400 + (l.toNat - 0xDC00)

/-- The code points of a string, lone surrogates replaced. -/
def codePoints : JsString → List ℕ
  | [] => []
  | [u] => [scalarOf u]
  | h :: l :: rest =>
    if isHigh h && isLow l then pairOf h l :: codePoints rest
    else scalarOf h :: codePoints (l :: rest)

/-- The code units of one code point. -/
def codeUnits (c : ℕ) : JsString :=
  if c < 0x10000 then [UInt16.ofNat c]
  else [UInt16.ofNat (0xD800 + (c - 0x10000) / 0x400),
    UInt16.ofNat (0xDC00 + (c - 0x10000) % 0x400)]

/-- The string with the given code points. -/
def ofCodePoints (cs : List ℕ) : JsString := cs.flatMap codeUnits

/-- A string literal of the source. -/
def js (s : String) : JsString := ofCodePoints (s.toList.map Char.toNat)

/-- `String.prototype.toWellFormed`: every lone surrogate becomes U+FFFD. -/
def toWellFormed (s : JsString) : JsString := ofCodePoints (codePoints s)

/-- A string without lone surrogates. -/
inductive WellFormed : JsString → Prop
  | nil : WellFormed []
  | unit {u : UInt16} {s : JsString} (hu : (isHigh u || isLow u) = false) (hs : WellFormed s) :
      WellFormed (u :: s)
  | pair {h l : UInt16} {s : JsString} (hh : isHigh h = true) (hl : isLow l = true)
      (hs : WellFormed s) : WellFormed (h :: l :: s)

/-- A Unicode scalar value: a code point that is not a surrogate. -/
def IsScalar (c : ℕ) : Prop := c < 0xD800 ∨ (0xE000 ≤ c ∧ c < 0x110000)

lemma isHigh_iff (u : UInt16) : isHigh u = true ↔ 0xD800 ≤ u.toNat ∧ u.toNat < 0xDC00 := by
  simp [isHigh]

lemma isLow_iff (u : UInt16) : isLow u = true ↔ 0xDC00 ≤ u.toNat ∧ u.toNat < 0xE000 := by
  simp [isLow]

lemma notSurrogate_iff (u : UInt16) :
    (isHigh u || isLow u) = false ↔ u.toNat < 0xD800 ∨ 0xE000 ≤ u.toNat := by
  rw [Bool.or_eq_false_iff, ← Bool.not_eq_true, ← Bool.not_eq_true, isHigh_iff, isLow_iff]
  omega

/-- A unit that stands alone becomes a scalar value. -/
lemma isScalar_scalarOf (u : UInt16) : IsScalar (scalarOf u) := by
  have hu := u.toNat_lt
  unfold scalarOf IsScalar replacement
  split
  · omega
  · next h =>
    have := (notSurrogate_iff u).mp (Bool.eq_false_iff.mpr h)
    omega

/-- A surrogate pair is a scalar value. -/
lemma isScalar_pairOf {h l : UInt16} (hh : isHigh h = true) (hl : isLow l = true) :
    IsScalar (pairOf h l) := by
  rw [isHigh_iff] at hh
  rw [isLow_iff] at hl
  unfold pairOf IsScalar
  omega

/-- Reading a string never yields anything but scalar values. -/
theorem isScalar_of_mem_codePoints {s : JsString} {c : ℕ} (hc : c ∈ codePoints s) :
    IsScalar c := by
  fun_induction codePoints s with
  | case1 => simp at hc
  | case2 u =>
    rw [List.mem_singleton.mp hc]
    exact isScalar_scalarOf u
  | case3 h l rest hp ih =>
    rw [Bool.and_eq_true] at hp
    rcases List.mem_cons.mp hc with hc | hc
    · rw [hc]
      exact isScalar_pairOf hp.1 hp.2
    · exact ih hc
  | case4 h l rest hp ih =>
    rcases List.mem_cons.mp hc with hc | hc
    · rw [hc]
      exact isScalar_scalarOf h
    · exact ih hc

/-- A surrogate pair is written as its two halves. -/
lemma codeUnits_pairOf {h l : UInt16} (hh : isHigh h = true) (hl : isLow l = true) :
    codeUnits (pairOf h l) = [h, l] := by
  rw [isHigh_iff] at hh
  rw [isLow_iff] at hl
  unfold codeUnits pairOf
  rw [if_neg (by omega)]
  have h1 : 0xD800 + (0x10000 + (h.toNat - 0xD800) * 0x400 + (l.toNat - 0xDC00) - 0x10000) / 0x400
      = h.toNat := by omega
  have h2 : 0xDC00 + (0x10000 + (h.toNat - 0xD800) * 0x400 + (l.toNat - 0xDC00) - 0x10000) % 0x400
      = l.toNat := by omega
  rw [h1, h2, UInt16.ofNat_toNat, UInt16.ofNat_toNat]

/-- A unit that is no surrogate is written as itself. -/
lemma codeUnits_scalarOf {u : UInt16} (hu : (isHigh u || isLow u) = false) :
    codeUnits (scalarOf u) = [u] := by
  have hlt := u.toNat_lt
  have hs : scalarOf u = u.toNat := by rw [scalarOf, if_neg (by simp [hu])]
  rw [hs, codeUnits, if_pos (by omega), UInt16.ofNat_toNat]

lemma codePoints_cons {u : UInt16} (hu : (isHigh u || isLow u) = false) (s : JsString) :
    codePoints (u :: s) = scalarOf u :: codePoints s := by
  cases s with
  | nil => rfl
  | cons l rest =>
    have hh : isHigh u = false := (Bool.or_eq_false_iff.mp hu).1
    simp [codePoints, hh]

/-- On well-formed strings nothing is replaced. -/
theorem WellFormed.toWellFormed_eq {s : JsString} (hs : WellFormed s) : toWellFormed s = s := by
  unfold toWellFormed ofCodePoints
  induction hs with
  | nil => rfl
  | @unit u s hu _ ih =>
    rw [codePoints_cons hu, List.flatMap_cons, ih, codeUnits_scalarOf hu]
    rfl
  | @pair h l s hh hl _ ih =>
    have : codePoints (h :: l :: s) = pairOf h l :: codePoints s := by simp [codePoints, hh, hl]
    rw [this, List.flatMap_cons, ih, codeUnits_pairOf hh hl]
    rfl

/-- Well formed texts can be put together. -/
lemma WellFormed.append {s t : JsString} (hs : WellFormed s) (ht : WellFormed t) :
    WellFormed (s ++ t) := by
  induction hs with
  | nil => exact ht
  | unit hu _ ih => exact .unit hu ih
  | pair hh hl _ ih => exact .pair hh hl ih

lemma WellFormed.flatten {ss : List JsString} (h : ∀ s ∈ ss, WellFormed s) :
    WellFormed ss.flatten := by
  induction ss with
  | nil => exact .nil
  | cons s ss ih =>
    rw [List.flatten_cons]
    exact (h s (by simp)).append (ih fun t ht => h t (by simp [ht]))

/-- Text made of ASCII units only is well formed. -/
lemma WellFormed.of_ascii {s : JsString} (h : ∀ u ∈ s, u.toNat < 0x80) : WellFormed s := by
  induction s with
  | nil => exact .nil
  | cons u s ih =>
    refine .unit ?_ (ih fun v hv => h v (by simp [hv]))
    rw [notSurrogate_iff]
    have := h u (by simp)
    omega

/-- The units of a scalar value are well formed. -/
lemma wellFormed_codeUnits {c : ℕ} (hc : IsScalar c) : WellFormed (codeUnits c) := by
  unfold IsScalar at hc
  unfold codeUnits
  split
  · next h =>
    refine .unit ?_ .nil
    rw [notSurrogate_iff, UInt16.toNat_ofNat_of_lt' (by simpa [UInt16.size] using h)]
    omega
  · refine .pair ?_ ?_ .nil
    · rw [isHigh_iff, UInt16.toNat_ofNat_of_lt' (by simp [UInt16.size]; omega)]
      omega
    · rw [isLow_iff, UInt16.toNat_ofNat_of_lt' (by simp [UInt16.size]; omega)]
      omega

/-- `toWellFormed` does what its name says. -/
theorem wellFormed_toWellFormed (s : JsString) : WellFormed (toWellFormed s) := by
  unfold toWellFormed ofCodePoints
  rw [List.flatMap_def]
  refine WellFormed.flatten fun t ht => ?_
  obtain ⟨c, hc, rfl⟩ := List.mem_map.mp ht
  exact wellFormed_codeUnits (isScalar_of_mem_codePoints hc)

/-- A text is well formed when nothing is replaced in it. -/
theorem wellFormed_iff (s : JsString) : WellFormed s ↔ toWellFormed s = s :=
  ⟨WellFormed.toWellFormed_eq, fun h => h ▸ wellFormed_toWellFormed s⟩

instance (s : JsString) : Decidable (WellFormed s) := decidable_of_iff _ (wellFormed_iff s).symm

/-! ## Splitting -/

/-- The parts of a text are free of the separator, and consist of units of the text. -/
lemma not_mem_and_subset_of_mem_splitOn {s part : JsString} {u : UInt16}
    (h : part ∈ s.splitOn u) : u ∉ part ∧ part ⊆ s := by
  induction s generalizing part with
  | nil => simp_all
  | cons v s ih =>
    rw [List.splitOn_cons_eq_if_modifyHead] at h
    split at h
    · rcases List.mem_cons.mp h with rfl | h
      · exact ⟨List.not_mem_nil, List.nil_subset _⟩
      · exact ⟨(ih h).1, List.subset_cons_of_subset v (ih h).2⟩
    · rename_i hv
      have hne : u ≠ v := fun he => hv (by simp [he])
      obtain ⟨first, others, hsplit⟩ := List.exists_cons_of_ne_nil (List.splitOn_ne_nil u s)
      rw [hsplit, List.modifyHead_cons, List.mem_cons] at h
      rcases h with rfl | h
      · have hfirst := ih (by rw [hsplit]; exact List.mem_cons_self)
        exact ⟨by simpa [hne] using hfirst.1, List.cons_subset_cons v hfirst.2⟩
      · have hothers := ih (by rw [hsplit]; exact List.mem_cons_of_mem _ h)
        exact ⟨hothers.1, List.subset_cons_of_subset v hothers.2⟩

/-- The parts do not contain the separator. -/
lemma not_mem_of_mem_splitOn {s part : JsString} {u : UInt16} (h : part ∈ s.splitOn u) :
    u ∉ part := (not_mem_and_subset_of_mem_splitOn h).1

/-- A text without the separator stands in front of a text that goes on after one. -/
lemma prefix_append_of_not_mem {n s y : JsString} {u : UInt16} (hn : u ∉ n)
    (hy : y = [] ∨ y.head? = some u) : n <+: s ++ y ↔ n <+: s := by
  refine ⟨fun h => ?_, fun h => h.trans (List.prefix_append s y)⟩
  rcases List.prefix_or_prefix_of_prefix h (List.prefix_append s y) with hshort | ⟨x, rfl⟩
  · exact hshort
  · rw [List.prefix_append_right_inj] at h
    cases x with
    | nil => simp
    | cons v vs =>
      rcases hy with rfl | hy
      · simp at h
      · obtain ⟨z, rfl⟩ := h
        have hv : v = u := by simpa using hy
        exact absurd (by simp [hv]) hn

/-! ## UTF-8 -/

/-- The UTF-8 bytes of one code point. -/
def utf8Char (c : ℕ) : Bytes :=
  if c < 0x80 then [UInt8.ofNat c]
  else if c < 0x800 then [UInt8.ofNat (0xC0 + c / 0x40), UInt8.ofNat (0x80 + c % 0x40)]
  else if c < 0x10000 then
    [UInt8.ofNat (0xE0 + c / 0x1000), UInt8.ofNat (0x80 + c / 0x40 % 0x40),
      UInt8.ofNat (0x80 + c % 0x40)]
  else
    [UInt8.ofNat (0xF0 + c / 0x40000), UInt8.ofNat (0x80 + c / 0x1000 % 0x40),
      UInt8.ofNat (0x80 + c / 0x40 % 0x40), UInt8.ofNat (0x80 + c % 0x40)]

/-- `Buffer.from(s, 'utf8')`. -/
def bufferFrom (s : JsString) : Bytes := (codePoints s).flatMap utf8Char

/-- The decoder between two bytes: the bits read so far, how many continuation bytes are
still owed, and the range the next one has to lie in. -/
structure Utf8State where
  bits : ℕ
  owed : ℕ
  lower : ℕ
  upper : ℕ
  deriving DecidableEq, Repr

/-- Between characters. -/
def Utf8State.idle : Utf8State := ⟨0, 0, 0x80, 0xBF⟩

/-- The first byte of a character: the code points it emits and the state after it. -/
def utf8First (b : ℕ) : List ℕ × Utf8State :=
  if b < 0x80 then ([b], .idle)
  else if 0xC2 ≤ b ∧ b < 0xE0 then ([], ⟨b - 0xC0, 1, 0x80, 0xBF⟩)
  else if 0xE0 ≤ b ∧ b < 0xF0 then
    ([], ⟨b - 0xE0, 2, if b = 0xE0 then 0xA0 else 0x80, if b = 0xED then 0x9F else 0xBF⟩)
  else if 0xF0 ≤ b ∧ b < 0xF5 then
    ([], ⟨b - 0xF0, 3, if b = 0xF0 then 0x90 else 0x80, if b = 0xF4 then 0x8F else 0xBF⟩)
  else ([replacement], .idle)

/-- One byte. A byte that cannot continue the character being read ends it with U+FFFD
and is read again as a first byte. -/
def utf8Step (st : Utf8State) (b : ℕ) : List ℕ × Utf8State :=
  if st.owed = 0 then utf8First b
  else if st.lower ≤ b ∧ b ≤ st.upper then
    let bits := st.bits * 0x40 + (b - 0x80)
    if st.owed = 1 then ([bits], .idle) else ([], ⟨bits, st.owed - 1, 0x80, 0xBF⟩)
  else
    let (out, st') := utf8First b
    (replacement :: out, st')

/-- The code points of the bytes to come, from a state of the decoder. -/
def utf8Run : Utf8State → Bytes → List ℕ
  | st, [] => if st.owed = 0 then [] else [replacement]
  | st, b :: bs =>
    let (out, st') := utf8Step st b.toNat
    out ++ utf8Run st' bs

/-- `buf.toString('utf8')`. -/
def bufferToString (b : Bytes) : JsString := ofCodePoints (utf8Run .idle b)

lemma toNat_ofNat8 {n : ℕ} (h : n < 256) : (UInt8.ofNat n).toNat = n :=
  UInt8.toNat_ofNat_of_lt' (by simpa [UInt8.size] using h)

/-- A byte in range ends a character that owes one byte. -/
lemma utf8Run_last {bits lower upper : ℕ} {b : UInt8} (bs : Bytes)
    (hl : lower ≤ b.toNat) (hu : b.toNat ≤ upper) :
    utf8Run ⟨bits, 1, lower, upper⟩ (b :: bs)
      = (bits * 0x40 + (b.toNat - 0x80)) :: utf8Run .idle bs := by
  simp [utf8Run, utf8Step, hl, hu]

/-- A byte in range is absorbed by a character that owes more than one. -/
lemma utf8Run_more {bits n lower upper : ℕ} {b : UInt8} (bs : Bytes)
    (hl : lower ≤ b.toNat) (hu : b.toNat ≤ upper) :
    utf8Run ⟨bits, n + 2, lower, upper⟩ (b :: bs)
      = utf8Run ⟨bits * 0x40 + (b.toNat - 0x80), n + 1, 0x80, 0xBF⟩ bs := by
  simp [utf8Run, utf8Step, hl, hu]

lemma utf8Run_idle (b : UInt8) (bs : Bytes) :
    utf8Run .idle (b :: bs)
      = (utf8First b.toNat).1 ++ utf8Run (utf8First b.toNat).2 bs := rfl

/-- The decoder reads back the bytes of one scalar value. -/
theorem utf8Run_utf8Char {c : ℕ} (hc : IsScalar c) (rest : Bytes) :
    utf8Run .idle (utf8Char c ++ rest) = c :: utf8Run .idle rest := by
  unfold IsScalar at hc
  -- a continuation byte gives its six bits back
  have tail : ∀ n, 0x80 ≤ (UInt8.ofNat (0x80 + n % 0x40)).toNat ∧
      (UInt8.ofNat (0x80 + n % 0x40)).toNat ≤ 0xBF ∧
      (UInt8.ofNat (0x80 + n % 0x40)).toNat - 0x80 = n % 0x40 := by
    intro n
    rw [toNat_ofNat8 (by omega)]
    omega
  unfold utf8Char
  split_ifs with h1 h2 h3
  · rw [List.singleton_append, utf8Run_idle, toNat_ofNat8 (by omega), utf8First, if_pos h1]
    rfl
  · have t1 := tail c
    have hfirst : utf8First (UInt8.ofNat (0xC0 + c / 0x40)).toNat
        = ([], ⟨c / 0x40, 1, 0x80, 0xBF⟩) := by
      rw [toNat_ofNat8 (by omega), utf8First, if_neg (by omega), if_pos (by omega),
        Nat.add_sub_cancel_left]
    simp only [List.cons_append, List.nil_append]
    rw [utf8Run_idle, hfirst, List.nil_append, utf8Run_last _ t1.1 t1.2.1, t1.2.2]
    congr 1
    omega
  · have t1 := tail (c / 0x40)
    have t2 := tail c
    have hfirst : utf8First (UInt8.ofNat (0xE0 + c / 0x1000)).toNat = ([], ⟨c / 0x1000, 2,
        if 0xE0 + c / 0x1000 = 0xE0 then 0xA0 else 0x80,
        if 0xE0 + c / 0x1000 = 0xED then 0x9F else 0xBF⟩) := by
      rw [toNat_ofNat8 (by omega), utf8First, if_neg (by omega), if_neg (by omega),
        if_pos (by omega), Nat.add_sub_cancel_left]
    simp only [List.cons_append, List.nil_append]
    rw [utf8Run_idle, hfirst, List.nil_append,
      utf8Run_more (n := 0) _ (by split_ifs <;> omega) (by split_ifs <;> omega),
      utf8Run_last _ t2.1 t2.2.1, t1.2.2, t2.2.2]
    congr 1
    omega
  · have t1 := tail (c / 0x1000)
    have t2 := tail (c / 0x40)
    have t3 := tail c
    have hfirst : utf8First (UInt8.ofNat (0xF0 + c / 0x40000)).toNat = ([], ⟨c / 0x40000, 3,
        if 0xF0 + c / 0x40000 = 0xF0 then 0x90 else 0x80,
        if 0xF0 + c / 0x40000 = 0xF4 then 0x8F else 0xBF⟩) := by
      rw [toNat_ofNat8 (by omega), utf8First, if_neg (by omega), if_neg (by omega),
        if_neg (by omega), if_pos (by omega), Nat.add_sub_cancel_left]
    simp only [List.cons_append, List.nil_append]
    rw [utf8Run_idle, hfirst, List.nil_append,
      utf8Run_more (n := 1) _ (by split_ifs <;> omega) (by split_ifs <;> omega),
      utf8Run_more (n := 0) _ t2.1 t2.2.1, utf8Run_last _ t3.1 t3.2.1, t1.2.2, t2.2.2, t3.2.2]
    congr 1
    omega

/-- Scalar values are read back from their bytes, whatever follows. -/
theorem utf8Run_flatMap {cs : List ℕ} (h : ∀ c ∈ cs, IsScalar c) (rest : Bytes) :
    utf8Run .idle (cs.flatMap utf8Char ++ rest) = cs ++ utf8Run .idle rest := by
  induction cs with
  | nil => rfl
  | cons c cs ih =>
    rw [List.flatMap_cons, List.append_assoc, utf8Run_utf8Char (h c (by simp)),
      ih fun d hd => h d (by simp [hd]), List.cons_append]

/-- Writing a string as UTF-8 and reading it back replaces its lone surrogates and
nothing else. -/
theorem bufferToString_bufferFrom (s : JsString) :
    bufferToString (bufferFrom s) = toWellFormed s := by
  have h := utf8Run_flatMap (fun c hc => isScalar_of_mem_codePoints (s := s) hc) []
  simp only [List.append_nil, utf8Run, Utf8State.idle, if_true] at h
  unfold bufferToString bufferFrom toWellFormed
  exact congrArg ofCodePoints h

/-- A well formed text is read back from its bytes. -/
theorem WellFormed.bufferToString_eq {s : JsString} (hs : WellFormed s) :
    bufferToString (bufferFrom s) = s := by
  rw [bufferToString_bufferFrom, hs.toWellFormed_eq]

example : bufferToString [0x61, 0xC3, 0xB5, 0xF0, 0x9F] = [0x61, 0xF5, 0xFFFD] := by decide

/-! ## ASCII units -/

/-- The code points of a text that goes on with a unit that ends no pair. -/
lemma codePoints_append {u : UInt16} (hu : isLow u = false) (s t : JsString) :
    codePoints (s ++ u :: t) = codePoints s ++ codePoints (u :: t) := by
  fun_induction codePoints s with
  | case1 => rfl
  | case2 v =>
    show codePoints (v :: u :: t) = _
    rw [codePoints, hu, Bool.and_false, if_neg Bool.false_ne_true]
    rfl
  | case3 h l rest hpair ih =>
    show codePoints (h :: l :: (rest ++ u :: t)) = _
    rw [codePoints, if_pos hpair, ih]
    rfl
  | case4 h l rest hpair ih =>
    show codePoints (h :: l :: (rest ++ u :: t)) = _
    rw [codePoints, if_neg hpair]
    exact congrArg _ ih

/-- Bytes can be cut before a unit that is no second half of a pair. -/
lemma bufferFrom_append {u : UInt16} (hu : isLow u = false) (s t : JsString) :
    bufferFrom (s ++ u :: t) = bufferFrom s ++ bufferFrom (u :: t) := by
  unfold bufferFrom
  rw [codePoints_append hu, List.flatMap_append]

/-- A text without lone surrogates ends no character of the text behind it. -/
lemma WellFormed.bufferFrom_append {s : JsString} (hs : WellFormed s) (t : JsString) :
    bufferFrom (s ++ t) = bufferFrom s ++ bufferFrom t := by
  have hpoints : codePoints (s ++ t) = codePoints s ++ codePoints t := by
    induction hs with
    | nil => rfl
    | @unit u s hu _ ih => rw [List.cons_append, codePoints_cons hu, codePoints_cons hu, ih, List.cons_append]
    | @pair h l s hh hl _ ih =>
      have hpair : ∀ rest, codePoints (h :: l :: rest) = pairOf h l :: codePoints rest := by
        intro rest
        simp [codePoints, hh, hl]
      rw [List.cons_append, List.cons_append, hpair, hpair, ih, List.cons_append]
  unfold bufferFrom
  rw [hpoints, List.flatMap_append]

/-- An ASCII code point of a text is one of its units. -/
lemma mem_of_mem_codePoints {s : JsString} {c : ℕ} (hc : c ∈ codePoints s) (hlt : c < 0x80) :
    ∃ u ∈ s, u.toNat = c := by
  have hscalar : ∀ {u : UInt16}, c = scalarOf u → u.toNat = c := by
    intro u hu
    unfold scalarOf replacement at hu
    split at hu
    · omega
    · exact hu.symm
  fun_induction codePoints s with
  | case1 => cases hc
  | case2 u => exact ⟨u, by simp, hscalar (List.mem_singleton.mp hc)⟩
  | case3 h l rest hpair ih =>
    rcases List.mem_cons.mp hc with hc | hc
    · unfold pairOf at hc
      omega
    · obtain ⟨u, hu, heq⟩ := ih hc
      exact ⟨u, by simp [hu], heq⟩
  | case4 h l rest hpair ih =>
    rcases List.mem_cons.mp hc with hc | hc
    · exact ⟨h, by simp, hscalar hc⟩
    · obtain ⟨u, hu, heq⟩ := ih hc
      exact ⟨u, List.mem_cons_of_mem h hu, heq⟩

/-- The bytes of a longer character are no ASCII bytes. -/
lemma eq_of_mem_utf8Char {c : ℕ} {b : UInt8} (hb : b ∈ utf8Char c) (hlt : b.toNat < 0x80)
    (hc : c < 0x110000) : b.toNat = c := by
  have hbyte : ∀ n, b = UInt8.ofNat n → b.toNat = n % 256 := by
    intro n hn
    rw [hn]
    simp
  unfold utf8Char at hb
  split_ifs at hb with h1 h2 h3
  · have := hbyte _ (List.mem_singleton.mp hb)
    omega
  all_goals
    simp only [List.mem_cons, List.not_mem_nil, or_false] at hb
  · rcases hb with h | h
    all_goals
      have := hbyte _ h
      omega
  · rcases hb with h | h | h
    all_goals
      have := hbyte _ h
      omega
  · rcases hb with h | h | h | h
    all_goals
      have := hbyte _ h
      omega

/-- An ASCII byte of a text stands for one of its units. -/
theorem mem_of_mem_bufferFrom {s : JsString} {b : UInt8} (hb : b ∈ bufferFrom s)
    (hlt : b.toNat < 0x80) : ∃ u ∈ s, u.toNat = b.toNat := by
  obtain ⟨c, hc, hbyte⟩ := List.mem_flatMap.mp hb
  have hscalar := isScalar_of_mem_codePoints hc
  have heq : b.toNat = c := eq_of_mem_utf8Char hbyte hlt (by unfold IsScalar at hscalar; omega)
  rw [heq]
  exact mem_of_mem_codePoints hc (by omega)

/-- The bytes of a text without an ASCII unit do not have its byte. -/
theorem bufferFrom_not_mem {s : JsString} {u : UInt16} {b : UInt8} (hb : b.toNat = u.toNat)
    (hlt : b.toNat < 0x80) (h : u ∉ s) : b ∉ bufferFrom s := by
  intro hmem
  obtain ⟨v, hv, heq⟩ := mem_of_mem_bufferFrom hmem hlt
  rw [hb] at heq
  exact h (UInt16.toNat_inj.mp heq ▸ hv)

lemma length_utf8Char_pos (c : ℕ) : 1 ≤ (utf8Char c).length := by
  unfold utf8Char
  split_ifs <;> simp

/-- A text has at least as many bytes as units. -/
lemma le_length_bufferFrom (s : JsString) : s.length ≤ (bufferFrom s).length := by
  unfold bufferFrom
  fun_induction codePoints s with
  | case1 => exact Nat.le_refl 0
  | case2 u =>
    rw [List.flatMap_singleton]
    exact length_utf8Char_pos _
  | case3 h l rest hpair ih =>
    -- the character of a pair has four bytes
    have hfour : (utf8Char (pairOf h l)).length = 4 := by
      unfold utf8Char pairOf
      rw [if_neg (by omega), if_neg (by omega), if_neg (by omega)]
      rfl
    rw [List.flatMap_cons, List.length_append, hfour, List.length_cons, List.length_cons]
    omega
  | case4 h l rest hpair ih =>
    have hpos := length_utf8Char_pos (scalarOf h)
    rw [List.flatMap_cons, List.length_append, List.length_cons]
    omega

/-- A text of ASCII units has one byte for each. -/
lemma length_bufferFrom {s : JsString} (h : ∀ u ∈ s, u.toNat < 0x80) :
    (bufferFrom s).length = s.length := by
  induction s with
  | nil => rfl
  | cons u s ih =>
    have hlt := h u List.mem_cons_self
    have hu : (isHigh u || isLow u) = false := (notSurrogate_iff u).mpr (by omega)
    have hchar : utf8Char (scalarOf u) = [UInt8.ofNat u.toNat] := by
      rw [scalarOf, if_neg (by simp [hu]), utf8Char, if_pos hlt]
    have ih := ih fun v hv => h v (List.mem_cons_of_mem _ hv)
    unfold bufferFrom at ih ⊢
    rw [codePoints_cons hu, List.flatMap_cons, hchar, List.length_append, ih, List.length_singleton,
      List.length_cons]
    omega

end Js
