import PointNetwork.Js.Buffer

/-!
# The encoding `ascii`

`Buffer.from(s, 'ascii')` keeps the low byte of every code unit. Read back as UTF-8, a byte gives at
most one code unit, and a sequence of bytes for one character gives fewer units than it has bytes.
So nothing but the units that stand for themselves come back, and U+FFFD, whose low byte is none
that can stand in UTF-8.
-/

namespace Js

/-- `Buffer.from(s, 'ascii')`. -/
def fromAscii (s : JsString) : Bytes := s.map fun u => UInt8.ofNat (u.toNat % 256)

/-- A unit that is read back from its low byte. -/
def IsAscii (u : UInt16) : Prop := u.toNat < 0x80 ∨ u = 0xFFFD

instance (u : UInt16) : Decidable (IsAscii u) := inferInstanceAs (Decidable (_ ∨ _))

@[simp] lemma length_fromAscii (s : JsString) : (fromAscii s).length = s.length := List.length_map _

lemma fromAscii_cons (u : UInt16) (s : JsString) :
    fromAscii (u :: s) = UInt8.ofNat (u.toNat % 256) :: fromAscii s := rfl

lemma length_codeUnits_le (c : ℕ) : (codeUnits c).length ≤ 2 := by
  unfold codeUnits
  split <;> simp

lemma length_codeUnits {c : ℕ} (h : c < 0x10000) : (codeUnits c).length = 1 := by
  simp [codeUnits, h]

/-- The units of two texts come one after the other. -/
lemma ofCodePoints_append (cs ds : List ℕ) :
    ofCodePoints (cs ++ ds) = ofCodePoints cs ++ ofCodePoints ds := List.flatMap_append

lemma ofCodePoints_cons (c : ℕ) (cs : List ℕ) :
    ofCodePoints (c :: cs) = codeUnits c ++ ofCodePoints cs := rfl

/-- The bytes of a character that is being read count for one unit. -/
def Utf8State.pending (st : Utf8State) : ℕ := if st.owed = 0 then 0 else 1

/-- A first byte stands for itself, or begins a longer character, or is none. -/
lemma utf8First_cases (b : ℕ) :
    (b < 0x80 ∧ utf8First b = ([b], .idle)) ∨
      (0x80 ≤ b ∧ b < 0xF5 ∧ (utf8First b).1 = [] ∧ (utf8First b).2.owed ≠ 0 ∧
        (utf8First b).2.bits < 0x20) ∨
      (0x80 ≤ b ∧ utf8First b = ([replacement], .idle)) := by
  by_cases hascii : b < 0x80
  · exact Or.inl ⟨hascii, by rw [utf8First, if_pos hascii]⟩
  · have hge : 0x80 ≤ b := by omega
    by_cases htwo : 0xC2 ≤ b ∧ b < 0xE0
    · refine Or.inr (Or.inl ⟨hge, by omega, ?_⟩)
      rw [utf8First, if_neg hascii, if_pos htwo]
      exact ⟨rfl, Nat.one_ne_zero, by show b - 0xC0 < 0x20; omega⟩
    · by_cases hthree : 0xE0 ≤ b ∧ b < 0xF0
      · refine Or.inr (Or.inl ⟨hge, by omega, ?_⟩)
        rw [utf8First, if_neg hascii, if_neg htwo, if_pos hthree]
        exact ⟨rfl, Nat.succ_ne_zero 1, by show b - 0xE0 < 0x20; omega⟩
      · by_cases hfour : 0xF0 ≤ b ∧ b < 0xF5
        · refine Or.inr (Or.inl ⟨hge, by omega, ?_⟩)
          rw [utf8First, if_neg hascii, if_neg htwo, if_neg hthree, if_pos hfour]
          exact ⟨rfl, Nat.succ_ne_zero 2, by show b - 0xF0 < 0x20; omega⟩
        · refine Or.inr (Or.inr ⟨hge, ?_⟩)
          rw [utf8First, if_neg hascii, if_neg htwo, if_neg hthree, if_neg hfour]

/-- A first byte gives one unit, or is pending. -/
lemma length_utf8First (b : ℕ) :
    (ofCodePoints (utf8First b).1).length + (utf8First b).2.pending ≤ 1 := by
  rcases utf8First_cases b with ⟨hb, h⟩ | ⟨-, -, hout, howed, -⟩ | ⟨-, h⟩
  · have hlen := length_codeUnits (c := b) (by omega)
    simp [h, ofCodePoints, Utf8State.pending, Utf8State.idle, hlen]
  · simp [hout, ofCodePoints, Utf8State.pending, howed]
  · rw [h]
    decide

/-- Another byte gives at most one unit beside those of the bytes that were pending. -/
lemma length_utf8Step (st : Utf8State) (b : ℕ) :
    (ofCodePoints (utf8Step st b).1).length + (utf8Step st b).2.pending ≤ st.pending + 1 := by
  have hfirst := length_utf8First b
  unfold utf8Step
  split_ifs with howed hrange hone
  · omega
  · have hlen := length_codeUnits_le (st.bits * 0x40 + (b - 0x80))
    simp [ofCodePoints, Utf8State.pending, Utf8State.idle, howed]
    omega
  · simp [ofCodePoints, Utf8State.pending, howed]
    split <;> omega
  · have hrep : (codeUnits replacement).length = 1 := rfl
    simp only [ofCodePoints_cons, List.length_append, hrep, Utf8State.pending, howed, if_false]
      at hfirst ⊢
    omega

/-- A text has at most as many units as it has bytes. -/
lemma length_utf8Run_le (st : Utf8State) (bs : Bytes) :
    (ofCodePoints (utf8Run st bs)).length ≤ st.pending + bs.length := by
  induction bs generalizing st with
  | nil =>
    unfold utf8Run Utf8State.pending
    split <;> simp [ofCodePoints, codeUnits, replacement]
  | cons b bs ih =>
    have hstep := length_utf8Step st b.toNat
    have hrest := ih (utf8Step st b.toNat).2
    simp only [utf8Run, ofCodePoints_append, List.length_append, List.length_cons]
    omega

/-- Behind the first byte of a longer character: the text begins with U+FFFD, or has fewer units than
there were bytes. -/
lemma utf8Run_lead {st : Utf8State} (howed : st.owed ≠ 0) (hbits : st.bits < 0x20) (bs : Bytes) :
    (ofCodePoints (utf8Run st bs)).head? = some 0xFFFD ∨
      (ofCodePoints (utf8Run st bs)).length ≤ bs.length := by
  cases bs with
  | nil =>
    refine Or.inl ?_
    rw [utf8Run, if_neg howed]
    rfl
  | cons b bs =>
    have hrest := length_utf8Run_le (utf8Step st b.toNat).2 bs
    by_cases hrange : st.lower ≤ b.toNat ∧ b.toNat ≤ st.upper
    · -- two bytes are taken in, for at most one unit so far
      refine Or.inr ?_
      have hout : (ofCodePoints (utf8Step st b.toNat).1).length + (utf8Step st b.toNat).2.pending ≤
          1 := by
        unfold utf8Step
        rw [if_neg howed, if_pos hrange]
        split_ifs with hone
        · have hb := b.toNat_lt
          have hlen := length_codeUnits (c := st.bits * 0x40 + (b.toNat - 0x80)) (by omega)
          simp [ofCodePoints, Utf8State.pending, Utf8State.idle, hlen]
        · simp only [ofCodePoints, Utf8State.pending, List.flatMap_nil, List.length_nil]
          split <;> omega
      simp only [utf8Run, ofCodePoints_append, List.length_append, List.length_cons]
      omega
    · refine Or.inl ?_
      simp only [utf8Run, utf8Step, if_neg howed, if_neg hrange]
      rfl

/-- What `ascii` encoding and UTF-8 decoding leave as it was. -/
theorem bufferToString_fromAscii_iff (s : JsString) :
    bufferToString (fromAscii s) = s ↔ ∀ u ∈ s, IsAscii u := by
  unfold bufferToString
  induction s with
  | nil => simp [fromAscii, utf8Run, Utf8State.idle, ofCodePoints]
  | cons u s ih =>
    have hu := u.toNat_lt
    have hbyte : (UInt8.ofNat (u.toNat % 256)).toNat = u.toNat % 256 := toNat_ofNat8 (by omega)
    rw [fromAscii_cons, utf8Run_idle, hbyte, ofCodePoints_append, List.forall_mem_cons]
    rcases utf8First_cases (u.toNat % 256) with ⟨hb, h⟩ | ⟨hlow, hhigh, hout, howed, hbits⟩ | ⟨hb, h⟩
    · have hunit : ofCodePoints [u.toNat % 256] = [UInt16.ofNat (u.toNat % 256)] := by
        have hlt : u.toNat % 256 < 0x10000 := by omega
        simp only [ofCodePoints, codeUnits, List.flatMap_cons, List.flatMap_nil, if_pos hlt,
          List.append_nil]
      have hself : UInt16.ofNat (u.toNat % 256) = u ↔ IsAscii u := by
        have hround : (UInt16.ofNat (u.toNat % 256)).toNat = u.toNat % 256 :=
          UInt16.toNat_ofNat_of_lt' (by simp only [UInt16.size]; omega)
        rw [← UInt16.toNat_inj, hround]
        constructor
        · exact fun he => Or.inl (by omega)
        · rintro (hascii | rfl)
          · omega
          · exact absurd hb (by decide)
      rw [h, hunit, List.singleton_append, List.cons.injEq, ih, hself]
    · -- the text would have to be as long as the bytes, or the unit to be U+FFFD
      rw [hout]
      constructor
      · intro he
        have htext : ofCodePoints (utf8Run (utf8First (u.toNat % 256)).2 (fromAscii s)) = u :: s := he
        rcases utf8Run_lead howed hbits (fromAscii s) with hhead | hlen
        · rw [htext] at hhead
          obtain rfl : u = 0xFFFD := Option.some.inj hhead
          exact absurd hhigh (by decide)
        · rw [htext, length_fromAscii, List.length_cons] at hlen
          omega
      · rintro ⟨hascii | rfl, -⟩
        · omega
        · exact absurd hhigh (by decide)
    · have hself : IsAscii u ↔ 0xFFFD = u := by
        constructor
        · rintro (hascii | rfl)
          · omega
          · rfl
        · exact fun he => Or.inr he.symm
      rw [h, hself, ← ih]
      show 0xFFFD :: _ = u :: s ↔ _
      rw [List.cons.injEq]
      rfl

end Js
