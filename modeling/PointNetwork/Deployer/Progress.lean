import PointNetwork.Js.TextOrder
import PointNetwork.Machine

/-!
# Polling the progress of a deployment

`pollProgress` of `core/deploy.ts` asks `deployProgress` of `DeployController` for the lines behind the
last one that it has received. The index of this line goes through the query as text, and the keys
of the lines, which a `for in` loop gives, are texts too: they are compared as texts.

So a poll returns the lines to come exactly as long as the order of the texts is right, which is
the case up to ten lines, and beyond them only where the last line received is the last but a few
of its number of digits (`textOrder_iff`). In a run whose polls all happen there, every line is
delivered once and in order; the first poll elsewhere loses or repeats lines
(`progress_delivered`).
-/

namespace PointNetwork.Deployer.Progress

open Js

variable {α : Type}

/-- The lines with their keys in the array. -/
def entries (progressLines : List α) : List (JsString × α) :=
  progressLines.zipIdx.map fun line => (natText line.2, line.1)

/-- `deployProgress`: the lines that are not at or before the last one received. -/
def deployProgress (progressLines : List α) (lastLineIdx : JsString) : List (JsString × α) :=
  (entries progressLines).filter fun (idx, _) => textLt lastLineIdx idx

/-- The log of a deployer, and what its client knows. -/
structure State (α : Type) where
  progressLines : List α
  lastLineIdx : JsString
  received : List (JsString × α)
  /-- The reply to a poll that is under way. -/
  inFlight : Option (List (JsString × α))
  /-- How many lines there were when the last poll was sent. -/
  polled : ℕ

/-- Nothing has been logged or asked for. -/
def State.init (α : Type) : State α := ⟨[], js "-1", [], none, 0⟩

/-- A line of the deployment, or a poll of the page. -/
inductive Event (α : Type)
  | log (line : α)
  | request
  | respond

/-- The loop over the lines of a reply. -/
def receive (st : State α) (reply : List (JsString × α)) : State α :=
  reply.foldl (fun st line =>
    { st with
      lastLineIdx := line.1
      received := st.received ++ [line] }) st

/-- One poll is under way at a time. -/
def step (st : State α) : Event α → Option (State α)
  | .log line => some { st with progressLines := st.progressLines ++ [line] }
  | .request =>
    -- the next poll is scheduled when the last one has ended
    if st.inFlight.isSome then none
    else
      some { st with
        inFlight := some (deployProgress st.progressLines st.lastLineIdx)
        polled := st.progressLines.length }
  | .respond => st.inFlight.map fun reply => receive { st with inFlight := none } reply

/-- The lines returned so far are those that there were when the last poll was sent, each of them
once and in order. -/
def State.Delivered (st : State α) : Prop :=
  st.received ++ st.inFlight.getD [] = (entries st.progressLines).take st.polled

/-- At most two lines have been received, or the last one received is the last but nine of its
number of digits, or later, and no line has an index of more digits. -/
def State.Meets (st : State α) : Prop :=
  st.received.length ≤ 2 ∨
    ∃ d, 10 ^ d ≤ st.received.length + 9 ∧ st.progressLines.length ≤ 10 ^ d

instance (st : State α) : Decidable st.Meets :=
  decidable_of_iff (st.received.length ≤ 2 ∨ ∃ d, d < st.received.length + 9 ∧
    10 ^ d ≤ st.received.length + 9 ∧ st.progressLines.length ≤ 10 ^ d) <| by
    have hlt : ∀ d, d < 10 ^ d := fun d => Nat.lt_pow_self (by decide)
    constructor
    · intro h
      rcases h with h | ⟨d, -, h⟩
      · exact .inl h
      · exact .inr ⟨d, h⟩
    · intro h
      rcases h with h | ⟨d, h⟩
      · exact .inl h
      · exact .inr ⟨d, (hlt d).trans_le h.1, h⟩

instance [DecidableEq α] (st : State α) : Decidable st.Delivered :=
  inferInstanceAs (Decidable (_ = _))

/-- All polls are sent in such states. -/
def Allowed (st : State α) : Event α → Prop
  | .request => st.Meets
  | _ => True

instance (st : State α) (event : Event α) : Decidable (Allowed st event) :=
  match event with
  | .request => inferInstanceAs (Decidable st.Meets)
  | .log _ => isTrue trivial
  | .respond => isTrue trivial

/-! ## The order of the indices -/

/-- What follows for a number of at least 2 whose text stands before those of all greater numbers
and behind those of all smaller ones, up to a bound. -/
lemma last_of_digits {l n : ℕ} (hl : 2 ≤ l) (hln : l < n)
    (h : ∀ i, i < n → (textLt (natText l) (natText i) = true ↔ l < i)) :
    10 ^ (natDigits l).length ≤ l + 10 ∧ n ≤ 10 ^ (natDigits l).length := by
  have hpos := length_natDigits_pos l
  have hlow := pow_length_le (by omega : l ≠ 0)
  have hhigh := lt_pow_length l
  obtain ⟨k, hk⟩ : ∃ k, (natDigits l).length = k + 1 :=
    ⟨(natDigits l).length - 1, by omega⟩
  rw [hk, Nat.add_sub_cancel] at hlow
  rw [hk] at hhigh ⊢
  have hpow : 10 ^ (k + 1) = 10 * 10 ^ k := pow_succ' 10 k
  have hfirst : 10 ^ (k + 1) ≤ l + 10 := by
    cases k with
    | zero => omega
    | succ k =>
      -- the greatest number of one digit less stands before `l`
      have hpow' : 10 ^ (k + 1) = 10 * 10 ^ k := pow_succ' 10 k
      have hk' : 0 < 10 ^ k := Nat.pow_pos (by decide)
      have hlength : (natDigits (10 ^ (k + 1) - 1)).length = k + 1 :=
        length_natDigits_eq (by omega) (by omega)
      have hless := h (10 ^ (k + 1) - 1) (by omega)
      rw [textLt_natText_ge (by omega), hk, hlength, Nat.add_sub_cancel_left, pow_one] at hless
      omega
  refine ⟨hfirst, ?_⟩
  by_contra hmore
  -- the least number of one digit more stands behind `l`
  have hlength : (natDigits (10 ^ (k + 1))).length = k + 1 + 1 :=
    length_natDigits_eq (le_refl _) (Nat.pow_lt_pow_right (by decide) (by omega))
  have hless := h (10 ^ (k + 1)) (by omega)
  have hdiv : 10 ^ (k + 1) / 10 = 10 ^ k := by
    rw [hpow, Nat.mul_div_cancel_left _ (by decide)]
  rw [textLt_natText_le (by omega), hk, hlength, Nat.add_sub_cancel_left, pow_one, hdiv] at hless
  have hk0 : k = 0 := by
    by_contra hne
    have hten : 10 ^ 1 ≤ 10 ^ k := Nat.pow_le_pow_right (by decide) (by omega)
    omega
  subst hk0
  omega

lemma length_natDigits_le {a d : ℕ} (hd : 0 < d) (ha : a < 10 ^ d) :
    (natDigits a).length ≤ d := by
  by_cases hzero : a = 0
  · subst hzero
    exact hd
  · have hpow := (pow_length_le hzero).trans_lt ha
    have := (Nat.pow_lt_pow_iff_right (by decide)).mp hpow
    omega

/-- A number that is the last but nine of its number of digits, or later: the texts of the numbers
up to that number of digits are in their order around it. -/
lemma textLt_of_last {l i d : ℕ} (hlow : 10 ^ d ≤ l + 10) (hl : l < 10 ^ d) (hi : i < 10 ^ d) :
    textLt (natText l) (natText i) = true ↔ l < i := by
  obtain rfl | ⟨k, rfl⟩ : d = 0 ∨ ∃ k, d = k + 1 := by
    cases d with
    | zero => exact .inl rfl
    | succ k => exact .inr ⟨k, rfl⟩
  · rw [pow_zero] at hl hi
    have heq : l = i := by omega
    rw [heq, textLt_irrefl]
    simp
  · have hpow : 10 ^ (k + 1) = 10 * 10 ^ k := pow_succ' 10 k
    have hlength : (natDigits l).length = k + 1 := by
      cases k with
      | zero =>
        have := length_natDigits_pos l
        have := length_natDigits_le Nat.one_pos hl
        omega
      | succ k =>
        have hpow' : 10 ^ (k + 1) = 10 * 10 ^ k := pow_succ' 10 k
        have hk : 0 < 10 ^ k := Nat.pow_pos (by decide)
        exact length_natDigits_eq (by omega) hl
    have hle := length_natDigits_le (Nat.succ_pos k) hi
    rw [textLt_natText_ge (by omega), hlength]
    by_cases heq : (natDigits i).length = k + 1
    · rw [heq, Nat.sub_self, pow_zero, Nat.div_one]
    · -- a number of fewer digits is no greater than as many leading digits, all of them nines
      have hshort := lt_pow_length i
      generalize he : (natDigits i).length = e at hshort heq hle ⊢
      have hten : 10 ^ 1 ≤ 10 ^ (k + 1 - e) := Nat.pow_le_pow_right (by decide) (by omega)
      have hsmall : 10 ^ e ≤ 10 ^ k := Nat.pow_le_pow_right (by decide) (by omega)
      have hprod : (10 ^ e - 1) * 10 ^ (k + 1 - e) = 10 ^ (k + 1) - 10 ^ (k + 1 - e) := by
        rw [Nat.sub_mul, Nat.one_mul, ← pow_add, Nat.add_sub_cancel' hle]
      have hdiv : 10 ^ e - 1 ≤ l / 10 ^ (k + 1 - e) := by
        rw [Nat.le_div_iff_mul_le (Nat.pow_pos (by decide)), hprod]
        omega
      have hk : 0 < 10 ^ k := Nat.pow_pos (by decide)
      have hone : 1 ≤ 10 ^ k := hk
      constructor
      · intro h
        omega
      · intro h
        have hzero : k = 0 ∨ 10 ≤ 10 ^ k := by
          by_cases hne : k = 0
          · exact .inl hne
          · have h10 : 10 ^ 1 ≤ 10 ^ k := Nat.pow_le_pow_right (by decide) (by omega)
            exact .inr (by omega)
        have hpos := length_natDigits_pos i
        omega

/-- The texts of 0 and of 1 stand before those of all greater numbers. -/
lemma textLt_of_le_one {l i : ℕ} (hl : l ≤ 1) :
    textLt (natText l) (natText i) = true ↔ l < i := by
  by_cases hi : i < 10 ^ 1
  · exact textLt_of_last (by omega) (by omega) hi
  · have hlength : (natDigits l).length = 1 := by
      have := length_natDigits_pos l
      have := @length_natDigits_le l 1 Nat.one_pos (by omega)
      omega
    have hfirst := pow_length_le (by omega : i ≠ 0)
    have hdiv : 1 ≤ i / 10 ^ ((natDigits i).length - 1) := by
      rw [Nat.le_div_iff_mul_le (Nat.pow_pos (by decide)), Nat.one_mul]
      exact hfirst
    have hlong : 1 < (natDigits i).length := by
      by_contra hshort
      have hpow := Nat.pow_le_pow_right (by decide : 0 < 10)
        (by omega : (natDigits i).length ≤ 1)
      exact hi ((lt_pow_length i).trans_le hpow)
    rw [textLt_natText_le (by omega), hlength]
    omega

/-- Among `n` lines of which `r` have been received, the texts behind the last one received are
those of the indices to come if and only if at most two lines have been received, or the last one
is the last but nine of its number of digits, or later, and no line has an index of more digits. -/
theorem textOrder_iff {r n : ℕ} (hpos : 0 < r) (hle : r ≤ n) :
    (∀ i, i < n → (textLt (natText (r - 1)) (natText i) = true ↔ r ≤ i)) ↔
      r ≤ 2 ∨ ∃ d, 10 ^ d ≤ r + 9 ∧ n ≤ 10 ^ d := by
  have hlt : ∀ i, r - 1 < i ↔ r ≤ i := fun i => by omega
  constructor
  · intro h
    by_cases htwo : r ≤ 2
    · exact .inl htwo
    · right
      have hlast := @last_of_digits (r - 1) n (by omega) (by omega) fun i hi => by
        rw [h i hi, hlt]
      exact ⟨(natDigits (r - 1)).length, by omega, hlast.2⟩
  · intro h i hi
    rw [← hlt]
    rcases h with htwo | ⟨d, hlow, hhigh⟩
    · exact textLt_of_le_one (by omega)
    · exact @textLt_of_last (r - 1) i d (by omega) (by omega) (by omega)

/-- Every index comes behind "-1", as a text. -/
lemma textLt_minus_one (i : ℕ) : textLt (js "-1") (natText i) = true := by
  have hjs : js "-1" = [0x2D, 0x31] := by decide +kernel
  have hpos := length_natDigits_pos i
  unfold natText
  cases hdigits : natDigits i with
  | nil =>
    rw [hdigits] at hpos
    cases hpos
  | cons d ds =>
    have hd : d < 10 := natDigits_lt (by rw [hdigits]; exact List.mem_cons_self)
    have htoNat := toNat_digitUnit hd
    have hminus : (0x2D : UInt16).toNat = 45 := rfl
    have hne : (0x2D : UInt16) ≠ digitUnit d := by
      intro h
      rw [← h, hminus] at htoNat
      omega
    rw [hjs, List.map_cons, textLt_cons_ne hne, decide_eq_true_eq, htoNat, hminus]
    omega

/-! ## Replies -/

@[simp] lemma length_entries (progressLines : List α) :
    (entries progressLines).length = progressLines.length := by
  simp [entries]

/-- Each line has its index as key. -/
lemma getElem?_entries (progressLines : List α) (i : ℕ) :
    (entries progressLines)[i]? = progressLines[i]?.map fun line => (natText i, line) := by
  simp only [entries, List.getElem?_map, List.getElem?_zipIdx, Option.map_map, Nat.zero_add]
  rfl

/-- A new line comes last. -/
lemma entries_append (progressLines : List α) (line : α) :
    entries (progressLines ++ [line]) =
      entries progressLines ++ [(natText progressLines.length, line)] := by
  simp [entries, List.zipIdx_append]

lemma nodup_entries (progressLines : List α) : (entries progressLines).Nodup := by
  have hkeys : (entries progressLines).map Prod.fst =
      (List.range progressLines.length).map natText := by
    apply List.ext_getElem?
    intro i
    rw [List.getElem?_map, List.getElem?_map, getElem?_entries]
    by_cases hi : i < progressLines.length
    · rw [List.getElem?_range hi, List.getElem?_eq_getElem hi]
      rfl
    · rw [List.getElem?_eq_none (by omega), List.getElem?_eq_none (by simpa using hi)]
      rfl
  apply List.Nodup.of_map Prod.fst
  rw [hkeys]
  exact List.nodup_range.map fun _ _ h => natText_inj.mp h

/-- A filter takes the elements from a place on exactly when it holds from there on only. -/
lemma filter_eq_drop_iff {β : Type} {l : List β} (hnodup : l.Nodup) (p : β → Bool) (r : ℕ) :
    l.filter p = l.drop r ↔ ∀ (i : ℕ) x, l[i]? = some x → (p x = true ↔ r ≤ i) := by
  constructor
  · intro h i x hx
    have hmem := List.mem_of_getElem? hx
    constructor
    · intro hp
      -- the value is at one position only
      have hdrop : x ∈ l.drop r := h ▸ List.mem_filter.mpr ⟨hmem, hp⟩
      rcases List.mem_iff_getElem?.mp hdrop with ⟨j, hj⟩
      rw [List.getElem?_drop, ← hx] at hj
      have hlt := (List.getElem?_eq_some_iff.mp hx).1
      have heq := (List.getElem?_inj hlt hnodup).mp hj.symm
      omega
    · intro hr
      have hdrop : x ∈ l.drop r := by
        rw [List.mem_iff_getElem?]
        refine ⟨i - r, ?_⟩
        rw [List.getElem?_drop, Nat.add_sub_cancel' hr]
        exact hx
      rw [← h] at hdrop
      exact (List.mem_filter.mp hdrop).2
  · intro h
    -- nothing passes before position `r`, everything from there on
    have htake : (l.take r).filter p = [] := by
      rw [List.filter_eq_nil_iff]
      intro x hx hp
      rcases List.mem_iff_getElem?.mp hx with ⟨i, hi⟩
      have hlt := (List.getElem?_eq_some_iff.mp hi).1
      rw [List.length_take] at hlt
      rw [List.getElem?_take_of_lt (by omega)] at hi
      have := (h i x hi).mp hp
      omega
    have hdrop : (l.drop r).filter p = l.drop r := by
      rw [List.filter_eq_self]
      intro x hx
      rcases List.mem_iff_getElem?.mp hx with ⟨i, hi⟩
      rw [List.getElem?_drop] at hi
      exact (h (r + i) x hi).mpr (Nat.le_add_right _ _)
    calc l.filter p = (l.take r).filter p ++ (l.drop r).filter p := by
          rw [← List.filter_append, List.take_append_drop]
      _ = l.drop r := by rw [htake, hdrop, List.nil_append]

/-- A reply consists of the lines to come if and only if the order of the texts is right. -/
lemma deployProgress_eq_iff (progressLines : List α) (lastLineIdx : JsString) (r : ℕ) :
    deployProgress progressLines lastLineIdx = (entries progressLines).drop r ↔
      ∀ i, i < progressLines.length → (textLt lastLineIdx (natText i) = true ↔ r ≤ i) := by
  unfold deployProgress
  rw [filter_eq_drop_iff (nodup_entries progressLines)]
  constructor
  · intro h i hi
    apply h i (natText i, progressLines[i])
    rw [getElem?_entries, List.getElem?_eq_getElem hi]
    rfl
  · intro h i x hx
    have hi : i < progressLines.length := by
      rw [← length_entries]
      exact (List.getElem?_eq_some_iff.mp hx).1
    rw [getElem?_entries, List.getElem?_eq_getElem hi] at hx
    rw [← Option.some.inj hx]
    exact h i hi

/-! ## Runs -/

/-- What holds in every run: the index sent is that of the last line received. -/
structure Inv (st : State α) : Prop where
  polled_le : st.polled ≤ st.progressLines.length
  last : st.lastLineIdx = (st.received.getLast?.map Prod.fst).getD (js "-1")

lemma receive_eq (st : State α) (reply : List (JsString × α)) : receive st reply =
    { st with
      lastLineIdx := (reply.getLast?.map Prod.fst).getD st.lastLineIdx
      received := st.received ++ reply } := by
  induction reply generalizing st with
  | nil => simp [receive]
  | cons line reply ih =>
    have hstep : receive st (line :: reply) = receive { st with
        lastLineIdx := line.1
        received := st.received ++ [line] } reply := rfl
    rw [hstep, ih, List.getLast?_cons, List.append_assoc, List.singleton_append]
    cases reply.getLast? with
    | none => rfl
    | some last => rfl

lemma step_request {st st' : State α} (hs : step st .request = some st') :
    st.inFlight = none ∧ st' = { st with
      inFlight := some (deployProgress st.progressLines st.lastLineIdx)
      polled := st.progressLines.length } := by
  have hif : (if st.inFlight.isSome then none else some { st with
      inFlight := some (deployProgress st.progressLines st.lastLineIdx)
      polled := st.progressLines.length }) = some st' := hs
  cases hinFlight : st.inFlight with
  | some reply =>
    rw [hinFlight] at hif
    cases hif
  | none =>
    rw [hinFlight] at hif
    exact ⟨rfl, (Option.some.inj hif).symm⟩

/-- Each event keeps the invariant. -/
lemma step_inv {st st' : State α} {event : Event α} (h : Inv st)
    (hs : step st event = some st') : Inv st' := by
  cases event with
  | log line =>
    cases hs
    refine { h with polled_le := ?_ }
    rw [List.length_append]
    exact h.polled_le.trans (Nat.le_add_right _ _)
  | request =>
    rcases step_request hs with ⟨-, rfl⟩
    exact ⟨le_refl _, h.last⟩
  | respond =>
    rcases Option.map_eq_some_iff.mp hs with ⟨reply, -, rfl⟩
    rw [receive_eq]
    refine ⟨h.polled_le, ?_⟩
    dsimp only
    rw [h.last, List.getLast?_append]
    cases reply.getLast? with
    | none => rfl
    | some last => rfl

/-- The text that a poll sends, after the first lines have been received. -/
lemma Inv.lastLineIdx_eq {st : State α} (h : Inv st)
    (hreceived : st.received = (entries st.progressLines).take st.polled) :
    st.received.length = st.polled ∧
      st.lastLineIdx = if st.polled = 0 then js "-1" else natText (st.polled - 1) := by
  have hlength : st.received.length = st.polled := by
    rw [hreceived, List.length_take, length_entries]
    exact min_eq_left h.polled_le
  refine ⟨hlength, ?_⟩
  rw [h.last, List.getLast?_eq_getElem?, hlength, hreceived]
  by_cases hzero : st.polled = 0
  · rw [if_pos hzero, hzero]
    rfl
  · have hle := h.polled_le
    have hlt : st.polled - 1 < st.progressLines.length := by omega
    rw [if_neg hzero, List.getElem?_take_of_lt (by omega), getElem?_entries,
      List.getElem?_eq_getElem hlt]
    rfl

/-- A poll that is sent where all before it have been answered as they should: it is answered so
too if and only if the order of the texts is right. -/
lemma request_iff {st st' : State α} (h : Inv st) (hdelivered : st.Delivered)
    (hs : step st .request = some st') : st'.Delivered ↔ st.Meets := by
  rcases step_request hs with ⟨hinFlight, rfl⟩
  unfold State.Delivered at hdelivered
  rw [hinFlight, Option.getD_none, List.append_nil] at hdelivered
  rcases h.lastLineIdx_eq hdelivered with ⟨hlength, hlast⟩
  have hentries : (entries st.progressLines).take st.progressLines.length =
      st.received ++ (entries st.progressLines).drop st.polled := by
    rw [hdelivered, List.take_append_drop, List.take_of_length_le (by simp)]
  unfold State.Delivered State.Meets
  dsimp only
  rw [hentries, Option.getD_some, List.append_cancel_left_eq, deployProgress_eq_iff, hlast,
    hlength]
  by_cases hzero : st.polled = 0
  · rw [if_pos hzero, hzero]
    simp [textLt_minus_one]
  · rw [if_neg hzero]
    exact textOrder_iff (by omega) h.polled_le

/-- What a step keeps, whose poll, if it is one, is sent where the order of the texts is right. -/
lemma step_delivered {st st' : State α} {event : Event α} (h : Inv st)
    (hdelivered : st.Delivered) (hok : Allowed st event) (hs : step st event = some st') :
    st'.Delivered := by
  cases event with
  | log line =>
    cases hs
    unfold State.Delivered at hdelivered ⊢
    dsimp only
    rw [hdelivered, entries_append, List.take_append_of_le_length (by simpa using h.polled_le)]
  | request => exact (request_iff h hdelivered hs).mpr hok
  | respond =>
    rcases Option.map_eq_some_iff.mp hs with ⟨reply, hreply, rfl⟩
    unfold State.Delivered at hdelivered ⊢
    rw [hreply, Option.getD_some] at hdelivered
    rw [receive_eq]
    dsimp only
    rw [Option.getD_none, List.append_nil, hdelivered]

/-- In a run whose polls are all sent where the order of the texts is right, all lines are delivered
once and in order, those that there were when a poll was sent by the end of it. The next poll is
answered so too if and only if it is sent in such a state. -/
theorem progress_delivered {st : State α} (h : Machine.Reach step Allowed (State.init α) st) :
    st.Delivered ∧ ∀ st', step st .request = some st' → (st'.Delivered ↔ st.Meets) := by
  have hboth : Inv st ∧ st.Delivered := by
    have hinit : (State.init α).Delivered := by
      unfold State.Delivered
      rfl
    refine h.invariant (P := fun st => Inv st ∧ st.Delivered) ⟨⟨le_refl _, rfl⟩, hinit⟩ ?_
    intro st event st' hst hok hs
    exact ⟨step_inv hst.1 hs, step_delivered hst.1 hst.2 hok hs⟩
  exact ⟨hboth.2, fun st' hs => request_iff hboth.1 hboth.2 hs⟩

/-- A poll after each of two lines. -/
def twoLines : List (Event JsString) :=
  [.log (js "deploying"), .request, .respond, .log (js "done"), .request, .respond]

theorem progress_delivered_twoLines :
    let st := Machine.after (Machine.guarded step Allowed) (State.init JsString) twoLines
    st.Delivered ∧ ∀ st', step st .request = some st' → (st'.Delivered ↔ st.Meets) :=
  progress_delivered (.of_after _ (by decide +kernel))

/-- A poll after the tenth line, and one after the eleventh. -/
def elevenLines : List (Event ℕ) :=
  (List.range 10).map .log ++ [.request, .respond, .log 10, .request, .respond]

/-- The eleventh line is not returned: its index 10 stands before 9 as a text. -/
theorem eleventh_line_lost :
    let st := Machine.after step (State.init ℕ) elevenLines
    st.progressLines = List.range 11 ∧ st.received.map Prod.snd = List.range 10 ∧
      ¬ st.Delivered := by
  decide +kernel

end PointNetwork.Deployer.Progress
