import PointNetwork.Js.Text

/-!
# `String.prototype.replace` with a string as its pattern

The first occurrence is replaced, and in the replacement `$$`, `$&`, `` $` `` and `$'` stand for a
dollar sign, for what is replaced, and for the texts before and behind it.

* `splitFirst_spec`, `splitFirst_le`: the first occurrence;
* `splitFirst_append`, `splitFirst_break`: where it is in a text that is put together.
-/

namespace Js

/-- The texts before and behind the first occurrence of a text that is not empty. -/
def splitFirst (old : JsString) : JsString → Option (JsString × JsString)
  | [] => none
  | u :: text =>
    if old.isPrefixOf (u :: text) then some ([], (u :: text).drop old.length)
    else (splitFirst old text).map fun parts => (u :: parts.1, parts.2)

/-- What is put in the place of an occurrence. -/
def expand (before matched after : JsString) : JsString → JsString
  | [] => []
  | [u] => [u]
  | u :: v :: new =>
    if u = 0x24 ∧ v = 0x24 then 0x24 :: expand before matched after new
    else if u = 0x24 ∧ v = 0x26 then matched ++ expand before matched after new
    else if u = 0x24 ∧ v = 0x60 then before ++ expand before matched after new
    else if u = 0x24 ∧ v = 0x27 then after ++ expand before matched after new
    else u :: expand before matched after (v :: new)

/-- `text.replace(old, new)` -/
def replace (old new text : JsString) : JsString :=
  (splitFirst old text).elim text fun parts =>
    parts.1 ++ expand parts.1 old parts.2 new ++ parts.2

/-- No dollar sign in the text begins one of the four patterns. -/
def Literal : JsString → Prop
  | [] => True
  | [_] => True
  | u :: v :: new => (u = 0x24 → v ∉ [0x24, 0x26, 0x60, 0x27]) ∧ Literal (v :: new)

lemma literal_of_notMem {new : JsString} (h : (0x24 : UInt16) ∉ new) : Literal new := by
  induction new with
  | nil => trivial
  | cons u new ih =>
    have hnew : Literal new := ih fun hmem => h (List.mem_cons_of_mem _ hmem)
    cases new with
    | nil => trivial
    | cons v new =>
      exact ⟨fun hu => absurd (hu ▸ List.mem_cons_self) h, hnew⟩

/-- A replacement without patterns stands as it is. -/
theorem expand_of_literal {new : JsString} (h : Literal new) (before matched after : JsString) :
    expand before matched after new = new := by
  induction new with
  | nil => rfl
  | cons u new ih =>
    cases new with
    | nil => rfl
    | cons v new =>
      have hu := h.1
      simp only [List.mem_cons, List.not_mem_nil, or_false, not_or] at hu
      rw [expand, if_neg fun hc => (hu hc.1).1 hc.2, if_neg fun hc => (hu hc.1).2.1 hc.2,
        if_neg fun hc => (hu hc.1).2.2.1 hc.2, if_neg fun hc => (hu hc.1).2.2.2 hc.2, ih h.2]

/-! ## The first occurrence -/

variable {old text before after : JsString}

/-- The text around the first match. -/
lemma splitFirst_spec (h : splitFirst old text = some (before, after)) :
    text = before ++ old ++ after := by
  induction text generalizing before with
  | nil => cases h
  | cons u text ih =>
    rw [splitFirst] at h
    split_ifs at h with hhere
    · cases h
      rw [List.nil_append]
      exact (List.prefix_iff_eq_append.mp (List.isPrefixOf_iff_prefix.mp hhere)).symm
    · rcases Option.map_eq_some_iff.mp h with ⟨parts, hparts, heq⟩
      cases heq
      rw [List.cons_append, List.cons_append, ← ih hparts]

/-- There is no earlier occurrence. -/
lemma splitFirst_le {before' after' : JsString} (hold : old ≠ [])
    (h : text = before' ++ old ++ after') : ∃ before after,
      splitFirst old text = some (before, after) ∧ before.length ≤ before'.length := by
  induction text generalizing before' with
  | nil => simp [hold] at h
  | cons u text ih =>
    rw [splitFirst]
    by_cases hhere : old.isPrefixOf (u :: text) = true
    · exact ⟨[], _, if_pos hhere, Nat.zero_le _⟩
    · rw [if_neg hhere]
      cases before' with
      | nil =>
        rw [List.nil_append] at h
        exact absurd (List.isPrefixOf_iff_prefix.mpr ⟨after', h.symm⟩) hhere
      | cons v before' =>
        rcases ih (List.cons.inj h).2 with ⟨before, after, hfound, hle⟩
        refine ⟨u :: before, after, by rw [hfound]; rfl, ?_⟩
        simp only [List.length_cons]
        omega

/-- The first match stays the first when text is added. -/
lemma splitFirst_append (h : splitFirst old text = some (before, after)) (more : JsString) :
    splitFirst old (text ++ more) = some (before, after ++ more) := by
  induction text generalizing before with
  | nil => cases h
  | cons u text ih =>
    rw [splitFirst] at h
    rw [List.cons_append, splitFirst]
    split_ifs at h with hhere
    · cases h
      have hstart := List.isPrefixOf_iff_prefix.mp hhere
      have hmore : old.isPrefixOf (u :: (text ++ more)) = true :=
        List.isPrefixOf_iff_prefix.mpr (hstart.trans (List.prefix_append (u :: text) more))
      rw [if_pos hmore, ← List.cons_append, List.drop_append_of_le_length hstart.length_le]
    · rcases Option.map_eq_some_iff.mp h with ⟨parts, hparts, heq⟩
      cases heq
      have hlength : old.length ≤ text.length := by
        rw [splitFirst_spec hparts]
        simp only [List.length_append]
        omega
      have hnot : ¬ old.isPrefixOf (u :: (text ++ more)) = true := by
        intro hmore
        apply hhere
        refine List.isPrefixOf_iff_prefix.mpr (List.prefix_of_prefix_length_le
          (List.isPrefixOf_iff_prefix.mp hmore) (List.prefix_append (u :: text) more) ?_)
        simp only [List.length_cons]
        omega
      rw [if_neg hnot, ih hparts]
      rfl

/-- No occurrence begins at a unit that is not in the text that is looked for. -/
lemma splitFirst_skip {between : JsString} (hold : old ≠ [])
    (hbetween : ∀ u ∈ between, u ∉ old) (more : JsString) : splitFirst old (between ++ more) =
      (splitFirst old more).map fun parts => (between ++ parts.1, parts.2) := by
  induction between with
  | nil => simp
  | cons u between ih =>
    have hnot : ¬ old.isPrefixOf (u :: (between ++ more)) = true := by
      intro hhere
      rcases List.exists_cons_of_ne_nil hold with ⟨v, rest, rfl⟩
      have hhead := (List.cons_prefix_cons.mp (List.isPrefixOf_iff_prefix.mp hhere)).1
      exact hbetween u List.mem_cons_self (hhead ▸ List.mem_cons_self)
    rw [List.cons_append, splitFirst, if_neg hnot,
      ih fun v hv => hbetween v (List.mem_cons_of_mem _ hv), Option.map_map]
    rfl

/-- No occurrence reaches over such a unit. -/
lemma splitFirst_break {between : JsString} (hold : old ≠ [])
    (hbetween : ∀ u ∈ between, u ∉ old) (hne : between ≠ []) (h : splitFirst old text = none)
    (more : JsString) : splitFirst old (text ++ (between ++ more)) =
      (splitFirst old more).map fun parts => (text ++ (between ++ parts.1), parts.2) := by
  induction text with
  | nil => exact splitFirst_skip hold hbetween more
  | cons u text ih =>
    rw [splitFirst] at h
    split_ifs at h with hhere
    have hnot : ¬ old.isPrefixOf (u :: (text ++ (between ++ more))) = true := by
      intro hmore
      have hstart := List.isPrefixOf_iff_prefix.mp hmore
      rcases List.exists_cons_of_ne_nil hne with ⟨c, rest, rfl⟩
      by_cases hlength : old.length ≤ (u :: text).length
      · exact hhere (List.isPrefixOf_iff_prefix.mpr (List.prefix_of_prefix_length_le hstart
          (List.prefix_append (u :: text) _) hlength))
      · -- the text that is looked for would hold the unit behind `u :: text`
        have hunit : u :: text ++ [c] <+: old := by
          refine List.prefix_of_prefix_length_le ?_ hstart (by simp at hlength ⊢; omega)
          exact ⟨rest ++ more, by simp⟩
        exact hbetween c List.mem_cons_self (hunit.subset (by simp))
    rw [List.cons_append, splitFirst, if_neg hnot, ih (Option.map_eq_none_iff.mp h),
      Option.map_map]
    rfl

end Js
