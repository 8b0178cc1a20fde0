import Mathlib.Data.List.Lex
import PointNetwork.Deployer.VersionTheorems
import PointNetwork.Js.TextOrder

/-!
# Comparing versions

`compareVersions` and `getLastVersionOrBefore` of `network/providers/ethereum.js`. The components of
two versions are compared as texts, so that 1.10.0 comes before 1.9.0.

On a set of versions the comparison is the one of the numbers, and the lookup finds the latest
event of the greatest version, exactly when the order of the texts is right at the first component
where two versions differ (`version_lookup_iff`).
-/

namespace PointNetwork.Deployer.Digits

open Js

/-- The digits as numbers. -/
def numerals (c : Digits) : List ℕ := c.text.map fun u => u.toNat - 0x30

/-- Digit by digit from the front. -/
def Before (c d : Digits) : Prop := DigitsBefore c.numerals d.numerals

lemma map_numerals (c : Digits) : c.numerals.map digitUnit = c.text := by
  unfold numerals
  rw [List.map_map]
  refine (List.map_congr_left fun u hu => ?_).trans (List.map_id _)
  have hdigit := c.digits u hu
  simp only [isDigit, Bool.and_eq_true, decide_eq_true_eq] at hdigit
  apply UInt16.toNat_inj.mp
  show (digitUnit (u.toNat - 0x30)).toNat = u.toNat
  rw [toNat_digitUnit (by omega)]
  omega

lemma numerals_lt (c : Digits) : ∀ n ∈ c.numerals, n < 10 := by
  intro n hn
  rcases List.mem_map.mp hn with ⟨u, hu, rfl⟩
  have hdigit := c.digits u hu
  simp only [isDigit, Bool.and_eq_true, decide_eq_true_eq] at hdigit
  omega

/-- Components are compared as texts. -/
lemma textLt_iff (c d : Digits) : textLt c.text d.text = true ↔ c.Before d := by
  rw [← c.map_numerals, ← d.map_numerals, textLt_digits c.numerals_lt d.numerals_lt]
  rfl

end PointNetwork.Deployer.Digits

namespace PointNetwork.Network

open Js
open Deployer (point Digits Base digitsValue)

/-- The values that an `IKVSet` event returns. -/
structure IkvSet where
  identity : JsString
  key : JsString
  value : JsString
  version : JsString
  deriving DecidableEq

/-- The loop of `compareVersions`. -/
def compareComponents : List JsString → List JsString → ℤ
  | [], _ => 0
  -- a text is neither greater nor less than `undefined`
  | _ :: _, [] => 0
  | c :: cs, d :: ds =>
    if textLt d c then 1
    else if textLt c d then -1
    else compareComponents cs ds

/-- Compares the components one by one. -/
def compareVersions (v1 v2 : JsString) : ℤ :=
  compareComponents (v1.splitOn point) (v2.splitOn point)

/-- The function that `getLastVersionOrBefore` reduces the events with. -/
def laterVersion (prev current : IkvSet) : IkvSet :=
  if compareVersions prev.version current.version = 1 then prev else current

/-- `filteredEvents`. -/
def notAbove (version : JsString) (events : List IkvSet) : List IkvSet :=
  events.filter fun e => [-1, 0].contains (compareVersions e.version version)

/-- The value of the last of the versions that are not above the one asked for. -/
def getLastVersionOrBefore (version : JsString) (events : List IkvSet) : Option JsString :=
  match notAbove version events with
  | [] => none
  | first :: rest => some (rest.foldl laterVersion first).value

/-! ## What is meant -/

/-- MAJOR.MINOR.PATCH. -/
structure Version where
  base : Base
  patch : Digits

namespace Version

/-- MAJOR.MINOR.PATCH. -/
def text (v : Version) : JsString := v.base.withPatch v.patch

/-- The three components. -/
def components (v : Version) : List Digits := [v.base.major, v.base.minor, v.patch]

end Version

/-- The numbers of a version, compared lexicographically. -/
def numbers (version : JsString) : List ℕ := (version.splitOn point).map digitsValue

/-- The order of two versions as `compareVersions` returns it. -/
def numericOrder (v w : List ℕ) : ℤ :=
  if w < v then 1 else if v < w then -1 else 0

/-- The value of the latest event among those with the greatest version not above the requested
one; there is none when all are above it. -/
def LastOrBefore (version : JsString) (events : List IkvSet) (found : Option JsString) : Prop :=
  (found = none ∧ ∀ e ∈ events, numbers version < numbers e.version) ∨
    ∃ before e after, events = before ++ e :: after ∧ found = some e.value ∧
      numbers e.version ≤ numbers version ∧
      (∀ e' ∈ before, numbers e'.version ≤ numbers version →
        numbers e'.version ≤ numbers e.version) ∧
      ∀ e' ∈ after, numbers e'.version ≤ numbers version → numbers e'.version < numbers e.version

/-- At the first component that differs, the order of the digits is the order of the numbers from
there on. -/
def RightlyOrdered : List Digits → List Digits → Prop
  | c :: cs, d :: ds =>
    if c.text = d.text then RightlyOrdered cs ds
    else
      (c.Before d ↔ (c :: cs).map Digits.value < (d :: ds).map Digits.value) ∧
        (d.Before c ↔ (d :: ds).map Digits.value < (c :: cs).map Digits.value)
  | _, _ => True

/-! ## The comparison -/

/-- A version is split into its components. -/
lemma Version.splitOn_text (v : Version) :
    v.text.splitOn point = v.components.map Digits.text := by
  have htext : v.text =
      v.base.major.text ++ point :: (v.base.minor.text ++ point :: v.patch.text) := by
    unfold text Base.withPatch Base.text
    rw [List.append_assoc, List.cons_append]
  rw [htext, List.splitOn_append_cons_self_of_not_mem v.base.major.point_notMem,
    List.splitOn_append_cons_self_of_not_mem v.base.minor.point_notMem,
    List.splitOn_eq_singleton v.patch.point_notMem]
  rfl

/-- The numbers of a version. -/
lemma Version.numbers_text (v : Version) : numbers v.text = v.components.map Digits.value := by
  rw [numbers, v.splitOn_text, List.map_map]
  rfl

/-- On as many components: the comparison of the texts is the one of the numbers if and only if
the first components that differ are rightly ordered. -/
lemma compareComponents_iff {cs ds : List Digits} (hlength : cs.length = ds.length) :
    compareComponents (cs.map Digits.text) (ds.map Digits.text) =
      numericOrder (cs.map Digits.value) (ds.map Digits.value) ↔ RightlyOrdered cs ds := by
  induction cs generalizing ds with
  | nil =>
    cases ds with
    | nil => simp [compareComponents, numericOrder, RightlyOrdered]
    | cons d ds => cases hlength
  | cons c cs ih =>
    cases ds with
    | nil => cases hlength
    | cons d ds =>
      rw [List.map_cons, List.map_cons, compareComponents, RightlyOrdered]
      -- the first components that differ decide both orders
      by_cases htext : c.text = d.text
      · cases Digits.ext_text htext
        rw [textLt_irrefl, if_neg Bool.false_ne_true, if_neg Bool.false_ne_true, if_pos rfl,
          ← ih (Nat.succ_injective hlength)]
        unfold numericOrder
        simp only [List.map_cons, List.cons_lt_cons_iff, lt_irrefl, true_and, false_or]
      · rw [if_neg htext, ← Digits.textLt_iff, ← Digits.textLt_iff, textLt_swap htext]
        unfold numericOrder
        generalize (c :: cs).map Digits.value = v
        generalize (d :: ds).map Digits.value = w
        cases textLt c.text d.text with
        | true =>
          by_cases hvw : v < w
          · simp [hvw, hvw.asymm]
          · by_cases hwv : w < v
            · simp [hvw, hwv]
            · simp [hvw, hwv]
        | false =>
          by_cases hwv : w < v
          · simp [hwv, hwv.asymm]
          · by_cases hvw : v < w
            · simp [hvw, hwv]
            · simp [hvw, hwv]

/-- The comparison is that of the numbers exactly when the components are rightly ordered. -/
lemma compareVersions_iff (v w : Version) :
    compareVersions v.text w.text = numericOrder (numbers v.text) (numbers w.text) ↔
      RightlyOrdered v.components w.components := by
  rw [compareVersions, v.splitOn_text, w.splitOn_text, v.numbers_text, w.numbers_text]
  exact compareComponents_iff rfl

/-! ## The lookup -/

lemma numericOrder_eq_one {v w : List ℕ} : numericOrder v w = 1 ↔ w < v := by
  unfold numericOrder
  split
  · simp_all
  · split <;> simp_all

lemma numericOrder_not_above {v w : List ℕ} :
    [-1, 0].contains (numericOrder v w) = true ↔ v ≤ w := by
  unfold numericOrder
  split
  · simp_all
  · split <;> simp_all

/-- A fold that keeps the later of two elements unless the earlier one is greater finds the last
of the greatest. -/
lemma foldl_last_greatest {α β : Type} [LinearOrder β] (f : α → β) {step : α → α → α}
    {all : List α} (hstep : ∀ x ∈ all, ∀ y ∈ all,
      (step x y = x ∧ f y < f x) ∨ (step x y = y ∧ f x ≤ f y))
    {first : α} {rest : List α} (hfirst : first ∈ all) (hrest : ∀ a ∈ rest, a ∈ all) :
    ∃ before after, first :: rest = before ++ rest.foldl step first :: after ∧
      (∀ a ∈ before, f a ≤ f (rest.foldl step first)) ∧
      ∀ a ∈ after, f a < f (rest.foldl step first) := by
  induction rest generalizing first with
  | nil => exact ⟨[], [], rfl, by simp, by simp⟩
  | cons x rest ih =>
    have hx := hrest x List.mem_cons_self
    have hrest' : ∀ a ∈ rest, a ∈ all := fun a ha => hrest a (List.mem_cons_of_mem _ ha)
    rw [List.foldl_cons]
    rcases hstep first hfirst x hx with ⟨heq, hlt⟩ | ⟨heq, hle⟩
    -- `first` stays the greatest so far
    · rw [heq]
      rcases ih hfirst hrest' with ⟨before, after, hsplit, hbefore, hafter⟩
      cases before with
      | nil =>
        rw [List.nil_append, List.cons.injEq] at hsplit
        rw [← hsplit.1] at hafter ⊢
        refine ⟨[], x :: rest, rfl, by simp, ?_⟩
        intro a ha
        rcases List.mem_cons.mp ha with rfl | ha
        · exact hlt
        · exact hafter a (hsplit.2 ▸ ha)
      | cons b before =>
        rw [List.cons_append, List.cons.injEq] at hsplit
        have hlast := hbefore b List.mem_cons_self
        rw [← hsplit.1] at hlast
        refine ⟨first :: x :: before, after, by rw [List.cons_append, List.cons_append, ← hsplit.2],
          ?_, hafter⟩
        intro a ha
        rcases List.mem_cons.mp ha with rfl | ha
        · exact hlast
        · rcases List.mem_cons.mp ha with rfl | ha
          · exact hlt.le.trans hlast
          · exact hbefore a (List.mem_cons_of_mem _ ha)
    -- `x` takes its place
    · rw [heq]
      rcases ih hx hrest' with ⟨before, after, hsplit, hbefore, hafter⟩
      refine ⟨first :: before, after, by rw [List.cons_append, ← hsplit], ?_, hafter⟩
      have hlast : f x ≤ f (rest.foldl step x) := by
        cases before with
        | nil =>
          rw [List.nil_append, List.cons.injEq] at hsplit
          exact le_of_eq (congrArg f hsplit.1)
        | cons b before =>
          rw [List.cons_append, List.cons.injEq] at hsplit
          exact hsplit.1 ▸ hbefore b List.mem_cons_self
      intro a ha
      rcases List.mem_cons.mp ha with rfl | ha
      · exact hle.trans hlast
      · exact hbefore a ha

/-- Where versions are compared by their numbers, the lookup finds what is meant. -/
lemma lastOrBefore_of_numeric {version : JsString} {events : List IkvSet}
    (hcompare : ∀ e ∈ events, compareVersions e.version version =
      numericOrder (numbers e.version) (numbers version))
    (hevents : ∀ e ∈ events, ∀ e' ∈ events, compareVersions e.version e'.version =
      numericOrder (numbers e.version) (numbers e'.version)) :
    LastOrBefore version events (getLastVersionOrBefore version events) := by
  have hkept : ∀ e ∈ events, [-1, 0].contains (compareVersions e.version version) = true ↔
      numbers e.version ≤ numbers version := by
    intro e he
    rw [hcompare e he, numericOrder_not_above]
  have hmem : ∀ e ∈ notAbove version events, e ∈ events := fun e he => List.mem_of_mem_filter he
  unfold getLastVersionOrBefore
  cases hfiltered : notAbove version events with
  | nil =>
    refine .inl ⟨rfl, ?_⟩
    intro e he
    rw [notAbove, List.filter_eq_nil_iff] at hfiltered
    exact not_le.mp fun hle => hfiltered e he ((hkept e he).mpr hle)
  | cons first rest =>
    right
    rw [hfiltered] at hmem
    have hstep : ∀ e ∈ events, ∀ e' ∈ events,
        (laterVersion e e' = e ∧ numbers e'.version < numbers e.version) ∨
          (laterVersion e e' = e' ∧ numbers e.version ≤ numbers e'.version) := by
      intro e he e' he'
      have hone : compareVersions e.version e'.version = 1 ↔
          numbers e'.version < numbers e.version := by
        rw [hevents e he e' he', numericOrder_eq_one]
      by_cases hlt : numbers e'.version < numbers e.version
      · exact .inl ⟨if_pos (hone.mpr hlt), hlt⟩
      · exact .inr ⟨if_neg (mt hone.mp hlt), not_lt.mp hlt⟩
    rcases foldl_last_greatest (fun e => numbers e.version) hstep (hmem first List.mem_cons_self)
      (fun e he => hmem e (List.mem_cons_of_mem _ he)) with ⟨before, after, hsplit, hbefore, hafter⟩
    -- the events that are left out are above the version
    rw [hsplit, notAbove, List.filter_eq_append_iff] at hfiltered
    rcases hfiltered with ⟨events₁, events', hevents', hbefore', hrest⟩
    rw [List.filter_eq_cons_iff] at hrest
    rcases hrest with ⟨events₂, events₃, heq, hout, hlast, hafter'⟩
    refine ⟨events₁ ++ events₂, _, events₃, ?_, rfl, ?_, ?_, ?_⟩
    · rw [hevents', heq, List.append_assoc]
    · exact (hkept _ (hevents' ▸ heq ▸ by simp)).mp hlast
    · intro e he hle
      have heq' : e ∈ events := by
        rw [hevents', heq]
        rcases List.mem_append.mp he with he | he
        · exact List.mem_append_left _ he
        · exact List.mem_append_right _ (List.mem_append_left _ he)
      rcases List.mem_append.mp he with he | he
      · apply hbefore
        rw [← hbefore', List.mem_filter]
        exact ⟨he, (hkept e heq').mpr hle⟩
      · exact absurd ((hkept e heq').mpr hle) (hout e he)
    · intro e he hle
      have heq' : e ∈ events := by
        rw [hevents', heq]
        exact List.mem_append_right _ (List.mem_append_right _ (List.mem_cons_of_mem _ he))
      apply hafter
      rw [← hafter', List.mem_filter]
      exact ⟨he, (hkept e heq').mpr hle⟩

/-- The comparison and the lookup are what is meant, for the versions of a set, whatever is
written and requested, if and only if any two of them are rightly ordered. -/
theorem version_lookup_iff (V : Set Version) :
    ((∀ v ∈ V, ∀ w ∈ V,
        compareVersions v.text w.text = numericOrder (numbers v.text) (numbers w.text)) ∧
      ∀ requested ∈ V, ∀ events : List IkvSet, (∀ e ∈ events, ∃ v ∈ V, e.version = v.text) →
        LastOrBefore requested.text events (getLastVersionOrBefore requested.text events)) ↔
      ∀ v ∈ V, ∀ w ∈ V, RightlyOrdered v.components w.components := by
  constructor
  · intro h v hv w hw
    exact (compareVersions_iff v w).mp (h.1 v hv w hw)
  · intro h
    have hcompare : ∀ v ∈ V, ∀ w ∈ V,
        compareVersions v.text w.text = numericOrder (numbers v.text) (numbers w.text) :=
      fun v hv w hw => (compareVersions_iff v w).mpr (h v hv w hw)
    refine ⟨hcompare, ?_⟩
    intro requested hrequested events hevents
    apply lastOrBefore_of_numeric
    · intro e he
      rcases hevents e he with ⟨v, hv, hversion⟩
      rw [hversion]
      exact hcompare v hv requested hrequested
    · intro e he e' he'
      rcases hevents e he with ⟨v, hv, hversion⟩
      rcases hevents e' he' with ⟨v', hv', hversion'⟩
      rw [hversion, hversion']
      exact hcompare v hv v' hv'

/-- The version of three numbers. -/
def version (major minor patch : ℕ) : Version :=
  ⟨⟨.ofNat major, .ofNat minor⟩, .ofNat patch⟩

/-- 1.10.0 is written and then 1.9.0 is requested: the later version is served. -/
theorem later_version_served :
    let written : IkvSet := ⟨js "site", js "zweb/contracts/abi/A", js "new", (version 1 10 0).text⟩
    numericOrder (numbers (version 1 10 0).text) (numbers (version 1 9 0).text) = 1 ∧
      compareVersions (version 1 10 0).text (version 1 9 0).text = -1 ∧
      getLastVersionOrBefore (version 1 9 0).text [written] = some (js "new") ∧
      ¬ LastOrBefore (version 1 9 0).text [written] (some (js "new")) := by
  have hnumbers : numbers (version 1 9 0).text = [1, 9, 0] ∧
      numbers (version 1 10 0).text = [1, 10, 0] := by decide +kernel
  refine ⟨by decide +kernel, by decide +kernel, by decide +kernel, ?_⟩
  intro h
  rcases h with ⟨hfound, -⟩ | ⟨before, e, after, hsplit, hfound, hle, -, -⟩
  · cases hfound
  · have he : e ∈ [(⟨js "site", js "zweb/contracts/abi/A", js "new",
        (version 1 10 0).text⟩ : IkvSet)] := by
      rw [hsplit]
      simp
    rw [List.mem_singleton.mp he] at hle
    dsimp only at hle
    rw [hnumbers.1, hnumbers.2] at hle
    exact absurd hle (by decide)

end PointNetwork.Network
