import Mathlib.Data.List.TakeWhile
import PointNetwork.Js.Json
import PointNetwork.Js.Path
import PointNetwork.Js.Replace

/-!
# Rewriting routes

`matchRouteAndParams` of `client/proxy/proxyUtils.ts` puts the parameters of a route into the target
of a `rewrite:` one after the other, each by a `replace` of the first `:name`. This is a
substitution of the tokens if each parameter meets its token first, no second one, and has no
replacement pattern (`Aligned`).

For other parameters it is none: a name that goes on after the one of a parameter is cut, a second
token stays, a value is searched again for later parameters, and `$&` in a value is expanded.

* `substitute`: the tokens of a target are replaced at once;
* `rewrite_of_aligned`: the loop in aligned routes;
* `matchRouteAndParams_iff`: the routes that are right for every path.
-/

namespace PointNetwork.Proxy

open Js

/-- Names and values. -/
abbrev Params := List (JsString × JsString)

/-- Stands before the name of a param. -/
def colon : UInt16 := 0x3A

/-- `possiblyRewrittenUrlPath` of a target, the parameters in the order of `for in`. -/
def rewrite (target : JsString) (params : Params) : JsString :=
  params.foldl (fun newPath param => replace (colon :: param.1) param.2 newPath) target

/-- What `matchRouteAndParams` returns. -/
structure MatchedRoute where
  routeParams : Option Params
  templateFilename : Option JsString
  possiblyRewrittenUrlPath : JsString

/-- `match` of node-match-path: the parameters by name if the path matches, and `null` among these
when the route has none. -/
abbrev Match := JsString → JsString → Option (Option Params)

/-- The first route that matches, with its parameters. -/
def firstMatch (pathMatch : Match) (path : JsString) (routes : Params) :
    Option (Option Params × JsString) :=
  routes.findSome? fun route => (pathMatch route.1 path).map fun params => (params, route.2)

/-- The first route that matches: a template, or another path for the file. -/
def matchRouteAndParams (pathMatch : Match) (routes : Params) (path : JsString) : MatchedRoute :=
  (firstMatch pathMatch path routes).elim ⟨none, none, path⟩ fun found =>
    if (js "rewrite:").isPrefixOf found.2 then
      ⟨found.1, none, rewrite (replace (js "rewrite:") [] found.2) (found.1.getD [])⟩
    else ⟨found.1, some found.2, path⟩

/-! ## Substitution -/

section

-- the units of identifiers
variable (word : UInt16 → Bool)

/-- The text up to the first colon, and for each colon the longest identifier behind it and the rest
up to the next colon. -/
def segments : JsString → JsString × List (JsString × JsString)
  | [] => ([], [])
  | u :: text =>
    if u = colon then
      ([], ((segments text).1.takeWhile word, (segments text).1.dropWhile word) ::
        (segments text).2)
    else (u :: (segments text).1, (segments text).2)

/-- The segments with the values of the parameters for their tokens. -/
def fill (params : Params) (segs : List (JsString × JsString)) : JsString :=
  segs.flatMap fun seg => (params.lookup seg.1).getD (colon :: seg.1) ++ seg.2

/-- The target in which every token `:name` of a parameter is replaced by its value. -/
def substitute (params : Params) (target : JsString) : JsString :=
  (segments word target).1 ++ fill params (segments word target).2

/-- When the tokens of the parameters before it are replaced, there is no text `:name`, or the first
one is the token of the parameter, and there is no other token of it. -/
def AlignedAt (target : JsString) (earlier : Params) (name value : JsString) : Prop :=
  splitFirst (colon :: name) (substitute word earlier target) = none ∨
    Literal value ∧ ∃ before rest after,
      (segments word target).2 = before ++ (name, rest) :: after ∧
      (∀ seg ∈ before ++ after, seg.1 ≠ name) ∧
      splitFirst (colon :: name) (substitute word earlier target) =
        some ((segments word target).1 ++ fill earlier before, rest ++ fill earlier after)

/-- Every parameter replaces its own token. -/
def Aligned (target : JsString) (params : Params) : Prop :=
  ∀ earlier name value later, params = earlier ++ (name, value) :: later →
    AlignedAt word target earlier name value

variable {word} {target : JsString}

/-! ## Segments -/

/-- The identifier of a segment is one. -/
lemma word_of_mem_segments : ∀ seg ∈ (segments word target).2, ∀ u ∈ seg.1, word u = true := by
  induction target with
  | nil => exact fun seg h => absurd h List.not_mem_nil
  | cons u text ih =>
    rw [segments]
    split_ifs with hu
    · intro seg hseg
      rcases List.mem_cons.mp hseg with heq | hrest
      · rw [heq]
        exact fun v hv => List.mem_takeWhile_imp hv
      · exact ih seg hrest
    · exact ih

lemma fill_cons (params : Params) (seg : JsString × JsString) (segs : List (JsString × JsString)) :
    fill params (seg :: segs) =
      (params.lookup seg.1).getD (colon :: seg.1) ++ seg.2 ++ fill params segs := by
  unfold fill
  rw [List.flatMap_cons]

/-- A template is filled part by part. -/
lemma fill_append (params : Params) (segs segs' : List (JsString × JsString)) :
    fill params (segs ++ segs') = fill params segs ++ fill params segs' := by
  unfold fill
  rw [List.flatMap_append]

/-- Without parameters nothing is replaced. -/
lemma substitute_nil (target : JsString) : substitute word [] target = target := by
  induction target with
  | nil => rfl
  | cons u text ih =>
    unfold substitute at ih ⊢
    rw [segments]
    split_ifs with hu
    · rw [fill_cons, List.nil_append]
      show colon :: List.takeWhile word _ ++ List.dropWhile word _ ++ _ = _
      rw [List.cons_append, List.takeWhile_append_dropWhile, List.cons_append, ih, hu]
    · rw [List.cons_append, ih]

/-- A parameter that has no token replaces nothing. -/
lemma fill_snoc_of_ne {earlier : Params} {name value : JsString}
    {segs : List (JsString × JsString)} (h : ∀ seg ∈ segs, seg.1 ≠ name) :
    fill (earlier ++ [(name, value)]) segs = fill earlier segs := by
  induction segs with
  | nil => rfl
  | cons seg segs ih =>
    have hseg : (earlier ++ [(name, value)]).lookup seg.1 = earlier.lookup seg.1 := by
      rw [List.lookup_append, lookup_cons_eq, if_neg (h seg List.mem_cons_self), List.lookup_nil,
        Option.or_none]
    rw [fill_cons, fill_cons, hseg, ih fun seg' hseg' => h seg' (List.mem_cons_of_mem _ hseg')]

lemma lookup_eq_none {params : Params} {name : JsString} (h : name ∉ params.map Prod.fst) :
    params.lookup name = none := by
  by_contra hsome
  rcases Option.ne_none_iff_exists'.mp hsome with ⟨value, hvalue⟩
  exact h (List.mem_map.mpr ⟨(name, value), mem_of_lookup hvalue, rfl⟩)

/-- The text around a token whose parameter comes later. -/
lemma substitute_split {params : Params} {name rest : JsString}
    {before after : List (JsString × JsString)}
    (hsegs : (segments word target).2 = before ++ (name, rest) :: after)
    (hname : name ∉ params.map Prod.fst) : substitute word params target =
      (segments word target).1 ++ fill params before ++ (colon :: name) ++
        (rest ++ fill params after) := by
  unfold substitute
  rw [hsegs, fill_append, fill_cons, lookup_eq_none hname, Option.getD_none]
  simp only [List.append_assoc]

/-- The text around a token whose parameter has a value. -/
lemma substitute_token {params : Params} {name value rest : JsString}
    {before after : List (JsString × JsString)}
    (hsegs : (segments word target).2 = before ++ (name, rest) :: after)
    (hvalue : params.lookup name = some value) : substitute word params target =
      (segments word target).1 ++ fill params before ++ value ++ (rest ++ fill params after) := by
  unfold substitute
  rw [hsegs, fill_append, fill_cons, hvalue, Option.getD_some]
  simp only [List.append_assoc]

/-! ## Aligned routes -/

/-- One turn of the loop. -/
lemma replace_of_alignedAt {earlier : Params} {name value : JsString}
    (hname : name ∉ earlier.map Prod.fst) (h : AlignedAt word target earlier name value) :
    replace (colon :: name) value (substitute word earlier target) =
      substitute word (earlier ++ [(name, value)]) target := by
  rcases h with hnone | ⟨hliteral, before, rest, after, hsegs, hothers, hfirst⟩
  · have hno : ∀ seg ∈ (segments word target).2, seg.1 ≠ name := by
      intro seg hseg heq
      rcases List.append_of_mem hseg with ⟨before, after, hsegs⟩
      have hsegs' : (segments word target).2 = before ++ (name, seg.2) :: after := by
        rw [hsegs, ← heq]
      rcases splitFirst_le (List.cons_ne_nil colon name) (substitute_split hsegs' hname)
        with ⟨b, a, hfound, -⟩
      rw [hnone] at hfound
      cases hfound
    unfold replace
    rw [hnone]
    unfold substitute
    rw [fill_snoc_of_ne hno]
    rfl
  · have hbefore : ∀ seg ∈ before, seg.1 ≠ name := fun seg hseg =>
      hothers seg (List.mem_append_left _ hseg)
    have hafter : ∀ seg ∈ after, seg.1 ≠ name := fun seg hseg =>
      hothers seg (List.mem_append_right _ hseg)
    have hvalue : (earlier ++ [(name, value)]).lookup name = some value := by
      rw [List.lookup_append, lookup_eq_none hname, lookup_cons_eq, if_pos rfl]
      rfl
    unfold replace
    rw [hfirst, substitute_token hsegs hvalue, fill_snoc_of_ne hbefore, fill_snoc_of_ne hafter]
    show _ ++ expand _ _ _ value ++ _ = _
    rw [expand_of_literal hliteral]

/-- The loop computes the substitution. -/
theorem rewrite_of_aligned {params : Params} (hnames : (params.map Prod.fst).Nodup)
    (h : Aligned word target params) : rewrite target params = substitute word params target := by
  have hloop : ∀ later earlier, params = earlier ++ later →
      later.foldl (fun newPath param => replace (colon :: param.1) param.2 newPath)
        (substitute word earlier target) = substitute word params target := by
    intro later
    induction later with
    | nil =>
      intro earlier heq
      rw [heq, List.append_nil]
      rfl
    | cons param later ih =>
      intro earlier heq
      obtain ⟨name, value⟩ := param
      have hname : name ∉ earlier.map Prod.fst := by
        rw [heq, List.map_append, List.nodup_append] at hnames
        exact fun hmem => hnames.2.2 _ hmem _ List.mem_cons_self rfl
      rw [List.foldl_cons, replace_of_alignedAt hname (h earlier name value later heq)]
      apply ih
      rw [heq, List.append_assoc]
      rfl
  have hall := hloop params [] rfl
  rw [substitute_nil] at hall
  exact hall

/-! ## Routes that are not aligned -/

/-- The unit in the first part of a probe. -/
def dash : UInt16 := 0x2D

/-- The unit in the second part of a probe. -/
def dot : UInt16 := 0x2E

/-- Neither a colon nor a dash nor a dot is a unit of an identifier. -/
structure Identifiers (word : UInt16 → Bool) : Prop where
  colon : word colon = false
  dash : word dash = false
  dot : word dot = false

/-- A value that is found again in a text: it does not overlap with itself. -/
def probe (n : ℕ) : JsString := List.replicate n dash ++ List.replicate n dot

/-- A value of one unit. -/
def dashes (names : List JsString) : Params := names.map fun name => (name, [dash])

lemma mem_probe {n : ℕ} {u : UInt16} (h : u ∈ probe n) : u = dash ∨ u = dot :=
  (List.mem_append.mp h).imp (fun h => (List.mem_replicate.mp h).2)
    fun h => (List.mem_replicate.mp h).2

lemma length_probe (n : ℕ) : (probe n).length = n + n := by
  unfold probe
  rw [List.length_append, List.length_replicate, List.length_replicate]

lemma probe_ne_nil {n : ℕ} (hn : 0 < n) : probe n ≠ [] := by
  intro hnil
  have hlength := length_probe n
  rw [hnil, List.length_nil] at hlength
  omega

/-- A probe has as many dots as its number. -/
lemma count_dot_probe (n : ℕ) : (probe n).count dot = n := by
  have hdash : (List.replicate n dash).count dot = 0 :=
    List.count_eq_zero.mpr fun h => absurd (List.mem_replicate.mp h).2 (by decide)
  unfold probe
  rw [List.count_append, hdash, List.count_replicate_self, Nat.zero_add]

lemma literal_probe (n : ℕ) : Literal (probe n) :=
  literal_of_notMem fun h => (mem_probe h).elim (by decide) (by decide)

/-- A colon that is replaced by a dash does not change this. -/
def weight (text : JsString) : ℕ := text.count colon + text.count dash

lemma weight_append (s t : JsString) : weight (s ++ t) = weight s + weight t := by
  unfold weight
  rw [List.count_append, List.count_append]
  omega

/-- Two texts with the same probe have the same text before it. -/
lemma before_probe {n : ℕ} {a b a' b' : JsString} (h : a ++ probe n ++ b = a' ++ probe n ++ b')
    (ha : a.length < n) (ha' : a'.length < n) : a = a' := by
  have hshift : ∀ {a b a' b' : JsString}, a ++ probe n ++ b = a' ++ probe n ++ b' →
      a.length ≤ a'.length → a'.length < n → a = a' := by
    intro a b a' b' h hle ha'
    have hstart : a <+: a' := by
      refine @List.prefix_of_prefix_length_le _ a a' (a ++ probe n ++ b) ?_ ?_ hle
      · exact ⟨probe n ++ b, by rw [List.append_assoc]⟩
      · exact ⟨probe n ++ b', by rw [h, List.append_assoc]⟩
    rcases hstart with ⟨x, rfl⟩
    rw [List.append_assoc, List.append_assoc, List.append_assoc, List.append_cancel_left_eq] at h
    cases x with
    | nil => rw [List.append_nil]
    | cons u x =>
      -- the unit at `n` is the first dot of one probe and a dash of the other
      rw [List.length_append, List.length_cons] at ha'
      have hunit := congrArg (fun text => text[n]?) h
      simp only [probe, List.append_assoc] at hunit
      rw [List.getElem?_append_right (by simp), List.getElem?_append_left (by simp; omega),
        List.getElem?_append_right (by simp; omega), List.getElem?_append_left (by simp; omega),
        List.getElem?_replicate, List.getElem?_replicate, if_pos (by simp; omega),
        if_pos (by simp; omega)] at hunit
      exact absurd hunit (by decide)
  rcases Nat.le_total a.length a'.length with hle | hle
  · exact hshift h hle ha'
  · exact (hshift h.symm hle ha).symm

lemma ne_of_word {u : UInt16} {name : JsString} (hname : ∀ v ∈ name, word v = true)
    (hu : word u = false) : u ∉ name := by
  intro hmem
  rw [hname u hmem] at hu
  cases hu

/-- A name in a template has one colon or dash. -/
lemma weight_token (hword : Identifiers word) {name : JsString}
    (hname : ∀ u ∈ name, word u = true) : weight (colon :: name) = 1 := by
  have hcolon : name.count colon = 0 := List.count_eq_zero.mpr (ne_of_word hname hword.colon)
  have hdash : name.count dash = 0 := List.count_eq_zero.mpr (ne_of_word hname hword.dash)
  unfold weight
  rw [List.count_cons, List.count_cons, hcolon, hdash]
  rfl

lemma count_dot_token (hword : Identifiers word) {name : JsString}
    (hname : ∀ u ∈ name, word u = true) : (colon :: name).count dot = 0 := by
  have hdot : name.count dot = 0 := List.count_eq_zero.mpr (ne_of_word hname hword.dot)
  rw [List.count_cons, hdot]
  rfl

/-- A turn of the loop with a dash leaves a probe where it is. -/
lemma replace_dash (hword : Identifiers word) {n : ℕ} (hn : 0 < n) {name : JsString}
    (hname : ∀ u ∈ name, word u = true) (a b : JsString) :
    ∃ a' b', replace (colon :: name) [dash] (a ++ probe n ++ b) = a' ++ probe n ++ b' ∧
      weight a' = weight a ∧ a'.length ≤ a.length ∧
      a'.count dot + b'.count dot = a.count dot + b.count dot := by
  have htoken := weight_token hword hname
  have hdots := count_dot_token hword hname
  have hdash : weight [dash] = 1 := by decide
  have hdashDots : ([dash] : JsString).count dot = 0 := by decide
  unfold replace
  rw [List.append_assoc]
  cases hfirst : splitFirst (colon :: name) a with
  -- the token stands before the probe
  | some parts =>
    obtain ⟨x, y⟩ := parts
    have ha := splitFirst_spec hfirst
    rw [splitFirst_append hfirst]
    refine ⟨x ++ [dash] ++ y, b, ?_, ?_, ?_, ?_⟩
    · show x ++ [dash] ++ (y ++ (probe n ++ b)) = _
      simp only [List.append_assoc]
    · rw [ha, weight_append, weight_append, weight_append, weight_append, hdash, htoken]
    · rw [ha]
      simp only [List.length_append, List.length_cons, List.length_nil]
      omega
    · rw [ha]
      simp only [List.count_append]
      omega
  | none =>
    -- it does not reach into the probe, which has none of its characters
    have hprobe : ∀ u ∈ probe n, u ∉ colon :: name := by
      intro u hu hmem
      rcases List.mem_cons.mp hmem with heq | hmem
      · rw [heq] at hu
        exact (mem_probe hu).elim (by decide) (by decide)
      · rcases mem_probe hu with heq | heq
        · exact ne_of_word hname hword.dash (heq ▸ hmem)
        · exact ne_of_word hname hword.dot (heq ▸ hmem)
    rw [splitFirst_break (List.cons_ne_nil colon name) hprobe (probe_ne_nil hn) hfirst]
    cases hlater : splitFirst (colon :: name) b with
    | none => exact ⟨a, b, (List.append_assoc _ _ _).symm, rfl, le_refl _, rfl⟩
    | some parts =>
      obtain ⟨x, y⟩ := parts
      have hb := splitFirst_spec hlater
      refine ⟨a, x ++ [dash] ++ y, ?_, rfl, le_refl _, ?_⟩
      · show a ++ (probe n ++ x) ++ [dash] ++ y = _
        simp only [List.append_assoc]
      · rw [hb]
        simp only [List.count_append]
        omega

/-- A turn of the loop with dashes leaves a probe where it is. -/
lemma rewrite_dashes (hword : Identifiers word) {n : ℕ} (hn : 0 < n) {names : List JsString}
    (hnames : ∀ name ∈ names, ∀ u ∈ name, word u = true) (a b : JsString) :
    ∃ a' b', rewrite (a ++ probe n ++ b) (dashes names) = a' ++ probe n ++ b' ∧
      weight a' = weight a ∧ a'.length ≤ a.length ∧
      a'.count dot + b'.count dot = a.count dot + b.count dot := by
  induction names generalizing a b with
  | nil => exact ⟨a, b, rfl, rfl, le_refl _, rfl⟩
  | cons name names ih =>
    rcases replace_dash hword hn (hnames name List.mem_cons_self) a b
      with ⟨x, y, hreplace, hweight, hlength, hdots⟩
    rcases ih (fun name' h => hnames name' (List.mem_cons_of_mem _ h)) x y
      with ⟨a', b', hrewrite, hweight', hlength', hdots'⟩
    refine ⟨a', b', ?_, by omega, by omega, by omega⟩
    unfold rewrite dashes
    rw [List.map_cons, List.foldl_cons, hreplace]
    exact hrewrite

lemma lookup_dashes (names : List JsString) (name : JsString) :
    (dashes names).lookup name = if name ∈ names then some [dash] else none := by
  induction names with
  | nil => rfl
  | cons name' names ih =>
    unfold dashes at ih ⊢
    rw [List.map_cons, lookup_cons_eq, ih]
    by_cases heq : name = name'
    · simp [heq]
    · simp [heq]

section

variable {earlier : Params} {name value : JsString} {later : List JsString}

/-- The parameters with other values from one parameter on. -/
def probed (earlier : Params) (name : JsString) (n : ℕ) (later : List JsString) : Params :=
  earlier ++ (name, probe n) :: dashes later

/-- The values of the names around the one that is probed. -/
lemma lookup_probed (n : ℕ) (name' : JsString) : (probed earlier name n later).lookup name' =
    (earlier.lookup name').or (if name' = name then some (probe n)
      else if name' ∈ later then some [dash] else none) := by
  unfold probed
  rw [List.lookup_append, lookup_cons_eq, lookup_dashes]

/-- A probe does not move when it is put for another name. -/
lemma weight_fill_probed (hword : Identifiers word) (n : ℕ) {segs : List (JsString × JsString)}
    (hsegs : ∀ seg ∈ segs, ∀ u ∈ seg.1, word u = true) (hne : ∀ seg ∈ segs, seg.1 ≠ name) :
    weight (fill (probed earlier name n later) segs) = weight (fill earlier segs) ∧
      (fill (probed earlier name n later) segs).length ≤ (fill earlier segs).length := by
  induction segs with
  | nil => exact ⟨rfl, le_refl _⟩
  | cons seg segs ih =>
    rcases ih (fun s hs => hsegs s (List.mem_cons_of_mem _ hs))
      (fun s hs => hne s (List.mem_cons_of_mem _ hs)) with ⟨hweight, hlength⟩
    have hseg : weight (((probed earlier name n later).lookup seg.1).getD (colon :: seg.1)) =
          weight ((earlier.lookup seg.1).getD (colon :: seg.1)) ∧
        (((probed earlier name n later).lookup seg.1).getD (colon :: seg.1)).length ≤
          ((earlier.lookup seg.1).getD (colon :: seg.1)).length := by
      rw [lookup_probed, if_neg (hne seg List.mem_cons_self)]
      cases earlier.lookup seg.1 with
      | some v => exact ⟨rfl, le_refl _⟩
      | none =>
        split_ifs
        · have htoken := weight_token hword (hsegs seg List.mem_cons_self)
          refine ⟨?_, ?_⟩
          · show weight [dash] = weight (colon :: seg.1)
            rw [htoken]
            rfl
          · show 1 ≤ (colon :: seg.1).length
            rw [List.length_cons]
            omega
        · exact ⟨rfl, le_refl _⟩
    rw [fill_cons, fill_cons]
    simp only [weight_append, List.length_append]
    omega

/-- Every token of the parameter brings the dots of a probe. -/
lemma count_fill_probed (hword : Identifiers word) (n : ℕ) (hname : name ∉ earlier.map Prod.fst)
    {segs : List (JsString × JsString)} (hsegs : ∀ seg ∈ segs, ∀ u ∈ seg.1, word u = true) :
    (fill (probed earlier name n later) segs).count dot =
      (fill earlier segs).count dot + n * segs.countP fun seg => seg.1 = name := by
  induction segs with
  | nil => rfl
  | cons seg segs ih =>
    have hrest := ih fun s hs => hsegs s (List.mem_cons_of_mem _ hs)
    have hseg : (((probed earlier name n later).lookup seg.1).getD (colon :: seg.1)).count dot =
        ((earlier.lookup seg.1).getD (colon :: seg.1)).count dot +
          n * if seg.1 = name then 1 else 0 := by
      have htoken := count_dot_token hword (hsegs seg List.mem_cons_self)
      rw [lookup_probed]
      by_cases heq : seg.1 = name
      · rw [heq] at htoken ⊢
        rw [lookup_eq_none hname, if_pos rfl, if_pos rfl]
        show (probe n).count dot = (colon :: name).count dot + n * 1
        rw [htoken, count_dot_probe]
        omega
      · rw [if_neg heq, if_neg heq]
        cases earlier.lookup seg.1 with
        | some v => rfl
        | none =>
          split_ifs
          · show ([dash] : JsString).count dot = (colon :: seg.1).count dot + 0
            rw [htoken]
            rfl
          · rfl
    rw [fill_cons, fill_cons]
    simp only [List.count_append, List.countP_cons, hseg, hrest, decide_eq_true_eq]
    rw [Nat.mul_add]
    omega

/-- One token of a name, and its place. -/
lemma exists_of_countP {segs : List (JsString × JsString)}
    (h : segs.countP (fun seg => seg.1 = name) = 1) : ∃ before rest after,
      segs = before ++ (name, rest) :: after ∧ ∀ seg ∈ before ++ after, seg.1 ≠ name := by
  have hpos : 0 < segs.countP fun seg => seg.1 = name := by omega
  rcases List.countP_pos_iff.mp hpos with ⟨seg, hseg, heq⟩
  rcases List.append_of_mem hseg with ⟨before, after, hsegs⟩
  have hname : seg = (name, seg.2) := by
    rw [← of_decide_eq_true heq]
  rw [hsegs, List.countP_append, List.countP_cons, if_pos heq] at h
  refine ⟨before, seg.2, after, by rw [hsegs, ← hname], ?_⟩
  intro seg' hseg' heq'
  have hothers : 0 < (before ++ after).countP fun seg => seg.1 = name :=
    List.countP_pos_iff.mpr ⟨seg', hseg', decide_eq_true heq'⟩
  rw [List.countP_append] at hothers
  omega

/-- The first occurrence is the one with as many colons and dashes before it. -/
lemma before_of_weight {text a b t rest : JsString}
    (hfirst : splitFirst (colon :: name) text = some (a, b))
    (htext : text = t ++ (colon :: name) ++ rest) (hweight : weight a = weight t) : a = t := by
  have hspec := splitFirst_spec hfirst
  rcases splitFirst_le (List.cons_ne_nil colon name) htext with ⟨a', b', hfirst', hle⟩
  rw [hfirst] at hfirst'
  cases hfirst'
  have ha : a <+: text := ⟨colon :: name ++ b, by rw [hspec, List.append_assoc]⟩
  have hcolon : a ++ [colon] <+: text := ⟨name ++ b, by rw [hspec]; simp⟩
  have ht : t <+: text := ⟨colon :: name ++ rest, by rw [htext, List.append_assoc]⟩
  rcases Nat.lt_or_ge a.length t.length with hlt | hge
  · -- the colon of the first occurrence would stand before the other one
    have hinside : a ++ [colon] <+: t := by
      apply List.prefix_of_prefix_length_le hcolon ht
      rw [List.length_append, List.length_singleton]
      omega
    rcases hinside with ⟨x, hx⟩
    rw [← hx, weight_append, weight_append, show weight [colon] = 1 from rfl] at hweight
    omega
  · have hinside := List.prefix_of_prefix_length_le ht ha hge
    exact (hinside.eq_of_length (by omega)).symm

/-- If the loop is right for probes from a parameter on, then this parameter replaces its token. -/
lemma alignedAt_of_right (hword : Identifiers word) (hname : name ∉ earlier.map Prod.fst)
    (hnameWord : ∀ u ∈ name, word u = true) (hlater : ∀ name ∈ later, ∀ u ∈ name, word u = true)
    (hliteral : Literal value)
    (hearlier : rewrite target earlier = substitute word earlier target)
    (hright : ∀ n, 0 < n → rewrite target (probed earlier name n later) =
      substitute word (probed earlier name n later) target) :
    AlignedAt word target earlier name value := by
  cases hfirst : splitFirst (colon :: name) (substitute word earlier target) with
  | none => exact .inl hfirst
  | some parts =>
    obtain ⟨a, b⟩ := parts
    have htext := splitFirst_spec hfirst
    have hsegs : ∀ seg ∈ (segments word target).2, ∀ u ∈ seg.1, word u = true :=
      word_of_mem_segments
    have htoken := count_dot_token hword hnameWord
    obtain ⟨n, hn⟩ : ∃ n, n = (substitute word earlier target).length + 1 := ⟨_, rfl⟩
    -- the loop from the probe on
    have hloop : rewrite target (probed earlier name n later) =
        rewrite (a ++ probe n ++ b) (dashes later) := by
      have hturn : replace (colon :: name) (probe n) (rewrite target earlier) =
          a ++ probe n ++ b := by
        rw [hearlier]
        unfold replace
        rw [hfirst]
        show a ++ expand _ _ _ (probe n) ++ b = _
        rw [expand_of_literal (literal_probe n)]
      unfold probed rewrite
      rw [List.foldl_append, List.foldl_cons, ← hturn]
      rfl
    rcases rewrite_dashes hword (by omega : 0 < n) hlater a b
      with ⟨a', b', hrewrite, hweight, hlength, hdots⟩
    have hsame := hright n (by omega)
    rw [hloop, hrewrite] at hsame
    have hcount : (segments word target).2.countP (fun seg => seg.1 = name) = 1 := by
      have hspec := @count_fill_probed word earlier name later hword n hname
        (segments word target).2 hsegs
      have htextDots := congrArg (List.count dot) htext
      have hsameDots := congrArg (List.count dot) hsame
      have hprobe := count_dot_probe n
      unfold substitute at htextDots hsameDots
      simp only [List.count_append] at htextDots hsameDots
      apply Nat.eq_of_mul_eq_mul_left (by omega : 0 < n)
      omega
    rcases exists_of_countP hcount with ⟨before, rest, after, hsplit, hothers⟩
    have hsplitText := substitute_split hsplit hname
    have hbefore : a = (segments word target).1 ++ fill earlier before := by
      have hsegsBefore : ∀ seg ∈ before, seg ∈ (segments word target).2 := fun seg hseg => by
        rw [hsplit]
        exact List.mem_append_left _ hseg
      rcases @weight_fill_probed word earlier name later hword n before
        (fun seg hseg => hsegs seg (hsegsBefore seg hseg))
        (fun seg hseg => hothers seg (List.mem_append_left _ hseg)) with ⟨hfillWeight, hfillLength⟩
      have hvalue : (probed earlier name n later).lookup name = some (probe n) := by
        rw [lookup_probed, lookup_eq_none hname, if_pos rfl]
        rfl
      rw [substitute_token hsplit hvalue] at hsame
      have hlengthText := congrArg List.length htext
      have hlengthSplit := congrArg List.length hsplitText
      simp only [List.length_append, List.length_cons] at hlengthText hlengthSplit
      have hplace := before_probe hsame (by omega)
        (by simp only [List.length_append]; omega)
      apply before_of_weight hfirst hsplitText
      rw [← hweight, hplace, weight_append, weight_append, hfillWeight]
    refine .inr ⟨hliteral, before, rest, after, hsplit, hothers, ?_⟩
    rw [hfirst]
    rw [htext, hbefore] at hsplitText
    rw [hbefore, List.append_cancel_left hsplitText]

end

/-- What a path can give a parameter, replacement patterns apart. -/
def Possible (value : JsString) : Prop := value ≠ [] ∧ Path.slash ∉ value ∧ Literal value

lemma possible_probe {n : ℕ} (hn : 0 < n) : Possible (probe n) :=
  ⟨probe_ne_nil hn, fun h => (mem_probe h).elim (by decide) (by decide), literal_probe n⟩

lemma possible_dash : Possible [dash] :=
  ⟨by decide, by decide, trivial⟩

/-- The path that a `rewrite:` gives. -/
lemma possiblyRewrittenUrlPath_eq {pathMatch : Match} {routes : Params} {path : JsString}
    {matched : Option Params}
    (h : firstMatch pathMatch path routes = some (matched, js "rewrite:" ++ target)) :
    (matchRouteAndParams pathMatch routes path).possiblyRewrittenUrlPath =
      rewrite target (matched.getD []) := by
  have hstart : (js "rewrite:").isPrefixOf (js "rewrite:" ++ target) = true :=
    List.isPrefixOf_iff_prefix.mpr ⟨target, rfl⟩
  have hstrip : replace (js "rewrite:") [] (js "rewrite:" ++ target) = target := by
    have hne : js "rewrite:" ≠ [] := by decide +kernel
    rcases @splitFirst_le _ (js "rewrite:" ++ target) [] target hne rfl
      with ⟨before, after, hfirst, hle⟩
    have hbefore : before = [] := List.eq_nil_of_length_eq_zero (Nat.le_zero.mp hle)
    have hspec := splitFirst_spec hfirst
    rw [hbefore, List.nil_append] at hspec
    unfold replace
    rw [hfirst, hbefore, List.append_cancel_left hspec]
    rfl
  unfold matchRouteAndParams
  rw [h, Option.elim_some, if_pos hstart, hstrip]

/-- The rewritten path is the target with its tokens substituted in every aligned route; and for the
paths whose values have no replacement patterns, exactly the routes that are aligned for all of them
are right for all of them. -/
theorem matchRouteAndParams_iff (hword : Identifiers word) {names : List JsString}
    (hnames : names.Nodup) (hidentifiers : ∀ name ∈ names, ∀ u ∈ name, word u = true) :
    (∀ pathMatch routes path matched,
      firstMatch pathMatch path routes = some (matched, js "rewrite:" ++ target) →
      (matched.getD []).map Prod.fst = names → Aligned word target (matched.getD []) →
        (matchRouteAndParams pathMatch routes path).possiblyRewrittenUrlPath =
          substitute word (matched.getD []) target) ∧
    ((∀ pathMatch routes path matched,
      firstMatch pathMatch path routes = some (matched, js "rewrite:" ++ target) →
      (matched.getD []).map Prod.fst = names → (∀ param ∈ matched.getD [], Possible param.2) →
        (matchRouteAndParams pathMatch routes path).possiblyRewrittenUrlPath =
          substitute word (matched.getD []) target) ↔
      ∀ params : Params, params.map Prod.fst = names → (∀ param ∈ params, Possible param.2) →
        Aligned word target params) := by
  have hright : ∀ pathMatch routes path matched,
      firstMatch pathMatch path routes = some (matched, js "rewrite:" ++ target) →
      (matched.getD []).map Prod.fst = names → Aligned word target (matched.getD []) →
        (matchRouteAndParams pathMatch routes path).possiblyRewrittenUrlPath =
          substitute word (matched.getD []) target := by
    intro pathMatch routes path matched hmatch hkeys haligned
    rw [possiblyRewrittenUrlPath_eq hmatch]
    exact rewrite_of_aligned (hkeys ▸ hnames) haligned
  refine ⟨hright, ?_, ?_⟩
  · intro hall
    have hloop : ∀ params : Params, params.map Prod.fst = names →
        (∀ param ∈ params, Possible param.2) →
          rewrite target params = substitute word params target := by
      intro params hkeys hpossible
      have hmatch : firstMatch (fun _ _ => some (some params)) [] [([], js "rewrite:" ++ target)] =
          some (some params, js "rewrite:" ++ target) := rfl
      have hpath := hall _ _ _ _ hmatch hkeys hpossible
      rw [possiblyRewrittenUrlPath_eq hmatch] at hpath
      exact hpath
    intro params hkeys hpossible
    have hstep : ∀ m earlier name value later, earlier.length = m →
        params = earlier ++ (name, value) :: later → AlignedAt word target earlier name value := by
      intro m
      -- up to a parameter the loop is right because the parameters before it are aligned
      induction m using Nat.strong_induction_on with
      | _ m ih =>
        intro earlier name value later hlength heq
        have hsplit : names = earlier.map Prod.fst ++ name :: later.map Prod.fst := by
          rw [← hkeys, heq, List.map_append, List.map_cons]
        have hnodup := hnames
        rw [hsplit, List.nodup_append] at hnodup
        have hearlier : Aligned word target earlier := by
          intro earlier' name' value' later' heq'
          refine ih earlier'.length ?_ earlier' name' value' (later' ++ (name, value) :: later)
            rfl ?_
          · rw [← hlength, heq', List.length_append, List.length_cons]
            omega
          · rw [heq, heq', List.append_assoc, List.cons_append]
        refine @alignedAt_of_right word target earlier name value (later.map Prod.fst) hword
          ?_ ?_ ?_ ?_ ?_ ?_
        · exact fun hmem => hnodup.2.2 _ hmem _ List.mem_cons_self rfl
        · exact hidentifiers name (by rw [hsplit]; simp)
        · exact fun name' hname' => hidentifiers name' (by rw [hsplit]; simp [hname'])
        · exact (hpossible (name, value) (by rw [heq]; simp)).2.2
        · exact rewrite_of_aligned hnodup.1 hearlier
        · intro n hn
          apply hloop
          · unfold probed dashes
            rw [hsplit, List.map_append, List.map_cons, List.map_map]
            simp [Function.comp_def]
          · intro param hparam
            rcases List.mem_append.mp hparam with hmem | hmem
            · exact hpossible param (by rw [heq]; exact List.mem_append_left _ hmem)
            · rcases List.mem_cons.mp hmem with hparam | hmem
              · rw [hparam]
                exact possible_probe hn
              · rcases List.mem_map.mp hmem with ⟨name', -, hname'⟩
                rw [← hname']
                exact possible_dash
    exact fun earlier name value later heq => hstep _ earlier name value later rfl heq
  · intro haligned pathMatch routes path matched hmatch hkeys hpossible
    exact hright pathMatch routes path matched hmatch hkeys (haligned _ hkeys hpossible)

end

/-- Letters, digits and the underscore. -/
def isWord (u : UInt16) : Bool :=
  (0x30 ≤ u.toNat && u.toNat ≤ 0x39) || (0x41 ≤ u.toNat && u.toNat ≤ 0x5A) ||
    (0x61 ≤ u.toNat && u.toNat ≤ 0x7A) || u.toNat == 0x5F

lemma identifiers_isWord : Identifiers isWord := ⟨by decide, by decide, by decide⟩

lemma word_of_all {word : UInt16 → Bool} {name : JsString} (h : name.all word = true) :
    ∀ u ∈ name, word u = true := List.all_eq_true.mp h

/-- The two parameters of a path `/user/` with two more segments. -/
def userMatch : Match := fun route path =>
  if route == js "/user/:id/:idx" && (js "/user/").isPrefixOf path &&
      (path.splitOn Path.slash).length == 4 then
    some (some ([js "id", js "idx"].zip ((path.splitOn Path.slash).drop 2)))
  else none

/-- A route whose target has the tokens in the order of the parameters. -/
theorem matchRouteAndParams_user : (matchRouteAndParams userMatch
    [(js "/user/:id/:idx", js "rewrite:/:id/:idx")] (js "/user/1/2")).possiblyRewrittenUrlPath =
      js "/1/2" := by
  have hnames : [js "id", js "idx"].Nodup := by decide +kernel
  have hwords : ∀ name ∈ [js "id", js "idx"], ∀ u ∈ name, isWord u = true := by
    intro name hname
    rcases List.mem_cons.mp hname with heq | hname
    · rw [heq]
      exact word_of_all (by decide +kernel)
    · rw [List.mem_singleton.mp hname]
      exact word_of_all (by decide +kernel)
  have hmatch : firstMatch userMatch (js "/user/1/2")
      [(js "/user/:id/:idx", js "rewrite:" ++ js "/:id/:idx")] =
        some (some [(js "id", js "1"), (js "idx", js "2")], js "rewrite:" ++ js "/:id/:idx") := by
    decide +kernel
  have haligned : Aligned isWord (js "/:id/:idx") [(js "id", js "1"), (js "idx", js "2")] := by
    intro earlier name value later heq
    cases earlier with
    | nil =>
      cases heq
      refine .inr ⟨trivial, [], js "/", [(js "idx", [])], by decide +kernel, ?_, by decide +kernel⟩
      intro seg hseg
      rw [List.mem_singleton.mp hseg]
      decide +kernel
    | cons param earlier =>
      cases earlier with
      | nil =>
        cases heq
        refine .inr ⟨trivial, [(js "id", js "/")], [], [], by decide +kernel, ?_, by decide +kernel⟩
        intro seg hseg
        rw [List.mem_singleton.mp hseg]
        decide +kernel
      | cons param' earlier =>
        have hlength := congrArg List.length heq
        simp at hlength
  have hpath := (matchRouteAndParams_iff identifiers_isWord hnames hwords).1 _ _ _ _ hmatch rfl
    haligned
  rw [show js "rewrite:" ++ js "/:id/:idx" = js "rewrite:/:id/:idx" by decide +kernel] at hpath
  rw [hpath]
  decide +kernel

/-- A token is cut at a parameter whose name is the beginning of its name. -/
theorem matchRouteAndParams_cuts :
    firstMatch userMatch (js "/user/1/2") [(js "/user/:id/:idx", js "rewrite:/item/:idx")] =
      some (some [(js "id", js "1"), (js "idx", js "2")], js "rewrite:/item/:idx") ∧
    (matchRouteAndParams userMatch [(js "/user/:id/:idx", js "rewrite:/item/:idx")]
      (js "/user/1/2")).possiblyRewrittenUrlPath = js "/item/1x" ∧
    substitute isWord [(js "id", js "1"), (js "idx", js "2")] (js "/item/:idx") =
      js "/item/2" := by
  decide +kernel

end PointNetwork.Proxy
