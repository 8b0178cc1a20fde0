import PointNetwork.Core
import PointNetwork.Js.Path

/-!
# Files of a local site

`getFullPathFromLocalRoot` is what stands between the path of a request and the file system when a
site is served from a local folder. It normalizes the path and compares the result, as a text, with
the path of the folder. A path of another folder can begin with that text too: when it leads to an
entry beside the folder whose name begins with the name of the folder.

The disk is given by the paths that are there; there are no symbolic links.
-/

namespace PointNetwork.Proxy

open Js Js.Path

/-- `getFullPathFromLocalRoot`. -/
def getFullPathFromLocalRoot (exist : JsString → Bool) (localRoot filePath : JsString) :
    Except Exception JsString :=
  let fullPath := join [localRoot, filePath]
  if filePath.contains 0 then .error (.error "Null bytes are not allowed")
  -- `fullPath.indexOf(localRoot) !== 0`
  else if !localRoot.isPrefixOf fullPath then .error (.error "Directory traversal is not allowed")
  else if !exist fullPath then .error (.httpNotFound "This route or file is not found")
  else .ok fullPath

/-- The folder itself, or a path below it. -/
def Inside (localRoot fullPath : JsString) : Prop :=
  fullPath = localRoot ∨ localRoot ++ [slash] <+: fullPath

/-- An entry beside the folder `names` whose name goes on after that of the folder, or a path below
it. -/
def Beside (names segments : List JsString) : Prop :=
  ∃ above name rest, names = above ++ [name] ∧ rest ≠ [] ∧ above ++ [name ++ rest] <+: segments

/-- The path leads from the folder to such an entry: `../site2` from `/site`. -/
def LeadsBeside (localRoot filePath : JsString) : Prop :=
  Beside (target localRoot) (walk (target localRoot) (filePath.splitOn slash))

/-! ## Texts of paths that begin alike -/

/-- A name stands in front of a path that goes on after a separator. -/
lemma prefix_append_iff {n s x y : JsString} (hn : slash ∉ n) (hs : slash ∉ s)
    (hy : y = [] ∨ y.head? = some slash) :
    n ++ slash :: x <+: s ++ y ↔ n = s ∧ slash :: x <+: y := by
  induction n generalizing s with
  | nil =>
    cases s with
    | nil => simp
    | cons u us =>
      have hu : slash ≠ u := fun he => hs (by simp [he])
      simp [hu]
  | cons v vs ih =>
    have hv : slash ≠ v := fun he => hn (by simp [he])
    cases s with
    | nil =>
      rcases hy with rfl | hy
      · simp
      · cases y with
        | nil => simp
        | cons w ws =>
          have hw : w = slash := by simpa using hy
          simp [hw, hv.symm]
    | cons u us =>
      have hvs : slash ∉ vs := fun hm => hn (List.mem_cons_of_mem _ hm)
      have hus : slash ∉ us := fun hm => hs (List.mem_cons_of_mem _ hm)
      simp only [List.cons_append, List.cons_prefix_cons, ih hvs hus, List.cons.injEq, and_assoc]

/-- The text of a path goes on after that of a folder above, with a separator in between. -/
lemma ofNames_append {names more : List JsString} (hnames : names ≠ []) (hmore : more ≠ []) :
    ofNames (names ++ more) = ofNames names ++ slash :: ofNames more := by
  induction names with
  | nil => exact absurd rfl hnames
  | cons n ns ih =>
    cases ns with
    | nil =>
      obtain ⟨m, ms, rfl⟩ := List.exists_cons_of_ne_nil hmore
      simp [ofNames]
    | cons k ks =>
      have hrest := ih (List.cons_ne_nil k ks)
      simp only [List.cons_append, ofNames_cons_cons] at hrest ⊢
      rw [hrest, List.append_assoc, List.cons_append]

/-- What is added to the last name stands at the end of the text. -/
lemma ofNames_concat (above : List JsString) (name rest : JsString) :
    ofNames (above ++ [name ++ rest]) = ofNames (above ++ [name]) ++ rest := by
  cases above with
  | nil => simp [ofNames]
  | cons n ns =>
    rw [ofNames_append (List.cons_ne_nil n ns) (List.cons_ne_nil _ _),
      ofNames_append (List.cons_ne_nil n ns) (List.cons_ne_nil _ _), List.append_assoc]
    simp [ofNames]

section Text

variable {names segments : List JsString} {last : JsString}

/-- What can stand behind the names of a path: nothing, or one separator. -/
def IsEnd (segments : List JsString) (last : JsString) : Prop :=
  last = [] ∨ (last = [slash] ∧ segments ≠ [])

lemma isEnd_trailing (path : JsString) : IsEnd segments (trailing path segments) := by
  unfold IsEnd trailing
  split
  · rename_i h
    exact Or.inr ⟨rfl, h.2⟩
  · exact Or.inl rfl

/-- What follows the first name of a path. -/
lemma exists_behind {name : JsString} (hlast : IsEnd (name :: segments) last) :
    ∃ y, ofNames (name :: segments) ++ last = name ++ y ∧ (y = [] ∨ y.head? = some slash) ∧
      (segments ≠ [] → y = slash :: (ofNames segments ++ last)) ∧
      (segments = [] → y = last) := by
  cases segments with
  | nil =>
    refine ⟨last, by simp [ofNames], ?_, by simp, fun _ => rfl⟩
    rcases hlast with rfl | ⟨rfl, -⟩
    · exact Or.inl rfl
    · exact Or.inr rfl
  | cons next rest =>
    exact ⟨slash :: (ofNames (next :: rest) ++ last), by simp [ofNames_cons_cons], Or.inr rfl,
      fun _ => rfl, by simp⟩

/-- The text of a folder stands in front of that of another path in two cases only. -/
theorem ofNames_prefix (hne : names ≠ []) (hnames : ∀ name ∈ names, Segment name)
    (hsegments : ∀ name ∈ segments, Segment name) (hlast : IsEnd segments last)
    (h : ofNames names <+: ofNames segments ++ last) :
    names <+: segments ∨ Beside names segments := by
  induction names generalizing segments with
  | nil => exact absurd rfl hne
  | cons n ns ih =>
    have hn : Segment n := hnames n List.mem_cons_self
    cases segments with
    | nil =>
      have hempty : ofNames (n :: ns) <+: [] := by
        rcases hlast with rfl | ⟨-, hseg⟩
        · simpa [ofNames] using h
        · exact absurd rfl hseg
      exact absurd (List.prefix_nil.mp hempty) (ofNames_ends hne hnames).1
    | cons s ss =>
      have hs : Segment s := hsegments s List.mem_cons_self
      -- the text of the first segment ends at the slash
      obtain ⟨y, htext, hy, hcons, hnil⟩ := exists_behind hlast
      rw [htext] at h
      cases ns with
      | nil =>
        have hone : ofNames [n] = n := by simp [ofNames]
        rw [hone, prefix_append_of_not_mem hn.no_slash hy] at h
        obtain ⟨rest, rfl⟩ := h
        -- the last name is a segment, or only the front of one: then the path leads beside it
        by_cases hrest : rest = []
        · exact Or.inl (by simp [hrest])
        · exact Or.inr ⟨[], n, rest, rfl, hrest, by simp⟩
      | cons m ms =>
        rw [ofNames_cons_cons, prefix_append_iff hn.no_slash hs.no_slash hy] at h
        obtain ⟨rfl, h⟩ := h
        have hms : ∀ name ∈ m :: ms, Segment name := fun name hname =>
          hnames name (List.mem_cons_of_mem _ hname)
        have hnonempty : ofNames (m :: ms) ≠ [] := (ofNames_ends (List.cons_ne_nil _ _) hms).1
        by_cases hss : ss = []
        · rw [hnil hss] at h
          rcases hlast with rfl | ⟨rfl, -⟩
          · exact absurd (List.prefix_nil.mp h) (List.cons_ne_nil _ _)
          · exact absurd (List.prefix_nil.mp (List.cons_prefix_cons.mp h).2) hnonempty
        · rw [hcons hss] at h
          have hend : IsEnd ss last := hlast.imp id fun hl => ⟨hl.1, hss⟩
          rcases ih (List.cons_ne_nil _ _) hms
            (fun name hname => hsegments name (List.mem_cons_of_mem _ hname)) hend
            (List.cons_prefix_cons.mp h).2 with hpre | ⟨above, name, rest, heq, hrest, hpre⟩
          · exact Or.inl (List.cons_prefix_cons.mpr ⟨rfl, hpre⟩)
          · exact Or.inr ⟨n :: above, name, rest, by rw [heq]; rfl, hrest,
              List.cons_prefix_cons.mpr ⟨rfl, hpre⟩⟩

/-- A path below a folder has a separator where the text of the folder ends. -/
lemma inside_of_prefix (hne : names ≠ []) (hlast : IsEnd segments last) (h : names <+: segments) :
    Inside (absolute names) (absolute segments ++ last) := by
  obtain ⟨more, rfl⟩ := h
  by_cases hmore : more = []
  · rcases hlast with rfl | ⟨rfl, -⟩
    · exact Or.inl (by simp [hmore])
    · exact Or.inr ⟨[], by simp [hmore]⟩
  · exact Or.inr ⟨ofNames more ++ last, by simp [absolute, ofNames_append hne hmore]⟩

/-- A path of an entry beside a folder has none there. -/
lemma not_inside_of_beside (hsegments : ∀ name ∈ segments, Segment name)
    (h : Beside names segments) : absolute names <+: absolute segments ++ last ∧
      ¬ Inside (absolute names) (absolute segments ++ last) := by
  obtain ⟨above, name, rest, rfl, hrest, more, rfl⟩ := h
  obtain ⟨u, us, rfl⟩ := List.exists_cons_of_ne_nil hrest
  have hu : u ≠ slash := by
    have hseg : Segment (name ++ u :: us) := hsegments _ (by simp)
    exact fun he => hseg.no_slash (by simp [he])
  have htext : ∃ y, absolute (above ++ [name ++ u :: us] ++ more) ++ last =
      absolute (above ++ [name]) ++ u :: y := by
    by_cases hmore : more = []
    · exact ⟨us ++ last, by simp [absolute, hmore, ofNames_concat]⟩
    · refine ⟨us ++ slash :: ofNames more ++ last, ?_⟩
      unfold absolute
      rw [ofNames_append (by simp) hmore, ofNames_concat]
      simp
  obtain ⟨y, htext⟩ := htext
  rw [htext]
  refine ⟨List.prefix_append _ _, fun hin => ?_⟩
  rcases hin with heq | hpre
  · simp at heq
  · rw [List.prefix_append_right_inj, List.cons_prefix_cons] at hpre
    exact hu hpre.1.symm

end Text

/-! ## What is returned -/

variable {exist : JsString → Bool} {localRoot filePath fullPath : JsString}

/-- A path is returned when it is the joined one, begins with the root as a text, and exists. -/
lemma getFullPathFromLocalRoot_eq_ok :
    getFullPathFromLocalRoot exist localRoot filePath = .ok fullPath ↔
      fullPath = join [localRoot, filePath] ∧ filePath.contains 0 = false ∧
        localRoot <+: fullPath ∧ exist fullPath = true := by
  have hstart : localRoot <+: join [localRoot, filePath] ↔
      localRoot.isPrefixOf (join [localRoot, filePath]) = true := List.isPrefixOf_iff_prefix.symm
  simp only [getFullPathFromLocalRoot]
  by_cases hnull : filePath.contains 0 = true
  · rw [if_pos hnull, hnull]
    simp
  · rw [if_neg hnull]
    by_cases hpre : localRoot <+: join [localRoot, filePath]
    · rw [if_neg (by simp [hstart.mp hpre])]
      by_cases hexist : exist (join [localRoot, filePath]) = true
      · rw [if_neg (by simp [hexist])]
        constructor
        · intro h
          cases h
          exact ⟨rfl, by simpa using hnull, hpre, hexist⟩
        · intro h
          rw [h.1]
      · rw [if_pos (by simpa using hexist)]
        refine ⟨fun h => (by cases h), fun h => absurd ?_ hexist⟩
        rw [← h.1]
        exact h.2.2.2
    · rw [if_pos (by rw [Bool.not_eq_true', ← Bool.not_eq_true, ← hstart]; exact hpre)]
      refine ⟨fun h => (by cases h), fun h => absurd ?_ hpre⟩
      rw [← h.1]
      exact h.2.2.1

/-- For a normalized absolute `localRoot` other than the root: what is returned is the folder or lies
below it, unless the request leads to an entry beside the folder whose name begins with that of the
folder. -/
theorem getFullPathFromLocalRoot_inside_iff (hnormal : normalize localRoot = localRoot)
    (habsolute : localRoot.head? = some slash) (htrailing : localRoot.getLast? ≠ some slash) :
    (∀ fullPath, getFullPathFromLocalRoot exist localRoot filePath = .ok fullPath →
        Inside localRoot fullPath) ↔
      filePath.contains 0 = true ∨ exist (join [localRoot, filePath]) = false ∨
        ¬ LeadsBeside localRoot filePath := by
  obtain ⟨hne, hroot⟩ := exists_absolute hnormal habsolute htrailing
  have hnames : ∀ name ∈ target localRoot, Segment name := segment_of_mem_target
  have hsegments : ∀ name ∈ walk (target localRoot) (filePath.splitOn slash), Segment name :=
    segment_of_mem_walk (fun _ hs => not_mem_of_mem_splitOn hs) hnames
  have hjoin := join_absolute hne hnames filePath
  rw [← hroot] at hjoin
  constructor
  · intro h
    -- a path that leads beside the root has it as a prefix, and is let through
    by_contra hc
    simp only [not_or, not_not] at hc
    obtain ⟨hnull, hexist, hbeside⟩ := hc
    obtain ⟨hpre, hout⟩ := @not_inside_of_beside _ _ (trailing filePath _) hsegments hbeside
    rw [← hroot, ← hjoin] at hpre hout
    exact hout (h _ (getFullPathFromLocalRoot_eq_ok.mpr
      ⟨rfl, by simpa using hnull, hpre, by simpa using hexist⟩))
  · intro hcond fullPath h
    obtain ⟨rfl, hnull, hpre, hexist⟩ := getFullPathFromLocalRoot_eq_ok.mp h
    have hbeside : ¬ LeadsBeside localRoot filePath := by
      rcases hcond with hc | hc | hc
      · rw [hnull] at hc
        cases hc
      · rw [hexist] at hc
        cases hc
      · exact hc
    have hend := @isEnd_trailing (walk (target localRoot) (filePath.splitOn slash))
      filePath
    -- the check of the prefix, on the names of both paths
    have htext : absolute (target localRoot) <+:
        absolute (walk (target localRoot) (filePath.splitOn slash)) ++
          trailing filePath (walk (target localRoot) (filePath.splitOn slash)) := by
      rwa [← hroot, ← hjoin]
    rcases ofNames_prefix hne hnames hsegments hend (List.cons_prefix_cons.mp htext).2 with hin | hbad
    · have hinside := inside_of_prefix hne hend hin
      rwa [← hroot, ← hjoin] at hinside
    · exact absurd hbad hbeside

theorem getFullPathFromLocalRoot_inside_site :
    normalize (js "/site") = js "/site" ∧
      ∀ fullPath, getFullPathFromLocalRoot (fun _ => true) (js "/site") (js "pages/../a") =
        .ok fullPath → Inside (js "/site") fullPath := by
  have hnormal : normalize (js "/site") = js "/site" := by decide +kernel
  refine ⟨hnormal, ?_⟩
  apply (getFullPathFromLocalRoot_inside_iff hnormal (by decide) (by decide +kernel)).mpr
  refine Or.inr (Or.inr ?_)
  have htarget : target (js "/site") = [js "site"] := by decide +kernel
  have hwalk : walk [js "site"] ((js "pages/../a").splitOn slash) = [js "site", js "a"] := by
    decide +kernel
  rw [LeadsBeside, htarget, hwalk]
  rintro ⟨above, name, rest, hname, hrest, hpre⟩
  cases above with
  | nil =>
    obtain rfl : js "site" = name := by simpa using hname
    simp [hrest] at hpre
  | cons => simp at hname

/-- From `/site`, the path `../site2/a` leads out of the folder and is let through. -/
theorem getFullPathFromLocalRoot_escapes :
    ¬ ∀ (exist : JsString → Bool) (localRoot filePath fullPath : JsString),
      normalize localRoot = localRoot → localRoot.head? = some slash → localRoot ≠ js "/" →
      localRoot.getLast? ≠ some slash →
      getFullPathFromLocalRoot exist localRoot filePath = .ok fullPath →
      Inside localRoot fullPath := by
  intro h
  have hin := h (fun _ => true) (js "/site") (js "../site2/a") (js "/site2/a") (by decide +kernel)
    (by decide) (by decide +kernel) (by decide +kernel) (by decide +kernel)
  revert hin
  unfold Inside
  decide +kernel

end PointNetwork.Proxy
