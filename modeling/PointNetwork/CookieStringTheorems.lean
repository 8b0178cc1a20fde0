import Mathlib.Data.List.DropRight
import PointNetwork.CookieString

/-!
# Theorems about cookie strings

What is parsed is a map of clean entries: keys and values are trimmed, not empty and free of the
separators, and the keys stand in property order. The text of such a map is parsed to the map
itself.
-/

namespace Js

/-- Trimming adds nothing. -/
lemma mem_of_mem_trim {s : JsString} {u : UInt16} (h : u ∈ trim s) : u ∈ s := by
  unfold trim at h
  rw [List.mem_reverse] at h
  have hfront := (List.dropWhile_suffix isSpace).subset h
  exact (List.dropWhile_suffix isSpace).subset (List.mem_reverse.mp hfront)

/-- Trimming twice is trimming once. -/
theorem trim_trim (s : JsString) : trim (trim s) = trim s := by
  have hends : ∀ t : JsString, trim t = (t.dropWhile isSpace).rdropWhile isSpace := fun t => rfl
  have hhead : (trim s).dropWhile isSpace = trim s := by
    rw [List.dropWhile_eq_self_iff]
    intro hlen
    have hpre : trim s <+: s.dropWhile isSpace := List.rdropWhile_prefix _ _
    have hhead := List.IsPrefix.getElem hpre hlen
    rw [hhead]
    exact List.dropWhile_get_zero_not _ _ _
  rw [hends (trim s), hhead, hends s, List.rdropWhile_idempotent]

/-- A text that is trimmed to nothing consists of spaces. -/
lemma isSpace_of_trim_eq_nil {s : JsString} (h : trim s = []) {u : UInt16} (hu : u ∈ s) :
    isSpace u = true := by
  have hends : trim s = (s.dropWhile isSpace).rdropWhile isSpace := rfl
  rw [hends, List.rdropWhile_eq_nil_iff] at h
  rw [← List.takeWhile_append_dropWhile (p := isSpace) (l := s), List.mem_append] at hu
  rcases hu with hu | hu
  · exact List.mem_takeWhile_imp hu
  · exact h u hu

/-- A text without spaces is trimmed. -/
lemma trim_of_no_space {s : JsString} (h : ∀ u ∈ s, isSpace u = false) : trim s = s := by
  have hdrop : ∀ t : JsString, (∀ u ∈ t, isSpace u = false) → t.dropWhile isSpace = t := by
    intro t ht
    cases t with
    | nil => rfl
    | cons u t => exact List.dropWhile_cons_of_neg (by simp [ht u List.mem_cons_self])
  unfold trim
  rw [hdrop s h, hdrop s.reverse (by simpa using h), List.reverse_reverse]

end Js

namespace PointNetwork.CookieString

open Js

/-! ## Clean maps -/

/-- A text that stands for itself in a cookie string. -/
structure IsPlain (text : JsString) : Prop where
  ne_nil : text ≠ []
  trimmed : trim text = text
  no_semicolon : semicolon ∉ text
  no_equals : equalsSign ∉ text

instance (text : JsString) : Decidable (IsPlain text) :=
  decidable_of_iff
    (text ≠ [] ∧ trim text = text ∧ semicolon ∉ text ∧ equalsSign ∉ text)
    ⟨fun ⟨h1, h2, h3, h4⟩ => ⟨h1, h2, h3, h4⟩,
      fun h => ⟨h.ne_nil, h.trimmed, h.no_semicolon, h.no_equals⟩⟩

/-- The maps that cookie strings stand for. -/
structure Clean (map : Entries) : Prop where
  ordered : orderedKeys map = true
  keys : ∀ entry ∈ map, IsPlain entry.1 ∧ entry.1 ≠ js "__proto__"
  values : ∀ entry ∈ map, IsPlain entry.2

variable {map : Entries} {key value : JsString}

lemma clean_nil : Clean [] := ⟨rfl, fun _ h => (List.not_mem_nil h).elim,
  fun _ h => (List.not_mem_nil h).elim⟩

/-- A plain entry keeps the entries clean. -/
lemma Clean.setProp (h : Clean map) (hkey : IsPlain key) (hproto : key ≠ js "__proto__")
    (hvalue : IsPlain value) : Clean (setProp key value map) where
  ordered := orderedKeys_setProp key value h.ordered
  keys entry hentry := by
    rcases mem_setProp hentry with rfl | hentry
    · exact ⟨hkey, hproto⟩
    · exact h.keys entry hentry
  values entry hentry := by
    rcases mem_setProp hentry with rfl | hentry
    · exact hvalue
    · exact h.values entry hentry

/-- What is left of a part between the separators is plain. -/
lemma isPlain_trim {s : JsString} (hne : trim s ≠ []) (hsemicolon : semicolon ∉ s)
    (hequals : equalsSign ∉ s) : IsPlain (trim s) :=
  ⟨hne, trim_trim s, fun h => hsemicolon (mem_of_mem_trim h), fun h => hequals (mem_of_mem_trim h)⟩

/-- A pair without semicolon keeps the map clean. -/
lemma Clean.parsePair (h : Clean map) {pair : JsString} (hpair : semicolon ∉ pair) :
    Clean (parsePair map pair) := by
  unfold CookieString.parsePair
  split
  · rename_i k v hsplit
    have hk : k ∈ pair.splitOn equalsSign := by rw [hsplit]; simp
    have hv : v ∈ pair.splitOn equalsSign := by rw [hsplit]; simp
    split
    · rename_i hcond
      refine h.setProp (isPlain_trim hcond.1 ?_ (not_mem_of_mem_splitOn hk)) hcond.2.2
        (isPlain_trim hcond.2.1 ?_ (not_mem_of_mem_splitOn hv))
      · exact fun hm => hpair ((not_mem_and_subset_of_mem_splitOn hk).2 hm)
      · exact fun hm => hpair ((not_mem_and_subset_of_mem_splitOn hv).2 hm)
    · exact h
  · exact h

/-- Whatever the text is, the map that is parsed is clean. -/
theorem clean_parseCookieString (str : JsString) : Clean (parseCookieString str) := by
  have hpairs : ∀ pair ∈ str.splitOn semicolon, semicolon ∉ pair := fun _ hp =>
    not_mem_of_mem_splitOn hp
  unfold parseCookieString
  revert hpairs
  generalize str.splitOn semicolon = pairs
  have hstep : ∀ (pairs : List JsString) (map : Entries), Clean map →
      (∀ pair ∈ pairs, semicolon ∉ pair) → Clean (pairs.foldl CookieString.parsePair map) := by
    intro pairs
    induction pairs with
    | nil => exact fun map h _ => h
    | cons pair pairs ih =>
      intro map h hpairs
      exact ih _ (h.parsePair (hpairs pair List.mem_cons_self))
        fun p hp => hpairs p (List.mem_cons_of_mem _ hp)
  exact hstep pairs [] clean_nil

/-! ## Reading back -/

/-- The text of one entry. -/
def pairText (entry : JsString × JsString) : JsString := entry.1 ++ equalsSign :: entry.2

/-- A plain entry is read back from its text. -/
lemma parsePair_pairText {entry : JsString × JsString} (hkey : IsPlain entry.1)
    (hproto : entry.1 ≠ js "__proto__") (hvalue : IsPlain entry.2) :
    parsePair map (pairText entry) = setProp entry.1 entry.2 map := by
  have hsplit : (pairText entry).splitOn equalsSign = [entry.1, entry.2] := by
    unfold pairText
    rw [List.splitOn_append_cons_self_of_not_mem hkey.no_equals,
      List.splitOn_eq_singleton hvalue.no_equals]
  unfold parsePair
  rw [hsplit]
  simp only [hkey.trimmed, hvalue.trimmed]
  rw [if_pos ⟨hkey.ne_nil, hvalue.ne_nil, hproto⟩]

lemma flatMap_pairText (entry : JsString × JsString) (map : Entries) :
    ((entry :: map).flatMap fun (key, value) => key ++ equalsSign :: value ++ [semicolon]) =
      [semicolon].intercalate ((entry :: map).map pairText) ++ [semicolon] := by
  induction map generalizing entry with
  | nil => simp [pairText]
  | cons next map ih =>
    have htexts : [semicolon].intercalate ((entry :: next :: map).map pairText) =
        pairText entry ++ [semicolon] ++ [semicolon].intercalate ((next :: map).map pairText) :=
      List.intercalate_cons_cons
    rw [List.flatMap_cons, ih, htexts]
    simp [pairText]

/-- The entries stand with semicolons in between. -/
lemma encodeCookieString_eq (map : Entries) :
    encodeCookieString map = [semicolon].intercalate (map.map pairText) := by
  cases map with
  | nil => rfl
  | cons entry map =>
    unfold encodeCookieString
    rw [flatMap_pairText]
    simp

/-- The text of a clean entry has no separator of entries. -/
lemma semicolon_not_mem_pairText (h : Clean map) {entry : JsString × JsString}
    (hentry : entry ∈ map) : semicolon ∉ pairText entry := by
  have hne : semicolon ≠ equalsSign := by decide
  simp [pairText, (h.keys entry hentry).1.no_semicolon, (h.values entry hentry).no_semicolon, hne]

/-- The text of a clean map is parsed to the map. -/
theorem Clean.parse_encode (h : Clean map) : parseCookieString (encodeCookieString map) = map := by
  have hfold : ∀ (entries acc : Entries), (∀ entry ∈ entries, entry ∈ map) →
      (entries.map pairText).foldl CookieString.parsePair acc =
        entries.foldl (fun acc entry => Js.setProp entry.1 entry.2 acc) acc := by
    intro entries
    induction entries with
    | nil => exact fun acc _ => rfl
    | cons entry entries ih =>
      intro acc hmem
      have hentry := hmem entry List.mem_cons_self
      rw [List.map_cons, List.foldl_cons, List.foldl_cons,
        parsePair_pairText (h.keys entry hentry).1 (h.keys entry hentry).2 (h.values entry hentry),
        ih _ fun e he => hmem e (List.mem_cons_of_mem _ he)]
  rw [encodeCookieString_eq, parseCookieString]
  by_cases hmap : map = []
  · subst hmap
    rfl
  · rw [List.splitOn_intercalate semicolon ?_ (by simpa using hmap), hfold map [] fun _ he => he]
    · exact ofEntries_of_ordered h.ordered
    · intro text htext
      obtain ⟨entry, hentry, rfl⟩ := List.mem_map.mp htext
      exact semicolon_not_mem_pairText h hentry

/-- Objects of plain keys and values are read back, and so is whatever is parsed from a text. -/
theorem parse_encode_roundTrip (hordered : orderedKeys map = true)
    (hkeys : ∀ entry ∈ map, IsPlain entry.1 ∧ entry.1 ≠ js "__proto__")
    (hvalues : ∀ entry ∈ map, IsPlain entry.2) (str : JsString) :
    parseCookieString (encodeCookieString map) = map ∧
      parseCookieString (encodeCookieString (parseCookieString str)) = parseCookieString str := by
  have hmap : Clean map := ⟨hordered, hkeys, hvalues⟩
  exact ⟨hmap.parse_encode, (clean_parseCookieString str).parse_encode⟩

/-- An object with an index as a key, which stands first, and a text with malformed pairs. -/
theorem parse_encode_roundTrip_indexed :
    parseCookieString (encodeCookieString [(js "7", js "b"), (js "a", js "c d")]) =
        [(js "7", js "b"), (js "a", js "c d")] ∧
      parseCookieString (encodeCookieString (parseCookieString (js " a = b ;c;a=d=e;;a=f"))) =
        parseCookieString (js " a = b ;c;a=d=e;;a=f") := by
  apply parse_encode_roundTrip
  · decide +kernel
  · intro entry hentry
    simp only [List.mem_cons, List.not_mem_nil, or_false] at hentry
    rcases hentry with heq | heq
    · rw [heq]
      decide +kernel
    · rw [heq]
      decide +kernel
  · intro entry hentry
    simp only [List.mem_cons, List.not_mem_nil, or_false] at hentry
    rcases hentry with heq | heq
    · rw [heq]
      decide +kernel
    · rw [heq]
      decide +kernel

/-! ## Merging -/

/-- What is kept of the old content. -/
def kept (old : JsString) (obj : Entries) : Entries :=
  if has (js "pn_alias") obj then
    deleteKey (js "pn_routes") (deleteKey (js "pn_root") (parseCookieString old))
  else if has (js "pn_root") obj then deleteKey (js "pn_alias") (parseCookieString old)
  else parseCookieString old

lemma mergeAndResolveConflicts_eq (old : JsString) (obj : Entries) :
    mergeAndResolveConflicts old obj =
      obj.foldl (fun map entry => Js.setProp entry.1 entry.2 map) (kept old obj) := rfl

/-- The key is gone, the others stay. -/
lemma lookup_deleteKey (key k : JsString) (map : Entries) :
    (deleteKey key map).lookup k = if k = key then none else map.lookup k := by
  induction map with
  | nil => simp [deleteKey]
  | cons entry map ih =>
    obtain ⟨x, v⟩ := entry
    unfold deleteKey at ih ⊢
    by_cases hx : x = key
    · rw [List.filter_cons_of_neg (by simpa using hx), ih, lookup_cons_eq]
      by_cases hk : k = key
      · rw [if_pos hk, if_pos hk]
      · rw [if_neg hk, if_neg hk, if_neg fun he => hk (he.trans hx)]
    · rw [List.filter_cons_of_pos (by simpa using hx), lookup_cons_eq, lookup_cons_eq, ih]
      by_cases hk : k = x
      · rw [if_pos hk, if_neg (hk ▸ hx), if_pos hk]
      · rw [if_neg hk, if_neg hk]

lemma Clean.deleteKey (h : Clean map) (key : JsString) : Clean (deleteKey key map) where
  ordered := by
    have hfilter : ∀ m : Entries, orderedKeys m = true →
        orderedKeys (CookieString.deleteKey key m) = true := by
      intro m
      induction m with
      | nil => exact fun h => h
      | cons entry m ih =>
        intro hm
        obtain ⟨hfirst, hrest⟩ := ordered_cons.mp hm
        unfold CookieString.deleteKey at ih ⊢
        rw [List.filter_cons]
        split
        · exact ordered_cons.mpr ⟨fun x hx => hfirst x (List.mem_filter.mp hx).1, ih hrest⟩
        · exact ih hrest
    exact hfilter map h.ordered
  keys entry hentry := h.keys entry (List.mem_filter.mp hentry).1
  values entry hentry := h.values entry (List.mem_filter.mp hentry).1

/-- The entries that are kept of the old text are clean. -/
lemma clean_kept (old : JsString) (obj : Entries) : Clean (kept old obj) := by
  have hold := clean_parseCookieString old
  unfold kept
  split
  · exact (hold.deleteKey _).deleteKey _
  · split
    · exact hold.deleteKey _
    · exact hold

end PointNetwork.CookieString
