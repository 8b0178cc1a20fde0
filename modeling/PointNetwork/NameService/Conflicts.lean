import PointNetwork.CookieStringTheorems

/-!
# Aliases and sites in one record

A record that holds an alias is to hold no root and no routes. `mergeAndResolveConflicts` of
`util/cookieString.ts` takes the old root and routes away for a new alias, and the old alias for
a new root. For new routes that come without a root it does not, so that both remain
(`merge_wellFormed_iff`).
-/

namespace PointNetwork.CookieString

open Js

/-- The object has the key. -/
def Holds (key : JsString) (obj : Entries) : Prop := (obj.lookup key).isSome = true

instance (key : JsString) (obj : Entries) : Decidable (Holds key obj) :=
  inferInstanceAs (Decidable (_ = true))

/-- The key of the identity. -/
def pnAlias : JsString := js "pn_alias"

/-- The key of the root directory. -/
def pnRoot : JsString := js "pn_root"

/-- The key of the routes. -/
def pnRoutes : JsString := js "pn_routes"

/-- No alias together with a root or routes. -/
def WellFormed (obj : Entries) : Prop :=
  ¬ (Holds pnAlias obj ∧ (Holds pnRoot obj ∨ Holds pnRoutes obj))

/-- An old entry that cannot stand beside the new ones. -/
def ConflictsWith (obj : Entries) (key : JsString) : Prop :=
  (key = pnAlias ∧ (Holds pnRoot obj ∨ Holds pnRoutes obj)) ∨
    ((key = pnRoot ∨ key = pnRoutes) ∧ Holds pnAlias obj)

/-- The new entries, those of the old ones that are neither overridden nor in conflict, and a well
formed record. -/
structure Merged (prev obj result : Entries) : Prop where
  new : ∀ key value, obj.lookup key = some value → result.lookup key = some value
  old : ∀ key value, prev.lookup key = some value → ¬ Holds key obj → ¬ ConflictsWith obj key →
    result.lookup key = some value
  wellFormed : WellFormed result

/-! ## Lookups in the result -/

variable {prev obj : Entries} {old key : JsString}

/-- `{...prev, ...obj}` -/
lemma lookup_spread (hkeys : (obj.map Prod.fst).Nodup) (prev : Entries) (key : JsString) :
    (obj.foldl (fun map entry => Js.setProp entry.1 entry.2 map) prev).lookup key =
      (obj.lookup key).or (prev.lookup key) := by
  induction obj generalizing prev with
  | nil => rfl
  | cons entry obj ih =>
    rw [List.map_cons, List.nodup_cons] at hkeys
    rw [List.foldl_cons, ih hkeys.2]
    by_cases hkey : key = entry.1
    · have hnone : obj.lookup key = none := by
        rw [List.lookup_eq_none_iff]
        intro e he
        have hne : key ≠ e.1 := by
          intro heq
          exact hkeys.1 (List.mem_map.mpr ⟨e, he, by rw [← heq, hkey]⟩)
        simpa using hne
      rw [hnone, lookup_cons_eq key entry.1 entry.2 obj, if_pos hkey, hkey, lookup_setProp_self]
      rfl
    · rw [lookup_setProp_ne hkey, lookup_cons_eq key entry.1 entry.2 obj, if_neg hkey]

/-- A value that is there is not empty. -/
lemma has_iff (hvalues : ∀ entry ∈ obj, entry.2 ≠ []) (key : JsString) :
    has key obj = true ↔ Holds key obj := by
  unfold has Holds
  cases hlookup : obj.lookup key with
  | none => simp
  | some value =>
    have hne := hvalues _ (mem_of_lookup hlookup)
    simpa using hne

/-- The key is taken away from the old content. -/
def Dropped (obj : Entries) (key : JsString) : Prop :=
  (Holds pnAlias obj ∧ (key = pnRoot ∨ key = pnRoutes)) ∨
    (¬ Holds pnAlias obj ∧ Holds pnRoot obj ∧ key = pnAlias)

instance (obj : Entries) (key : JsString) : Decidable (Dropped obj key) :=
  inferInstanceAs (Decidable (_ ∨ _))

/-- What is left of an old entry. -/
lemma lookup_kept (hvalues : ∀ entry ∈ obj, entry.2 ≠ []) (old key : JsString) :
    (kept old obj).lookup key =
      if Dropped obj key then none else (parseCookieString old).lookup key := by
  have halias := has_iff hvalues pnAlias
  have hroot := has_iff hvalues pnRoot
  have hkept : kept old obj =
      if has pnAlias obj then deleteKey pnRoutes (deleteKey pnRoot (parseCookieString old))
      else if has pnRoot obj then deleteKey pnAlias (parseCookieString old)
      else parseCookieString old := rfl
  rw [hkept]
  -- `pn_alias` is looked at first, then `pn_root`, as in the code
  by_cases ha : Holds pnAlias obj
  · rw [if_pos (halias.mpr ha), lookup_deleteKey, lookup_deleteKey]
    by_cases hroutes : key = pnRoutes
    · rw [if_pos hroutes, if_pos (.inl ⟨ha, .inr hroutes⟩)]
    · by_cases hkey : key = pnRoot
      · rw [if_neg hroutes, if_pos hkey, if_pos (.inl ⟨ha, .inl hkey⟩)]
      · rw [if_neg hroutes, if_neg hkey, if_neg]
        intro h
        rcases h with h | h
        · exact h.2.elim hkey hroutes
        · exact h.1 ha
  · rw [if_neg (mt halias.mp ha)]
    by_cases hr : Holds pnRoot obj
    · rw [if_pos (hroot.mpr hr), lookup_deleteKey]
      by_cases hkey : key = pnAlias
      · rw [if_pos hkey, if_pos (.inr ⟨ha, hr, hkey⟩)]
      · rw [if_neg hkey, if_neg]
        intro h
        rcases h with h | h
        · exact ha h.1
        · exact hkey h.2.2
    · rw [if_neg (mt hroot.mp hr), if_neg]
      intro h
      rcases h with h | h
      · exact ha h.1
      · exact hr h.2.1

/-- The record holds what the new object holds and what is left of the old content. -/
lemma lookup_merge (hvalues : ∀ entry ∈ obj, entry.2 ≠ []) (hkeys : (obj.map Prod.fst).Nodup)
    (old key : JsString) : (mergeAndResolveConflicts old obj).lookup key =
      (obj.lookup key).or
        (if Dropped obj key then none else (parseCookieString old).lookup key) := by
  rw [mergeAndResolveConflicts_eq, lookup_spread hkeys, lookup_kept hvalues]

/-- What a merge holds: the new keys, and the old ones that are not dropped. -/
lemma holds_merge (hvalues : ∀ entry ∈ obj, entry.2 ≠ []) (hkeys : (obj.map Prod.fst).Nodup)
    (old key : JsString) : Holds key (mergeAndResolveConflicts old obj) ↔
      Holds key obj ∨ (¬ Dropped obj key ∧ Holds key (parseCookieString old)) := by
  unfold Holds
  rw [lookup_merge hvalues hkeys, Option.isSome_or, Bool.or_eq_true]
  by_cases hdropped : Dropped obj key
  · simp [hdropped]
  · simp [hdropped]

/-- What is taken away is in conflict with the new object. -/
lemma Dropped.conflicts (h : Dropped obj key) : ConflictsWith obj key := by
  rcases h with ⟨ha, hkey⟩ | ⟨-, hr, hkey⟩
  · exact .inr ⟨hkey, ha⟩
  · exact .inl ⟨hkey, .inl hr⟩

/-- For a well formed old content and a well formed object of nonempty values: all that is to be
in the result is there and it is well formed, unless the object holds routes and no root, and the
old content an alias. -/
theorem merge_wellFormed_iff (hvalues : ∀ entry ∈ obj, entry.2 ≠ [])
    (hkeys : (obj.map Prod.fst).Nodup) (hprev : WellFormed (parseCookieString old))
    (hobj : WellFormed obj) :
    Merged (parseCookieString old) obj (mergeAndResolveConflicts old obj) ↔
      ¬ (Holds pnRoutes obj ∧ ¬ Holds pnRoot obj ∧ Holds pnAlias (parseCookieString old)) := by
  have hnames : pnAlias ≠ pnRoot ∧ pnAlias ≠ pnRoutes := by decide +kernel
  have halias : Dropped obj pnAlias ↔ ¬ Holds pnAlias obj ∧ Holds pnRoot obj := by
    simp only [Dropped, hnames.1, hnames.2, or_self, and_false, false_or, and_true]
  have hsite : ∀ key, key = pnRoot ∨ key = pnRoutes → (Dropped obj key ↔ Holds pnAlias obj) := by
    intro key hkey
    have hne : key ≠ pnAlias := by
      rcases hkey with rfl | rfl
      · exact hnames.1.symm
      · exact hnames.2.symm
    simp only [Dropped, hkey, hne, and_true, and_false, or_false]
  have hholds : ∀ key, Holds key (mergeAndResolveConflicts old obj) ↔
      Holds key obj ∨ (¬ Dropped obj key ∧ Holds key (parseCookieString old)) :=
    holds_merge hvalues hkeys old
  constructor
  · intro hmerged h
    rcases h with ⟨hroutes, hroot, halias'⟩
    apply hmerged.wellFormed
    rw [hholds, hholds pnRoutes]
    exact ⟨.inr ⟨fun hdropped => hroot (halias.mp hdropped).2, halias'⟩, .inr (.inl hroutes)⟩
  · intro hnot
    refine ⟨?_, ?_, ?_⟩
    · intro key value hvalue
      rw [lookup_merge hvalues hkeys, hvalue]
      rfl
    · intro key value hvalue hnew hconflict
      have hnone : obj.lookup key = none := Option.not_isSome_iff_eq_none.mp hnew
      rw [lookup_merge hvalues hkeys, hnone, if_neg fun h => hconflict h.conflicts, hvalue]
      rfl
    · unfold WellFormed at hprev hobj ⊢
      intro hboth
      rw [hholds, hholds, hholds pnRoutes, halias, hsite pnRoot (.inl rfl),
        hsite pnRoutes (.inr rfl)] at hboth
      -- the alias and the site are both new, both old, or of different sides
      by_cases ha : Holds pnAlias obj
      · simp only [ha, true_and] at hobj
        simp only [ha, not_true_eq_false, false_and, or_false] at hboth
        exact hobj hboth.2
      · by_cases hr : Holds pnRoot obj
        · simp only [ha, hr, not_false_eq_true, not_true_eq_false, and_self, false_and,
            or_self] at hboth
        · simp only [ha, hr, not_false_eq_true, and_false, true_and, false_or] at hboth hnot hobj
          by_cases hroutes : Holds pnRoutes obj
          · exact hnot ⟨hroutes, hboth.1⟩
          · simp only [hroutes, false_or] at hboth
            exact hprev hboth

/-- New data for a domain that holds an alias: a root and routes. -/
def siteData : Entries := [(pnRoot, js "root-id"), (pnRoutes, js "routes-id")]

theorem merge_wellFormed_iff_site :
    Merged (parseCookieString (js "a=b;pn_alias=old")) siteData
        (mergeAndResolveConflicts (js "a=b;pn_alias=old") siteData) ↔
      ¬ (Holds pnRoutes siteData ∧ ¬ Holds pnRoot siteData ∧
        Holds pnAlias (parseCookieString (js "a=b;pn_alias=old"))) :=
  merge_wellFormed_iff (by decide +kernel) (by decide +kernel) (by unfold WellFormed; decide +kernel)
    (by unfold WellFormed; decide +kernel)

/-- New routes leave the old alias where it is. -/
theorem routes_keep_alias :
    let result := mergeAndResolveConflicts (js "pn_alias=old") [(pnRoutes, js "routes-id")]
    WellFormed (parseCookieString (js "pn_alias=old")) ∧
      WellFormed [(pnRoutes, js "routes-id")] ∧
      result = [(pnAlias, js "old"), (pnRoutes, js "routes-id")] ∧ ¬ WellFormed result := by
  unfold WellFormed
  decide +kernel

end PointNetwork.CookieString
