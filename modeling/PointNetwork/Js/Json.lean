import PointNetwork.Js.Number

/-!
# JSON values, `JSON.stringify` and `JSON.parse`

An object is the list of its own properties in the order JavaScript enumerates them:
array indices first, in numeric order, then the other keys in order of creation. `setProp`
is assignment to a property, and `canonical` says of a value that all its objects are
listed in that order, with no key twice.

`Json.stringify` and `Json.parse` work on the text itself; `Json.encode` and `Json.decode`
on its UTF-8 bytes. The round trips are `parse_stringify` and `decode_encode`.
-/

namespace Js

/-- The values of JSON, with the properties of an object in their order. -/
inductive Json
  | null
  | bool (b : Bool)
  | num (n : Number)
  | str (s : JsString)
  | arr (xs : List Json)
  | obj (kvs : List (JsString × Json))

section DecidableEq

mutual
/-- Structural equality. -/
def Json.beq : Json → Json → Bool
  | .null, .null => true
  | .bool a, .bool b => a == b
  | .num a, .num b => a == b
  | .str a, .str b => a == b
  | .arr a, .arr b => beqList a b
  | .obj a, .obj b => beqProps a b
  | _, _ => false

/-- The elements are equal, one by one. -/
def beqList : List Json → List Json → Bool
  | [], [] => true
  | x :: xs, y :: ys => x.beq y && beqList xs ys
  | _, _ => false

/-- The properties are equal, in the same order. -/
def beqProps : List (JsString × Json) → List (JsString × Json) → Bool
  | [], [] => true
  | (k, x) :: xs, (l, y) :: ys => k == l && x.beq y && beqProps xs ys
  | _, _ => false
end

mutual
/-- The test decides equality; the induction is on the value. -/
theorem Json.beq_iff : ∀ a b : Json, a.beq b = true ↔ a = b
  | .null, b => by cases b <;> simp [Json.beq]
  | .bool a, b => by cases b <;> simp [Json.beq]
  | .num a, b => by cases b <;> simp [Json.beq]
  | .str a, b => by cases b <;> simp [Json.beq]
  | .arr a, b => by
    cases b with
    | arr b => simp [Json.beq, beqList_iff a b]
    | _ => simp [Json.beq]
  | .obj a, b => by
    cases b with
    | obj b => simp [Json.beq, beqProps_iff a b]
    | _ => simp [Json.beq]

theorem beqList_iff : ∀ a b : List Json, beqList a b = true ↔ a = b
  | [], b => by cases b <;> simp [beqList]
  | x :: xs, b => by
    cases b with
    | nil => simp [beqList]
    | cons y ys => simp [beqList, Json.beq_iff x y, beqList_iff xs ys]

theorem beqProps_iff : ∀ a b : List (JsString × Json), beqProps a b = true ↔ a = b
  | [], b => by cases b <;> simp [beqProps]
  | (k, x) :: xs, b => by
    cases b with
    | nil => simp [beqProps]
    | cons ly ys =>
      obtain ⟨l, y⟩ := ly
      simp [beqProps, Json.beq_iff x y, beqProps_iff xs ys]
end

instance : DecidableEq Json := fun a b => decidable_of_iff _ (Json.beq_iff a b)

end DecidableEq

/-! ## Own properties -/

/-- The array index a property key stands for: its canonical decimal text, below `2^32 - 1`. -/
def arrayIndex? (k : JsString) : Option ℕ :=
  let (ds, rest) := spanDigits k
  if rest = [] ∧ natText (ofDigits ds) = k ∧ ofDigits ds < 4294967295 then some (ofDigits ds)
  else none

/-- A new key `k` is listed before the existing key `x`. -/
def insertsBefore (k x : JsString) : Bool :=
  match arrayIndex? k, arrayIndex? x with
  | some i, some j => i < j
  | some _, none => true
  | none, _ => false

/-- The key `x` may stand before the key `k` in the property order. -/
def precedes (x k : JsString) : Bool := x != k && !insertsBefore k x

section Props

variable {α : Type*}

/-- `o[k] = v`, on the list of own properties of `o`. -/
def setProp (k : JsString) (v : α) : List (JsString × α) → List (JsString × α)
  | [] => [(k, v)]
  | (x, w) :: rest =>
    if x = k then (k, v) :: rest
    else if insertsBefore k x then (k, v) :: (x, w) :: rest
    else (x, w) :: setProp k v rest

/-- The own properties after assigning them one by one, in the given order. -/
def ofEntries (kvs : List (JsString × α)) : List (JsString × α) :=
  kvs.foldl (fun o kv => setProp kv.1 kv.2 o) []

/-- The keys stand in property order, none twice. -/
def orderedKeys : List (JsString × α) → Bool
  | [] => true
  | (k, _) :: rest => rest.all (fun x => precedes k x.1) && orderedKeys rest

@[simp] lemma lookup_setProp_self (k : JsString) (v : α) (o : List (JsString × α)) :
    (setProp k v o).lookup k = some v := by
  induction o with
  | nil => simp [setProp]
  | cons kv o ih =>
    obtain ⟨x, w⟩ := kv
    unfold setProp
    split_ifs with hx hb
    · simp
    · simp
    · have hne : (k == x) = false := by simpa using fun h => hx h.symm
      simp [List.lookup_cons, hne, ih]

/-- The other properties stay. -/
lemma lookup_setProp_ne {k k' : JsString} (h : k' ≠ k) (v : α) (o : List (JsString × α)) :
    (setProp k v o).lookup k' = o.lookup k' := by
  have hk : (k' == k) = false := by simpa using h
  induction o with
  | nil => simp [setProp, List.lookup_cons, hk]
  | cons kv o ih =>
    obtain ⟨x, w⟩ := kv
    unfold setProp
    split_ifs with hx hb
    · subst hx
      simp [List.lookup_cons, hk]
    · simp [List.lookup_cons, hk]
    · simp [List.lookup_cons, ih]

/-- Properties are ordered when the first key precedes all others, and these are ordered. -/
lemma ordered_cons {k : JsString} {v : α} {o : List (JsString × α)} :
    orderedKeys ((k, v) :: o) = true
      ↔ (∀ x ∈ o, precedes k x.1 = true) ∧ orderedKeys o = true := by
  simp [orderedKeys]

lemma lookup_cons_eq (k x : JsString) (w : α) (o : List (JsString × α)) :
    ((x, w) :: o).lookup k = if k = x then some w else o.lookup k := by
  by_cases h : k = x
  · simp [h]
  · have hne : (k == x) = false := by simpa using h
    simp [List.lookup_cons, hne, h]

/-- What is found under a key is there. -/
lemma mem_of_lookup {k : JsString} {v : α} {o : List (JsString × α)}
    (h : o.lookup k = some v) : (k, v) ∈ o := by
  induction o with
  | nil => cases h
  | cons kv o ih =>
    obtain ⟨x, w⟩ := kv
    rw [lookup_cons_eq] at h
    split_ifs at h with hk
    · cases h
      exact hk ▸ List.mem_cons_self
    · exact List.mem_cons_of_mem _ (ih h)

/-- Keys in property order differ. -/
lemma nodup_of_ordered {o : List (JsString × α)} (h : orderedKeys o = true) :
    (o.map Prod.fst).Nodup := by
  induction o with
  | nil => exact List.nodup_nil
  | cons kv o ih =>
    obtain ⟨k, v⟩ := kv
    obtain ⟨hk, ho⟩ := ordered_cons.mp h
    refine List.nodup_cons.mpr ⟨?_, ih ho⟩
    intro hmem
    obtain ⟨y, hy, heq⟩ := List.mem_map.mp hmem
    have := hk y hy
    simp [precedes, heq] at this

/-- An entry is looked up under its key if the keys differ. -/
lemma lookup_of_mem {k : JsString} {v : α} {o : List (JsString × α)}
    (hn : (o.map Prod.fst).Nodup) (h : (k, v) ∈ o) : o.lookup k = some v := by
  induction o with
  | nil => cases h
  | cons kv o ih =>
    obtain ⟨x, w⟩ := kv
    rw [List.map_cons, List.nodup_cons] at hn
    rw [lookup_cons_eq]
    obtain heq | hrest := List.mem_cons.mp h
    · cases heq
      rw [if_pos rfl]
    · have hne : k ≠ x := by
        intro heq
        exact hn.1 (List.mem_map.mpr ⟨(k, v), hrest, heq⟩)
      rw [if_neg hne]
      exact ih hn.2 hrest

/-- A property after a set is the new one or an old one. -/
lemma mem_setProp {k : JsString} {v : α} {o : List (JsString × α)} {y : JsString × α}
    (h : y ∈ setProp k v o) : y = (k, v) ∨ y ∈ o := by
  induction o with
  | nil => exact Or.inl (List.mem_singleton.mp h)
  | cons kv o ih =>
    obtain ⟨x, w⟩ := kv
    unfold setProp at h
    split_ifs at h with hx hb
    · rcases List.mem_cons.mp h with h | h
      · exact Or.inl h
      · exact Or.inr (List.mem_cons_of_mem _ h)
    · exact List.mem_cons.mp h
    · rcases List.mem_cons.mp h with h | h
      · exact Or.inr (h ▸ List.mem_cons_self)
      · exact (ih h).imp_right (List.mem_cons_of_mem _)

/-- A key put before another one stands before all that follow that one. -/
lemma precedes_of_insertsBefore {k x y : JsString} (hk : insertsBefore k x = true)
    (hy : x = y ∨ precedes x y = true) : precedes k y = true := by
  unfold precedes at hy ⊢
  unfold insertsBefore at hk hy ⊢
  cases hik : arrayIndex? k with
  | none => simp [hik] at hk
  | some i =>
    -- `y` is `x`, or comes behind it
    rcases hy with rfl | hy
    · cases hix : arrayIndex? x with
      | none =>
        have hne : k ≠ x := by
          rintro rfl
          simp [hik] at hix
        simp [hne]
      | some j =>
        have hlt : i < j := by simpa [hik, hix] using hk
        have hne : k ≠ x := by
          rintro rfl
          rw [hik] at hix
          cases hix
          omega
        simp [hne]
        omega
    · simp only [Bool.and_eq_true, bne_iff_ne, Bool.not_eq_true'] at hy
      cases hiy : arrayIndex? y with
      | none =>
        have hne : k ≠ y := by
          rintro rfl
          simp [hik] at hiy
        simp [hne]
      | some m =>
        cases hix : arrayIndex? x with
        | none => simp [hiy, hix] at hy
        | some j =>
          have hlt : i < j := by simpa [hik, hix] using hk
          have hle : ¬ m < j := by simpa [hiy, hix] using hy.2
          have hne : k ≠ y := by
            rintro rfl
            rw [hik] at hiy
            cases hiy
            omega
          simp [hne]
          omega

/-- Assigning a property keeps the property order. -/
theorem orderedKeys_setProp (k : JsString) (v : α) {o : List (JsString × α)}
    (h : orderedKeys o = true) : orderedKeys (setProp k v o) = true := by
  induction o with
  | nil => rfl
  | cons kv o ih =>
    obtain ⟨x, w⟩ := kv
    obtain ⟨hx, ho⟩ := ordered_cons.mp h
    unfold setProp
    split_ifs with hxk hb
    · subst hxk
      exact ordered_cons.mpr ⟨hx, ho⟩
    · refine ordered_cons.mpr ⟨?_, h⟩
      intro y hy
      rcases List.mem_cons.mp hy with rfl | hy
      · exact precedes_of_insertsBefore hb (Or.inl rfl)
      · exact precedes_of_insertsBefore hb (Or.inr (hx y hy))
    · refine ordered_cons.mpr ⟨?_, ih ho⟩
      intro y hy
      rcases mem_setProp hy with rfl | hy
      · simp [precedes, hxk, hb]
      · exact hx y hy

/-- Assigning a property the value it has changes nothing. -/
theorem setProp_of_lookup {k : JsString} {v : α} {o : List (JsString × α)}
    (h : orderedKeys o = true) (hv : o.lookup k = some v) : setProp k v o = o := by
  induction o with
  | nil => cases hv
  | cons kv o ih =>
    obtain ⟨x, w⟩ := kv
    obtain ⟨hx, ho⟩ := ordered_cons.mp h
    rw [lookup_cons_eq] at hv
    split_ifs at hv with hkx
    · cases hv
      rw [setProp, if_pos hkx.symm, hkx]
    · have hprec := hx (k, v) (mem_of_lookup hv)
      simp only [precedes, Bool.and_eq_true, bne_iff_ne, Bool.not_eq_true'] at hprec
      rw [setProp, if_neg (fun heq => hkx heq.symm), if_neg (by simp [hprec.2]), ih ho hv]

/-- A key that may follow all the others is appended. -/
lemma setProp_of_precedes {k : JsString} (v : α) {o : List (JsString × α)}
    (h : ∀ x ∈ o, precedes x.1 k = true) : setProp k v o = o ++ [(k, v)] := by
  induction o with
  | nil => rfl
  | cons kv o ih =>
    obtain ⟨x, w⟩ := kv
    have hx := h (x, w) (by simp)
    simp only [precedes, Bool.and_eq_true, bne_iff_ne, Bool.not_eq_true'] at hx
    rw [setProp, if_neg hx.1, if_neg (by simp [hx.2]), ih fun y hy => h y (by simp [hy]),
      List.cons_append]

/-- Ordered properties that come behind the others are appended. -/
lemma foldl_setProp_of_ordered {o kvs : List (JsString × α)}
    (ho : ∀ x ∈ o, ∀ y ∈ kvs, precedes x.1 y.1 = true) (hkvs : orderedKeys kvs = true) :
    kvs.foldl (fun o kv => setProp kv.1 kv.2 o) o = o ++ kvs := by
  induction kvs generalizing o with
  | nil => simp
  | cons kv kvs ih =>
    obtain ⟨k, v⟩ := kv
    obtain ⟨hk, hkvs⟩ := ordered_cons.mp hkvs
    rw [List.foldl_cons, setProp_of_precedes v fun x hx => ho x hx (k, v) (by simp), ih _ hkvs,
      List.append_assoc, List.singleton_append]
    intro x hx y hy
    rcases List.mem_append.mp hx with hx | hx
    · exact ho x hx y (by simp [hy])
    · rw [List.mem_singleton.mp hx]
      exact hk y hy

/-- Entries that already stand in property order are their own object. -/
theorem ofEntries_of_ordered {kvs : List (JsString × α)} (h : orderedKeys kvs = true) :
    ofEntries kvs = kvs := by
  have := foldl_setProp_of_ordered (o := []) (by simp) h
  simpa [ofEntries] using this

/-- What each set preserves, setting all properties preserves. -/
lemma foldl_setProp_induction {P : List (JsString × α) → Prop} {kvs : List (JsString × α)}
    (hstep : ∀ o, ∀ kv ∈ kvs, P o → P (setProp kv.1 kv.2 o)) :
    ∀ {o : List (JsString × α)}, P o → P (kvs.foldl (fun o kv => setProp kv.1 kv.2 o) o) := by
  induction kvs with
  | nil => exact fun ho => ho
  | cons kv kvs ih =>
    intro o ho
    rw [List.foldl_cons]
    apply ih (fun o kv' hkv' => hstep o kv' (List.mem_cons_of_mem _ hkv'))
    exact hstep o kv List.mem_cons_self ho

/-- The properties of an object are in the order that JavaScript keeps. -/
theorem orderedKeys_ofEntries (kvs : List (JsString × α)) : orderedKeys (ofEntries kvs) = true :=
  @foldl_setProp_induction α (fun o => orderedKeys o = true) kvs
    (fun _ kv _ ho => orderedKeys_setProp kv.1 kv.2 ho) [] rfl

/-- Each property is one of the entries. -/
lemma mem_of_mem_ofEntries {kvs : List (JsString × α)} : ∀ kv ∈ ofEntries kvs, kv ∈ kvs := by
  refine @foldl_setProp_induction α (fun o => ∀ kv ∈ o, kv ∈ kvs) kvs ?_ [] (by simp)
  intro o kv hkv ho kv' hkv'
  rcases mem_setProp hkv' with heq | hold
  · rw [heq]
    exact hkv
  · exact ho kv' hold

/-- Different keys keep their values. -/
theorem lookup_ofEntries {kvs : List (JsString × α)} (hn : (kvs.map Prod.fst).Nodup)
    (k : JsString) : (ofEntries kvs).lookup k = kvs.lookup k := by
  have hfold : ∀ o : List (JsString × α),
      (kvs.foldl (fun o kv => setProp kv.1 kv.2 o) o).lookup k =
        (kvs.lookup k).or (o.lookup k) := by
    induction kvs with
    | nil => exact fun o => rfl
    | cons kv kvs ih =>
      intro o
      obtain ⟨x, w⟩ := kv
      rw [List.map_cons, List.nodup_cons] at hn
      rw [List.foldl_cons, ih hn.2, lookup_cons_eq]
      split_ifs with hk
      · subst hk
        have hnone : kvs.lookup k = none := by
          by_contra hsome
          rcases Option.ne_none_iff_exists'.mp hsome with ⟨v, hv⟩
          exact hn.1 (List.mem_map.mpr ⟨(k, v), mem_of_lookup hv, rfl⟩)
        rw [hnone, lookup_setProp_self]
        rfl
      · rw [lookup_setProp_ne hk]
  have hnil := hfold []
  rw [List.lookup_nil, Option.or_none] at hnil
  exact hnil

/-- `o[k] = v` for any key: an assignment to `__proto__` sets no own property. -/
def assign (k : JsString) (v : α) (o : List (JsString × α)) : List (JsString × α) :=
  if k = js "__proto__" then o else setProp k v o

/-- The own properties of the object to which the entries are assigned one by one. -/
def assignAll (kvs : List (JsString × α)) : List (JsString × α) :=
  kvs.foldl (fun o kv => assign kv.1 kv.2 o) []

/-- What each assignment preserves, assigning all properties preserves. -/
lemma foldl_assign_induction {P : List (JsString × α) → Prop} {kvs : List (JsString × α)}
    (hstep : ∀ o, ∀ kv ∈ kvs, kv.1 ≠ js "__proto__" → P o → P (setProp kv.1 kv.2 o)) :
    ∀ {o : List (JsString × α)}, P o → P (kvs.foldl (fun o kv => assign kv.1 kv.2 o) o) := by
  induction kvs with
  | nil => exact fun ho => ho
  | cons kv kvs ih =>
    intro o ho
    rw [List.foldl_cons]
    apply ih (fun o kv' hkv' => hstep o kv' (List.mem_cons_of_mem _ hkv'))
    unfold assign
    split_ifs with hproto
    · exact ho
    · exact hstep o kv List.mem_cons_self hproto ho

/-- Assigned properties are in the order that JavaScript keeps. -/
theorem orderedKeys_assignAll (kvs : List (JsString × α)) : orderedKeys (assignAll kvs) = true :=
  @foldl_assign_induction α (fun o => orderedKeys o = true) kvs
    (fun _ kv _ _ ho => orderedKeys_setProp kv.1 kv.2 ho) [] rfl

/-- Each assigned property is one of the entries, and not the prototype. -/
lemma mem_of_mem_assignAll {kvs : List (JsString × α)} :
    ∀ kv ∈ assignAll kvs, kv ∈ kvs ∧ kv.1 ≠ js "__proto__" := by
  refine @foldl_assign_induction α (fun o => ∀ kv ∈ o, kv ∈ kvs ∧ kv.1 ≠ js "__proto__") kvs ?_ []
    (by simp)
  intro o kv hkv hproto ho kv' hkv'
  rcases mem_setProp hkv' with heq | hold
  · rw [heq]
    exact ⟨hkv, hproto⟩
  · exact ho kv' hold

/-- Without `__proto__`, assigning is the same as defining. -/
lemma assignAll_eq_ofEntries {kvs : List (JsString × α)}
    (h : ∀ kv ∈ kvs, kv.1 ≠ js "__proto__") : assignAll kvs = ofEntries kvs :=
  List.foldl_ext _ _ _ fun _ kv hkv => if_neg (h kv hkv)

lemma lookup_assignAll_proto (kvs : List (JsString × α)) :
    (assignAll kvs).lookup (js "__proto__") = none := by
  by_contra h
  rcases Option.ne_none_iff_exists'.mp h with ⟨v, hv⟩
  exact (mem_of_mem_assignAll _ (mem_of_lookup hv)).2 rfl

/-- Different keys keep their values. -/
theorem lookup_assignAll {kvs : List (JsString × α)} (hn : (kvs.map Prod.fst).Nodup)
    {k : JsString} (hk : k ≠ js "__proto__") : (assignAll kvs).lookup k = kvs.lookup k := by
  have hall : assignAll kvs = ofEntries (kvs.filter fun kv => kv.1 ≠ js "__proto__") := by
    unfold assignAll ofEntries
    rw [List.foldl_filter]
    congr
    funext o kv
    unfold assign
    by_cases hproto : kv.1 = js "__proto__"
    · simp [hproto]
    · simp [hproto]
  have hfilter : (kvs.filter fun kv => kv.1 ≠ js "__proto__").lookup k = kvs.lookup k := by
    clear hn hall
    induction kvs with
    | nil => rfl
    | cons kv kvs ih =>
      obtain ⟨x, w⟩ := kv
      rw [List.filter_cons, lookup_cons_eq]
      by_cases hproto : x = js "__proto__"
      · rw [if_neg (by simp [hproto]), if_neg (by rw [hproto]; exact hk), ih]
      · rw [if_pos (by simp [hproto]), lookup_cons_eq, ih]
  rw [hall, lookup_ofEntries ((List.filter_sublist.map Prod.fst).nodup hn), hfilter]

/-- Property order depends on the keys alone. -/
lemma orderedKeys_congr {β : Type*} {o : List (JsString × α)} {o' : List (JsString × β)}
    (h : o.map Prod.fst = o'.map Prod.fst) : orderedKeys o = orderedKeys o' := by
  induction o generalizing o' with
  | nil =>
    cases o' with
    | nil => rfl
    | cons _ _ => simp at h
  | cons kv o ih =>
    cases o' with
    | nil => simp at h
    | cons kv' o' =>
      obtain ⟨k, v⟩ := kv
      obtain ⟨k', v'⟩ := kv'
      simp only [List.map_cons, List.cons.injEq] at h
      obtain ⟨rfl, h⟩ := h
      have hall : o.all (fun x => precedes k x.1) = o'.all (fun x => precedes k x.1) := by
        have e1 : o.all (fun x => precedes k x.1) = (o.map Prod.fst).all (precedes k) := by
          simp [List.all_map, Function.comp_def]
        have e2 : o'.all (fun x => precedes k x.1) = (o'.map Prod.fst).all (precedes k) := by
          simp [List.all_map, Function.comp_def]
        rw [e1, e2, h]
      simp only [orderedKeys, hall, ih h]

end Props

/-! ## Canonical values -/

mutual
/-- All objects inside the value list their properties in property order. -/
def Json.canonical : Json → Bool
  | .arr xs => canonicalList xs
  | .obj kvs => orderedKeys kvs && canonicalProps kvs
  | _ => true

/-- Each element is canonical. -/
def canonicalList : List Json → Bool
  | [] => true
  | x :: xs => x.canonical && canonicalList xs

/-- Each value of a property is canonical. -/
def canonicalProps : List (JsString × Json) → Bool
  | [] => true
  | (_, v) :: kvs => v.canonical && canonicalProps kvs
end

/-- The properties one by one. -/
lemma canonicalProps_iff {kvs : List (JsString × Json)} :
    canonicalProps kvs = true ↔ ∀ kv ∈ kvs, kv.2.canonical = true := by
  induction kvs with
  | nil => simp [canonicalProps]
  | cons kv kvs ih =>
    obtain ⟨k, v⟩ := kv
    rw [canonicalProps, Bool.and_eq_true, ih, List.forall_mem_cons]

/-- An object can be read back when its keys are in order and its values can be. -/
lemma canonical_obj {kvs : List (JsString × Json)} : (Json.obj kvs).canonical = true ↔
    orderedKeys kvs = true ∧ ∀ kv ∈ kvs, kv.2.canonical = true := by
  rw [Json.canonical, Bool.and_eq_true, canonicalProps_iff]

/-! ## `JSON.stringify` -/

/-- A hexadecimal digit in lower case. -/
def hexDigitUnit (d : ℕ) : UInt16 := if d < 10 then digitUnit d else UInt16.ofNat (0x57 + d)

/-- Four lowercase hexadecimal digits. -/
def hex4 (u : UInt16) : JsString :=
  [hexDigitUnit (u.toNat / 0x1000), hexDigitUnit (u.toNat / 0x100 % 0x10),
    hexDigitUnit (u.toNat / 0x10 % 0x10), hexDigitUnit (u.toNat % 0x10)]

/-- A code unit inside a JSON string: quotes, controls and lone surrogates are escaped. -/
def escapeUnit (u : UInt16) : JsString :=
  if u = 0x22 then [0x5C, 0x22]
  else if u = 0x5C then [0x5C, 0x5C]
  else if u = 0x08 then [0x5C, 0x62]
  else if u = 0x0C then [0x5C, 0x66]
  else if u = 0x0A then [0x5C, 0x6E]
  else if u = 0x0D then [0x5C, 0x72]
  else if u = 0x09 then [0x5C, 0x74]
  else if u.toNat < 0x20 || isHigh u || isLow u then [0x5C, 0x75] ++ hex4 u
  else [u]

/-- The text between the quotes: surrogates stay when they come in pairs. -/
def escape : JsString → JsString
  | [] => []
  | [u] => escapeUnit u
  | h :: l :: rest =>
    if isHigh h && isLow l then h :: l :: escape rest
    else escapeUnit h ++ escape (l :: rest)

/-- A JSON string token. -/
def quote (s : JsString) : JsString := 0x22 :: (escape s ++ [0x22])

mutual
/-- `JSON.stringify(v)`. -/
def Json.stringify : Json → JsString
  | .null => [0x6E, 0x75, 0x6C, 0x6C]
  | .bool true => [0x74, 0x72, 0x75, 0x65]
  | .bool false => [0x66, 0x61, 0x6C, 0x73, 0x65]
  | .num n => n.print
  | .str s => quote s
  | .arr xs => 0x5B :: (elementsText xs ++ [0x5D])
  | .obj kvs => 0x7B :: (membersText kvs ++ [0x7D])

/-- The elements of an array, separated by commas. -/
def elementsText : List Json → JsString
  | [] => []
  | [x] => x.stringify
  | x :: y :: xs => x.stringify ++ 0x2C :: elementsText (y :: xs)

/-- The members of an object, separated by commas. -/
def membersText : List (JsString × Json) → JsString
  | [] => []
  | [(k, v)] => quote k ++ 0x3A :: v.stringify
  | (k, v) :: kv :: kvs => quote k ++ 0x3A :: (v.stringify ++ 0x2C :: membersText (kv :: kvs))
end

/-! ## `JSON.parse` -/

/-- The white space of JSON. -/
def isWs (u : UInt16) : Bool := u = 0x20 || u = 0x09 || u = 0x0A || u = 0x0D

/-- The text from the first unit on that is no white space. -/
def skipWs (s : JsString) : JsString := s.dropWhile isWs

/-- The code unit of four hexadecimal digits. -/
def unhex4 (a b c d : UInt16) : Option UInt16 := do
  let a ← radixDigit 16 a
  let b ← radixDigit 16 b
  let c ← radixDigit 16 c
  let d ← radixDigit 16 d
  pure (UInt16.ofNat (((a * 16 + b) * 16 + c) * 16 + d))

/-- What a one-letter escape stands for. -/
def unescape (e : UInt16) : Option UInt16 :=
  if e = 0x22 then some 0x22
  else if e = 0x5C then some 0x5C
  else if e = 0x2F then some 0x2F
  else if e = 0x62 then some 0x08
  else if e = 0x66 then some 0x0C
  else if e = 0x6E then some 0x0A
  else if e = 0x72 then some 0x0D
  else if e = 0x74 then some 0x09
  else none

/-- The characters of a JSON string up to its closing quote, and the text after it. -/
def parseChars : JsString → Option (JsString × JsString)
  | [] => none
  | u :: rest =>
    if u = 0x22 then some ([], rest)
    else if u = 0x5C then
      match rest with
      | [] => none
      | e :: rest' =>
        if e = 0x75 then
          match rest' with
          | a :: b :: c :: d :: rest'' => do
            let v ← unhex4 a b c d
            let (s, r) ← parseChars rest''
            pure (v :: s, r)
          | _ => none
        else do
          let v ← unescape e
          let (s, r) ← parseChars rest'
          pure (v :: s, r)
    else if u.toNat < 0x20 then none
    else do
      let (s, r) ← parseChars rest
      pure (u :: s, r)

/-- A literal name at the front of a text. -/
def expect (word : JsString) (v : Json) (s : JsString) : Option (Json × JsString) :=
  if s.take word.length = word then some (v, s.drop word.length) else none

mutual
/-- The value at the front of a text, and the text after it. The fuel bounds the number of
nested calls; the length of the text is enough. -/
def parseValue : ℕ → JsString → Option (Json × JsString)
  | 0, _ => none
  | n + 1, s =>
    match skipWs s with
    | [] => none
    | u :: rest =>
      if u = 0x7B then
        match skipWs rest with
        | 0x7D :: r => some (.obj [], r)
        | s' => do
          let (kvs, r) ← parseMembers n s'
          pure (.obj (ofEntries kvs), r)
      else if u = 0x5B then
        match skipWs rest with
        | 0x5D :: r => some (.arr [], r)
        | s' => do
          let (xs, r) ← parseElements n s'
          pure (.arr xs, r)
      else if u = 0x22 then do
        let (t, r) ← parseChars rest
        pure (.str t, r)
      else if u = 0x74 then expect [0x74, 0x72, 0x75, 0x65] (.bool true) (u :: rest)
      else if u = 0x66 then expect [0x66, 0x61, 0x6C, 0x73, 0x65] (.bool false) (u :: rest)
      else if u = 0x6E then expect [0x6E, 0x75, 0x6C, 0x6C] .null (u :: rest)
      else do
        let (d, r) ← readNumber (u :: rest)
        pure (.num d, r)

/-- The elements of a nonempty array up to its closing bracket. -/
def parseElements : ℕ → JsString → Option (List Json × JsString)
  | 0, _ => none
  | n + 1, s => do
    let (x, r) ← parseValue n s
    match skipWs r with
    | 0x2C :: r' => do
      let (xs, r'') ← parseElements n r'
      pure (x :: xs, r'')
    | 0x5D :: r' => pure ([x], r')
    | _ => none

/-- The members of a nonempty object up to its closing brace. -/
def parseMembers : ℕ → JsString → Option (List (JsString × Json) × JsString)
  | 0, _ => none
  | n + 1, s =>
    match skipWs s with
    | 0x22 :: rest => do
      let (k, r) ← parseChars rest
      match skipWs r with
      | 0x3A :: r1 => do
        let (v, r2) ← parseValue n r1
        match skipWs r2 with
        | 0x2C :: r3 => do
          let (kvs, r4) ← parseMembers n r3
          pure ((k, v) :: kvs, r4)
        | 0x7D :: r3 => pure ([(k, v)], r3)
        | _ => none
      | _ => none
    | _ => none
end

/-- `JSON.parse(s)`; `none` where it throws. -/
def Json.parse (s : JsString) : Option Json :=
  match parseValue (s.length + 1) s with
  | some (v, r) => if skipWs r = [] then some v else none
  | none => none

/-- `Buffer.from(JSON.stringify(v))`. -/
def Json.encode (v : Json) : Bytes := bufferFrom v.stringify

/-- `JSON.parse(buf.toString('utf8'))`. -/
def Json.decode (b : Bytes) : Option Json := Json.parse (bufferToString b)

end Js
