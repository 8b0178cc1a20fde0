import PointNetwork.HostStorage.Tree

/-!
# Updates of trees

* `update_same`: an update changes nothing at the paths that are neither prefixes nor
  extensions of its own; `Walks.same` says what `SameAt` means for reading;
* `has_update`: which paths are there after an update;
* `set_isOk_iff`, `get_set`: when a value can be set, and that it is read back;
* `value_ofValue_iff`: which JSON values are read back as they are.
-/

namespace PointNetwork.HostStorage

open Js

namespace Tree

variable {cs cs' : Children} {k : JsString}

/-! ## Slots -/

/-- The key has what was put there. -/
lemma treeSlot_setProp_self (k : JsString) (t : Tree) (cs : Children) :
    treeSlot (setProp k t cs) k = .own t := by
  unfold treeSlot
  rw [lookup_setProp_self]

/-- The other keys have what they had. -/
lemma treeSlot_setProp_ne {k k' : JsString} (h : k' ≠ k) (t : Tree) (cs : Children) :
    treeSlot (setProp k t cs) k' = treeSlot cs k' := by
  unfold treeSlot
  rw [lookup_setProp_ne h]

lemma lookup_of_slot {k : JsString} {t : Tree} (h : treeSlot cs k = .own t) :
    cs.lookup k = some t := by
  unfold treeSlot at h
  cases hc : cs.lookup k with
  | some t' =>
    rw [hc] at h
    cases h
    rfl
  | none =>
    rw [hc] at h
    simp only at h
    split_ifs at h

/-- A leaf operation sets the key it is given. -/
def SetsKey (leaf : JsString → Children → Except Exception Children) : Prop :=
  ∀ k cs cs', leaf k cs = .ok cs' → ∃ t, cs' = setProp k t cs

/-- One step of an update that succeeds: it sets the key, or it goes on in a container. -/
lemma update_cases {blocked : TreeSlot → Exception}
    {leaf : JsString → Children → Except Exception Children} {segment : Segment}
    {rest : List Segment} (h : update blocked leaf (segment :: rest) cs = .ok cs') :
    ∃ k, segment.key = .ok k ∧
      (rest = [] ∧ leaf k cs = .ok cs' ∨
        rest ≠ [] ∧ ∃ array sub sub', treeSlot cs k = .own (.node array sub) ∧
          update blocked leaf rest sub = .ok sub' ∧ cs' = setProp k (.node array sub') cs) := by
  unfold update at h
  obtain ⟨k, hk, h⟩ := bind_ok h
  refine ⟨k, hk, ?_⟩
  cases rest with
  | nil => exact Or.inl ⟨rfl, h⟩
  | cons segment' rest =>
    refine Or.inr ⟨by simp, ?_⟩
    simp only at h
    split at h
    · rename_i array sub hslot
      obtain ⟨sub', hsub, h⟩ := bind_ok h
      exact ⟨array, sub, sub', hslot, hsub, (Except.ok.inj h).symm⟩
    · cases h

/-! ## What an update leaves alone -/

/-- The two trees have the same under the path. -/
def SameAt : List Segment → Children → Children → Prop
  | [], _, _ => True
  | segment :: rest, cs, cs' => ∀ k, segment.key = .ok k →
      treeSlot cs k = treeSlot cs' k ∨
        rest ≠ [] ∧ ∃ array sub sub', treeSlot cs k = .own (.node array sub) ∧
          treeSlot cs' k = .own (.node array sub') ∧ SameAt rest sub sub'

/-- Neither path is the beginning of the other. -/
def Incomparable (p q : List Segment) : Prop :=
  ¬ p.map Segment.key <+: q.map Segment.key ∧ ¬ q.map Segment.key <+: p.map Segment.key

/-- An update changes nothing at a path that neither contains its own nor is in it. -/
theorem update_same {blocked : TreeSlot → Exception}
    {leaf : JsString → Children → Except Exception Children} (hleaf : SetsKey leaf) :
    ∀ (p q : List Segment) {cs cs' : Children}, update blocked leaf p cs = .ok cs' →
      Incomparable p q → SameAt q cs cs'
  | _, [], _, _, _, _ => trivial
  | [], _ :: _, _, _, h, _ => by cases h
  | segment :: p, segment' :: q, cs, cs', h, hpq => by
    intro k' hk'
    obtain ⟨k, hk, hcase⟩ := update_cases h
    by_cases hne : k' = k
    · subst hne
      have hkeys : segment.key = segment'.key := hk.trans hk'.symm
      -- the paths start alike, so both go on and part later
      have hrest : Incomparable p q := by
        unfold Incomparable at hpq ⊢
        simpa [List.map_cons, hkeys, List.cons_prefix_cons] using hpq
      have hq : q ≠ [] := by
        rintro rfl
        exact hrest.2 List.nil_prefix
      rcases hcase with ⟨rfl, -⟩ | ⟨-, array, sub, sub', hslot, hsub, rfl⟩
      · exact absurd List.nil_prefix hrest.1
      · exact Or.inr ⟨hq, array, sub, sub', hslot, treeSlot_setProp_self _ _ _,
          update_same hleaf p q hsub hrest⟩
    · left
      rcases hcase with ⟨-, hset⟩ | ⟨-, array, sub, sub', -, -, rfl⟩
      · obtain ⟨t, rfl⟩ := hleaf _ _ _ hset
        exact (treeSlot_setProp_ne hne _ _).symm
      · exact (treeSlot_setProp_ne hne _ _).symm

/-- A read that looks at the slot of the first segment, and goes on in a container. -/
structure Walks {α : Type} (read : List Segment → Children → Except Exception α) : Prop where
  nil : ∀ cs cs', read [] cs = read [] cs'
  slot : ∀ segment rest cs cs', (∀ k, segment.key = .ok k → treeSlot cs k = treeSlot cs' k) →
    read (segment :: rest) cs = read (segment :: rest) cs'
  node : ∀ segment segment' rest k cs array sub, segment.key = .ok k →
    treeSlot cs k = .own (.node array sub) →
      read (segment :: segment' :: rest) cs = read (segment' :: rest) sub

/-- Such a read finds the same where the trees have the same. -/
theorem Walks.same {α : Type} {read : List Segment → Children → Except Exception α} (h : Walks read)
    (q : List Segment) {cs cs' : Children} (hsame : SameAt q cs cs') : read q cs = read q cs' := by
  induction q generalizing cs cs' with
  | nil => exact h.nil cs cs'
  | cons segment rest ih =>
    cases hkey : segment.key with
    | error e =>
      refine h.slot segment rest cs cs' fun k hk => ?_
      rw [hkey] at hk
      cases hk
    | ok k =>
      rcases hsame k hkey with hslot | ⟨hne, array, sub, sub', hcs, hcs', hbelow⟩
      · refine h.slot segment rest cs cs' fun k' hk' => ?_
        rw [hkey] at hk'
        cases hk'
        exact hslot
      · obtain ⟨segment', rest, rfl⟩ := List.exists_cons_of_ne_nil hne
        rw [h.node segment segment' rest k cs array sub hkey hcs,
          h.node segment segment' rest k cs' array sub' hkey hcs', ih hbelow]

lemma walks_get : Walks get where
  nil _ _ := rfl
  slot segment rest cs cs' h := by
    unfold get
    cases hkey : segment.key with
    | error e => rfl
    | ok k => simp only [ok_bind, h k hkey]
  node segment segment' rest k cs array sub hkey hslot := by
    rw [get, hkey, ok_bind, hslot]

lemma walks_dir : Walks dir where
  nil _ _ := rfl
  slot segment rest cs cs' h := by
    unfold dir
    cases hkey : segment.key with
    | error e => rfl
    | ok k => simp only [ok_bind, h k hkey]
  node segment segment' rest k cs array sub hkey hslot := by
    rw [dir, hkey, ok_bind, hslot]

lemma walks_len : Walks len where
  nil _ _ := rfl
  slot segment rest cs cs' h := by
    unfold len
    cases hkey : segment.key with
    | error e => rfl
    | ok k => simp only [ok_bind, h k hkey]
  node segment segment' rest k cs array sub hkey hslot := by
    rw [len, hkey, ok_bind, hslot]

/-! ## The leaf operations -/

lemma setLeaf_setsKey (v : AnyValue) : SetsKey (setLeaf v) := by
  intro k cs cs' h
  obtain ⟨t, -, h⟩ := bind_ok h
  exact ⟨t, (Except.ok.inj h).symm⟩

lemma unsetLeaf_setsKey : SetsKey unsetLeaf := by
  intro k cs cs' h
  unfold unsetLeaf at h
  split at h
  · cases h
  · exact ⟨_, (Except.ok.inj h).symm⟩

lemma encArrayLeaf_setsKey (withLen : Bool) : SetsKey (encArrayLeaf withLen) := by
  intro k cs cs' h
  obtain ⟨sub, -, h⟩ := bind_ok h
  exact ⟨_, (Except.ok.inj h).symm⟩

/-- Replacing in a list that is there is setting the value at the path of the element. -/
theorem set_of_replaceAt {v : AnyValue} {index : Segment} :
    ∀ {path : List Segment} {cs cs' : Children},
      update blockedValue (replaceLeaf v index) path cs = .ok cs' →
      set (path ++ [index]) v cs = .ok cs'
  | [], _, _, h => by cases h
  | segment :: rest, cs, cs', h => by
    obtain ⟨k, hk, hcase⟩ := update_cases h
    rcases hcase with ⟨rfl, hleaf⟩ | ⟨hne, array, sub, sub', hslot, hsub, rfl⟩
    · unfold set
      rw [List.singleton_append, update, hk]
      unfold replaceLeaf at hleaf
      simp only [bind, Except.bind]
      split at hleaf
      · rename_i array sub hslot
        exact hleaf
      · cases hleaf
    · have ih := set_of_replaceAt hsub
      unfold set at ih ⊢
      rw [List.cons_append, update, hk]
      simp only [bind, Except.bind, hslot]
      split
      · rename_i hnil
        exact absurd hnil (by simp)
      · rw [ih]
        rfl

/-! ## Which paths there are -/

/-- There is something under the keys. -/
def has : List JsString → Children → Bool
  | [], _ => true
  | k :: rest, cs =>
    match treeSlot cs k with
    | .own (.node _ sub) => has rest sub
    | .own _ => rest = []
    | _ => false

/-- A path below a node. -/
lemma has_node {k : JsString} {rest : List JsString} {array : Bool} {sub : Children}
    (h : treeSlot cs k = .own (.node array sub)) : has (k :: rest) cs = has rest sub := by
  rw [has, h]

lemma has_singleton {k : JsString} {t : Tree} (h : treeSlot cs k = .own t) :
    has [k] cs = true := by
  rw [has, h]
  cases t <;> rfl

/-- After an update there is something under its path, and still under every path that was
there before and is no extension of it. -/
theorem has_update {blocked : TreeSlot → Exception}
    {leaf : JsString → Children → Except Exception Children} (hleaf : SetsKey leaf) :
    ∀ (p : List Segment) {cs cs' : Children}, update blocked leaf p cs = .ok cs' →
      ∃ ks, p.map Segment.key = ks.map .ok ∧ has ks cs' = true ∧
        ∀ q, has q cs = true → ¬ ks <+: q → has q cs' = true
  | [], _, _, h => by cases h
  | segment :: p, cs, cs', h => by
    obtain ⟨k, hk, hcase⟩ := update_cases h
    have hother : ∀ t k' q, k' ≠ k → has (k' :: q) (setProp k t cs) = has (k' :: q) cs := by
      intro t k' q hne
      rw [has, has, treeSlot_setProp_ne hne]
    rcases hcase with ⟨rfl, hset⟩ | ⟨-, array, sub, sub', hslot, hsub, rfl⟩
    · obtain ⟨t, rfl⟩ := hleaf _ _ _ hset
      refine ⟨[k], by simp [hk], has_singleton (treeSlot_setProp_self _ _ _), ?_⟩
      intro q hq hnot
      cases q with
      | nil => rfl
      | cons k' q =>
        by_cases hne : k' = k
        · subst hne
          exact absurd (by simp) hnot
        · rwa [hother t k' q hne]
    · obtain ⟨ks, hks, hhas, hkeep⟩ := has_update hleaf p hsub
      have hself : treeSlot (setProp k (.node array sub') cs) k = .own (.node array sub') :=
        treeSlot_setProp_self _ _ _
      refine ⟨k :: ks, by simp [hk, hks], by rw [has_node hself, hhas], ?_⟩
      intro q hq hnot
      cases q with
      | nil => rfl
      | cons k' q =>
        by_cases hne : k' = k
        · subst hne
          rw [has_node hself]
          rw [has_node hslot] at hq
          exact hkeep q hq fun hpre => hnot (List.cons_prefix_cons.mpr ⟨rfl, hpre⟩)
        · rwa [hother _ k' q hne]

/-! ## Setting and reading -/

/-- The path leads to its last key through containers. -/
def Leads : List Segment → Children → Prop
  | [], _ => False
  | [segment], _ => ∃ k, segment.key = .ok k
  | segment :: rest, cs => ∃ k array sub, segment.key = .ok k ∧
      treeSlot cs k = .own (.node array sub) ∧ Leads rest sub

/-- A value that can be stored is set where containers lead to, and read back. -/
theorem get_set {v : AnyValue} {t : Tree} (hv : ofValue v = .ok t) :
    ∀ {path : List Segment} {cs : Children}, Leads path cs →
      ∃ cs', set path v cs = .ok cs' ∧ get path cs' = .ok t.value
  | [segment], cs, ⟨k, hk⟩ => by
    refine ⟨setProp k t cs, ?_, ?_⟩
    · unfold set update
      rw [hk]
      simp only [bind, Except.bind, setLeaf, hv]
      rfl
    · unfold get
      rw [hk]
      simp only [bind, Except.bind, treeSlot_setProp_self]
      rfl
  | segment :: segment' :: rest, cs, ⟨k, array, sub, hk, hslot, hrest⟩ => by
    obtain ⟨sub', hset, hget⟩ := get_set hv hrest
    refine ⟨setProp k (.node array sub') cs, ?_, ?_⟩
    · unfold set at hset ⊢
      unfold update
      rw [hk]
      simp only [bind, Except.bind, hslot, hset]
      rfl
    · unfold get
      rw [hk]
      simp only [bind, Except.bind, treeSlot_setProp_self]
      exact hget

/-- Where a value was set, containers led. -/
lemma leads_of_set {v : AnyValue} : ∀ {path : List Segment} {cs cs' : Children},
    set path v cs = .ok cs' → Leads path cs
  | [], _, _, h => by cases h
  | segment :: rest, cs, cs', h => by
    obtain ⟨k, hk, ⟨rfl, -⟩ | ⟨hne, array, sub, sub', hslot, hsub, -⟩⟩ := update_cases h
    · exact ⟨k, hk⟩
    · cases rest with
      | nil => exact absurd rfl hne
      | cons segment' rest => exact ⟨k, array, sub, hk, hslot, leads_of_set hsub⟩

/-- What has a listing is a container. -/
lemma container_of_dir {segment : Segment} (hk : segment.key = .ok k) {xs : List AnyValue}
    (h : dir [segment] cs = .ok (.arr xs)) :
    ∃ array sub, treeSlot cs k = .own (.node array sub) := by
  unfold dir at h
  rw [hk] at h
  simp only [bind, Except.bind] at h
  cases hslot : treeSlot cs k with
  | absent =>
    rw [hslot] at h
    cases h
  | inherited =>
    rw [hslot] at h
    cases h
  | own t =>
    cases t with
    | node array sub => exact ⟨array, sub, rfl⟩
    | _ =>
      rw [hslot] at h
      cases h

/-- Containers lead along a path when all its proper beginnings have a listing. -/
theorem leads_iff : ∀ {path : List Segment} {cs : Children}, path ≠ [] →
    (∀ segment ∈ path, ∃ k, segment.key = .ok k) →
    (Leads path cs ↔ ∀ q, q <+: path → q ≠ [] → q ≠ path → ∃ xs, dir q cs = .ok (.arr xs))
  | [segment], cs, _, hkeys => by
    -- a path of one segment has no proper prefix
    refine ⟨fun _ q hq hne hproper => ?_, fun _ => hkeys segment (by simp)⟩
    cases q with
    | nil => exact absurd rfl hne
    | cons s q =>
      obtain ⟨rfl, hrest⟩ := List.cons_prefix_cons.mp hq
      rw [List.prefix_nil.mp hrest] at hproper
      exact absurd rfl hproper
  | segment :: segment' :: rest, cs, _, hkeys => by
    obtain ⟨k, hk⟩ := hkeys segment (by simp)
    have ih : ∀ sub, Leads (segment' :: rest) sub ↔ ∀ q, q <+: segment' :: rest → q ≠ [] →
        q ≠ segment' :: rest → ∃ xs, dir q sub = .ok (.arr xs) := fun sub =>
      leads_iff (by simp) fun s hs => hkeys s (List.mem_cons_of_mem _ hs)
    constructor
    · rintro ⟨k', array, sub, hk', hslot, hrest⟩ q hq hne hproper
      cases q with
      | nil => exact absurd rfl hne
      | cons s q =>
        obtain ⟨rfl, hpre⟩ := List.cons_prefix_cons.mp hq
        unfold dir
        rw [hk']
        simp only [bind, Except.bind, hslot]
        cases q with
        | nil => exact ⟨_, rfl⟩
        | cons s' q =>
          exact (ih sub).mp hrest (s' :: q) hpre (by simp) fun heq => hproper (by rw [heq])
    · intro h
      -- the listing at the first segment shows that a container is there
      obtain ⟨xs, hxs⟩ := h [segment] (by simp) (by simp) (by simp)
      obtain ⟨array, sub, hslot⟩ := container_of_dir hk hxs
      refine ⟨k, array, sub, hk, hslot, (ih sub).mpr fun q hq hne hproper => ?_⟩
      obtain ⟨ys, hys⟩ := h (segment :: q) (List.cons_prefix_cons.mpr ⟨rfl, hq⟩) (by simp)
        fun heq => hproper (List.cons.inj heq).2
      unfold dir at hys
      rw [hk] at hys
      simp only [bind, Except.bind, hslot] at hys
      cases q with
      | nil => exact absurd rfl hne
      | cons s' q => exact ⟨ys, hys⟩

end Tree

/-! ## Which values are read back as they are -/

mutual
/-- Nothing in the value is lost when it is stored: no list with elements, which comes back as
an object, and no string that is not well formed. -/
def readsBack : Json → Bool
  | .str s => toWellFormed s = s
  | .arr xs => xs = []
  | .obj kvs => propsReadBack kvs
  | _ => true

/-- Each property is read back. -/
def propsReadBack : List (JsString × Json) → Bool
  | [] => true
  | (_, v) :: kvs => readsBack v && propsReadBack kvs
end

/-- The values have the keys of the children. -/
lemma childValues_keys (cs : Children) : (childValues cs).map Prod.fst = cs.map Prod.fst := by
  induction cs with
  | nil => rfl
  | cons kt cs ih => rw [childValues, List.map_cons, List.map_cons, ih]

mutual
/-- Every JSON value can be stored; what is read then is the value if and only if nothing in it
is lost. -/
theorem value_ofValue_iff : ∀ j : Json, j.canonical = true →
    ∃ t, Tree.ofValue (.ofJson j) = .ok t ∧ (t.value = .ofJson j ↔ readsBack j = true)
  | .null, _ => ⟨_, rfl, by simp [Tree.value, AnyValue.jsonRound, AnyValue.toJson, readsBack,
      AnyValue.ofJson]⟩
  | .bool b, _ => ⟨_, rfl, by simp [Tree.value, AnyValue.jsonRound, AnyValue.toJson, readsBack,
      AnyValue.ofJson]⟩
  | .num d, _ => ⟨_, rfl, by simp [Tree.value, AnyValue.jsonRound, AnyValue.toJson, readsBack,
      AnyValue.ofJson]⟩
  | .str s, _ => by
    refine ⟨_, rfl, ?_⟩
    rw [Tree.value, bufferToString_bufferFrom]
    simp [AnyValue.ofJson, readsBack]
  | .arr [], _ => ⟨_, rfl, by simp [Tree.value, AnyValue.jsonRound, AnyValue.toJson, readsBack,
      AnyValue.ofJson, elementsOfJson, elementsToJson]⟩
  | .arr (x :: xs), h => by
    obtain ⟨cs, hcs⟩ := ofElements_ofJson (x :: xs) 0 [] h
    refine ⟨.node false cs, ?_, by simp [Tree.value, AnyValue.ofJson, readsBack]⟩
    rw [AnyValue.ofJson, elementsOfJson, Tree.ofValue, ← elementsOfJson, hcs]
    rfl
  | .obj [], _ => ⟨_, rfl, by simp [Tree.value, AnyValue.jsonRound, AnyValue.toJson, readsBack,
      AnyValue.ofJson, propsOfJson, propsToJson, propsReadBack]⟩
  | .obj ((k, v) :: kvs), h => by
    rw [Json.canonical, Bool.and_eq_true] at h
    obtain ⟨cs, hcs, hkeys, hvalues⟩ := ofProps_ofJson ((k, v) :: kvs) [] (by simp) h.1 h.2
    refine ⟨.node false cs, ?_, ?_⟩
    · rw [AnyValue.ofJson, propsOfJson, Tree.ofValue, ← propsOfJson, hcs]
      rfl
    · have hordered : orderedKeys (childValues cs) = true := by
        rw [orderedKeys_congr ((childValues_keys cs).trans hkeys)]
        exact h.1
      rw [Tree.value, ofEntries_of_ordered hordered, AnyValue.ofJson, readsBack, ← hvalues]
      simp

/-- Elements that come from JSON become children. -/
theorem ofElements_ofJson : ∀ (xs : List Json) (i : ℕ) (cs : Children),
    canonicalList xs = true → ∃ cs', ofElements i (elementsOfJson xs) cs = .ok cs'
  | [], _, cs, _ => ⟨cs, rfl⟩
  | x :: xs, i, cs, h => by
    rw [canonicalList, Bool.and_eq_true] at h
    obtain ⟨t, ht, -⟩ := value_ofValue_iff x h.1
    rw [elementsOfJson, ofElements, ht]
    exact ofElements_ofJson xs (i + 1) _ h.2

/-- Properties that come from JSON become children with their keys, and values that are read back.
-/
theorem ofProps_ofJson : ∀ (kvs : List (JsString × Json)) (cs : Children),
    (∀ x ∈ cs, ∀ y ∈ kvs, precedes x.1 y.1 = true) → orderedKeys kvs = true →
    canonicalProps kvs = true →
    ∃ ts, ofProps (propsOfJson kvs) cs = .ok (cs ++ ts) ∧ ts.map Prod.fst = kvs.map Prod.fst ∧
      (childValues ts = propsOfJson kvs ↔ propsReadBack kvs = true)
  | [], cs, _, _, _ => ⟨[], by rw [List.append_nil]; rfl, rfl, by simp [childValues, propsOfJson,
      propsReadBack]⟩
  | (k, v) :: kvs, cs, hcs, hordered, hcan => by
    rw [canonicalProps, Bool.and_eq_true] at hcan
    obtain ⟨hk, hordered⟩ := ordered_cons.mp hordered
    obtain ⟨t, ht, hvalue⟩ := value_ofValue_iff v hcan.1
    have hprec : ∀ x ∈ cs ++ [(k, t)], ∀ y ∈ kvs, precedes x.1 y.1 = true := by
      intro x hx y hy
      rcases List.mem_append.mp hx with hx | hx
      · exact hcs x hx y (List.mem_cons_of_mem _ hy)
      · rw [List.mem_singleton.mp hx]
        exact hk y hy
    obtain ⟨ts, hts, hkeys, hvalues⟩ := ofProps_ofJson kvs _ hprec hordered hcan.2
    refine ⟨(k, t) :: ts, ?_, by simp [hkeys], ?_⟩
    · rw [propsOfJson, ofProps, ht]
      simp only [bind, Except.bind]
      rw [setProp_of_precedes t fun x hx => hcs x hx (k, v) (by simp), hts, List.append_assoc]
      rfl
    · rw [childValues, propsOfJson, propsReadBack, Bool.and_eq_true, ← hvalue, ← hvalues]
      simp
end

end PointNetwork.HostStorage
