import PointNetwork.HostStorage.ApiTheorems

/-!
# Operations on lists

Lists are meant to be stored by `set` and built by `append`. But `set` stores a list with elements
as an object, `append` and its siblings work on nothing but an empty list, out of which they make a
container that holds this list, and all containers are read as objects.

* `Tree.get_arr`: no list with elements is ever read;
* `Tree.get_update`: what is read where an update has succeeded;
* `ListAt`: the lists that were stored by `set` and built by `append`;
* `list_operations_never`: no operation on them gives the list it should.
-/

namespace PointNetwork.HostStorage

open Js Machine

/-! ## What is read -/

namespace Tree

variable {σ : Type} {env : Env σ} {strict : Prop}

/-- The lists that are read are empty. -/
theorem get_arr : ∀ (path : List Segment) {cs : Children} {tracker : HostStorageTracker}
    {ys : List AnyValue}, RepTracker env strict cs tracker → get path cs = .ok (.arr ys) → ys = []
  | [], _, _, _, _, h => by cases h
  | segment :: rest, cs, tracker, ys, hrep, h => by
    unfold get at h
    rcases bind_ok h with ⟨k, -, h⟩
    rcases load_slot hrep k with ⟨tracker', -, -, hslot⟩
    revert hslot h
    generalize treeSlot cs k = ts
    generalize slot tracker'.items k = s
    intro h hslot
    cases rest with
    | cons segment' rest =>
      cases hslot with
      | container hsub => exact get_arr (segment' :: rest) hsub.toRepTracker h
      | _ => cases h
    | nil =>
      cases hslot with
      | literal hok _ => exact hok.jsonRound.arr_nil ys (Except.ok.inj h)
      | _ => cases h

/-- Where an update has succeeded, what the leaf operation has left is read. -/
theorem get_update {blocked : TreeSlot → Exception}
    {leaf : JsString → Children → Except Exception Children} :
    ∀ {path : List Segment} {cs cs' : Children}, update blocked leaf path cs = .ok cs' →
      ∃ k sub sub', leaf k sub = .ok sub' ∧
        ∀ rest, get (path ++ rest) cs' = get (.str k :: rest) sub'
  | [], _, _, h => by cases h
  | segment :: path, cs, cs', h => by
    rcases update_cases h with ⟨k, hk, ⟨rfl, hleaf⟩ | ⟨hne, array, sub, sub', -, hsub, rfl⟩⟩
    · refine ⟨k, cs, cs', hleaf, fun rest => ?_⟩
      rw [List.singleton_append, get, hk, get]
      rfl
    · rcases get_update hsub with ⟨k', below, below', hleaf, hget⟩
      refine ⟨k', below, below', hleaf, fun rest => ?_⟩
      rw [← hget, List.cons_append, get, hk]
      simp only [bind, Except.bind, treeSlot_setProp_self]
      cases path with
      | nil => exact absurd rfl hne
      | cons segment' path => rfl

/-- What is under the keys. -/
def subtree : List JsString → Tree → Option Tree
  | [], t => some t
  | k :: ks, .node _ cs => (cs.lookup k).bind (subtree ks)
  | _ :: _, _ => none

/-- The path reads as what is under its keys. -/
lemma get_subtree : ∀ {ks : List JsString} {rest : List Segment} {k : JsString} {t t' : Tree}
    {cs : Children}, treeSlot cs k = .own t → t.subtree ks = some t' →
      rest.map Segment.key = ks.map .ok → get (.str k :: rest) cs = .ok t'.value
  | [], [], k, t, t', cs, hslot, ht, _ => by
    cases ht
    unfold get
    simp only [Segment.key, bind, Except.bind, pure, Except.pure, hslot]
  | l :: ks, segment :: rest, k, t, t', cs, hslot, ht, hkeys => by
    rcases List.cons.inj hkeys with ⟨hkey, hkeys⟩
    cases t with
    | node array sub =>
      rcases Option.bind_eq_some_iff.mp ht with ⟨below, hlookup, hbelow⟩
      have hsub : treeSlot sub l = .own below := by
        unfold treeSlot
        rw [hlookup]
      have ih := get_subtree hsub hbelow hkeys
      unfold get at ih ⊢
      simp only [Segment.key, bind, Except.bind, pure, Except.pure, hslot] at ih ⊢
      unfold get
      rw [hkey]
      exact ih
    | _ => cases ht
  | [], _ :: _, _, _, _, _, _, _, hkeys => by cases hkeys
  | _ :: _, [], _, _, _, _, _, _, hkeys => by cases hkeys

/-- A new array is read as an object. -/
theorem get_encArray {withLen : Bool} {path : List Segment} {cs cs' : Children}
    (h : update blockedValue (encArrayLeaf withLen) path cs = .ok cs') :
    ∃ kvs, get path cs' = .ok (.obj kvs) := by
  rcases get_update h with ⟨k, sub, sub', hleaf, hget⟩
  rcases bind_ok hleaf with ⟨children, -, hset⟩
  cases hset
  have hread := hget []
  have hnode : (Tree.node true children).subtree [] = some (.node true children) := rfl
  rw [List.append_nil, get_subtree (treeSlot_setProp_self _ _ _) hnode rfl] at hread
  exact ⟨_, hread⟩

end Tree

/-! ## Parts of a value -/

/-- The elements of a list under their positions. -/
def elementProps {α : Type*} (i : ℕ) : List α → List (JsString × α)
  | [] => []
  | x :: xs => (natText i, x) :: elementProps (i + 1) xs

/-- What is under the keys of a value. -/
def jsonAt : List JsString → Json → Option Json
  | [], j => some j
  | k :: ks, .obj kvs => (kvs.lookup k).bind (jsonAt ks)
  | k :: ks, .arr xs => ((elementProps 0 xs).lookup k).bind (jsonAt ks)
  | _ :: _, _ => none

/-- The elements of an array are properties under their indices. -/
lemma ofElements_eq : ∀ (i : ℕ) (vs : List AnyValue) (cs : Children),
    ofElements i vs cs = ofProps (elementProps i vs) cs
  | _, [], _ => rfl
  | i, v :: vs, cs => by
    rw [ofElements, elementProps, ofProps]
    refine congrArg _ ?_
    funext t
    exact ofElements_eq (i + 1) vs _

lemma elementProps_ofJson : ∀ (i : ℕ) (xs : List Json),
    elementProps i (elementsOfJson xs) = propsOfJson (elementProps i xs)
  | _, [] => rfl
  | i, x :: xs => by
    rw [elementsOfJson, elementProps, elementProps, propsOfJson, elementProps_ofJson (i + 1) xs]

lemma keys_propsOfJson (kvs : List (JsString × Json)) :
    (propsOfJson kvs).map Prod.fst = kvs.map Prod.fst := by
  induction kvs with
  | nil => rfl
  | cons kv kvs ih => rw [propsOfJson, List.map_cons, List.map_cons, ih]

/-- A property is the value of the JSON. -/
lemma lookup_propsOfJson (k : JsString) (kvs : List (JsString × Json)) :
    (propsOfJson kvs).lookup k = (kvs.lookup k).map .ofJson := by
  induction kvs with
  | nil => rfl
  | cons kv kvs ih =>
    rw [propsOfJson, lookup_cons_eq, lookup_cons_eq, ih]
    split <;> rfl

/-- The positions of elements differ. -/
lemma nodup_elementProps {α : Type*} : ∀ (i : ℕ) (xs : List α),
    ((elementProps i xs).map Prod.fst).Nodup ∧
      ∀ k ∈ (elementProps i xs).map Prod.fst, ∃ n, i ≤ n ∧ k = natText n
  | _, [] => ⟨List.nodup_nil, by simp [elementProps]⟩
  | i, x :: xs => by
    rcases nodup_elementProps (i + 1) xs with ⟨hnodup, hkeys⟩
    refine ⟨List.nodup_cons.mpr ⟨?_, hnodup⟩, ?_⟩
    · intro hmem
      rcases hkeys _ hmem with ⟨n, hn, heq⟩
      have := natText_inj.mp heq
      omega
    · intro k hk
      rcases List.mem_cons.mp hk with rfl | hk
      · exact ⟨i, le_rfl, rfl⟩
      · rcases hkeys k hk with ⟨n, hn, heq⟩
        exact ⟨n, by omega, heq⟩

/-- Each property is stored under its key. -/
lemma lookup_ofProps (k : JsString) : ∀ {kvs : List (JsString × AnyValue)} {cs cs' : Children},
    (kvs.map Prod.fst).Nodup → ofProps kvs cs = .ok cs' →
      (k ∉ kvs.map Prod.fst → cs'.lookup k = cs.lookup k) ∧
        ∀ v, kvs.lookup k = some v → ∃ t, cs'.lookup k = some t ∧ Tree.ofValue v = .ok t
  | [], cs, cs', _, h => by
    cases h
    exact ⟨fun _ => rfl, fun v hv => by cases hv⟩
  | (l, w) :: kvs, cs, cs', hnodup, h => by
    rcases List.nodup_cons.mp hnodup with ⟨hl, hnodup⟩
    rw [ofProps] at h
    rcases bind_ok h with ⟨t, ht, h⟩
    rcases lookup_ofProps k hnodup h with ⟨hother, hkey⟩
    refine ⟨?_, ?_⟩
    · intro hk
      have hne : k ≠ l := fun heq => hk (heq ▸ List.mem_cons_self)
      rw [hother fun hmem => hk (List.mem_cons_of_mem _ hmem), lookup_setProp_ne hne]
    · intro v hv
      rw [lookup_cons_eq] at hv
      split at hv
      · rename_i heq
        cases hv
        subst heq
        exact ⟨t, by rw [hother hl, lookup_setProp_self], ht⟩
      · exact hkey v hv

/-- Each property of a value that can be read back can be. -/
lemma canonical_of_lookup {k : JsString} {v : Json} : ∀ {kvs : List (JsString × Json)},
    canonicalProps kvs = true → kvs.lookup k = some v → v.canonical = true
  | (l, w) :: kvs, hkvs, h => by
    rw [canonicalProps, Bool.and_eq_true] at hkvs
    rw [lookup_cons_eq] at h
    split at h
    · cases h
      exact hkvs.1
    · exact canonical_of_lookup hkvs.2 h

lemma canonicalProps_elementProps : ∀ (i : ℕ) {xs : List Json}, canonicalList xs = true →
    canonicalProps (elementProps i xs) = true
  | _, [], _ => rfl
  | i, x :: xs, h => by
    rw [canonicalList, Bool.and_eq_true] at h
    rw [elementProps, canonicalProps, h.1, canonicalProps_elementProps (i + 1) h.2]
    rfl

/-- What is under the first key is stored under it. -/
lemma subtree_ofProps {k : JsString} {ks : List JsString} {kvs : List (JsString × Json)}
    {cs : Children} {j' : Json} (hnodup : (kvs.map Prod.fst).Nodup)
    (hkvs : canonicalProps kvs = true) (hcs : ofProps (propsOfJson kvs) [] = .ok cs)
    (h : (kvs.lookup k).bind (jsonAt ks) = some j')
    (ih : ∀ v t, v.canonical = true → Tree.ofValue (.ofJson v) = .ok t → jsonAt ks v = some j' →
      ∃ t', t.subtree ks = some t' ∧ Tree.ofValue (.ofJson j') = .ok t') :
    ∃ t', (cs.lookup k).bind (Tree.subtree ks) = some t' ∧ Tree.ofValue (.ofJson j') = .ok t' := by
  rcases Option.bind_eq_some_iff.mp h with ⟨v, hv, hat⟩
  have hprops := lookup_ofProps k (by rwa [keys_propsOfJson]) hcs
  have hlookup : (propsOfJson kvs).lookup k = some (.ofJson v) := by
    rw [lookup_propsOfJson, hv]
    rfl
  rcases hprops.2 _ hlookup with ⟨t, ht, hstored⟩
  rcases ih v t (canonical_of_lookup hkvs hv) hstored hat with ⟨t', hat', hstored'⟩
  refine ⟨t', ?_, hstored'⟩
  rw [ht]
  exact hat'

/-- A part of a value is stored under its keys. -/
theorem subtree_ofValue : ∀ {ks : List JsString} {j j' : Json} {t : Tree}, j.canonical = true →
    Tree.ofValue (.ofJson j) = .ok t → jsonAt ks j = some j' →
      ∃ t', t.subtree ks = some t' ∧ Tree.ofValue (.ofJson j') = .ok t'
  | [], _, _, t, _, ht, h => by
    cases h
    exact ⟨t, rfl, ht⟩
  | k :: ks, .obj (kv :: kvs), j', t, hj, ht, h => by
    rw [Json.canonical, Bool.and_eq_true] at hj
    rw [AnyValue.ofJson, propsOfJson, Tree.ofValue, ← propsOfJson] at ht
    rcases bind_ok ht with ⟨cs, hcs, hnode⟩
    cases hnode
    exact subtree_ofProps (nodup_of_ordered hj.1) hj.2 hcs h fun _ _ => subtree_ofValue
  | k :: ks, .arr (x :: xs), j', t, hj, ht, h => by
    rw [Json.canonical] at hj
    rw [AnyValue.ofJson, elementsOfJson, Tree.ofValue, ← elementsOfJson, ofElements_eq,
      elementProps_ofJson] at ht
    rcases bind_ok ht with ⟨cs, hcs, hnode⟩
    cases hnode
    exact subtree_ofProps (nodup_elementProps 0 (x :: xs)).1 (canonicalProps_elementProps 0 hj) hcs h
      fun _ _ => subtree_ofValue
  | _ :: _, .obj [], _, _, _, _, h => by cases h
  | _ :: _, .arr [], _, _, _, _, h => by cases h

/-- A list with elements is read as an object, wherever it is in a value that was set. -/
theorem Tree.get_set_arr {j x : Json} {xs : List Json} {ks : List JsString}
    {path rest : List Segment} {cs cs' : Children} (hj : j.canonical = true)
    (hat : jsonAt ks j = some (.arr (x :: xs))) (hkeys : rest.map Segment.key = ks.map .ok)
    (h : Tree.set path (.ofJson j) cs = .ok cs') :
    ∃ kvs, Tree.get (path ++ rest) cs' = .ok (.obj kvs) := by
  rcases Tree.get_update h with ⟨k, sub, sub', hleaf, hget⟩
  rcases bind_ok hleaf with ⟨t, ht, hset⟩
  cases hset
  rcases subtree_ofValue hj ht hat with ⟨t', hat', hstored⟩
  rw [AnyValue.ofJson, elementsOfJson, Tree.ofValue] at hstored
  rcases bind_ok hstored with ⟨children, -, hnode⟩
  cases hnode
  rw [hget, Tree.get_subtree (Tree.treeSlot_setProp_self _ _ _) hat' hkeys]
  exact ⟨_, rfl⟩

/-! ## Lists -/

/-- An operation on a list. -/
inductive ListOp
  | append (v : Json)
  | insertAt (i : ℕ) (v : Json)
  | removeAt (i : ℕ)
  | replaceAt (i : ℕ) (v : Json)

/-- The positions of an operation are those of the list. -/
def ListOp.Valid (xs : List Json) : ListOp → Prop
  | .append _ => True
  | .insertAt i _ => i ≤ xs.length
  | .removeAt i | .replaceAt i _ => i < xs.length

/-- What the operation is to do. -/
def ListOp.apply (xs : List Json) : ListOp → List Json
  | .append v => xs ++ [v]
  | .insertAt i v => xs.insertIdx i v
  | .removeAt i => xs.eraseIdx i
  | .replaceAt i v => xs.set i v

/-- An index as a segment of a path. -/
def indexSegment (i : ℕ) : Segment := .num (.fin (.ofInt i))

/-- The arguments of `hostStorageModify` for the operation. -/
def ListOp.modify (host : JsString) (path : List Segment) : ListOp → Modify
  | .append v => { host, path, value := .ofJson v, type := .append }
  | .insertAt i v => { host, path, value := .ofJson v, type := .insertAt, index := indexSegment i }
  | .removeAt i => { host, path, value := .undefined, type := .removeAt, index := indexSegment i }
  | .replaceAt i v => { host, path, value := .ofJson v, type := .replaceAt, index := indexSegment i }

section

variable {σ : Type} (env : Env σ) (seed : σ) (host : JsString) (path : List Segment)

/-- The event changes nothing at the path. -/
def Event.apart (path : List Segment) : Event → Prop
  | .modify _ m => Tree.Incomparable m.fullPath path
  | _ => True

/-- The list was stored at the path by `set`, by itself or as a part of a value, and elements were
appended to it since; other events are apart from the path. -/
inductive ListAt : List Json → HostState σ → Prop
  | set {j : Json} {at₀ rest : List Segment} {ks : List JsString} {xs : List Json} {st : HostState σ}
      (hst : Reach (step env) (Succeeding env) ⟨seed, [], []⟩ st) (hj : j.canonical = true)
      (hpath : path = at₀ ++ rest) (hkeys : rest.map Segment.key = ks.map .ok)
      (hlist : jsonAt ks j = some (.arr xs))
      (hgood : UploadsGood env st (.modify false (setModify host at₀ j)))
      (hok : (hostStorageModify env false (setModify host at₀ j) st).1 = .ok ()) :
      ListAt xs (hostStorageModify env false (setModify host at₀ j) st).2
  | append {xs : List Json} {st : HostState σ} (v : Json) (h : ListAt xs st)
      (hgood : UploadsGood env st (.modify false ((ListOp.append v).modify host path)))
      (hok : (hostStorageModify env false ((ListOp.append v).modify host path) st).1 = .ok ()) :
      ListAt (xs ++ [v]) (hostStorageModify env false ((ListOp.append v).modify host path) st).2
  | keep {xs : List Json} {st st' : HostState σ} {e : Event} (h : ListAt xs st)
      (hok : Succeeding env st e) (hapart : e.apart (prependPath host path))
      (hs : step env st e = some st') : ListAt xs st'

end

section

variable {σ : Type} {env : Env σ} {seed : σ} {host : JsString} {path : List Segment}
  {st st' : HostState σ} {xs : List Json}

/-- An event that succeeds is allowed. -/
lemma Succeeding.allowed {e : Event} (h : Succeeding env st e) : Allowed env st e := by
  refine ⟨h.1, ?_⟩
  cases e with
  | read => trivial
  | modify rootFails m => exact fun hfails => absurd (h.2.symm.trans hfails) Bool.false_ne_true
  | sync => exact h.2

/-- The state stands for a tree in which the path is read as an object. -/
def ReadsObject (env : Env σ) (path : List Segment) (st : HostState σ) : Prop :=
  ∃ cs, Represents env cs st ∧ ∃ kvs, Tree.get path cs = .ok (.obj kvs)

/-- An operation that makes a new array leaves an object, or what was there. -/
theorem modify_encArray {m : Modify} {cs : Children} (withLen : Bool) (h : Represents env cs st)
    (hgood : UploadsGood env st (.modify false m))
    (hm : ∀ cs', Tree.modify m cs = .ok cs' →
      Tree.update Tree.blockedValue (Tree.encArrayLeaf withLen) m.fullPath cs = .ok cs') :
    ReadsObject env m.fullPath (hostStorageModify env false m st).2 ∨
      (hostStorageModify env false m st).1 ≠ .ok () ∧
        Represents env cs (hostStorageModify env false m st).2 := by
  rcases hostStorageModify_rep h.getRoot.1 hgood with ⟨e, -, herror, hlocal⟩ | ⟨cs', hcs', -, hfile⟩
  · refine Or.inr ⟨?_, h.of_ids hlocal (hostStorageModify_remoteFileId _ _ _)⟩
    simp [herror]
  · exact Or.inl ⟨cs', .localId hfile, Tree.get_encArray (hm cs' hcs')⟩

/-- An event that is apart from a path changes nothing that is read there. -/
lemma Represents.apart {cs : Children} {e : Event} {q : List Segment} (h : Represents env cs st)
    (hok : Succeeding env st e) (hapart : e.apart q) (hs : step env st e = some st') :
    ∃ cs', Represents env cs' st' ∧ Tree.get q cs' = Tree.get q cs := by
  rcases allowed_step h hok.allowed hs with ⟨cs', hcs', -, -, rfl | ⟨rootFails, m, rfl, -, hmodify⟩⟩
  · exact ⟨cs', hcs', rfl⟩
  · exact ⟨cs', hcs', (Tree.walks_get.same q (Tree.modify_same hmodify hapart)).symm⟩

/-- A list that was stored is read as an object if it has elements. -/
theorem ListAt.readsObject (h : ListAt env seed host path xs st) :
    (∃ cs, Represents env cs st) ∧
      (xs ≠ [] → ReadsObject env (prependPath host path) st) := by
  induction h with
  | @set j at₀ rest ks xs st hst hj hpath hkeys hlist hgood hok =>
    rcases reach_represents hst with ⟨cs, hcs⟩
    rcases hostStorageModify_rep hcs.getRoot.1 hgood with ⟨e, -, herror, -⟩ | ⟨cs', hcs', -, hfile⟩
    · rw [hok] at herror
      cases herror
    · refine ⟨⟨cs', .localId hfile⟩, fun hne => ⟨cs', .localId hfile, ?_⟩⟩
      rw [tree_modify_set] at hcs'
      cases xs with
      | nil => exact absurd rfl hne
      | cons x xs =>
        rw [hpath]
        exact Tree.get_set_arr hj hlist hkeys hcs'
  | @append xs st v _ hgood hok ih =>
    rcases ih.1 with ⟨cs, hcs⟩
    rcases modify_encArray true hcs hgood (fun _ h => h) with hobj | ⟨hfails, -⟩
    · exact ⟨⟨hobj.choose, hobj.choose_spec.1⟩, fun _ => hobj⟩
    · exact absurd hok hfails
  | @keep xs st st' e _ hok hapart hs ih =>
    rcases ih with ⟨⟨cs, hcs⟩, hobj⟩
    rcases hcs.apart hok hapart hs with ⟨cs', hcs', -⟩
    refine ⟨⟨cs', hcs'⟩, fun hne => ?_⟩
    rcases hobj hne with ⟨cs, hcs, kvs, hget⟩
    rcases hcs.apart hok hapart hs with ⟨cs', hcs', hsame⟩
    exact ⟨cs', hcs', kvs, hsame.trans hget⟩

/-! ## No operation gives its list -/

/-- A list with elements is read in no state. -/
lemma not_getReturns_arr {cs : Children} (h : Represents env cs st) {ys : List Json}
    (hys : ys ≠ []) : ¬ GetReturns env host path st (.ok (.ofJson (.arr ys))) := by
  intro hget
  have hreads := Reads.unique (h.reads host path).1 hget
  have hnil := Tree.get_arr _ h.getRoot.2 hreads
  cases ys with
  | nil => exact hys rfl
  | cons y ys => simp [elementsOfJson] at hnil

/-- Where an object is read no array is. -/
lemma ReadsObject.not_getReturns_arr (h : ReadsObject env (prependPath host path) st)
    (ys : List Json) : ¬ GetReturns env host path st (.ok (.ofJson (.arr ys))) := by
  rcases h with ⟨cs, hcs, kvs, hobj⟩
  intro hget
  have hreads := Reads.unique (hcs.reads host path).1 hget
  rw [hobj] at hreads
  simp [AnyValue.ofJson] at hreads

/-- A state that stands for a tree does so after a call. -/
lemma Represents.modify {cs : Children} {m : Modify} (h : Represents env cs st)
    (hgood : UploadsGood env st (.modify false m)) :
    ∃ cs', Represents env cs' (hostStorageModify env false m st).2 := by
  rcases allowed_step h (Succeeding.allowed ⟨hgood, rfl⟩) rfl with ⟨cs', hcs', -⟩
  exact ⟨cs', hcs'⟩

/-- Of no list that was stored at a path in any state, and with no value and position, is the
appending, inserting, removing or replacing of an element followed by a `get` of the list that it
should be; nor is appending where there is nothing followed by a `get` of the list of the value. -/
theorem list_operations_never (env : Env σ) (seed : σ) (host : JsString) (path : List Segment) :
    (∀ (xs : List Json) (st : HostState σ) (op : ListOp),
      ListAt env seed host path xs st → op.Valid xs →
      UploadsGood env st (.modify false (op.modify host path)) →
      ¬ GetReturns env host path (hostStorageModify env false (op.modify host path) st).2
        (.ok (.ofJson (.arr (op.apply xs))))) ∧
    ∀ (st : HostState σ) (v : Json), Reach (step env) (Succeeding env) ⟨seed, [], []⟩ st →
      GetReturns env host path st (.ok .undefined) →
      UploadsGood env st (.modify false ((ListOp.append v).modify host path)) →
      ¬ GetReturns env host path
        (hostStorageModify env false ((ListOp.append v).modify host path) st).2
        (.ok (.ofJson (.arr [v]))) := by
  constructor
  · intro xs st op hlist hvalid hgood
    rcases hlist.readsObject with ⟨⟨cs, hcs⟩, hobj⟩
    rcases hcs.modify hgood with ⟨cs', hcs'⟩
    cases op with
    | append v => exact not_getReturns_arr hcs' (by simp [ListOp.apply])
    | insertAt i v =>
      refine not_getReturns_arr hcs' ?_
      intro hnil
      have hlength := congrArg List.length hnil
      rw [ListOp.apply, List.length_insertIdx_of_le_length hvalid, List.length_nil] at hlength
      omega
    | removeAt i =>
      -- the list that is left may be empty, but an object was there, and an object is there
      have hne : xs ≠ [] := List.ne_nil_of_length_pos (Nat.zero_lt_of_lt hvalid)
      rcases hobj hne with ⟨cs, hcs, hget⟩
      refine ReadsObject.not_getReturns_arr ?_ _
      rcases modify_encArray true hcs hgood (fun _ h => h) with hobj | ⟨-, hsame⟩
      · exact hobj
      · exact ⟨cs, hsame, hget⟩
    | replaceAt i v =>
      refine not_getReturns_arr hcs' ?_
      intro hnil
      have hlength := congrArg List.length hnil
      have hvalid : i < xs.length := hvalid
      rw [ListOp.apply, List.length_set, List.length_nil] at hlength
      omega
  · intro st v hst _ hgood
    rcases reach_represents hst with ⟨cs, hcs⟩
    rcases hcs.modify hgood with ⟨cs', hcs'⟩
    exact not_getReturns_arr hcs' (by simp)

/-- A host is set to an object with a list of one number. -/
def setList : Modify :=
  setModify (js "h") [] (.obj [(js "a", .arr [.num (.ofInt 1)])])

/-- A number is appended under a key. -/
def appendTwo (k : String) : Modify :=
  (ListOp.append (.num (.ofInt 2))).modify (js "h") [.str (js k)]

/-- The uploads of a run that sets a list and appends to it. -/
def listEnv : Env ℕ :=
  .ofRun [.modify false setList, .modify false (appendTwo "a"), .modify false (appendTwo "c")]

/-- The state with the list. -/
def storedList : HostState ℕ := (hostStorageModify listEnv false setList ⟨0, [], []⟩).2

lemma setList_good : Succeeding listEnv ⟨0, [], []⟩ (.modify false setList) ∧
    (hostStorageModify listEnv false setList ⟨0, [], []⟩).1 = .ok () := by
  decide +kernel

lemma listAt_storedList :
    ListAt listEnv 0 (js "h") [.str (js "a")] [.num (.ofInt 1)] storedList := by
  have hlist : jsonAt [js "a"] (.obj [(js "a", .arr [.num (.ofInt 1)])]) =
      some (.arr [.num (.ofInt 1)]) := by decide +kernel
  exact .set .init rfl (List.nil_append _).symm rfl hlist setList_good.1.1 setList_good.2

theorem list_operations_never_two :
    (¬ GetReturns listEnv (js "h") [.str (js "a")]
      (hostStorageModify listEnv false (appendTwo "a") storedList).2
      (.ok (.ofJson (.arr [.num (.ofInt 1), .num (.ofInt 2)])))) ∧
    ¬ GetReturns listEnv (js "h") [.str (js "c")]
      (hostStorageModify listEnv false (appendTwo "c") storedList).2
      (.ok (.ofJson (.arr [.num (.ofInt 2)]))) := by
  have hgood : UploadsGood listEnv storedList (.modify false (appendTwo "a")) ∧
      UploadsGood listEnv storedList (.modify false (appendTwo "c")) ∧
      hostStorageGet listEnv 2 false (js "h") [.str (js "c")] storedList = .ok .undefined := by
    decide +kernel
  constructor
  · exact (list_operations_never listEnv 0 (js "h") [.str (js "a")]).1 _ _
      (.append (.num (.ofInt 2))) listAt_storedList trivial hgood.1
  · exact (list_operations_never listEnv 0 (js "h") [.str (js "c")]).2 _ (.num (.ofInt 2))
      (Reach.init.step setList_good.1 rfl) (Reads.of_get hgood.2.2) hgood.2.1

/-- After a list of one number was set at a key, appending throws and the object `{0: 1}` is read;
appending at a key that is not there throws and nothing is read. -/
theorem append_loses_list :
    (hostStorageModify listEnv false (appendTwo "a") storedList).1 =
        .error (.displayable "Invalid tracker item type for append") ∧
      GetReturns listEnv (js "h") [.str (js "a")]
        (hostStorageModify listEnv false (appendTwo "a") storedList).2
        (.ok (.obj [(js "0", .num (.fin (.ofInt 1)))])) ∧
      (hostStorageModify listEnv false (appendTwo "c") storedList).1 = .error .typeError ∧
      GetReturns listEnv (js "h") [.str (js "c")]
        (hostStorageModify listEnv false (appendTwo "c") storedList).2 (.ok .undefined) := by
  have h : (hostStorageModify listEnv false (appendTwo "a") storedList).1 =
        .error (.displayable "Invalid tracker item type for append") ∧
      hostStorageGet listEnv 2 false (js "h") [.str (js "a")]
        (hostStorageModify listEnv false (appendTwo "a") storedList).2 =
        .ok (.obj [(js "0", .num (.fin (.ofInt 1)))]) ∧
      (hostStorageModify listEnv false (appendTwo "c") storedList).1 = .error .typeError ∧
      hostStorageGet listEnv 2 false (js "h") [.str (js "c")]
        (hostStorageModify listEnv false (appendTwo "c") storedList).2 = .ok .undefined := by
    decide +kernel
  exact ⟨h.1, Reads.of_get h.2.1, h.2.2.1, Reads.of_get h.2.2.2⟩

end

end PointNetwork.HostStorage
