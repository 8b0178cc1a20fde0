import PointNetwork.HostStorage.Refinement
import PointNetwork.HostStorage.TreeTheorems

/-!
# Reading a tracker

* `get_rep`, `dir_rep`, `len_rep`: reading a tracker gives what its tree gives. `get` needs fuel
  for the depth of the tree;
* `hasKey_rep`: a tracker has the keys of its tree;
* `RepTracker.of_download`: what a download gives holds literals as JSON reads them, whatever
  the tracker that was uploaded held in memory.
-/

namespace PointNetwork.HostStorage

open Js

section

variable {σ : Type} {env : Env σ} {strict : Prop} {cs : Children}
  {tracker : HostStorageTracker}

/-! ## Literals of downloaded trackers -/

/-- The items that are read from JSON. -/
lemma itemOfJson_cases {j : Json} {item : Item} (h : itemOfJson j = some item) :
    (∃ v, item = .literal v ∧ v.jsonRound = v) ∨ (∃ buffer f, item = .file buffer f) ∨
      ∃ array f, item = .unloaded array f := by
  cases j with
  | obj kvs =>
    simp only [itemOfJson] at h
    split at h
    · rename_i t _
      by_cases ht : t = js "L"
      · rw [if_pos ht] at h
        refine Or.inl ⟨_, (Option.some.inj h).symm, ?_⟩
        cases kvs.lookup (js "v") with
        | none => rfl
        | some v => exact jsonRound_ofJson v
      · rw [if_neg ht] at h
        obtain ⟨f, -, hf⟩ := Option.bind_eq_some_iff.mp h
        split_ifs at hf
        · exact Or.inr (Or.inl ⟨false, f, (Option.some.inj hf).symm⟩)
        · exact Or.inr (Or.inl ⟨true, f, (Option.some.inj hf).symm⟩)
        · exact Or.inr (Or.inr ⟨false, f, (Option.some.inj hf).symm⟩)
        · exact Or.inr (Or.inr ⟨true, f, (Option.some.inj hf).symm⟩)
    · cases h
  | _ => cases h

mutual
/-- An item read from JSON holds literals as JSON reads them. By induction on the tree: the file
of a container is read from JSON again. -/
theorem rep_of_json : ∀ (t : Tree) {j : Json} {item : Item}, itemOfJson j = some item →
    Rep env strict t item → Rep env True t item
  | .literal w, j, item, hj, h => by
    rcases itemOfJson_cases hj with ⟨v, rfl, hv⟩ | ⟨buffer, f, rfl⟩ | ⟨array, f, rfl⟩
    · exact ⟨h.1, h.2.1, fun _ => hv⟩
    · exact h.elim
    · exact h.elim
  | .text _, _, .file false _, _, h => h
  | .buffer _, _, .file true _, _, h => h
  | .node array cs, j, item, hj, h => by
    rcases itemOfJson_cases hj with ⟨v, rfl, hv⟩ | ⟨buffer, f, rfl⟩ | ⟨array', f, rfl⟩
    · exact h.elim
    · exact h.elim
    · obtain ⟨harray, kvs, items, hfile, hcan, hread, hrep⟩ := h
      exact ⟨harray, kvs, items, hfile, hcan, hread, repList_of_json cs hread hrep⟩

/-- Items that come from JSON represent plain children. -/
theorem repList_of_json : ∀ (cs : Children) {kvs : List (JsString × Json)}
    {items : List (JsString × Item)}, itemsOfJson kvs = some items →
    RepList env strict cs items → RepList env True cs items
  | [], _, [], _, _ => trivial
  | [], _, _ :: _, _, h => h.elim
  | _ :: _, _, [], _, h => h.elim
  | (k, t) :: cs, [], _ :: _, hread, _ => by cases hread
  | (k, t) :: cs, (k', v) :: kvs, (k'', item) :: items, hread, ⟨hk, hitem, hrest⟩ => by
    simp only [itemsOfJson, Option.bind_eq_bind, Option.bind_eq_some_iff, Option.pure_def,
      Option.some.injEq, List.cons.injEq, Prod.mk.injEq] at hread
    obtain ⟨item', hitem', items', hitems', ⟨-, rfl⟩, rfl⟩ := hread
    exact ⟨hk, rep_of_json t hitem' hitem, repList_of_json cs hitems' hrest⟩
end

/-- A file that holds children holds plain ones. -/
lemma Holds.of_json {f : EncryptedFile} (h : Holds env (RepList env strict cs) f) :
    Holds env (RepList env True cs) f := by
  obtain ⟨kvs, items, hfile, hcan, hread, hrep⟩ := h
  exact ⟨kvs, items, hfile, hcan, hread, repList_of_json cs hread hrep⟩

/-- What is downloaded stands for what was uploaded, its literals as JSON reads them. -/
theorem RepTracker.of_download {f : EncryptedFile} (h : Holds env (RepList env strict cs) f) :
    ∃ tracker, fromDownload env f = .ok tracker ∧ Stored env True cs tracker ∧
      tracker.encFile = some f := by
  obtain ⟨items, hload, hstored⟩ := fromDownload_rep h.of_json
  exact ⟨⟨items, some f⟩, hload, hstored, rfl⟩

/-! ## Slots along a path -/

/-- A slot whose container, if it is one, is loaded. -/
inductive LoadedSlot (env : Env σ) (strict : Prop) : TreeSlot → Slot → Prop
  | absent : LoadedSlot env strict .absent .absent
  | inherited : LoadedSlot env strict .inherited .inherited
  | literal {v : AnyValue} : LiteralOk v → (strict → v.jsonRound = v) →
      LoadedSlot env strict (.own (.literal v.jsonRound)) (.own (.literal v))
  | text {data : Bytes} {f : EncryptedFile} : downloadAndDecryptFile env f = .ok data →
      LoadedSlot env strict (.own (.text data)) (.own (.file false f))
  | buffer {data : Bytes} {f : EncryptedFile} : downloadAndDecryptFile env f = .ok data →
      LoadedSlot env strict (.own (.buffer data)) (.own (.file true f))
  | container {array : Bool} {sub : Children} {items : List (JsString × Item)}
      {encFile : Option EncryptedFile} : Stored env strict sub ⟨items, encFile⟩ →
      LoadedSlot env strict (.own (.node array sub)) (.own (.loaded array items encFile))

/-- A slot that needs no download is represented as it is. -/
lemma SlotRep.loaded {ts : TreeSlot} {s : Slot} (h : SlotRep env strict ts s)
    (hloaded : ∀ array f, s ≠ .own (.unloaded array f)) : LoadedSlot env strict ts s := by
  cases h with
  | absent => exact .absent
  | inherited => exact .inherited
  | @own t item hitem =>
    cases item with
    | unloaded array f => exact absurd rfl (hloaded array f)
    | literal v =>
      cases t with
      | literal w =>
        obtain ⟨rfl, hok, hstrict⟩ := hitem
        exact .literal hok hstrict
      | _ => exact hitem.elim
    | file buffer f =>
      cases t with
      | text data =>
        cases buffer with
        | false => exact .text hitem
        | true => exact hitem.elim
      | buffer data =>
        cases buffer with
        | false => exact hitem.elim
        | true => exact .buffer hitem
      | _ => exact hitem.elim
    | loaded array items encFile =>
      cases t with
      | node array' sub =>
        obtain ⟨rfl, hordered, hitems, hfile⟩ := hitem
        exact .container ⟨⟨hordered, hitems⟩, hfile⟩
      | _ => exact hitem.elim

lemma Stored.rep_node {array : Bool} {items : List (JsString × Item)}
    {encFile : Option EncryptedFile} (h : Stored env strict cs ⟨items, encFile⟩) :
    Rep env strict (.node array cs) (.loaded array items encFile) :=
  ⟨rfl, h.ordered, h.items, h.file⟩

/-- Loading the item under a key. -/
theorem load_slot (h : RepTracker env strict cs tracker) (k : JsString) :
    ∃ tracker', load env k tracker = .ok tracker' ∧ RepTracker env strict cs tracker' ∧
      LoadedSlot env strict (treeSlot cs k) (slot tracker'.items k) := by
  obtain ⟨tracker', hload, hrep, hloaded⟩ := load_rep h k
  exact ⟨tracker', hload, hrep, (hrep.items.slot k).loaded hloaded⟩

/-! ## `dir` and `len` -/

/-- The keys are those of the tree; the induction is on the path. -/
theorem dir_rep : ∀ (path : List Segment) {cs : Children} {tracker : HostStorageTracker},
    RepTracker env strict cs tracker → dir env path tracker = Tree.dir path cs
  | [], _, _, _ => rfl
  | segment :: rest, cs, tracker, h => by
    unfold dir Tree.dir
    cases hkey : segment.key with
    | error e => rfl
    | ok k =>
      obtain ⟨tracker', hload, hrep, hslot⟩ := load_slot h k
      simp only [bind, Except.bind, hload]
      revert hslot
      generalize treeSlot cs k = ts
      generalize slot tracker'.items k = s
      intro hslot
      cases hslot with
      | container hsub =>
        cases rest with
        | nil =>
          have hkeys := congrArg (List.map AnyValue.str) hsub.items.keys
          simp only [List.map_map] at hkeys
          show Except.ok (AnyValue.arr _) = .ok (.arr _)
          exact congrArg (fun xs => Except.ok (AnyValue.arr xs)) hkeys.symm
        | cons segment' rest => exact dir_rep (segment' :: rest) hsub.toRepTracker
      | absent => cases rest <;> rfl
      | inherited => cases rest <;> rfl
      | literal hok _ => cases rest <;> rfl
      | text hfile => cases rest <;> rfl
      | buffer hfile => cases rest <;> rfl

/-- The length is that of the tree; the induction is on the path. -/
theorem len_rep : ∀ (path : List Segment) {cs : Children} {tracker : HostStorageTracker},
    RepTracker env strict cs tracker → len env path tracker = Tree.len path cs
  | [], _, _, _ => rfl
  | segment :: rest, cs, tracker, h => by
    unfold len Tree.len
    cases hkey : segment.key with
    | error e => rfl
    | ok k =>
      obtain ⟨tracker', hload, hrep, hslot⟩ := load_slot h k
      simp only [bind, Except.bind, hload]
      revert hslot
      generalize treeSlot cs k = ts
      generalize slot tracker'.items k = s
      intro hslot
      cases hslot with
      | container hsub =>
        cases rest with
        | nil =>
          have hlength := congrArg List.length hsub.items.keys
          simp only [List.length_map] at hlength
          exact congrArg Except.ok hlength.symm
        | cons segment' rest => exact len_rep (segment' :: rest) hsub.toRepTracker
      | @literal v hok _ =>
        cases rest with
        | cons segment' rest => rfl
        | nil =>
          -- an array in memory is read back as one: it is empty
          cases v with
          | arr xs =>
            obtain rfl := hok.arr_nil xs rfl
            rfl
          | function => exact absurd rfl hok.ne_function
          | num n => cases n <;> rfl
          | _ => rfl
      | absent => cases rest <;> rfl
      | inherited => cases rest <;> rfl
      | text hfile => cases rest <;> rfl
      | buffer hfile => cases rest <;> rfl

/-! ## Keys -/

/-- There is an item under the keys. -/
def hasKey (env : Env σ) : List JsString → HostStorageTracker → Bool
  | [], _ => true
  | k :: rest, tracker =>
    match load env k tracker with
    | .ok tracker =>
      match slot tracker.items k with
      | .own (.loaded _ items encFile) => hasKey env rest ⟨items, encFile⟩
      | .own _ => rest = []
      | _ => false
    | .error _ => false

/-- The keys are there when they are in the tree; the induction is on the path. -/
theorem hasKey_rep : ∀ (ks : List JsString) {cs : Children} {tracker : HostStorageTracker},
    RepTracker env strict cs tracker → hasKey env ks tracker = Tree.has ks cs
  | [], _, _, _ => rfl
  | k :: rest, cs, tracker, h => by
    obtain ⟨tracker', hload, hrep, hslot⟩ := load_slot h k
    unfold hasKey Tree.has
    rw [hload]
    simp only
    revert hslot
    generalize treeSlot cs k = ts
    generalize slot tracker'.items k = s
    intro hslot
    cases hslot with
    | container hsub => exact hasKey_rep rest hsub.toRepTracker
    | _ => rfl

/-! ## `get` -/

mutual
/-- The levels of containers in a subtree. -/
def Tree.depth : Tree → ℕ
  | .node _ cs => childDepth cs + 1
  | _ => 0

/-- The depth of the deepest child. -/
def childDepth : Children → ℕ
  | [] => 0
  | (_, t) :: cs => max t.depth (childDepth cs)
end

lemma toObject_of_mapM {toLiteral : Item → Except Exception AnyValue}
    {items : List (JsString × Item)} {kvs : List (JsString × AnyValue)}
    (h : items.mapM (fun (k, item) => do pure (k, ← toLiteral item)) = Except.ok kvs) :
    toObject toLiteral items = .ok (.obj (ofEntries kvs)) := by
  unfold toObject
  rw [h]
  rfl

mutual
/-- With fuel for the depth of the subtree, an item reads as its value. -/
theorem toLiteral_rep : ∀ (t : Tree) {item : Item} {n : ℕ}, Rep env True t item → t.depth ≤ n →
    toLiteral env n item = .ok t.value
  | .literal w, .literal v, n, h, _ => by
    obtain ⟨rfl, -, hstrict⟩ := h
    rw [toLiteral, Tree.value, hstrict trivial]
    rfl
  | .text data, .file false f, n, h, _ => by
    rw [toLiteral, show downloadAndDecryptFile env f = .ok data from h]
    rfl
  | .buffer data, .file true f, n, h, _ => by
    rw [toLiteral, show downloadAndDecryptFile env f = .ok data from h]
    rfl
  | .node array cs, .unloaded array' f, n + 1, h, hn => by
    obtain ⟨items, hload, hstored⟩ := fromDownload_rep h.2
    rw [toLiteral, hload, Tree.value]
    exact toObject_of_mapM (mapM_rep cs hstored.items (Nat.le_of_succ_le_succ hn))
  | .node array cs, .loaded array' items encFile, n + 1, h, hn => by
    rw [toLiteral, Tree.value]
    exact toObject_of_mapM (mapM_rep cs h.2.2.1 (Nat.le_of_succ_le_succ hn))

/-- The literals of the items are the values of the children. -/
theorem mapM_rep : ∀ (cs : Children) {items : List (JsString × Item)} {n : ℕ},
    RepList env True cs items → childDepth cs ≤ n →
    items.mapM (fun (k, item) => do pure (k, ← toLiteral env n item))
      = Except.ok (childValues cs)
  | [], [], n, _, _ => rfl
  | (k, t) :: cs, (_, item) :: items, n, h, hn => by
    obtain ⟨rfl, hitem, hrest⟩ := h
    rw [childDepth, Nat.max_le] at hn
    rw [List.mapM_cons, mapM_rep cs hrest hn.2]
    simp only [toLiteral_rep t hitem hn.1]
    rfl
end

/-- A child is at most as deep as the deepest. -/
lemma childDepth_of_lookup {k : JsString} {t : Tree} : ∀ {cs : Children},
    cs.lookup k = some t → t.depth ≤ childDepth cs
  | [], h => by cases h
  | (k', t') :: cs, h => by
    rw [lookup_cons_eq] at h
    rw [childDepth]
    by_cases hk : k = k'
    · rw [if_pos hk] at h
      cases h
      exact Nat.le_max_left _ _
    · rw [if_neg hk] at h
      exact (childDepth_of_lookup h).trans (Nat.le_max_right _ _)

lemma childDepth_of_slot {k : JsString} {t : Tree} (h : treeSlot cs k = .own t) :
    t.depth ≤ childDepth cs :=
  childDepth_of_lookup (Tree.lookup_of_slot h)

/-- With fuel for the depth of the tree, `get` gives what the tree holds. -/
theorem get_rep : ∀ (path : List Segment) {cs : Children} {tracker : HostStorageTracker} {n : ℕ},
    RepTracker env True cs tracker → childDepth cs ≤ n →
    get env n path tracker = Tree.get path cs
  | [], _, _, _, _, _ => rfl
  | segment :: rest, cs, tracker, n, h, hn => by
    unfold get Tree.get
    cases hkey : segment.key with
    | error e => rfl
    | ok k =>
      obtain ⟨tracker', hload, hrep, hslot⟩ := load_slot h k
      simp only [bind, Except.bind, hload]
      have hdepth : ∀ t, treeSlot cs k = .own t → t.depth ≤ n := fun t ht =>
        (childDepth_of_slot ht).trans hn
      revert hslot hdepth
      generalize treeSlot cs k = ts
      generalize slot tracker'.items k = s
      intro hslot hdepth
      cases rest with
      | cons segment' rest =>
        -- the path goes on: the item has to be a container
        cases hslot with
        | container hsub =>
          exact get_rep (segment' :: rest) hsub.toRepTracker
            ((Nat.le_succ _).trans (hdepth _ rfl))
        | absent => rfl
        | inherited => rfl
        | literal hok _ => rfl
        | text hfile => rfl
        | buffer hfile => rfl
      | nil =>
        -- the path ends: the item becomes a literal
        cases hslot with
        | absent => rfl
        | inherited => rfl
        | @literal v hok hstrict =>
          have hitem : Rep env True (.literal v.jsonRound) (.literal v) := ⟨rfl, hok, hstrict⟩
          exact toLiteral_rep _ hitem (hdepth _ rfl)
        | @text data f hfile =>
          have hitem : Rep env True (.text data) (.file false f) := hfile
          exact toLiteral_rep _ hitem (hdepth _ rfl)
        | @buffer data f hfile =>
          have hitem : Rep env True (.buffer data) (.file true f) := hfile
          exact toLiteral_rep _ hitem (hdepth _ rfl)
        | container hsub => exact toLiteral_rep _ hsub.rep_node (hdepth _ rfl)

/-- A path reads as `r`: `get` gives `r` with any fuel from some amount on. -/
def Reads (env : Env σ) (tracker : HostStorageTracker) (path : List Segment)
    (r : Except Exception AnyValue) : Prop :=
  ∃ n, ∀ m, n ≤ m → get env m path tracker = r

/-- A path reads as one value. -/
lemma Reads.unique {path : List Segment} {r r' : Except Exception AnyValue}
    (h : Reads env tracker path r) (h' : Reads env tracker path r') : r = r' := by
  obtain ⟨n, hn⟩ := h
  obtain ⟨n', hn'⟩ := h'
  rw [← hn (max n n') (Nat.le_max_left _ _), hn' (max n n') (Nat.le_max_right _ _)]

lemma mapM_ok {α β : Type} {f g : α → Except Exception β}
    (hfg : ∀ a b, f a = .ok b → g a = .ok b) :
    ∀ {xs : List α} {ys : List β}, xs.mapM f = Except.ok ys → xs.mapM g = Except.ok ys
  | [], _, h => h
  | x :: xs, ys, h => by
    rw [List.mapM_cons] at h ⊢
    obtain ⟨y, hy, h⟩ := bind_ok h
    obtain ⟨ys', hys, h⟩ := bind_ok h
    rw [hfg x y hy, mapM_ok hfg hys]
    exact h

/-- More fuel does not change a value that was read. -/
theorem toLiteral_mono : ∀ {n m : ℕ} {item : Item} {v : AnyValue}, n ≤ m →
    toLiteral env n item = .ok v → toLiteral env m item = .ok v
  | _, _, .literal _, _, _, h => by
    rw [toLiteral] at h ⊢
    exact h
  | _, _, .file _ _, _, _, h => by
    rw [toLiteral] at h ⊢
    exact h
  | 0, _, .unloaded _ _, _, _, h => by cases h
  | 0, _, .loaded _ _ _, _, _, h => by cases h
  | n + 1, m + 1, .unloaded _ f, v, hnm, h => by
    rw [toLiteral] at h ⊢
    obtain ⟨sub, hsub, h⟩ := bind_ok h
    obtain ⟨kvs, hkvs, h⟩ := bind_ok h
    rw [hsub, ← h]
    exact toObject_of_mapM (mapM_ok (items_mono (Nat.le_of_succ_le_succ hnm)) hkvs)
  | n + 1, m + 1, .loaded _ items _, v, hnm, h => by
    rw [toLiteral] at h ⊢
    obtain ⟨kvs, hkvs, h⟩ := bind_ok h
    rw [← h]
    exact toObject_of_mapM (mapM_ok (items_mono (Nat.le_of_succ_le_succ hnm)) hkvs)
where
  items_mono {n m : ℕ} (hnm : n ≤ m) (kv : JsString × Item) (r : JsString × AnyValue)
      (h : (do pure (kv.1, ← toLiteral env n kv.2)) = Except.ok r) :
      (do pure (kv.1, ← toLiteral env m kv.2)) = Except.ok r := by
    obtain ⟨v, hv, h⟩ := bind_ok h
    rw [toLiteral_mono hnm hv]
    exact h

/-- More fuel changes nothing of what is read. -/
theorem get_mono : ∀ {path : List Segment} {tracker : HostStorageTracker} {n m : ℕ} {v : AnyValue},
    n ≤ m → get env n path tracker = .ok v → get env m path tracker = .ok v
  | [], _, _, _, _, _, h => h
  | segment :: rest, tracker, n, m, v, hnm, h => by
    unfold get at h ⊢
    obtain ⟨k, hk, h⟩ := bind_ok h
    obtain ⟨tracker', hload, h⟩ := bind_ok h
    rw [hk]
    simp only [bind, Except.bind, hload]
    revert h
    generalize slot tracker'.items k = s
    intro h
    split at h
    · exact h
    · exact get_mono hnm h
    · cases h
    · cases h
    · exact toLiteral_mono hnm h

/-- A value read with some fuel is what the path reads as. -/
lemma Reads.of_get {path : List Segment} {n : ℕ} {v : AnyValue}
    (h : get env n path tracker = .ok v) : Reads env tracker path (.ok v) :=
  ⟨n, fun _ hm => get_mono hm h⟩

/-- Every path of a tracker reads as what its tree holds. -/
theorem reads_rep (h : RepTracker env True cs tracker) (path : List Segment) :
    Reads env tracker path (Tree.get path cs) :=
  ⟨childDepth cs, fun _ hm => get_rep path h hm⟩

end

end PointNetwork.HostStorage
