import PointNetwork.Js.JsonTheorems
import PointNetwork.HostStorage.Tree

/-!
# Trackers refine trees

* `Rep`: an item of a tracker stands for a subtree, its files holding the JSON form of
  containers that stand for the children;
* `upload_agree`, `load_rep`: uploading and loading a container keep what it stands for;
* `update_agree` and the lemmas for each operation: an operation on a tracker agrees with the
  operation on trees, in what it throws and in what the tracker and its file stand for then.

`strict` says that every literal in memory is what it is read back as from JSON. Without it
the statements are about what the files stand for only.
-/

namespace PointNetwork.HostStorage

open Js Logged

/-! ## Values through JSON -/

mutual
/-- A value of JSON is read back; the induction is on the value. -/
@[simp] theorem toJson_ofJson : ∀ j : Json, (AnyValue.ofJson j).toJson = some j
  | .null | .bool _ | .num _ | .str _ => rfl
  | .arr xs => by
    simp only [AnyValue.ofJson, AnyValue.toJson, elementsToJson_ofJson xs]
  | .obj kvs => by
    simp only [AnyValue.ofJson, AnyValue.toJson, propsToJson_ofJson kvs]

theorem elementsToJson_ofJson : ∀ xs : List Json, elementsToJson (elementsOfJson xs) = xs
  | [] => rfl
  | x :: xs => by
    simp only [elementsOfJson, elementsToJson, toJson_ofJson x, Option.getD_some,
      elementsToJson_ofJson xs]

theorem propsToJson_ofJson : ∀ kvs : List (JsString × Json), propsToJson (propsOfJson kvs) = kvs
  | [] => rfl
  | (k, v) :: kvs => by
    simp only [propsOfJson, propsToJson, toJson_ofJson v, propsToJson_ofJson kvs]
end

/-- A value of JSON stays the same through its text. -/
lemma jsonRound_ofJson (j : Json) : (AnyValue.ofJson j).jsonRound = .ofJson j := by
  simp [AnyValue.jsonRound]

/-- A value has the same text after it went through its text. -/
lemma toJson_jsonRound (v : AnyValue) : v.jsonRound.toJson = v.toJson := by
  unfold AnyValue.jsonRound
  cases h : v.toJson with
  | none => rfl
  | some j => simp

@[simp] lemma jsonRound_jsonRound (v : AnyValue) : v.jsonRound.jsonRound = v.jsonRound := by
  rw [AnyValue.jsonRound, toJson_jsonRound, AnyValue.jsonRound]

/-- The literals that `set` stores, and what they are read back as. -/
structure LiteralOk (v : AnyValue) : Prop where
  ne_function : v ≠ .function
  arr_nil : ∀ xs, v = .arr xs → xs = []
  canonical : ∀ j, v.toJson = some j → j.canonical = true

/-- Only an array becomes an array through its text. -/
lemma jsonRound_eq_arr {v : AnyValue} (hv : LiteralOk v) (xs : List AnyValue) :
    v.jsonRound = .arr xs ↔ v = .arr xs := by
  cases v with
  | arr ys =>
    obtain rfl := hv.arr_nil ys rfl
    cases xs <;> simp [AnyValue.jsonRound, AnyValue.toJson, AnyValue.ofJson, elementsToJson,
      elementsOfJson]
  | num n => cases n <;> simp [AnyValue.jsonRound, AnyValue.toJson, AnyValue.ofJson]
  | _ => simp [AnyValue.jsonRound, AnyValue.toJson, AnyValue.ofJson]

/-- A literal stays one through its text. -/
lemma LiteralOk.jsonRound {v : AnyValue} (hv : LiteralOk v) : LiteralOk v.jsonRound := by
  refine ⟨?_, ?_, ?_⟩
  · unfold AnyValue.jsonRound
    cases v.toJson with
    | none => simp
    | some j => cases j <;> simp [AnyValue.ofJson]
  · intro xs hxs
    exact hv.arr_nil xs ((jsonRound_eq_arr hv xs).mp hxs)
  · intro j hj
    exact hv.canonical j (toJson_jsonRound v ▸ hj)

/-! ## What an item stands for -/

section Rep

variable {σ : Type} (env : Env σ) (strict : Prop)

/-- The file is the JSON form of items with the property `P`. -/
def Holds (P : List (JsString × Item) → Prop) (f : EncryptedFile) : Prop :=
  ∃ kvs items, downloadAndDecryptFile env f = .ok (Json.encode (.obj kvs)) ∧
    (Json.obj kvs).canonical = true ∧ itemsOfJson kvs = some items ∧ P items

mutual
/-- The item stands for the subtree. -/
def Rep : Tree → Item → Prop
  | .literal w, .literal v => w = v.jsonRound ∧ LiteralOk v ∧ (strict → v.jsonRound = v)
  | .text data, .file false f => downloadAndDecryptFile env f = .ok data
  | .buffer data, .file true f => downloadAndDecryptFile env f = .ok data
  | .node array cs, .unloaded array' f => array = array' ∧ Holds env (RepList cs) f
  | .node array cs, .loaded array' items encFile =>
    array = array' ∧ orderedKeys cs = true ∧ RepList cs items ∧
      ∃ f, encFile = some f ∧ Holds env (RepList cs) f
  | _, _ => False

/-- The children are those items, in the same order. -/
def RepList : Children → List (JsString × Item) → Prop
  | [], [] => True
  | (k, t) :: cs, (k', item) :: items => k = k' ∧ Rep t item ∧ RepList cs items
  | _, _ => False
end

variable {env} {strict} {cs : Children} {items : List (JsString × Item)}

/-! ### Lists of items -/

/-- What is under a key stands for what is under it in the tree. -/
inductive SlotRep (env : Env σ) (strict : Prop) : TreeSlot → Slot → Prop
  | absent : SlotRep env strict .absent .absent
  | inherited : SlotRep env strict .inherited .inherited
  | own {t : Tree} {item : Item} : Rep env strict t item → SlotRep env strict (.own t) (.own item)

/-- The items have the keys of the children. -/
lemma RepList.keys : ∀ {cs : Children} {items : List (JsString × Item)},
    RepList env strict cs items → cs.map Prod.fst = items.map Prod.fst
  | [], [], _ => rfl
  | (k, t) :: cs, (k', item) :: items, h => by
    obtain ⟨rfl, -, hrest⟩ := h
    simp [RepList.keys hrest]
  | [], _ :: _, h => h.elim
  | _ :: _, [], h => h.elim

lemma RepList.orderedKeys_iff (h : RepList env strict cs items) :
    orderedKeys items = orderedKeys cs := (orderedKeys_congr h.keys).symm

/-- Under each key there are both or neither. -/
lemma RepList.lookup (k : JsString) : ∀ {cs : Children} {items : List (JsString × Item)},
    RepList env strict cs items →
    (cs.lookup k = none ∧ items.lookup k = none) ∨
      ∃ t item, cs.lookup k = some t ∧ items.lookup k = some item ∧ Rep env strict t item
  | [], [], _ => Or.inl ⟨rfl, rfl⟩
  | (k', t) :: cs, (_, item) :: items, h => by
    obtain ⟨rfl, hitem, hrest⟩ := h
    rw [lookup_cons_eq, lookup_cons_eq]
    by_cases hk : k = k'
    · rw [if_pos hk, if_pos hk]
      exact Or.inr ⟨t, item, rfl, rfl, hitem⟩
    · rw [if_neg hk, if_neg hk]
      exact RepList.lookup k hrest
  | [], _ :: _, h => h.elim
  | _ :: _, [], h => h.elim

/-- A slot represents the slot of the tree. -/
lemma RepList.slot (h : RepList env strict cs items) (k : JsString) :
    SlotRep env strict (treeSlot cs k) (slot items k) := by
  unfold treeSlot HostStorage.slot
  rcases h.lookup k with ⟨hc, hi⟩ | ⟨t, item, hc, hi, hrep⟩
  · rw [hc, hi]
    by_cases hk : isInherited k = true
    · rw [if_pos hk, if_pos hk]
      exact .inherited
    · rw [if_neg hk, if_neg hk]
      exact .absent
  · rw [hc, hi]
    exact .own hrep

/-- Putting an item puts the child. -/
lemma RepList.setProp (k : JsString) {t : Tree} {item : Item} (hitem : Rep env strict t item) :
    ∀ {cs : Children} {items : List (JsString × Item)}, RepList env strict cs items →
      RepList env strict (setProp k t cs) (Js.setProp k item items)
  | [], [], _ => ⟨rfl, hitem, trivial⟩
  | (k', t') :: cs, (_, item') :: items, h => by
    obtain ⟨rfl, hitem', hrest⟩ := h
    unfold Js.setProp
    by_cases hk : k' = k
    · rw [if_pos hk, if_pos hk]
      exact ⟨rfl, hitem, hrest⟩
    · rw [if_neg hk, if_neg hk]
      by_cases hb : insertsBefore k k' = true
      · rw [if_pos hb, if_pos hb]
        exact ⟨rfl, hitem, rfl, hitem', hrest⟩
      · rw [if_neg hb, if_neg hb]
        exact ⟨rfl, hitem', RepList.setProp k hitem hrest⟩
  | [], _ :: _, h => h.elim
  | _ :: _, [], h => h.elim

/-! ### The JSON form -/

/-- The pair of a type and a value can be read back. -/
lemma canonical_typedJson (t : String) {v : Option Json}
    (hv : ∀ j, v = some j → j.canonical = true) : (typedJson t v).canonical = true := by
  have hone : ∀ a : Json, orderedKeys [(js "t", a)] = true := fun a => rfl
  have htwo : ∀ a b : Json, orderedKeys [(js "t", a), (js "v", b)] = true := by
    intro a b
    have hunit : orderedKeys [(js "t", ()), (js "v", ())] = true := by decide
    rw [← hunit]
    exact orderedKeys_congr rfl
  cases v with
  | none => simp [typedJson, Json.canonical, canonicalProps, hone]
  | some j => simp [typedJson, Json.canonical, canonicalProps, htwo, hv j rfl]

lemma canonical_fileJson (f : EncryptedFile) : (fileJson f).canonical = true := by
  simp [fileJson, Json.canonical, canonicalList]

/-- A literal is read back as what its text makes of it. -/
lemma itemOfJson_literal (v : AnyValue) :
    itemOfJson (typedJson "L" v.toJson) = some (.literal v.jsonRound) := by
  unfold AnyValue.jsonRound
  cases v.toJson with
  | none => rfl
  | some j => rfl

/-- A file is read back with its key and id. -/
lemma fileOfJson_fileJson (f : EncryptedFile) : fileOfJson (some (fileJson f)) = some f := by
  simp [fileOfJson, fileJson]

/-- An item is read back by the letter of its type. -/
lemma itemOfJson_typed (t : String) (f : EncryptedFile) (ht : js t ≠ js "L") :
    itemOfJson (typedJson t (some (fileJson f)))
      = if js t = js "S" then some (.file false f)
        else if js t = js "B" then some (.file true f)
        else if js t = js "O" then some (.unloaded false f)
        else if js t = js "A" then some (.unloaded true f)
        else none := by
  show (if js t = js "L" then _ else (fileOfJson (some (fileJson f))).bind _) = _
  rw [if_neg ht, fileOfJson_fileJson]
  rfl

lemma itemOfJson_file (buffer : Bool) (f : EncryptedFile) :
    itemOfJson (typedJson (Item.file buffer f).t (some (fileJson f))) = some (.file buffer f) := by
  cases buffer with
  | false => exact itemOfJson_typed "S" f (by decide)
  | true => exact itemOfJson_typed "B" f (by decide)

lemma itemOfJson_unloaded (array : Bool) (f : EncryptedFile) :
    itemOfJson (typedJson (Item.unloaded array f).t (some (fileJson f)))
      = some (.unloaded array f) := by
  cases array with
  | false => exact itemOfJson_typed "O" f (by decide)
  | true => exact itemOfJson_typed "A" f (by decide)

/-- Items that stand for subtrees are written without uploading anything, and what is written
stands for the same subtrees. -/
lemma serializeItem_rep {t : Tree} {item : Item} (h : Rep env strict t item) :
    ∃ v item', serializeItem env item = pure (item, v) ∧ v.canonical = true ∧
      itemOfJson v = some item' ∧ Rep env strict t item' := by
  cases item with
  | literal v =>
    cases t with
    | literal w =>
      obtain ⟨rfl, hok, hstrict⟩ := h
      refine ⟨_, .literal v.jsonRound, by rw [serializeItem], canonical_typedJson _ hok.canonical,
        itemOfJson_literal v, ?_⟩
      exact ⟨(jsonRound_jsonRound v).symm, hok.jsonRound, fun _ => jsonRound_jsonRound v⟩
    | text data => exact h.elim
    | buffer data => exact h.elim
    | node array cs => exact h.elim
  | file buffer f =>
    exact ⟨_, .file buffer f, by rw [serializeItem],
      canonical_typedJson _ fun j hj => Option.some.inj hj ▸ canonical_fileJson f,
      itemOfJson_file buffer f, h⟩
  | unloaded array f =>
    exact ⟨_, .unloaded array f, by rw [serializeItem],
      canonical_typedJson _ fun j hj => Option.some.inj hj ▸ canonical_fileJson f,
      itemOfJson_unloaded array f, h⟩
  | loaded array items encFile =>
    cases t with
    | literal w => exact h.elim
    | text data => exact h.elim
    | buffer data => exact h.elim
    | node array' cs =>
      obtain ⟨rfl, -, -, f, rfl, hholds⟩ := h
      exact ⟨_, .unloaded array' f, by rw [serializeItem],
        canonical_typedJson _ fun j hj => Option.some.inj hj ▸ canonical_fileJson f,
        itemOfJson_unloaded array' f, ⟨rfl, hholds⟩⟩

/-- The serialized items are read back and represent the same children. -/
lemma serializeItems_rep : ∀ {cs : Children} {items : List (JsString × Item)},
    RepList env strict cs items →
    ∃ kvs items', serializeItems env items = pure (items, kvs) ∧
      kvs.map Prod.fst = items.map Prod.fst ∧ canonicalProps kvs = true ∧
      itemsOfJson kvs = some items' ∧ RepList env strict cs items'
  | [], [], _ => ⟨[], [], by rw [serializeItems], rfl, rfl, rfl, trivial⟩
  | (k, t) :: cs, (_, item) :: items, h => by
    obtain ⟨rfl, hitem, hrest⟩ := h
    obtain ⟨v, item', hrun, hcan, hread, hrep⟩ := serializeItem_rep hitem
    obtain ⟨kvs, items', hruns, hkeys, hcans, hreads, hreps⟩ := serializeItems_rep hrest
    refine ⟨(k, v) :: kvs, (k, item') :: items', ?_, ?_, ?_, ?_, ⟨rfl, hrep, hreps⟩⟩
    · rw [serializeItems, hrun, pure_bind_eq]
      simp only [hruns, pure_bind_eq]
    · rw [List.map_cons, List.map_cons, hkeys]
    · rw [canonicalProps, hcan, hcans]
      rfl
    · rw [itemsOfJson, hread, hreads]
      rfl
  | [], _ :: _, h => h.elim
  | _ :: _, [], h => h.elim

/-! ### Uploading and loading -/

/-- An upload under whose id its material is downloaded. -/
def Good (env : Env σ) (material : Bytes) : Prop :=
  env.getFileBinary (Storage.fileChunks env.hashFn env.CHUNK_SIZE material).1 = some material

instance (env : Env σ) (material : Bytes) : Decidable (Good env material) :=
  inferInstanceAs (Decidable (_ = _))

/-- What was encrypted and uploaded is downloaded and decrypted. -/
theorem encryptAndUpload_agree (data : Bytes) {force : Option Bytes}
    (hforce : ∀ key, force = some key → validKey key = true) :
    Agree (Good env) (encryptAndUpload env data force) (.ok ()) fun f _ =>
      downloadAndDecryptFile env f = .ok data ∧ isValidStorageId f.fileId = true ∧
        ∀ key, force = some key → f.key = key := by
  unfold encryptAndUpload
  refine (EncryptedData.createFromPlaintext_agree env.aes env.rng data hforce (Good env)).seq ?_
  rintro ⟨key, material⟩ ⟨hdecrypt, hkey⟩
  have hupload : Agree (Good env) (uploadData env material) (.ok ()) fun fileId _ =>
      env.getFileBinary fileId = some material ∧ isValidStorageId fileId = true := by
    unfold uploadData
    exact (Agree.tell material).seq fun _ hgood =>
      .pure ⟨hgood, Storage.isValidStorageId_fileChunks _ _ _⟩
  refine hupload.seq fun fileId ⟨hfile, hvalid⟩ => .pure ⟨?_, hvalid, hkey⟩
  simp only [downloadAndDecryptFile, hfile]
  exact hdecrypt

/-- What a tracker stands for. -/
structure RepTracker (env : Env σ) (strict : Prop) (cs : Children) (tracker : HostStorageTracker) :
    Prop where
  ordered : orderedKeys cs = true
  items : RepList env strict cs tracker.items

/-- The tracker has a file, which stands for the same as its items. -/
structure Stored (env : Env σ) (strict : Prop) (cs : Children) (tracker : HostStorageTracker) :
    Prop extends RepTracker env strict cs tracker where
  file : ∃ f, tracker.encFile = some f ∧ Holds env (RepList env strict cs) f

lemma RepTracker.empty : RepTracker env strict [] {} := ⟨rfl, trivial⟩

/-- A container that has been uploaded has a file that stands for its items. -/
theorem upload_agree {tracker : HostStorageTracker} (h : RepTracker env strict cs tracker)
    {force : Option Bytes} (hforce : ∀ key, force = some key → validKey key = true) :
    Agree (Good env) (upload env force tracker) (.ok ()) fun tracker' _ =>
      Stored env strict cs tracker' ∧
        ∀ key, force = some key → ∃ fileId, tracker'.encFile = some ⟨key, fileId⟩ ∧
          isValidStorageId fileId = true := by
  obtain ⟨kvs, items', hrun, hkeys, hcan, hread, hrep⟩ := serializeItems_rep h.items
  unfold upload
  rw [hrun, pure_bind_eq]
  refine (encryptAndUpload_agree _ hforce).seq fun f hf => .pure ⟨⟨⟨h.ordered, h.items⟩, f, rfl, ?_⟩, ?_⟩
  · refine ⟨kvs, items', hf.1, ?_, hread, hrep⟩
    rw [Json.canonical, hcan, orderedKeys_congr hkeys, h.items.orderedKeys_iff, h.ordered]
    rfl
  · intro key hkey
    exact ⟨f.fileId, by rw [← hf.2.2 key hkey], hf.2.1⟩

/-- The items have the keys of the JSON. -/
lemma itemsOfJson_keys : ∀ {kvs : List (JsString × Json)} {items : List (JsString × Item)},
    itemsOfJson kvs = some items → kvs.map Prod.fst = items.map Prod.fst
  | [], _, h => by
    cases h
    rfl
  | (k, v) :: kvs, items, h => by
    simp only [itemsOfJson, Option.bind_eq_bind, Option.bind_eq_some_iff, Option.pure_def,
      Option.some.injEq] at h
    obtain ⟨item, -, items', hrest, rfl⟩ := h
    simp [itemsOfJson_keys hrest]

/-- A file that stands for children is loaded as a tracker that does. -/
lemma fromDownload_rep {f : EncryptedFile} (h : Holds env (RepList env strict cs) f) :
    ∃ items, fromDownload env f = .ok ⟨items, some f⟩ ∧ Stored env strict cs ⟨items, some f⟩ := by
  obtain ⟨kvs, items, hfile, hcan, hread, hrep⟩ := id h
  have hordered : orderedKeys kvs = true := by
    rw [Json.canonical, Bool.and_eq_true] at hcan
    exact hcan.1
  refine ⟨items, ?_, ⟨⟨?_, hrep⟩, f, rfl, h⟩⟩
  · unfold fromDownload
    rw [hfile]
    simp only [bind, Except.bind, decode_encode hcan, hread]
    rfl
  · rw [← hrep.orderedKeys_iff, ← orderedKeys_congr (itemsOfJson_keys hread)]
    exact hordered

/-- The item under a key is not an unloaded container. -/
def LoadedAt (tracker : HostStorageTracker) (k : JsString) : Prop :=
  ∀ array f, slot tracker.items k ≠ .own (.unloaded array f)

/-- Loading the item under a key changes nothing in what the tracker stands for. -/
theorem load_rep {tracker : HostStorageTracker} (h : RepTracker env strict cs tracker)
    (k : JsString) :
    ∃ tracker', load env k tracker = .ok tracker' ∧ RepTracker env strict cs tracker' ∧
      LoadedAt tracker' k := by
  -- a slot that holds no unloaded container is left alone
  have hother : ∀ {s : Option Item}, tracker.items.lookup k = s →
      (∀ array f, s ≠ some (.unloaded array f)) → LoadedAt tracker k := by
    intro s hs hne array f hslot
    unfold slot at hslot
    rw [hs] at hslot
    cases s with
    | none =>
      simp only at hslot
      split_ifs at hslot
    | some item =>
      cases hslot
      exact hne array f rfl
  unfold load
  cases hitem : tracker.items.lookup k with
  | none => exact ⟨tracker, rfl, h, hother hitem (by simp)⟩
  | some item =>
    cases item with
    | literal v => exact ⟨tracker, rfl, h, hother hitem (by simp)⟩
    | file buffer f => exact ⟨tracker, rfl, h, hother hitem (by simp)⟩
    | loaded array items encFile => exact ⟨tracker, rfl, h, hother hitem (by simp)⟩
    | unloaded array f =>
      rcases h.items.lookup k with ⟨-, hnone⟩ | ⟨t, item, hc, hi, hrep⟩
      · rw [hitem] at hnone
        cases hnone
      · rw [hitem] at hi
        cases hi
        cases t with
        | literal w => exact hrep.elim
        | text data => exact hrep.elim
        | buffer data => exact hrep.elim
        -- the file of a container holds its items, which take its place
        | node array' sub =>
          obtain ⟨rfl, hholds⟩ := hrep
          obtain ⟨items, hload, hstored⟩ := fromDownload_rep hholds
          have hloaded : Rep env strict (.node array' sub) (.loaded array' items (some f)) :=
            ⟨rfl, hstored.ordered, hstored.items, hstored.file⟩
          have hset := h.items.setProp k hloaded
          rw [setProp_of_lookup h.ordered hc] at hset
          refine ⟨tracker.setItem k (.loaded array' items (some f)), ?_, ⟨h.ordered, hset⟩, ?_⟩
          · simp only [hload]
            rfl
          · intro array f' hslot
            unfold slot HostStorageTracker.setItem at hslot
            rw [lookup_setProp_self] at hslot
            cases hslot

/-- Replacing the item under a key. -/
lemma RepTracker.setItem {tracker : HostStorageTracker} (h : RepTracker env strict cs tracker)
    (k : JsString) {t : Tree} {item : Item} (hitem : Rep env strict t item) :
    RepTracker env strict (setProp k t cs) (tracker.setItem k item) :=
  ⟨orderedKeys_setProp k t h.ordered, h.items.setProp k hitem⟩

/-! ## Storing values -/

mutual
/-- Every literal inside the value is read back from JSON as it is. -/
def AnyValue.plain : AnyValue → Bool
  | .num (.fin _) => true
  | .num _ => false
  | .buffer b => b != []
  | .arr xs => plainElements xs
  | .obj kvs => plainProps kvs
  | _ => true

/-- Each element is plain. -/
def plainElements : List AnyValue → Bool
  | [] => true
  | x :: xs => x.plain && plainElements xs

/-- Each property is plain. -/
def plainProps : List (JsString × AnyValue) → Bool
  | [] => true
  | (_, v) :: kvs => v.plain && plainProps kvs
end

lemma literal_agree {v : AnyValue} (hok : LiteralOk v) (hstrict : strict → v.jsonRound = v) :
    Agree (Good env) (pure (.literal v) : Run σ Item) (.ok (.literal v.jsonRound))
      fun item t => Rep env strict t item := .pure ⟨rfl, hok, hstrict⟩

lemma literalOk_of_toJson {v : AnyValue} {j : Json} (hne : v ≠ .function)
    (harr : ∀ xs, v = .arr xs → xs = []) (hv : v.toJson = some j) (hcan : j.canonical = true) :
    LiteralOk v :=
  ⟨hne, harr, fun j' hj' => by rw [hv] at hj'; cases hj'; exact hcan⟩

lemma literalOk_undefined : LiteralOk .undefined :=
  ⟨by simp, by simp, fun j hj => by cases hj⟩

/-- Encrypted data is stored in a file. -/
lemma file_agree (buffer : Bool) (data : Bytes) {t : Tree}
    (ht : ∀ f, downloadAndDecryptFile env f = .ok data → Rep env strict t (.file buffer f)) :
    Agree (Good env) (encryptAndUpload env data none >>= fun f => pure (.file buffer f)) (.ok t)
      fun item t => Rep env strict t item :=
  (encryptAndUpload_agree data fun _ h => by cases h).seq fun f hf => .pure (ht f hf.1)

/-- A container is uploaded and becomes an item. -/
lemma node_agree {tracker : HostStorageTracker} (h : RepTracker env strict cs tracker)
    (array : Bool) :
    Agree (Good env)
      (upload env none tracker >>= fun t => pure (.loaded array t.items t.encFile))
      (.ok (.node array cs)) fun item t => Rep env strict t item :=
  (upload_agree h fun _ h => by cases h).seq fun t ht =>
    .pure ⟨rfl, ht.1.ordered, ht.1.items, ht.1.file⟩

/-- Setting a key of a tracker that is being filled. -/
lemma setKey_agree {tracker : HostStorageTracker} (h : RepTracker env strict cs tracker)
    (k : JsString) {store : Run σ Item} {stored : Except Exception Tree}
    (hstore : Agree (Good env) store stored fun item t => Rep env strict t item)
    {f : HostStorageTracker → Run σ HostStorageTracker} {g : Children → Except Exception Children}
    (hrest : ∀ t cs, RepTracker env strict cs t →
      Agree (Good env) (f t) (g cs) fun t cs => RepTracker env strict cs t) :
    Agree (Good env)
      (Logged.ofExcept (load env k tracker) >>= fun tracker =>
        store >>= fun item => upload env none (tracker.setItem k item) >>= f)
      (stored >>= fun t => g (setProp k t cs)) fun t cs => RepTracker env strict cs t := by
  obtain ⟨tracker', hload, hrep, -⟩ := load_rep h k
  rw [ofExcept_bind_eq hload]
  refine hstore.bind fun item t hitem => ?_
  refine (upload_agree (hrep.setItem k hitem) fun _ h => by cases h).seq fun t' ht' => ?_
  exact hrest t' _ ht'.1.toRepTracker

mutual
/-- The item `set` makes of a value stands for the subtree of the value. -/
theorem storeValue_agree : ∀ v : AnyValue, (strict → v.plain = true) →
    Agree (Good env) (storeValue env v) (Tree.ofValue v) fun item t => Rep env strict t item
  | .undefined, _ => literal_agree literalOk_undefined fun _ => rfl
  | .null, _ => literal_agree (literalOk_of_toJson (by simp) (by simp) rfl rfl) fun _ => rfl
  | .bool b, _ => literal_agree (literalOk_of_toJson (by simp) (by simp) rfl rfl) fun _ => rfl
  | .num (.fin d), _ =>
    literal_agree (literalOk_of_toJson (by simp) (by simp) rfl rfl) fun _ => rfl
  | .num .nan, h =>
    literal_agree (literalOk_of_toJson (by simp) (by simp) rfl rfl) fun hs => by cases h hs
  | .num (.infinity neg), h =>
    literal_agree (literalOk_of_toJson (by simp) (by simp) rfl rfl) fun hs => by cases h hs
  | .str s, _ => file_agree false (bufferFrom s) fun f hf => hf
  | .buffer [], h =>
    literal_agree (literalOk_of_toJson (by simp) (by simp) rfl (by decide)) fun hs => by
      cases h hs
  | .buffer (x :: b), _ => file_agree true (x :: b) fun f hf => hf
  | .arr [], _ => literal_agree (literalOk_of_toJson (by simp) (by simp) rfl rfl) fun _ => rfl
  | .arr (x :: xs), h => by
    rw [storeValue, Tree.ofValue]
    exact (setElements_agree (x :: xs) 0 h {} [] RepTracker.empty).bind
      fun t cs ht => node_agree ht false
  | .obj [], _ => literal_agree (literalOk_of_toJson (by simp) (by simp) rfl rfl) fun _ => rfl
  | .obj (kv :: kvs), h => by
    rw [storeValue, Tree.ofValue]
    exact (setEntries_agree (kv :: kvs) h {} [] RepTracker.empty).bind
      fun t cs ht => node_agree ht false
  | .function, _ => .fail _

/-- Setting the elements of an array gives the children; the induction is on the elements. -/
theorem setElements_agree : ∀ (vs : List AnyValue) (i : ℕ), (strict → plainElements vs = true) →
    ∀ (tracker : HostStorageTracker) (cs : Children), RepTracker env strict cs tracker →
    Agree (Good env) (setElements env i vs tracker) (ofElements i vs cs)
      fun t cs => RepTracker env strict cs t
  | [], i, _, tracker, cs, hrep => .pure hrep
  | v :: vs, i, h, tracker, cs, hrep => by
    rw [setElements, ofElements]
    have hv : strict → v.plain = true ∧ plainElements vs = true := fun hs => by
      simpa [plainElements] using h hs
    exact setKey_agree hrep (natText i) (storeValue_agree v fun hs => (hv hs).1)
      fun t cs ht => setElements_agree vs (i + 1) (fun hs => (hv hs).2) t cs ht

/-- Setting the entries of an object gives the children; the induction is on the entries. -/
theorem setEntries_agree : ∀ (kvs : List (JsString × AnyValue)),
    (strict → plainProps kvs = true) →
    ∀ (tracker : HostStorageTracker) (cs : Children), RepTracker env strict cs tracker →
    Agree (Good env) (setEntries env kvs tracker) (ofProps kvs cs)
      fun t cs => RepTracker env strict cs t
  | [], _, tracker, cs, hrep => .pure hrep
  | (k, v) :: kvs, h, tracker, cs, hrep => by
    rw [setEntries, ofProps]
    have hv : strict → v.plain = true ∧ plainProps kvs = true := fun hs => by
      simpa [plainProps] using h hs
    exact setKey_agree hrep k (storeValue_agree v fun hs => (hv hs).1)
      fun t cs ht => setEntries_agree kvs (fun hs => (hv hs).2) t cs ht
end

end Rep

end PointNetwork.HostStorage
