import PointNetwork.Encryption.Container
import PointNetwork.HostStorage.Refinement
import PointNetwork.Js.JsonTheorems

/-!
# Encryption containers through JSON

`serializeToJSON` writes triples for the items of the outer container only; an inner container is
written by `toObject`, as bare values, which `deserializeFromJSON` then destructures. A container
comes back only if all its inner ones are empty, and if nothing else gets lost: the types `string`
and `Buffer` of files, numbers that JSON does not have, and an entry `__proto__`
(`serialize_deserialize_iff`).

* `WellTyped`: what `set` makes of a container, at every depth (`set_wellTyped`);
* `Same`: the same keys, types and values at every depth, in any order.
-/

namespace PointNetwork.Containers

open Js HostStorage

/-! ## What `set` makes -/

/-- An object or an array of JSON. -/
def IsObject : Json → Prop
  | .arr _ => True
  | .obj _ => True
  | _ => False

mutual
/-- The item has one of the types that it is stored with. -/
def HasType : Option Json → Item → Prop
  | type, .file _ fileId => (∃ id, fileId = some (.str id)) ∧
      type ∈ [ItemType.string.tag, ItemType.Buffer.tag, ItemType.EncryptedFile.tag]
  | type, .value v =>
      (type = ItemType.number.tag ∧ ∃ n, v = .num n) ∨
      (type = ItemType.boolean.tag ∧ ∃ b, v = .bool b) ∨
      (type = ItemType.object.tag ∧ ∃ j : Json, j.canonical = true ∧ IsObject j ∧ v = .ofJson j)
  | type, .container items => type = ItemType.EncryptionContainer.tag ∧
      (items.map Prod.fst).Nodup ∧ EntriesTyped items

/-- Each item has the type that it claims. -/
def EntriesTyped : List (JsString × Option Json × Item) → Prop
  | [] => True
  | (_, type, item) :: items => HasType type item ∧ EntriesTyped items
end

/-- The keys differ, and the items have their types at every depth. -/
def WellTyped (items : List Entry) : Prop := (items.map Prod.fst).Nodup ∧ EntriesTyped items

/-- The entries one by one. -/
lemma entriesTyped_iff {items : List Entry} :
    EntriesTyped items ↔ ∀ entry ∈ items, HasType entry.2.1 entry.2.2 := by
  induction items with
  | nil => simp [EntriesTyped]
  | cons entry items ih =>
    obtain ⟨k, type, item⟩ := entry
    rw [EntriesTyped, ih, List.forall_mem_cons]

lemma hasType_container {type : Option Json} {items : List Entry} :
    HasType type (.container items) ↔
      type = ItemType.EncryptionContainer.tag ∧ WellTyped items := by
  rw [HasType]
  rfl

lemma WellTyped.nil : WellTyped [] := ⟨List.nodup_nil, by rw [EntriesTyped]; trivial⟩

/-- An item of its type keeps the container well typed. -/
lemma WellTyped.put {items : List Entry} (h : WellTyped items) (k : JsString) {type : ItemType}
    {item : Item} (hitem : HasType type.tag item) : WellTyped (put k type item items) := by
  refine ⟨Table.Keyed.upsert h.1, entriesTyped_iff.mpr fun entry hentry => ?_⟩
  rcases Table.of_mem_upsert hentry with heq | hold
  · rw [heq]
    exact hitem
  · exact entriesTyped_iff.mp h.2 entry hold.1

mutual
/-- All containers inside the input are well typed. -/
def Input.Ok : Input → Prop
  | .container items => WellTyped items
  | .array xs => ElementsOk xs
  | .object kvs => PropsOk kvs
  | _ => True

/-- Each element is such an input. -/
def ElementsOk : List Input → Prop
  | [] => True
  | x :: xs => x.Ok ∧ ElementsOk xs

/-- Each property is such an input. -/
def PropsOk : List (JsString × Input) → Prop
  | [] => True
  | (_, v) :: kvs => v.Ok ∧ PropsOk kvs
end

/-- A file stands for a text, a buffer or a file. -/
lemma hasType_file {type : ItemType} (f : HostStorage.EncryptedFile)
    (h : type.tag ∈ [ItemType.string.tag, ItemType.Buffer.tag, ItemType.EncryptedFile.tag]) :
    HasType type.tag (.file f.key (some (.str f.fileId))) := by
  rw [HasType]
  exact ⟨⟨f.fileId, rfl⟩, h⟩

/-- An object has the type of objects. -/
lemma hasType_object {j : Json} (hcanonical : j.canonical = true) (h : IsObject j) :
    HasType ItemType.object.tag (.value (.ofJson j)) := by
  rw [HasType]
  exact .inr (.inr ⟨rfl, j, hcanonical, h, rfl⟩)

section

variable {σ : Type} {env : Env σ}

mutual
/-- A container stays well typed. -/
theorem set_wellTyped : ∀ (v : Input) (k : JsString) {items items' : List Entry} {s s' : σ},
    v.Ok → WellTyped items → Logged.Yields (set env k v items) s items' s' → WellTyped items'
  | .string t, k, items, items', s, s', _, hitems, h => by
    rw [set] at h
    rcases Logged.yields_bind.mp h with ⟨f, s₁, -, hpure⟩
    rw [(Logged.yields_pure.mp hpure).1]
    exact hitems.put k (hasType_file f (by simp))
  | .buffer b, k, items, items', s, s', _, hitems, h => by
    rw [set] at h
    rcases Logged.yields_bind.mp h with ⟨f, s₁, -, hpure⟩
    rw [(Logged.yields_pure.mp hpure).1]
    exact hitems.put k (hasType_file f (by simp))
  | .number n, k, items, items', s, s', _, hitems, h => by
    rw [set] at h
    rw [(Logged.yields_pure.mp h).1]
    exact hitems.put k (by rw [HasType]; exact .inl ⟨rfl, n, rfl⟩)
  | .boolean b, k, items, items', s, s', _, hitems, h => by
    rw [set] at h
    rw [(Logged.yields_pure.mp h).1]
    exact hitems.put k (by rw [HasType]; exact .inr (.inl ⟨rfl, b, rfl⟩))
  | .container sub, k, items, items', s, s', hok, hitems, h => by
    rw [set] at h
    rw [Input.Ok] at hok
    rw [(Logged.yields_pure.mp h).1]
    exact hitems.put k (hasType_container.mpr ⟨rfl, hok⟩)
  | .file f, k, items, items', s, s', _, hitems, h => by
    rw [set] at h
    rw [(Logged.yields_pure.mp h).1]
    exact hitems.put k (hasType_file f (by simp))
  | .object [], k, items, items', s, s', _, hitems, h => by
    rw [set] at h
    rw [(Logged.yields_pure.mp h).1]
    exact hitems.put k (@hasType_object (.obj []) rfl trivial)
  | .object (kv :: kvs), k, items, items', s, s', hok, hitems, h => by
    rw [set] at h
    rw [Input.Ok] at hok
    rcases Logged.yields_bind.mp h with ⟨sub, s₁, hsub, hpure⟩
    rw [(Logged.yields_pure.mp hpure).1]
    exact hitems.put k (hasType_container.mpr
      ⟨rfl, setProps_wellTyped (kv :: kvs) hok .nil hsub⟩)
  | .array [], k, items, items', s, s', _, hitems, h => by
    rw [set] at h
    rw [(Logged.yields_pure.mp h).1]
    exact hitems.put k (@hasType_object (.arr []) rfl trivial)
  | .array (x :: xs), k, items, items', s, s', hok, hitems, h => by
    rw [set] at h
    rw [Input.Ok] at hok
    rcases Logged.yields_bind.mp h with ⟨sub, s₁, hsub, hpure⟩
    rw [(Logged.yields_pure.mp hpure).1]
    exact hitems.put k (hasType_container.mpr
      ⟨rfl, setElements_wellTyped 0 (x :: xs) hok .nil hsub⟩)
  | .null, k, items, items', s, s', _, _, h
  | .undefined, k, items, items', s, s', _, _, h
  | .function, k, items, items', s, s', _, _, h => by
    -- nothing is stored
    rw [set] at h
    rcases h with ⟨w, h⟩
    cases h

/-- The properties of an object keep the container well typed. -/
theorem setProps_wellTyped : ∀ (kvs : List (JsString × Input)) {items items' : List Entry}
    {s s' : σ}, PropsOk kvs → WellTyped items →
      Logged.Yields (setProps env kvs items) s items' s' → WellTyped items'
  | [], items, items', s, s', _, hitems, h => by
    rw [setProps] at h
    rw [(Logged.yields_pure.mp h).1]
    exact hitems
  | (k, v) :: kvs, items, items', s, s', hok, hitems, h => by
    rw [setProps] at h
    rw [PropsOk] at hok
    rcases Logged.yields_bind.mp h with ⟨items₁, s₁, hfirst, hrest⟩
    exact setProps_wellTyped kvs hok.2 (set_wellTyped v k hok.1 hitems hfirst) hrest

/-- The elements of an array keep the container well typed. -/
theorem setElements_wellTyped : ∀ (i : ℕ) (xs : List Input) {items items' : List Entry}
    {s s' : σ}, ElementsOk xs → WellTyped items →
      Logged.Yields (setElements env i xs items) s items' s' → WellTyped items'
  | i, [], items, items', s, s', _, hitems, h => by
    rw [setElements] at h
    rw [(Logged.yields_pure.mp h).1]
    exact hitems
  | i, x :: xs, items, items', s, s', hok, hitems, h => by
    rw [setElements] at h
    rw [ElementsOk] at hok
    rcases Logged.yields_bind.mp h with ⟨items₁, s₁, hfirst, hrest⟩
    exact setElements_wellTyped (i + 1) xs hok.2
      (set_wellTyped x (natText i) hok.1 hitems hfirst) hrest
end

end

/-! ## Equal containers -/

mutual
/-- The items are the same up to the order of their entries. -/
def SameItem : Item → Item → Prop
  | .container items, item' => ∃ items', item' = .container items' ∧
      (∀ k, (items'.lookup k).isSome → (items.lookup k).isSome) ∧ SameEntries items items'
  | .file key fileId, item' => item' = .file key fileId
  | .value v, item' => item' = .value v

/-- Each entry is there on the other side. -/
def SameEntries : List (JsString × Option Json × Item) → List Entry → Prop
  | [], _ => True
  | (k, type, item) :: items, items' =>
    (∃ item', items'.lookup k = some (type, item') ∧ SameItem item item') ∧
      SameEntries items items'
end

/-- The same keys, item types and values at every depth. -/
def Same (items items' : List Entry) : Prop :=
  (∀ k, (items'.lookup k).isSome → (items.lookup k).isSome) ∧ SameEntries items items'

/-- The entries one by one. -/
lemma sameEntries_iff {items items' : List Entry} : SameEntries items items' ↔
    ∀ entry ∈ items, ∃ item', items'.lookup entry.1 = some (entry.2.1, item') ∧
      SameItem entry.2.2 item' := by
  induction items with
  | nil => simp [SameEntries]
  | cons entry items ih =>
    obtain ⟨k, type, item⟩ := entry
    rw [SameEntries, ih, List.forall_mem_cons]

/-! ## The text -/

/-- A property of the JSON is one of the values that have a text. -/
lemma mem_propsToJson {kvs : List (JsString × AnyValue)} {k : JsString} {j : Json} :
    (k, j) ∈ propsToJson kvs ↔ ∃ v, (k, v) ∈ kvs ∧ v.toJson = some j := by
  induction kvs with
  | nil => simp [propsToJson]
  | cons kv kvs ih =>
    obtain ⟨x, w⟩ := kv
    rw [propsToJson]
    cases hw : w.toJson with
    | none =>
      simp only [ih, List.mem_cons, Prod.mk.injEq]
      constructor
      · intro h
        rcases h with ⟨v, hv, hj⟩
        exact ⟨v, .inr hv, hj⟩
      · intro h
        rcases h with ⟨v, ⟨-, rfl⟩ | hv, hj⟩
        · rw [hw] at hj
          cases hj
        · exact ⟨v, hv, hj⟩
    | some j' =>
      simp only [ih, List.mem_cons, Prod.mk.injEq]
      constructor
      · intro h
        rcases h with ⟨hk, hj⟩ | ⟨v, hv, hj⟩
        · exact ⟨w, .inl ⟨hk, rfl⟩, by rw [hw, hj]⟩
        · exact ⟨v, .inr hv, hj⟩
      · intro h
        rcases h with ⟨v, ⟨hk, hv⟩ | hv, hj⟩
        · rw [hv, hw] at hj
          exact .inl ⟨hk, (Option.some.inj hj).symm⟩
        · exact .inr ⟨v, hv, hj⟩

lemma orderedKeys_propsToJson {kvs : List (JsString × AnyValue)} (h : orderedKeys kvs = true) :
    orderedKeys (propsToJson kvs) = true := by
  induction kvs with
  | nil => rfl
  | cons kv kvs ih =>
    obtain ⟨x, w⟩ := kv
    rcases ordered_cons.mp h with ⟨hx, hkvs⟩
    rw [propsToJson]
    cases hw : w.toJson with
    | none => exact ih hkvs
    | some j =>
      refine ordered_cons.mpr ⟨?_, ih hkvs⟩
      intro kv hkv
      rcases mem_propsToJson.mp hkv with ⟨v, hv, -⟩
      exact hx (kv.1, v) hv

/-- An entry of the object is one of an item. -/
lemma mem_objectEntries {items : List Entry} {k : JsString} {v : AnyValue} :
    (k, v) ∈ objectEntries items ↔ ∃ type item, (k, type, item) ∈ items ∧ v = item.toObject := by
  induction items with
  | nil => simp [objectEntries]
  | cons entry items ih =>
    obtain ⟨x, type, item⟩ := entry
    rw [objectEntries]
    simp only [List.mem_cons, Prod.mk.injEq, ih]
    constructor
    · intro h
      rcases h with ⟨hk, hv⟩ | ⟨type', item', hmem, hv⟩
      · exact ⟨type, item, .inl ⟨hk, rfl, rfl⟩, hv⟩
      · exact ⟨type', item', .inr hmem, hv⟩
    · intro h
      rcases h with ⟨type', item', ⟨hk, -, hitem⟩ | hmem, hv⟩
      · exact .inl ⟨hk, by rw [hv, hitem]⟩
      · exact .inr ⟨type', item', hmem, hv⟩

lemma canonical_numbers (xs : List ℤ) :
    canonicalList (xs.map fun x => Json.num (.ofInt x)) = true := by
  induction xs with
  | nil => rfl
  | cons x xs ih =>
    rw [List.map_cons, canonicalList, ih]
    rfl

/-- A file with its key as an object. -/
lemma toJson_file (key : Bytes) (id : JsString) :
    (Item.file key (some (.str id))).toObject.toJson = some (.obj
      [(js "key", .obj [(js "type", .str (js "Buffer")),
        (js "data", .arr (key.map fun x => .num (.ofInt x.toNat)))]), (js "fileId", .str id)]) := by
  simp [Item.toObject, AnyValue.toJson, propsToJson, AnyValue.ofJson]

/-- The JSON of a container inside another. -/
lemma toJson_container (items : List Entry) : (Item.container items).toObject.toJson =
    some (.obj (propsToJson (assignAll (objectEntries items)))) := by
  rw [Item.toObject, AnyValue.toJson]

mutual
/-- The JSON of an item lists the properties of its objects in their order. -/
theorem canonical_toObject : ∀ (item : Item) {type : Option Json} {j : Json},
    HasType type item → item.toObject.toJson = some j → j.canonical = true
  | .file key fileId, type, j, h, hj => by
    rw [HasType] at h
    rcases h.1 with ⟨id, rfl⟩
    rw [toJson_file, Option.some.injEq] at hj
    rw [← hj]
    have hkeys : orderedKeys [(js "key", Json.null), (js "fileId", .null)] = true := by
      decide +kernel
    have hbuffer : orderedKeys [(js "type", Json.null), (js "data", .null)] = true := by
      decide +kernel
    have hdata := canonical_numbers (key.map fun x => (x.toNat : ℤ))
    rw [List.map_map] at hdata
    refine canonical_obj.mpr ⟨(orderedKeys_congr rfl).trans hkeys, ?_⟩
    intro kv hkv
    simp only [List.mem_cons, List.not_mem_nil, or_false] at hkv
    rcases hkv with rfl | rfl
    · refine canonical_obj.mpr ⟨(orderedKeys_congr rfl).trans hbuffer, ?_⟩
      intro kv hkv
      simp only [List.mem_cons, List.not_mem_nil, or_false] at hkv
      rcases hkv with rfl | rfl
      · rfl
      · rw [Json.canonical]
        exact hdata
    · rfl
  | .value v, type, j, h, hj => by
    rw [HasType] at h
    rw [Item.toObject] at hj
    rcases h with ⟨-, n, rfl⟩ | ⟨-, b, rfl⟩ | ⟨-, j', hcanonical, -, rfl⟩
    · cases n <;> cases hj <;> rfl
    · cases hj
      rfl
    · rw [toJson_ofJson] at hj
      rw [← Option.some.inj hj]
      exact hcanonical
  | .container items, type, j, h, hj => by
    rw [HasType] at h
    rw [toJson_container, Option.some.injEq] at hj
    rw [← hj]
    refine canonical_obj.mpr ⟨orderedKeys_propsToJson (orderedKeys_assignAll _), ?_⟩
    intro kv hkv
    rcases mem_propsToJson.mp hkv with ⟨v, hv, hjson⟩
    exact canonical_objectEntries items h.2.2 _ (mem_of_mem_assignAll _ hv).1 _ hjson

/-- The values of a container can be read back; the induction is on its items. -/
theorem canonical_objectEntries : ∀ items : List (JsString × Option Json × Item),
    EntriesTyped items → ∀ kv ∈ objectEntries items, ∀ j, kv.2.toJson = some j → j.canonical = true
  | [], _, kv, hkv, _, _ => by
    rw [objectEntries] at hkv
    cases hkv
  | (k, type, item) :: items, h, kv, hkv, j, hj => by
    rw [EntriesTyped] at h
    rw [objectEntries] at hkv
    rcases List.mem_cons.mp hkv with heq | hrest
    · rw [heq] at hj
      exact canonical_toObject item h.1 hj
    · exact canonical_objectEntries items h.2 kv hrest j hj
end

/-- The tag of an entry is a text. -/
lemma canonical_tag {type : Option Json} {item : Item} (h : HasType type item) :
    (type.getD .null).canonical = true := by
  have htag : ∃ t : ItemType, type = t.tag := by
    cases item with
    | file key fileId =>
      rw [HasType] at h
      simp only [List.mem_cons, List.not_mem_nil, or_false] at h
      rcases h.2 with h | h | h
      · exact ⟨_, h⟩
      · exact ⟨_, h⟩
      · exact ⟨_, h⟩
    | value v =>
      rw [HasType] at h
      rcases h with h | h | h
      · exact ⟨_, h.1⟩
      · exact ⟨_, h.1⟩
      · exact ⟨_, h.1⟩
    | container items =>
      rw [HasType] at h
      exact ⟨_, h.1⟩
  rcases htag with ⟨t, rfl⟩
  rfl

/-- The triple of an item can be read back. -/
lemma canonical_triple {type : Option Json} {item : Item} (h : HasType type item) :
    (triple type item).canonical = true := by
  have hjson : (item.toObject.toJson.getD .null).canonical = true := by
    cases hj : item.toObject.toJson with
    | none => rfl
    | some j => exact canonical_toObject item h hj
  have harr : ∀ a b c : Json, a.canonical = true → b.canonical = true → c.canonical = true →
      (Json.arr [a, b, c]).canonical = true := by
    intro a b c ha hb hc
    simp [Json.canonical, canonicalList, ha, hb, hc]
  cases item with
  | file key fileId =>
    rw [HasType] at h
    rcases h.1 with ⟨id, rfl⟩
    rw [triple]
    exact harr _ _ _ rfl rfl rfl
  | value v =>
    rw [triple]
    exact harr _ _ _ rfl (canonical_tag h) hjson
  | container items =>
    rw [triple]
    exact harr _ _ _ rfl rfl hjson

/-- The entries of the text, as they are read. -/
lemma parse_serialize {items : List Entry} (h : WellTyped items) :
    Json.parse (serializeToJSON items) = some (.obj (assignAll (items.map fun entry =>
      (entry.1, triple entry.2.1 entry.2.2)))) := by
  apply parse_stringify
  refine canonical_obj.mpr ⟨orderedKeys_assignAll _, ?_⟩
  intro kv hkv
  rcases List.mem_map.mp (mem_of_mem_assignAll _ hkv).1 with ⟨entry, hentry, rfl⟩
  exact canonical_triple (entriesTyped_iff.mp h.2 entry hentry)

/-! ## Reading it -/

section

variable {fromObject : Option Json → Option Bytes}

/-- An entry is found under a key when the value there is that of an item. -/
lemma lookup_entriesOfProps {kvs : List (JsString × Json)} {entries : List Entry}
    (h : entriesOfProps fromObject kvs = .ok entries) (k : JsString)
    (read : Option Json × Item) : entries.lookup k = some read ↔
      ∃ v, kvs.lookup k = some v ∧ itemOf fromObject v = .ok read := by
  induction kvs generalizing entries with
  | nil =>
    rw [entriesOfProps] at h
    cases h
    simp
  | cons kv kvs ih =>
    obtain ⟨x, w⟩ := kv
    rw [entriesOfProps] at h
    rcases bind_ok h with ⟨item, hitem, hrest⟩
    rcases bind_ok hrest with ⟨rest, hkvs, heq⟩
    cases heq
    rw [lookup_cons_eq, lookup_cons_eq]
    split_ifs with hk
    · simp [hitem]
    · exact ih hkvs

lemma entriesOfProps_total {kvs : List (JsString × Json)}
    (h : ∀ kv ∈ kvs, ∃ read, itemOf fromObject kv.2 = .ok read) :
    ∃ entries, entriesOfProps fromObject kvs = .ok entries := by
  induction kvs with
  | nil => exact ⟨[], by rw [entriesOfProps]⟩
  | cons kv kvs ih =>
    obtain ⟨x, w⟩ := kv
    rcases h _ List.mem_cons_self with ⟨read, hread⟩
    rcases ih fun kv hkv => h kv (List.mem_cons_of_mem _ hkv) with ⟨entries, hentries⟩
    refine ⟨(x, read) :: entries, ?_⟩
    rw [entriesOfProps, hread, hentries]
    rfl

/-- Two values of JSON are told apart by what they stand for. -/
lemma ofJson_injective {j j' : Json} (h : AnyValue.ofJson j = .ofJson j') : j = j' :=
  Option.some.inj ((toJson_ofJson j).symm.trans (h ▸ toJson_ofJson j'))

/-- The types have different texts. -/
lemma text_ne {t t' : ItemType} (h : t ≠ t') : Json.str t.text ≠ .str t'.text := by
  have htexts : ∀ t t' : ItemType, t ≠ t' → t.text ≠ t'.text := by
    intro t t'
    cases t <;> cases t' <;> first | exact fun h => absurd rfl h | exact fun _ => by decide +kernel
  intro heq
  exact htexts t t' h (Json.str.inj heq)

/-- An array is never what its third element is read as. -/
lemma itemOfFields_ne {xs : List Json} {type : Option Json}
    (h : itemOfFields fromObject xs = .ok (type, .value (.ofJson (.arr xs)))) : False := by
  rcases xs with _ | ⟨key, _ | ⟨t, _ | ⟨fileId, rest⟩⟩⟩
  · rw [itemOfFields] at h <;> cases h
  · rw [itemOfFields] at h <;> cases h
  · rw [itemOfFields] at h
    split_ifs at h
    · rcases bind_ok h with ⟨bytes, -, hpure⟩
      cases hpure
    · simp [AnyValue.ofJson] at h
  · rw [itemOfFields] at h
    split_ifs at h
    · rcases bind_ok h with ⟨bytes, -, hpure⟩
      cases hpure
    · rcases bind_ok h with ⟨items, -, hpure⟩
      cases hpure
    · simp only [Except.ok.injEq, Prod.mk.injEq, Item.value.injEq] at h
      have hsize := congrArg sizeOf (ofJson_injective h.2)
      simp only [Json.arr.sizeOf_spec, List.cons.sizeOf_spec] at hsize
      omega

/-- Only arrays and strings can be destructured. -/
lemma itemOf_error {v : Json} (harr : ∀ xs, v ≠ .arr xs) (hstr : ∀ t, v ≠ .str t) :
    itemOf fromObject v = .error .typeError := by
  cases v with
  | arr xs => exact absurd rfl (harr xs)
  | str t => exact absurd rfl (hstr t)
  | _ => rw [itemOf] <;> simp

/-- A bare item of an inner container is not read as itself. -/
lemma bare_ne {type : Option Json} {item item' : Item} {v : Json} (h : HasType type item)
    (hv : item.toObject.toJson = some v) (hread : itemOf fromObject v = .ok (type, item'))
    (hsame : SameItem item item') : False := by
  -- a bare item is read from an array or a string
  have hbare : (∀ xs, v ≠ .arr xs) → (∀ t, v ≠ .str t) → False := by
    intro harr hstr
    rw [itemOf_error harr hstr] at hread
    cases hread
  cases item with
  | file key fileId =>
    rw [HasType] at h
    rcases h.1 with ⟨id, rfl⟩
    rw [toJson_file] at hv
    cases hv
    exact hbare (by simp) (by simp)
  | container items =>
    rw [toJson_container] at hv
    cases hv
    exact hbare (by simp) (by simp)
  | value value =>
    rw [SameItem] at hsame
    rw [Item.toObject] at hv
    rw [HasType] at h
    rcases h with ⟨-, n, rfl⟩ | ⟨-, b, rfl⟩ | ⟨-, j, -, hobject, rfl⟩
    · cases n <;> cases hv <;> exact hbare (by simp) (by simp)
    · cases hv
      exact hbare (by simp) (by simp)
    · rw [toJson_ofJson, Option.some.injEq] at hv
      subst hv
      -- an array is read as fields, which gives no value
      cases j with
      | obj kvs => exact hbare (by simp) (by simp)
      | arr xs =>
        rw [itemOf, hsame] at hread
        exact itemOfFields_ne hread
      | _ => exact hobject

/-- The item comes back: a file was stored as a file, a container is empty and a number is one of
JSON. -/
def ItemSurvives (type : Option Json) : Item → Prop
  | .file _ _ => type = ItemType.EncryptedFile.tag
  | .container items => items = []
  | .value (.num n) => ∃ d, n = .fin d
  | .value _ => True

/-- The entry comes back; one with the key `__proto__` does not. -/
def Survives (entry : Entry) : Prop :=
  entry.1 ≠ js "__proto__" ∧ ItemSurvives entry.2.1 entry.2.2

/-- What a triple of another type is read as. -/
lemma itemOf_value {t : ItemType} (hfile : t ≠ .EncryptedFile)
    (hcontainer : t ≠ .EncryptionContainer) (v : Json) : itemOf fromObject (.arr [.null, t.tag.getD .null, v]) =
      .ok (t.tag, .value (.ofJson v)) := by
  show itemOf fromObject (.arr [.null, .str t.text, v]) = _
  rw [itemOf, itemOfFields, if_neg (text_ne hfile), if_neg (text_ne hcontainer)]
  rfl

/-- What a triple is read as. -/
lemma itemOf_triple {type : Option Json} {item : Item} (h : HasType type item)
    (hsurvives : ItemSurvives type item) :
    itemOf fromObject (triple type item) = .ok (type, item) ∧ SameItem item item := by
  cases item with
  | file key fileId =>
    rw [HasType] at h
    rcases h.1 with ⟨id, rfl⟩
    rw [show type = _ from hsurvives]
    refine ⟨?_, by rw [SameItem]⟩
    rw [triple, itemOf, itemOfFields, if_pos rfl]
    show Except.ok (_, Item.file (fromHex (toHex key)) _) = _
    rw [fromHex_toHex]
    rfl
  | container items =>
    rw [hasType_container] at h
    rw [show items = [] from hsurvives, h.1]
    refine ⟨?_, ?_⟩
    · rw [triple, itemOf, itemOfFields, if_neg (text_ne (by decide)), if_pos rfl, toJson_container]
      show (entriesOf fromObject (.obj []) >>= _) = _
      rw [entriesOf, entriesOfProps]
      rfl
    · rw [SameItem]
      exact ⟨[], rfl, fun _ hk => hk, by rw [SameEntries]; trivial⟩
  | value v =>
    refine ⟨?_, by rw [SameItem]⟩
    rw [HasType] at h
    rcases h with ⟨rfl, n, rfl⟩ | ⟨rfl, b, rfl⟩ | ⟨rfl, j, -, -, rfl⟩
    · rcases hsurvives with ⟨d, rfl⟩
      exact itemOf_value (by decide) (by decide) (.num d)
    · exact itemOf_value (by decide) (by decide) (.bool b)
    · rw [triple, toJson_ofJson]
      exact itemOf_value (by decide) (by decide) j

/-- An item that is read as itself survives. -/
lemma survives_of_read {type : Option Json} {item item' : Item} (h : HasType type item)
    (hread : itemOf fromObject (triple type item) = .ok (type, item'))
    (hsame : SameItem item item') : ItemSurvives type item := by
  cases item with
  | file key fileId =>
    rw [triple, itemOf, itemOfFields, if_pos rfl] at hread
    exact (Prod.mk.inj (Except.ok.inj hread)).1.symm
  | container items =>
    rw [hasType_container] at h
    rw [triple, itemOf, itemOfFields, if_neg (text_ne (by decide)), if_pos rfl,
      toJson_container, Option.getD_some, entriesOf] at hread
    rcases bind_ok hread with ⟨items', hitems', hpure⟩
    cases hpure
    rw [SameItem] at hsame
    rcases hsame with ⟨_, heq, -, hentries⟩
    cases heq
    show items = []
    by_contra hne
    rcases List.exists_mem_of_ne_nil _ hne with ⟨⟨k, type', item⟩, hentry⟩
    rcases sameEntries_iff.mp hentries _ hentry with ⟨item', hlookup, hsame⟩
    rcases (lookup_entriesOfProps hitems' _ _).mp hlookup with ⟨v, hv, hread'⟩
    rcases mem_propsToJson.mp (mem_of_lookup hv) with ⟨value, hvalue, hjson⟩
    rcases mem_objectEntries.mp (mem_of_mem_assignAll _ hvalue).1 with ⟨type'', item'', hmem, heq⟩
    -- the keys differ, so this is the entry itself
    have hunique := (lookup_of_mem h.2.1 hmem).symm.trans (lookup_of_mem h.2.1 hentry)
    rw [(Prod.mk.inj (Option.some.inj hunique)).2] at heq
    rw [heq] at hjson
    exact bare_ne (entriesTyped_iff.mp h.2.2 _ hentry) hjson hread' hsame
  | value v =>
    rw [HasType] at h
    rw [SameItem] at hsame
    rcases h with ⟨rfl, n, rfl⟩ | ⟨rfl, b, rfl⟩ | ⟨rfl, j, -, -, rfl⟩
    · cases n with
      | fin d => exact ⟨d, rfl⟩
      | nan =>
        rw [triple, itemOf_value (by decide) (by decide), hsame] at hread
        cases hread
      | infinity neg =>
        rw [triple, itemOf_value (by decide) (by decide), hsame] at hread
        cases hread
    · trivial
    · cases j with
      | num d => exact ⟨d, rfl⟩
      | _ => trivial

/-- A well typed container is the same after its text was read exactly when each entry survives. -/
theorem serialize_deserialize_iff {items : List Entry} (h : WellTyped items) :
    (∃ items', deserializeFromJSON fromObject (serializeToJSON items) = .ok items' ∧
      Same items items') ↔ ∀ entry ∈ items, Survives entry := by
  have hread : deserializeFromJSON fromObject (serializeToJSON items) =
      entriesOfProps fromObject (assignAll (items.map fun entry =>
        (entry.1, triple entry.2.1 entry.2.2))) := by
    unfold deserializeFromJSON
    rw [parse_serialize h]
    show entriesOf fromObject (.obj _) = _
    rw [entriesOf]
  have htyped := entriesTyped_iff.mp h.2
  have hkeys : ((items.map fun entry => (entry.1, triple entry.2.1 entry.2.2)).map
      Prod.fst).Nodup := by
    rw [List.map_map]
    exact h.1
  have hlookup : ∀ entry ∈ items, entry.1 ≠ js "__proto__" →
      (assignAll (items.map fun entry => (entry.1, triple entry.2.1 entry.2.2))).lookup entry.1 =
        some (triple entry.2.1 entry.2.2) := by
    intro entry hentry hproto
    rw [lookup_assignAll hkeys hproto]
    exact lookup_of_mem hkeys (List.mem_map.mpr ⟨entry, hentry, rfl⟩)
  rw [hread]
  constructor
  · intro hsame entry hentry
    rcases hsame with ⟨items', hitems', -, hentries⟩
    rcases sameEntries_iff.mp hentries entry hentry with ⟨item', hfound, hitem⟩
    rcases (lookup_entriesOfProps hitems' _ _).mp hfound with ⟨v, hv, hitemOf⟩
    have hproto : entry.1 ≠ js "__proto__" := by
      intro hproto
      rw [hproto, lookup_assignAll_proto] at hv
      cases hv
    rw [hlookup entry hentry hproto, Option.some.injEq] at hv
    rw [← hv] at hitemOf
    exact ⟨hproto, survives_of_read (htyped entry hentry) hitemOf hitem⟩
  · intro hsurvives
    have htotal : ∃ items', entriesOfProps fromObject (assignAll (items.map fun entry =>
        (entry.1, triple entry.2.1 entry.2.2))) = .ok items' := by
      apply entriesOfProps_total
      intro kv hkv
      rcases List.mem_map.mp (mem_of_mem_assignAll _ hkv).1 with ⟨entry, hentry, rfl⟩
      exact ⟨_, (itemOf_triple (htyped entry hentry) (hsurvives entry hentry).2).1⟩
    rcases htotal with ⟨items', hitems'⟩
    refine ⟨items', hitems', ?_, sameEntries_iff.mpr ?_⟩
    · intro k hk
      rcases Option.isSome_iff_exists.mp hk with ⟨read, hfound⟩
      rcases (lookup_entriesOfProps hitems' _ _).mp hfound with ⟨v, hv, -⟩
      rcases List.mem_map.mp (mem_of_mem_assignAll _ (mem_of_lookup hv)).1 with ⟨entry, hentry, heq⟩
      rw [← (Prod.mk.inj heq).1, lookup_of_mem h.1 hentry]
      rfl
    · intro entry hentry
      have hitem := @itemOf_triple fromObject _ _ (htyped entry hentry) (hsurvives entry hentry).2
      refine ⟨entry.2.2, ?_, hitem.2⟩
      apply (lookup_entriesOfProps hitems' _ _).mpr
      exact ⟨_, hlookup entry hentry (hsurvives entry hentry).1, hitem.1⟩

end

/-- A file, an empty object and a number, and an empty container. -/
def flat : List Entry :=
  [(js "photo", ItemType.EncryptedFile.tag, .file [1, 2] (some (.str (js "id")))),
    (js "tags", ItemType.object.tag, .value (.obj [])),
    (js "age", ItemType.number.tag, .value (.num (.fin (.ofInt 1)))),
    (js "more", ItemType.EncryptionContainer.tag, .container [])]

lemma flat_wellTyped : WellTyped flat := by
  refine ⟨by decide +kernel, entriesTyped_iff.mpr ?_⟩
  intro entry hentry
  simp only [flat, List.mem_cons, List.not_mem_nil, or_false] at hentry
  rcases hentry with rfl | rfl | rfl | rfl
  · exact hasType_file ⟨[1, 2], js "id"⟩ (by simp)
  · exact @hasType_object (.obj []) rfl trivial
  · rw [HasType]
    exact .inl ⟨rfl, _, rfl⟩
  · exact hasType_container.mpr ⟨rfl, .nil⟩

theorem serialize_deserialize_flat : ∃ items',
    deserializeFromJSON (fun _ => none) (serializeToJSON flat) = .ok items' ∧ Same flat items' := by
  refine (serialize_deserialize_iff flat_wellTyped).mpr ?_
  intro entry hentry
  simp only [flat, List.mem_cons, List.not_mem_nil, or_false] at hentry
  rcases hentry with rfl | rfl | rfl | rfl
  · exact ⟨by decide +kernel, rfl⟩
  · exact ⟨by decide +kernel, trivial⟩
  · exact ⟨by decide +kernel, _, rfl⟩
  · exact ⟨by decide +kernel, rfl⟩

/-- An object with one number. -/
def profile : List Entry :=
  [(js "profile", ItemType.EncryptionContainer.tag,
    .container [(js "age", ItemType.number.tag, .value (.num (.fin (.ofInt 1))))])]

/-- The container of an object is made and written, and cannot be read. -/
theorem nested_not_read :
    Logged.Yields (set (Env.small []) (js "profile")
      (.object [(js "age", .number (.fin (.ofInt 1)))]) []) 0 profile 0 ∧
    WellTyped profile ∧
    serializeToJSON profile =
      js "\x7b\"profile\":[null,\"EncryptionContainer\",\x7b\"age\":1\x7d]\x7d" ∧
    deserializeFromJSON (fun _ => none) (serializeToJSON profile) = .error .typeError := by
  have hset : Logged.Yields (set (Env.small []) (js "profile")
      (.object [(js "age", .number (.fin (.ofInt 1)))]) []) 0 profile 0 := by
    rw [set]
    refine Logged.yields_bind.mpr
      ⟨[(js "age", ItemType.number.tag, .value (.num (.fin (.ofInt 1))))], 0, ?_,
        Logged.yields_pure.mpr ⟨rfl, rfl⟩⟩
    rw [setProps, set, pure_bind, setProps]
    exact Logged.yields_pure.mpr ⟨rfl, rfl⟩
  have htyped : WellTyped profile := by
    refine set_wellTyped _ _ ?_ .nil hset
    rw [Input.Ok, PropsOk, PropsOk, Input.Ok]
    · exact ⟨trivial, trivial⟩
    all_goals simp
  refine ⟨hset, htyped, by decide +kernel, ?_⟩
  have hparse : Json.parse (serializeToJSON profile) = some (.obj [(js "profile", .arr [.null,
      .str ItemType.EncryptionContainer.text, .obj [(js "age", .num (.ofInt 1))]])]) := by
    decide +kernel
  have hage : itemOf (fun _ => none) (.num (.ofInt 1)) = .error .typeError :=
    itemOf_error (by simp) (by simp)
  unfold deserializeFromJSON
  rw [hparse]
  show entriesOf _ (.obj _) = _
  rw [entriesOf, entriesOfProps, itemOf, itemOfFields, if_neg (text_ne (by decide)), if_pos rfl,
    entriesOf, entriesOfProps, entriesOfProps, hage]
  rfl

end PointNetwork.Containers
