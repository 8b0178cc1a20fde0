import PointNetwork.Encryption
import PointNetwork.Storage.FileRead

/-!
# Host storage

`HostStorageTracker` of `client/hostStorage.ts`: a tree of containers, each one a file of its
own that lists its items and refers to the files of its sub-containers. Operations change the
containers along a path in memory and upload them on the way out.

The file ids of uploads are those of `uploadData`; the material uploaded is logged. A key that
an object of the language inherits (`constructor`, `toString`, …) reads as a function where
there is no item of that name. Assignment to `__proto__` is not modelled.
-/

namespace PointNetwork.HostStorage

open Js

/-! ## Values -/

/-- `AnyValueType`; `function` stands for a value of no storable type. -/
inductive AnyValue
  | undefined
  | null
  | bool (b : Bool)
  | num (n : JsNumber)
  | str (s : JsString)
  | buffer (b : Bytes)
  | arr (xs : List AnyValue)
  | obj (kvs : List (JsString × AnyValue))
  | function

section DecidableEq

mutual
/-- Structural equality. -/
def AnyValue.beq : AnyValue → AnyValue → Bool
  | .undefined, .undefined => true
  | .null, .null => true
  | .bool a, .bool b => a == b
  | .num a, .num b => a == b
  | .str a, .str b => a == b
  | .buffer a, .buffer b => a == b
  | .arr a, .arr b => beqElements a b
  | .obj a, .obj b => beqEntries a b
  | .function, .function => true
  | _, _ => false

/-- The elements are equal, one by one. -/
def beqElements : List AnyValue → List AnyValue → Bool
  | [], [] => true
  | x :: xs, y :: ys => x.beq y && beqElements xs ys
  | _, _ => false

/-- The entries are equal, in the same order. -/
def beqEntries : List (JsString × AnyValue) → List (JsString × AnyValue) → Bool
  | [], [] => true
  | (k, x) :: xs, (l, y) :: ys => k == l && x.beq y && beqEntries xs ys
  | _, _ => false
end

mutual
/-- The test decides equality; the induction is on the value. -/
theorem AnyValue.beq_iff : ∀ a b : AnyValue, a.beq b = true ↔ a = b
  | .arr a, b => by
    cases b with
    | arr b => simp [AnyValue.beq, beqElements_iff a b]
    | _ => simp [AnyValue.beq]
  | .obj a, b => by
    cases b with
    | obj b => simp [AnyValue.beq, beqEntries_iff a b]
    | _ => simp [AnyValue.beq]
  | .undefined, b | .null, b | .bool _, b | .num _, b | .str _, b | .buffer _, b
  | .function, b => by cases b <;> simp [AnyValue.beq]

theorem beqElements_iff : ∀ a b : List AnyValue, beqElements a b = true ↔ a = b
  | [], b => by cases b <;> simp [beqElements]
  | x :: xs, b => by
    cases b with
    | nil => simp [beqElements]
    | cons y ys => simp [beqElements, AnyValue.beq_iff x y, beqElements_iff xs ys]

theorem beqEntries_iff : ∀ a b : List (JsString × AnyValue), beqEntries a b = true ↔ a = b
  | [], b => by cases b <;> simp [beqEntries]
  | (k, x) :: xs, b => by
    cases b with
    | nil => simp [beqEntries]
    | cons ly ys =>
      obtain ⟨l, y⟩ := ly
      simp [beqEntries, AnyValue.beq_iff x y, beqEntries_iff xs ys]
end

instance : DecidableEq AnyValue := fun a b => decidable_of_iff _ (AnyValue.beq_iff a b)

end DecidableEq

mutual
/-- The value that `JSON.stringify` writes, if any. -/
def AnyValue.toJson : AnyValue → Option Json
  | .undefined | .function => none
  | .null => some .null
  | .bool b => some (.bool b)
  | .num (.fin d) => some (.num d)
  | .num _ => some .null
  | .str s => some (.str s)
  | .buffer b => some (.obj [(js "type", .str (js "Buffer")),
      (js "data", .arr (b.map fun x => .num (.ofInt x.toNat)))])
  | .arr xs => some (.arr (elementsToJson xs))
  | .obj kvs => some (.obj (propsToJson kvs))

/-- The elements as JSON, with `null` for what has no text. -/
def elementsToJson : List AnyValue → List Json
  | [] => []
  | x :: xs => x.toJson.getD .null :: elementsToJson xs

/-- The properties as JSON, without those that have no text. -/
def propsToJson : List (JsString × AnyValue) → List (JsString × Json)
  | [] => []
  | (k, v) :: kvs =>
    match v.toJson with
    | some j => (k, j) :: propsToJson kvs
    | none => propsToJson kvs
end

mutual
/-- A parsed JSON value. -/
def AnyValue.ofJson : Json → AnyValue
  | .null => .null
  | .bool b => .bool b
  | .num d => .num (.fin d)
  | .str s => .str s
  | .arr xs => .arr (elementsOfJson xs)
  | .obj kvs => .obj (propsOfJson kvs)

/-- The values of the elements. -/
def elementsOfJson : List Json → List AnyValue
  | [] => []
  | x :: xs => .ofJson x :: elementsOfJson xs

/-- The values of the properties. -/
def propsOfJson : List (JsString × Json) → List (JsString × AnyValue)
  | [] => []
  | (k, v) :: kvs => (k, .ofJson v) :: propsOfJson kvs
end

/-- An element of a path. -/
inductive Segment
  | str (s : JsString)
  | num (n : JsNumber)
  | null
  /-- Any other type, `undefined` included. -/
  | invalid
  deriving DecidableEq

/-- `String(n)`. -/
def numberText : JsNumber → JsString
  | .nan => js "NaN"
  | .infinity neg => if neg then js "-Infinity" else js "Infinity"
  | .fin n => n.text

/-- The key an element of a path stands for. -/
def Segment.key : Segment → Except Exception JsString
  | .str s => pure s
  | .num n => pure (numberText n)
  | .null => pure (js "null")
  | .invalid => throw (.displayable "Invalid path")

/-! ## Items -/

/-- A file id with the key to its content. -/
structure EncryptedFile where
  key : Bytes
  fileId : JsString
  deriving DecidableEq

/-- `HostStorageTrackerItem`. A string or buffer item refers to a file, in memory as after
loading; a container is either not loaded, or a tracker with its items and its file. -/
inductive Item
  | literal (v : AnyValue)
  | file (buffer : Bool) (f : EncryptedFile)
  | unloaded (array : Bool) (f : EncryptedFile)
  | loaded (array : Bool) (items : List (JsString × Item)) (encFile : Option EncryptedFile)

/-- The items of a tracker, and the file that it was uploaded to. -/
structure HostStorageTracker where
  items : List (JsString × Item) := []
  encFile : Option EncryptedFile := none

/-- `TrackerItemType`. -/
def Item.t : Item → String
  | .literal _ => "L"
  | .file false _ => "S"
  | .file true _ => "B"
  | .unloaded false _ | .loaded false _ _ => "O"
  | .unloaded true _ | .loaded true _ _ => "A"

/-- The names an object inherits. -/
def inheritedNames : List JsString :=
  ["constructor", "__defineGetter__", "__defineSetter__", "hasOwnProperty", "__lookupGetter__",
    "__lookupSetter__", "isPrototypeOf", "propertyIsEnumerable", "toString", "valueOf",
    "__proto__", "toLocaleString"].map js

/-- Every object has a property of this name. -/
def isInherited (k : JsString) : Bool := inheritedNames.contains k

/-- What `this.items[k]` gives. -/
inductive Slot
  | absent
  | inherited
  | own (item : Item)

/-- What `this.items[k]` is. -/
def slot (items : List (JsString × Item)) (k : JsString) : Slot :=
  match items.lookup k with
  | some item => .own item
  | none => if isInherited k then .inherited else .absent

/-- `this.items[k] = item`. -/
def HostStorageTracker.setItem (tracker : HostStorageTracker) (k : JsString) (item : Item) :
    HostStorageTracker :=
  { tracker with items := setProp k item tracker.items }

/-! ## Files of containers -/

/-- What host storage uses of the rest of the node. `getFileBinary` is what the download of a
file gives. -/
structure Env (σ : Type) where
  hashFn : HashFn
  CHUNK_SIZE : ℕ
  aes : Aes
  rng : Rng σ
  getFileBinary : JsString → Option Bytes
  rootEncKey : Bytes
  validKey_rootEncKey : validKey rootEncKey = true

/-- A node for small concrete runs, with the given uploads to download. -/
def Env.small (uploads : List Bytes) : Env ℕ where
  hashFn := .firstBytes
  CHUNK_SIZE := 1000
  aes := .plain
  rng := .counter
  getFileBinary fileId := uploads.find? fun b =>
    (Storage.fileChunks .firstBytes 1000 b).1 = fileId
  rootEncKey := List.replicate KEY_LENGTH_BYTES 7
  validKey_rootEncKey := by decide

/-- A computation of host storage: it draws keys, may throw, and logs what it uploads. -/
abbrev Run (σ α : Type) := Logged σ Bytes Exception α

section

variable {σ : Type} (env : Env σ)

/-- `uploadData`, as far as host storage sees it. -/
def uploadData (material : Bytes) : Run σ JsString := do
  Logged.tell material
  pure (Storage.fileChunks env.hashFn env.CHUNK_SIZE material).1

/-- `encryptDataSymmetric` followed by `uploadData`. -/
def encryptAndUpload (data : Bytes) (forceEncryptionKey : Option Bytes) :
    Run σ EncryptedFile := do
  let encryptedData ← EncryptedData.createFromPlaintext env.aes env.rng data forceEncryptionKey
  let fileId ← uploadData env encryptedData.encryptedMaterial
  pure ⟨encryptedData.key, fileId⟩

/-- `downloadAndDecryptFile`. -/
def downloadAndDecryptFile (f : EncryptedFile) : Except Exception Bytes :=
  match env.getFileBinary f.fileId with
  | some material => EncryptedData.decrypt env.aes ⟨f.key, material⟩
  | none => throw .rejected

/-- The JSON form of an item with the type `t`. -/
def typedJson (t : String) (v : Option Json) : Json :=
  .obj ((js "t", .str (js t)) :: (v.map fun v => (js "v", v)).toList)

/-- `[item.v.key.toString('hex'), item.v.fileId]`. -/
def fileJson (f : EncryptedFile) : Json := .arr [.str (toHex f.key), .str f.fileId]

mutual
/-- The JSON form of an item; a container that has no file is uploaded first. -/
def serializeItem : Item → Run σ (Item × Json)
  | .literal v => pure (.literal v, typedJson "L" v.toJson)
  | .file buffer f => pure (.file buffer f, typedJson (Item.file buffer f).t (some (fileJson f)))
  | .unloaded array f =>
    pure (.unloaded array f, typedJson (Item.unloaded array f).t (some (fileJson f)))
  | .loaded array items (some f) =>
    pure (.loaded array items (some f), typedJson (Item.unloaded array f).t (some (fileJson f)))
  | .loaded array items none => do
    let (items, kvs) ← serializeItems items
    let f ← encryptAndUpload env (Json.encode (.obj kvs)) none
    pure (.loaded array items (some f), typedJson (Item.unloaded array f).t (some (fileJson f)))

/-- `serialize`: the properties of the JSON text, which are in the order of the items. -/
def serializeItems :
    List (JsString × Item) → Run σ (List (JsString × Item) × List (JsString × Json))
  | [] => pure ([], [])
  | (k, item) :: rest => do
    let (item, v) ← serializeItem item
    let (items, kvs) ← serializeItems rest
    pure ((k, item) :: items, (k, v) :: kvs)
end

/-- `upload`. -/
def upload (forceEncryptionKey : Option Bytes) (tracker : HostStorageTracker) :
    Run σ HostStorageTracker := do
  let (items, kvs) ← serializeItems env tracker.items
  let encFile ← encryptAndUpload env (Json.encode (.obj kvs)) forceEncryptionKey
  pure ⟨items, some encFile⟩

/-- `[key, fileId]` of a JSON value. -/
def fileOfJson : Option Json → Option EncryptedFile
  | some (.arr [.str key, .str fileId]) => some ⟨fromHex key, fileId⟩
  | _ => none

/-- The item a JSON value is read as. Forms that `serialize` does not write are not
modelled. -/
def itemOfJson : Json → Option Item
  | .obj kvs =>
    match kvs.lookup (js "t") with
    | some (.str t) =>
      if t = js "L" then some (.literal ((kvs.lookup (js "v")).elim .undefined .ofJson))
      else (fileOfJson (kvs.lookup (js "v"))).bind fun f =>
        if t = js "S" then some (.file false f)
        else if t = js "B" then some (.file true f)
        else if t = js "O" then some (.unloaded false f)
        else if t = js "A" then some (.unloaded true f)
        else none
    | _ => none
  | _ => none

/-- The items of an object. -/
def itemsOfJson : List (JsString × Json) → Option (List (JsString × Item))
  | [] => some []
  | (k, v) :: kvs => do
    let item ← itemOfJson v
    let items ← itemsOfJson kvs
    pure ((k, item) :: items)

/-- `fromDownload`. -/
def fromDownload (encFile : EncryptedFile) : Except Exception HostStorageTracker := do
  let data ← downloadAndDecryptFile env encFile
  match Json.decode data with
  | none => throw .syntaxError
  | some (.obj kvs) =>
    match itemsOfJson kvs with
    | some items => pure ⟨items, some encFile⟩
    | none => throw .rejected
  | some _ => throw .rejected

/-- What `_sub` does to the item under a key: a container is loaded. -/
def load (k : JsString) (tracker : HostStorageTracker) : Except Exception HostStorageTracker :=
  match tracker.items.lookup k with
  | some (.unloaded array f) => do
    let sub ← fromDownload env f
    pure (tracker.setItem k (.loaded array sub.items sub.encFile))
  | _ => pure tracker

/-! ## Reading -/

/-- `toObject`, the items being read by `toLiteral`. -/
def toObject (toLiteral : Item → Except Exception AnyValue) (items : List (JsString × Item)) :
    Except Exception AnyValue := do
  let kvs ← items.mapM fun (k, item) => do pure (k, ← toLiteral item)
  pure (.obj (ofEntries kvs))

/-- `toLiteral`; the fuel bounds the depth of the containers. -/
def toLiteral : ℕ → Item → Except Exception AnyValue
  | _, .literal v => pure v
  | _, .file buffer f => do
    let data ← downloadAndDecryptFile env f
    pure (if buffer then .buffer data else .str (bufferToString data))
  | 0, _ => throw .outOfFuel
  | n + 1, .unloaded _ f => do
    let sub ← fromDownload env f
    toObject (toLiteral n) sub.items
  | n + 1, .loaded _ items _ => toObject (toLiteral n) items

/-- `get`. -/
def get (fuel : ℕ) : List Segment → HostStorageTracker → Except Exception AnyValue
  | [], _ => throw (.displayable "Invalid path")
  | segment :: theRest, tracker => do
    let k ← segment.key
    let tracker ← load env k tracker
    match slot tracker.items k, theRest with
    | .absent, _ => pure .undefined
    | .own (.loaded _ items encFile), _ :: _ => get fuel theRest ⟨items, encFile⟩
    | _, _ :: _ => throw (.displayable "Invalid path value")
    | .inherited, [] => throw (.displayable "Invalid tracker item type")
    | .own item, [] => toLiteral env fuel item

/-- `dir`. -/
def dir : List Segment → HostStorageTracker → Except Exception AnyValue
  | [], _ => throw (.displayable "Invalid path")
  | segment :: theRest, tracker => do
    let k ← segment.key
    let tracker ← load env k tracker
    match slot tracker.items k, theRest with
    | .absent, _ => pure .undefined
    | .own (.loaded _ items encFile), _ :: _ => dir theRest ⟨items, encFile⟩
    | .own (.loaded _ items _), [] => pure (.arr (items.map fun (k, _) => .str k))
    | _, _ => throw (.displayable "Invalid path value: not a HostStorageTracker")

/-- `len`. -/
def len : List Segment → HostStorageTracker → Except Exception ℕ
  | [], _ => throw (.displayable "Invalid path")
  | segment :: theRest, tracker => do
    let k ← segment.key
    let tracker ← load env k tracker
    match slot tracker.items k, theRest with
    | .absent, _ => pure 0
    | .own (.loaded _ items encFile), _ :: _ => len theRest ⟨items, encFile⟩
    | _, _ :: _ => throw (.displayable "Invalid path value")
    | .own (.loaded _ items _), [] => pure items.length
    | .own (.literal (.arr xs)), [] => pure xs.length
    | .own (.literal _), [] => throw (.displayable "Invalid type for len")
    | .own item, [] => throw (.displayable ("Invalid tracker item type for len: " ++ item.t))
    | .inherited, [] => throw (.displayable "Invalid tracker item type for len: undefined")

/-! ## Updates -/

/-- The shape of the updates: the containers along the path are loaded, the one at its end is
changed by `leaf`, and every container is uploaded on the way out. `blocked` is what is thrown
where the path does not lead on through a container. -/
def update (blocked : Slot → Exception)
    (leaf : JsString → HostStorageTracker → Run σ HostStorageTracker) :
    List Segment → HostStorageTracker → Run σ HostStorageTracker
  | [], _ => Logged.fail (.displayable "Invalid path")
  | segment :: theRest, tracker => do
    let k ← Logged.ofExcept segment.key
    let tracker ← Logged.ofExcept (load env k tracker)
    match theRest with
    | [] => do
      let tracker ← leaf k tracker
      upload env none tracker
    | _ :: _ =>
      match slot tracker.items k with
      | .own (.loaded array items encFile) => do
        let sub ← update blocked leaf theRest ⟨items, encFile⟩
        upload env none (tracker.setItem k (.loaded array sub.items sub.encFile))
      | s => Logged.fail (blocked s)

/-- Where `set` cannot go on: the type error comes from reading `v` off a missing item, before
the code that would create the container. -/
def blockedSet : Slot → Exception
  | .absent => .typeError
  | .inherited | .own (.literal .undefined) => .displayable "Invalid path data in set"
  | .own _ => .displayable "Invalid path data in set: item.v is not a HostStorageTracker"

/-- Where the other updates cannot go on. -/
def blockedValue : Slot → Exception
  | .absent => .typeError
  | _ => .displayable "Invalid path value"

mutual
/-- The item `set` makes of a value. -/
def storeValue : AnyValue → Run σ Item
  | .str s => do
    let f ← encryptAndUpload env (bufferFrom s) none
    pure (.file false f)
  | .undefined => pure (.literal .undefined)
  | .null => pure (.literal .null)
  | .bool b => pure (.literal (.bool b))
  | .num n => pure (.literal (.num n))
  | .buffer [] => pure (.literal (.buffer []))
  | .buffer (x :: b) => do
    let f ← encryptAndUpload env (x :: b) none
    pure (.file true f)
  | .arr [] => pure (.literal (.arr []))
  | .arr (x :: xs) => do
    let tracker ← setElements 0 (x :: xs) {}
    let tracker ← upload env none tracker
    pure (.loaded false tracker.items tracker.encFile)
  | .obj [] => pure (.literal (.obj []))
  | .obj (kv :: kvs) => do
    let tracker ← setEntries (kv :: kvs) {}
    let tracker ← upload env none tracker
    pure (.loaded false tracker.items tracker.encFile)
  | .function => Logged.fail (.displayable "Invalid type")

/-- `tracker.set([k], v)` for the elements of an array, from the index `i` on. -/
def setElements (i : ℕ) :
    List AnyValue → HostStorageTracker → Run σ HostStorageTracker
  | [], tracker => pure tracker
  | v :: vs, tracker => do
    let tracker ← Logged.ofExcept (load env (natText i) tracker)
    let item ← storeValue v
    let tracker ← upload env none (tracker.setItem (natText i) item)
    setElements (i + 1) vs tracker

/-- `tracker.set([k], v)` for the entries of an object. -/
def setEntries :
    List (JsString × AnyValue) → HostStorageTracker → Run σ HostStorageTracker
  | [], tracker => pure tracker
  | (k, v) :: kvs, tracker => do
    let tracker ← Logged.ofExcept (load env k tracker)
    let item ← storeValue v
    let tracker ← upload env none (tracker.setItem k item)
    setEntries kvs tracker
end

/-- `this.items[k] = …` of `set`. -/
def setLeaf (v : AnyValue) (k : JsString) (tracker : HostStorageTracker) :
    Run σ HostStorageTracker := do
  let item ← storeValue env v
  pure (tracker.setItem k item)

/-- `set`. -/
def set (path : List Segment) (v : AnyValue) : HostStorageTracker → Run σ HostStorageTracker :=
  update env blockedSet (setLeaf env v) path

/-- `unset` at the last segment: the item becomes a literal `undefined`. -/
def unsetLeaf (k : JsString) (tracker : HostStorageTracker) : Run σ HostStorageTracker :=
  match slot tracker.items k with
  | .absent => Logged.fail .typeError
  | _ => pure (tracker.setItem k (.literal .undefined))

/-- `unset`. -/
def unset (path : List Segment) : HostStorageTracker → Run σ HostStorageTracker :=
  update env blockedValue unsetLeaf path

/-- `_newEncArray`. The item has been loaded, so that a container is never the array of key
and file id that the source goes on with; the appended value, the filter and the index are not
used in the other branches. `withLen` says that no index was given. -/
def newEncArray (withLen : Bool) (k : JsString) (tracker : HostStorageTracker) :
    Run σ HostStorageTracker := do
  let _ ← Logged.ofExcept (if withLen then len env [.str k] tracker else pure 0)
  match slot tracker.items k with
  | .absent => Logged.fail .typeError
  | .own (.literal .undefined) => do
    let sub ← set env [.num (.fin (.ofInt 0))] .undefined {}
    upload env none sub
  | .own (.literal (.arr xs)) => do
    let sub ← set env [.num (.fin (.ofInt 0))] (.arr xs) {}
    upload env none sub
  | .own (.literal _) => Logged.fail (.displayable "Invalid type for append")
  | .own (.loaded true _ _) | .own (.unloaded true _) =>
    Logged.fail (.displayable "Invalid type for append, doesnt match")
  | _ => Logged.fail (.displayable "Invalid tracker item type for append")

/-- The operations on lists at the last segment: the item becomes a new, empty list. -/
def encArrayLeaf (withLen : Bool) (k : JsString) (tracker : HostStorageTracker) :
    Run σ HostStorageTracker := do
  let sub ← newEncArray env withLen k tracker
  pure (tracker.setItem k (.loaded true sub.items sub.encFile))

/-- `append`. -/
def append (path : List Segment) : HostStorageTracker → Run σ HostStorageTracker :=
  update env blockedValue (encArrayLeaf env true) path

/-- `insertAt`, which on a longer path calls `append` on the sub-container. -/
def insertAt (path : List Segment) : HostStorageTracker → Run σ HostStorageTracker :=
  if path.length ≤ 1 then update env blockedValue (encArrayLeaf env false) path
  else append env path

/-- `removeAt`. -/
def removeAt (path : List Segment) : HostStorageTracker → Run σ HostStorageTracker :=
  update env blockedValue (encArrayLeaf env true) path

/-- `replaceAt` at the last segment: a set in the tracker that is there. -/
def replaceLeaf (v : AnyValue) (index : Segment) (k : JsString) (tracker : HostStorageTracker) :
    Run σ HostStorageTracker :=
  match slot tracker.items k with
  | .own (.loaded array items encFile) => do
    let sub ← set env [index] v ⟨items, encFile⟩
    pure (tracker.setItem k (.loaded array sub.items sub.encFile))
  | s => Logged.fail (blockedValue s)

/-- `replaceAt`. -/
def replaceAt (path : List Segment) (v : AnyValue) (index : Segment) :
    HostStorageTracker → Run σ HostStorageTracker :=
  update env blockedValue (replaceLeaf env v index) path

end

end PointNetwork.HostStorage
