import PointNetwork.HostStorage.Tracker
import PointNetwork.Tables

/-!
# Encryption containers

`EncryptionContainer` of `client/encryption.ts`: items under keys, each with its type. Strings and
buffers are uploaded, and their item is the file; an object becomes a container of its own.

The maps `items` and `itemTypes` have the same keys and are kept as one list of entries. A type
is what the map holds, so that also a type read from a JSON text is one; `none` is `undefined`.
-/

namespace PointNetwork.Containers

open Js HostStorage

/-- The types of the items of a container. -/
inductive ItemType
  | string
  | number
  | object
  | boolean
  | Buffer
  | EncryptedFile
  | EncryptionContainer
  deriving DecidableEq

/-- The text of a type in the serialized container. -/
def ItemType.text : ItemType → JsString
  | string => js "string"
  | number => js "number"
  | object => js "object"
  | boolean => js "boolean"
  | Buffer => js "Buffer"
  | EncryptedFile => js "EncryptedFile"
  | EncryptionContainer => js "EncryptionContainer"

/-- An entry of `itemTypes`. -/
def ItemType.tag (type : ItemType) : Option Json := some (.str type.text)

/-- An item: a file, whose id may be anything that was read, a container, or any other value. -/
inductive Item
  | file (key : Bytes) (fileId : Option Json)
  | value (v : AnyValue)
  | container (items : List (JsString × Option Json × Item))

/-- A key, the type that its item claims to be of, and the item. -/
abbrev Entry := JsString × Option Json × Item

/-- What `set` is given. -/
inductive Input
  | undefined
  | null
  | boolean (b : Bool)
  | number (n : JsNumber)
  | string (s : JsString)
  | buffer (b : Bytes)
  | array (xs : List Input)
  | object (kvs : List (JsString × Input))
  | file (f : HostStorage.EncryptedFile)
  | container (items : List Entry)
  | function

/-- `this.items.set(k, item); this.itemTypes.set(k, type);` -/
def put (k : JsString) (type : ItemType) (item : Item) (items : List Entry) : List Entry :=
  Table.upsert Prod.fst (k, type.tag, item) items

section

variable {σ : Type} (env : Env σ)

mutual
/-- `set`: texts and buffers are encrypted and uploaded, objects become containers. -/
def set (k : JsString) : Input → List Entry → Run σ (List Entry)
  | .string s, items => do
    let f ← encryptAndUpload env (bufferFrom s) none
    pure (put k .string (.file f.key (some (.str f.fileId))) items)
  | .buffer b, items => do
    let f ← encryptAndUpload env b none
    pure (put k .Buffer (.file f.key (some (.str f.fileId))) items)
  | .number n, items => pure (put k .number (.value (.num n)) items)
  | .boolean b, items => pure (put k .boolean (.value (.bool b)) items)
  | .container sub, items => pure (put k .EncryptionContainer (.container sub) items)
  | .file f, items => pure (put k .EncryptedFile (.file f.key (some (.str f.fileId))) items)
  | .object [], items => pure (put k .object (.value (.obj [])) items)
  | .object (kv :: kvs), items => do
    let sub ← setProps (kv :: kvs) []
    pure (put k .EncryptionContainer (.container sub) items)
  | .array [], items => pure (put k .object (.value (.arr [])) items)
  | .array (x :: xs), items => do
    let sub ← setElements 0 (x :: xs) []
    pure (put k .EncryptionContainer (.container sub) items)
  -- `Object.keys(null)`
  | .null, _ => Logged.fail .typeError
  | .undefined, _ => Logged.fail (.displayable "Unknown type")
  | .function, _ => Logged.fail (.displayable "Unknown type")

/-- Sets the properties of an object. -/
def setProps : List (JsString × Input) → List Entry → Run σ (List Entry)
  | [], items => pure items
  | (k, v) :: kvs, items => do
    let items ← set k v items
    setProps kvs items

/-- Sets the elements of an array, under their indices. -/
def setElements : ℕ → List Input → List Entry → Run σ (List Entry)
  | _, [], items => pure items
  | i, x :: xs, items => do
    let items ← set (natText i) x items
    setElements (i + 1) xs items
end

end

/-! ## `toObject` and `serializeToJSON` -/

mutual
/-- What `toObject` assigns for an item; a file is an object with its key and its id. -/
def Item.toObject : Item → AnyValue
  | .file key fileId => .obj [(js "key", .buffer key),
      (js "fileId", fileId.elim .undefined .ofJson)]
  | .value v => v
  | .container items => .obj (assignAll (objectEntries items))

/-- `toObject` of each item. -/
def objectEntries : List (JsString × Option Json × Item) → List (JsString × AnyValue)
  | [] => []
  | (k, _, item) :: items => (k, item.toObject) :: objectEntries items
end

/-- The JSON of an item: what stands under its key in an array is `null` when it is `undefined`. -/
def triple (type : Option Json) : Item → Json
  | .file key fileId => .arr [.str (toHex key), .str ItemType.EncryptedFile.text, fileId.getD .null]
  | .container items => .arr [.null, .str ItemType.EncryptionContainer.text,
      (Item.container items).toObject.toJson.getD .null]
  | .value v => .arr [.null, type.getD .null, v.toJson.getD .null]

/-- The text of the container: a triple for each key. -/
def serializeToJSON (items : List Entry) : JsString :=
  (Json.obj (assignAll (items.map fun entry =>
    (entry.1, triple entry.2.1 entry.2.2)))).stringify

/-! ## `deserializeFromJSON` -/

section

variable (fromObject : Option Json → Option Bytes)

/-- `Buffer.from(key, 'hex')`; what it makes of a value that is no string is up to node. -/
def keyBytes (key : Option Json) : Except Exception Bytes :=
  match key with
  | some (.str s) => .ok (fromHex s)
  | v => (fromObject v).elim (.error .typeError) .ok

/-- What iteration over a string gives. -/
def chars : JsString → List JsString
  | [] => []
  | [u] => [[u]]
  | h :: l :: rest => if isHigh h && isLow l then [h, l] :: chars rest else [h] :: chars (l :: rest)

/-- The type and the item that the first characters of a string give. -/
def itemOfText (s : JsString) : Option Json × Item :=
  ((chars s)[1]?.map .str, .value ((chars s)[2]?.elim .undefined .str))

mutual
/-- The loop of `deserializeFromJSON` over a parsed text. The text of a nested container is parsed
to the value that it was printed from. -/
def entriesOf : Json → Except Exception (List Entry)
  | .obj kvs => entriesOfProps kvs
  | .arr xs => entriesOfElements 0 xs
  | .str s => .ok (s.zipIdx.map fun unit => (natText unit.2, none, .value .undefined))
  | _ => .ok []

/-- The entries of an object. -/
def entriesOfProps : List (JsString × Json) → Except Exception (List Entry)
  | [] => .ok []
  | (k, v) :: kvs => do
    let item ← itemOf v
    let entries ← entriesOfProps kvs
    pure ((k, item) :: entries)

/-- The entries of an array. -/
def entriesOfElements : ℕ → List Json → Except Exception (List Entry)
  | _, [] => .ok []
  | i, x :: xs => do
    let item ← itemOf x
    let entries ← entriesOfElements (i + 1) xs
    pure ((natText i, item) :: entries)

/-- The body of the loop; only arrays and strings can be destructured. -/
def itemOf : Json → Except Exception (Option Json × Item)
  | .arr xs => itemOfFields xs
  | .str s => .ok (itemOfText s)
  | _ => .error .typeError

/-- `[key, type, fileId]` -/
def itemOfFields : List Json → Except Exception (Option Json × Item)
  | key :: type :: fileId :: _ =>
    if type = .str ItemType.EncryptedFile.text then do
      let key ← keyBytes fromObject (some key)
      pure (some type, .file key (some fileId))
    else if type = .str ItemType.EncryptionContainer.text then do
      let items ← entriesOf fileId
      pure (some type, .container items)
    else .ok (some type, .value (.ofJson fileId))
  | [key, type] =>
    if type = .str ItemType.EncryptedFile.text then do
      let key ← keyBytes fromObject (some key)
      pure (some type, .file key none)
    -- `JSON.parse(undefined)`
    else if type = .str ItemType.EncryptionContainer.text then .error .syntaxError
    else .ok (some type, .value .undefined)
  | _ => .ok (none, .value .undefined)
end

/-- The container of a text. -/
def deserializeFromJSON (json : JsString) : Except Exception (List Entry) :=
  match Json.parse json with
  | none => .error .syntaxError
  | some obj => entriesOf fromObject obj

end

end PointNetwork.Containers
