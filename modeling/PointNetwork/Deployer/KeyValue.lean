import PointNetwork.Deployer.Calls
import PointNetwork.Js.Path

/-!
# The key-value section of a deployment

`updateKeyValue` of `client/zweb/deployer/index.js` with `replaceContentsWithCids`: the values of a JSON
tree are written to the identity contract; the data of `storage[..]` keys are uploaded first, and a
`contract_send` value sends a transaction to a contract before it is written itself.

Before that come the operations of JavaScript on JSON values that the deployer uses: properties, the
truth of a value, and its text. An absent value is `undefined`. Only own properties are modelled.
-/

namespace PointNetwork.Deployer

open Js Logged

/-! ## JSON values in JavaScript -/

/-- Whether JavaScript takes a value for true; `none` is `undefined`. -/
def truthy : Option Json → Bool
  | none => false
  | some .null => false
  | some (.bool b) => b
  | some (.num d) => d.mantissa ≠ 0
  | some (.str s) => s ≠ []
  | some (.arr _) => true
  | some (.obj _) => true

/-- An own property. -/
def ownProperty (key : JsString) : Json → Option Json
  | .obj kvs => kvs.lookup key
  | .arr xs =>
    if key = js "length" then some (.num (.ofInt xs.length))
    else (arrayIndex? key).bind fun i => xs[i]?
  | .str s =>
    if key = js "length" then some (.num (.ofInt s.length))
    else (arrayIndex? key).bind fun i => s[i]?.map fun u => .str [u]
  | _ => none

/-- `value[key]` -/
def get (value : Option Json) (key : JsString) : Except Failure (Option Json) :=
  match value with
  | none => .error .typeError
  | some .null => .error .typeError
  | some v => .ok (ownProperty key v)

/-- `value.hasOwnProperty(key)`; an own property of this name hides the method. -/
def hasOwnProperty (value : Json) (key : JsString) : Except Failure Bool :=
  match value with
  | .null => .error .typeError
  | v =>
    if (ownProperty (js "hasOwnProperty") v).isSome then .error .typeError
    else .ok (ownProperty key v).isSome

/-- A string, on which a method of strings is called. -/
def asString : Option Json → Except Failure JsString
  | some (.str s) => .ok s
  | _ => .error .typeError

/-- `JSON.parse`, which throws. -/
def parseJson (text : JsString) : Except Failure Json :=
  match Json.parse text with
  | some v => .ok v
  | none => .error .syntaxError

mutual
/-- `String(value)`; an own property `toString` hides the method, and is no function. -/
def toText : Json → Except Failure JsString
  | .null => .ok (js "null")
  | .bool true => .ok (js "true")
  | .bool false => .ok (js "false")
  | .num n => .ok n.text
  | .str s => .ok s
  | .arr xs => joinTexts xs
  | .obj kvs =>
    if (kvs.lookup (js "toString")).isSome then .error .typeError else .ok (js "[object Object]")

/-- `xs.join()` -/
def joinTexts : List Json → Except Failure JsString
  | [] => .ok []
  | .null :: [] => .ok []
  | x :: [] => toText x
  | .null :: y :: xs => do
    let rest ← joinTexts (y :: xs)
    pure (js "," ++ rest)
  | x :: y :: xs => do
    let text ← toText x
    let rest ← joinTexts (y :: xs)
    pure (text ++ js "," ++ rest)
end

/-- The text of a value in a template string. -/
def textOf : Option Json → Except Failure JsString
  | none => .ok (js "undefined")
  | some v => toText v

/-- `Object.entries(value)` -/
def entriesOf : Json → Except Failure (List (JsString × Json))
  | .null => .error .typeError
  | .obj kvs => .ok kvs
  | .arr xs => .ok (xs.zipIdx.map fun (x, i) => (natText i, x))
  | .str s => .ok (s.zipIdx.map fun (u, i) => (natText i, .str [u]))
  | _ => .ok []

/-- The text ends with the suffix, which is replaced. -/
def replaceSuffix (s old new : JsString) : JsString :=
  if old.isSuffixOf s then s.take (s.length - old.length) ++ new else s

/-- `.replace(/\.point$/, '')` -/
def stripPoint (s : JsString) : JsString := replaceSuffix s (js ".point") []

/-! ## `replaceContentsWithCids` -/

/-- A line terminator, which `.` does not match. -/
def isLineTerminator (u : UInt16) : Bool := u = 0x0A || u = 0x0D || u = 0x2028 || u = 0x2029

/-- The texts behind the last `storage[` on the first line, if it is not empty. -/
def afterStorage : JsString → Option JsString
  | [] => none
  | u :: s =>
    (if isLineTerminator u then none else afterStorage s).or
      (if (js "storage[").isPrefixOf (u :: s) ∧ (u :: s).drop 8 ≠ [] then some ((u :: s).drop 8)
      else none)

/-- The key `storage[name]`, with what `.replace(/.*storage\[([^\]]+)\].*/, '$1')` makes of it. -/
def storageKey (key : JsString) : Option JsString :=
  let inner := (key.drop 8).dropLast
  if (js "storage[").isPrefixOf key ∧ key.getLast? = some 0x5D ∧ inner ≠ [] ∧ (0x5D : UInt16) ∉ inner
  then afterStorage key.dropLast
  else none

/-- One of `[0-9A-Za-z]`. -/
def isAlphanumeric (u : UInt16) : Bool :=
  isDigit u || (0x41 ≤ u.toNat && u.toNat ≤ 0x5A) || (0x61 ≤ u.toNat && u.toNat ≤ 0x7A)

/-- `file.replace(/.*\.([a-zA-Z0-9]+)$/, '$1')`: the last line is replaced by its extension. -/
def extension (file : JsString) : JsString :=
  let ext := (file.reverse.takeWhile isAlphanumeric).reverse
  let front := (file.reverse.dropWhile isAlphanumeric).reverse
  if ext ≠ [] ∧ front.getLast? = some point then
    (front.reverse.dropWhile fun u => !isLineTerminator u).reverse ++ ext
  else file

section

variable {σ : Type} (world : World σ)

/-- The value of a `storage[..]` key: its data are uploaded. -/
def storageResource (deployPath : JsString) (value : Json) : Deploy σ Json :=
  match value with
  | .obj kvs =>
    match kvs.lookup (js "blob"), kvs.lookup (js "file") with
    | some blob, _ => do
      let text ← ofExcept (toText blob)
      let uploaded ← call world (.uploadData (.text (some text)))
      pure (.str uploaded)
    | none, some file => do
      let file ← ofExcept (asString (some file))
      let filePath := Path.join [deployPath, js "public", file]
      if !(← call world (.existsSync filePath)) then
        fail (.error (js "File not found: " ++ filePath))
      else
        let data ← call world (.readFile filePath)
        let cid ← call world (.uploadData (.buffer data))
        pure (.str (js "/_storage/" ++ cid ++ js "." ++ extension file))
    | none, none => fail (.error (js "Storage resource not specified: " ++ value.stringify))
  | .arr _ => fail (.error (js "Storage resource not specified: " ++ value.stringify))
  -- `in` needs an object
  | _ => fail .typeError

mutual
/-- Objects, and arrays as well, become objects with replaced entries. -/
def replaceValue (deployPath : JsString) : Json → Deploy σ Json
  | .obj kvs => do
    let result ← replaceEntries deployPath kvs []
    pure (.obj result)
  | .arr xs => do
    let result ← replaceElements deployPath 0 xs []
    pure (.obj result)
  | v => pure v

/-- The loop over the entries of an object. -/
def replaceEntries (deployPath : JsString) :
    List (JsString × Json) → List (JsString × Json) → Deploy σ (List (JsString × Json))
  | [], result => pure result
  | (key, value) :: entries, result =>
    match storageKey key with
    | some name => do
      let value ← storageResource world deployPath value
      replaceEntries deployPath entries (assign name value result)
    | none => do
      let value ← replaceValue deployPath value
      replaceEntries deployPath entries (assign key value result)

/-- The loop over the elements of an array, whose indices become keys. -/
def replaceElements (deployPath : JsString) :
    ℕ → List Json → List (JsString × Json) → Deploy σ (List (JsString × Json))
  | _, [], result => pure result
  | i, value :: values, result => do
    let value ← replaceValue deployPath value
    replaceElements deployPath (i + 1) values (setProp (natText i) value result)
end

/-- The object with file ids in place of the paths under `[storage]` keys. -/
def replaceContentsWithCids (deployPath : JsString) (obj : Json) :
    Deploy σ (List (JsString × Json)) := do
  let entries ← ofExcept (entriesOf obj)
  replaceEntries world deployPath entries []

/-! ## `updateKeyValue` -/

/-- The contract, the method and the parameters of a text `contract.method(params)`. -/
def parseContractSend (text : JsString) :
    Except Failure (JsString × JsString × List JsString) :=
  match text.splitOn point with
  | contractName :: methodNameAndParams :: _ =>
    match methodNameAndParams.splitOn 0x28 with
    | methodName :: paramsTogether :: _ =>
      .ok (contractName, methodName, (paramsTogether.erase 0x29).splitOn 0x2C)
    | _ => .error .typeError
  | _ => .error .typeError

/-- The hash of the metadata among them; a property of a primitive value is not set. -/
def setMetadataHash (metadataHash : JsString) : Json → Json
  | .obj kvs => .obj (setProp (js "metadataHash") (.str metadataHash) kvs)
  | v => v

/-- The parameters of a transaction come from the metadata, if there are any, or from the value. -/
def contractParams (value : List (JsString × Json)) (paramNames : List JsString) :
    Deploy σ (List (Option Json) × List (JsString × Json)) :=
  let metadata := value.lookup (js "metadata")
  if truthy metadata then do
    let metadata := metadata.getD .null
    let metadataHash ← call world (.uploadData (.text (some metadata.stringify)))
    let metadata := setMetadataHash metadataHash metadata
    pure (paramNames.map fun paramName => ownProperty paramName metadata,
      setProp (js "metadata") metadata value)
  else pure (paramNames.map fun paramName => value.lookup paramName, value)

/-- The transaction of a `contract_send` value, and the value with the hash of its metadata. -/
def contractSend (target : JsString) (value : List (JsString × Json)) (send : Json) :
    Deploy σ (List (JsString × Json)) := do
  let text ← ofExcept (asString (some send))
  let (contractName, methodName, paramNames) ← ofExcept (parseContractSend text)
  let (params, value) ← contractParams world value paramNames
  call world (.sendToContract target contractName methodName params)
  pure value

/-- A `contract_send` of the value, when contracts are deployed. -/
def sendIfAsked (target : JsString) (deployContracts : Bool) (value : List (JsString × Json)) :
    Deploy σ (List (JsString × Json)) :=
  match value.lookup (js "contract_send") with
  | some send => if deployContracts then contractSend world target value send else pure value
  | none => pure value

/-- The text that is written for a value. -/
def valueText (target : JsString) (deployContracts : Bool) (value : Json) : Deploy σ JsString :=
  match value with
  | .obj kvs => do
    let kvs ← sendIfAsked world target deployContracts kvs
    pure (Json.obj kvs).stringify
  | .arr xs => pure (Json.arr xs).stringify
  | v => ofExcept (toText v)

/-- Writes the entries one after the other, as texts. -/
def putEntries (target : JsString) (deployContracts : Bool) (version : VersionArg) :
    List (JsString × Json) → Deploy σ Unit
  | [] => pure ()
  | (key, value) :: entries => do
    let text ← valueText world target deployContracts value
    call world (.putKeyValue target key (some (.str text)) version)
    putEntries target deployContracts version entries

/-- The values of the configuration, replaced and written. -/
def updateKeyValue (target : JsString) (values : Option Json) (deployPath : JsString)
    (deployContracts : Bool) (version : VersionArg) : Deploy σ Unit := do
  let values ← replaceContentsWithCids world deployPath (values.getD (.obj []))
  putEntries world target deployContracts version values

end

end PointNetwork.Deployer
