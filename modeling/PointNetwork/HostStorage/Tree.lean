import PointNetwork.HostStorage.Tracker

/-!
# Host storage as a tree of values

What the files of host storage mean: a container is a list of named subtrees, and the
operations act on subtrees, without files, keys or loading. The trackers refine these
operations (`HostStorage/Refinement.lean`, `HostStorage/UpdateTheorems.lean`).

* `Tree.value` / `Tree.ofValue`: the value a subtree reads as, and the subtree a value is
  stored as;
* `Tree.get`, `Tree.dir`, `Tree.len`, `Tree.update` and the operations made of it.
-/

namespace PointNetwork.HostStorage

open Js

/-- A value after it was written as JSON and read again. -/
def AnyValue.jsonRound (v : AnyValue) : AnyValue := v.toJson.elim .undefined .ofJson

/-- What a tracker holds, without files and keys. -/
inductive Tree
  | literal (v : AnyValue)
  | text (data : Bytes)
  | buffer (data : Bytes)
  | node (array : Bool) (children : List (JsString × Tree))

/-- The children of a node, by their keys. -/
abbrev Children := List (JsString × Tree)

/-- What there is under a key. -/
inductive TreeSlot
  | absent
  | inherited
  | own (t : Tree)

/-- What there is under a key. -/
def treeSlot (cs : Children) (k : JsString) : TreeSlot :=
  match cs.lookup k with
  | some t => .own t
  | none => if isInherited k then .inherited else .absent

mutual
/-- The value of a subtree. -/
def Tree.value : Tree → AnyValue
  | .literal v => v
  | .text data => .str (bufferToString data)
  | .buffer data => .buffer data
  | .node _ cs => .obj (ofEntries (childValues cs))

/-- The values of the children. -/
def childValues : Children → List (JsString × AnyValue)
  | [] => []
  | (k, t) :: cs => (k, t.value) :: childValues cs
end

mutual
/-- The subtree a value is stored as; an array is stored as an object. -/
def Tree.ofValue : AnyValue → Except Exception Tree
  | .str s => .ok (.text (bufferFrom s))
  | .undefined => .ok (.literal AnyValue.undefined.jsonRound)
  | .null => .ok (.literal AnyValue.null.jsonRound)
  | .bool b => .ok (.literal (AnyValue.bool b).jsonRound)
  | .num n => .ok (.literal (AnyValue.num n).jsonRound)
  | .buffer [] => .ok (.literal (AnyValue.buffer []).jsonRound)
  | .buffer (x :: b) => .ok (.buffer (x :: b))
  | .arr [] => .ok (.literal (AnyValue.arr []).jsonRound)
  | .arr (x :: xs) => do
    let cs ← ofElements 0 (x :: xs) []
    pure (.node false cs)
  | .obj [] => .ok (.literal (AnyValue.obj []).jsonRound)
  | .obj (kv :: kvs) => do
    let cs ← ofProps (kv :: kvs) []
    pure (.node false cs)
  | .function => .error (.displayable "Invalid type")

/-- The elements of an array as children, from an index on. -/
def ofElements (i : ℕ) : List AnyValue → Children → Except Exception Children
  | [], cs => pure cs
  | v :: vs, cs => do
    let t ← Tree.ofValue v
    ofElements (i + 1) vs (setProp (natText i) t cs)

/-- The properties of an object as children. -/
def ofProps : List (JsString × AnyValue) → Children → Except Exception Children
  | [], cs => pure cs
  | (k, v) :: kvs, cs => do
    let t ← Tree.ofValue v
    ofProps kvs (setProp k t cs)
end

namespace Tree

/-! ## Operations -/

/-- The value at a path. -/
def get : List Segment → Children → Except Exception AnyValue
  | [], _ => throw (.displayable "Invalid path")
  | segment :: rest, cs => do
    let k ← segment.key
    match treeSlot cs k, rest with
    | .absent, _ => pure .undefined
    | .own (.node _ sub), _ :: _ => get rest sub
    | _, _ :: _ => throw (.displayable "Invalid path value")
    | .inherited, [] => throw (.displayable "Invalid tracker item type")
    | .own t, [] => pure t.value

/-- The keys of the node at a path. -/
def dir : List Segment → Children → Except Exception AnyValue
  | [], _ => throw (.displayable "Invalid path")
  | segment :: rest, cs => do
    let k ← segment.key
    match treeSlot cs k, rest with
    | .absent, _ => pure .undefined
    | .own (.node _ sub), _ :: _ => dir rest sub
    | .own (.node _ sub), [] => pure (.arr (sub.map fun (k, _) => .str k))
    | _, _ => throw (.displayable "Invalid path value: not a HostStorageTracker")

/-- The letter of the item type. -/
def t : Tree → String
  | .literal _ => "L"
  | .text _ => "S"
  | .buffer _ => "B"
  | .node false _ => "O"
  | .node true _ => "A"

/-- The number of the children at a path, or the length of a literal array. -/
def len : List Segment → Children → Except Exception ℕ
  | [], _ => throw (.displayable "Invalid path")
  | segment :: rest, cs => do
    let k ← segment.key
    match treeSlot cs k, rest with
    | .absent, _ => pure 0
    | .own (.node _ sub), _ :: _ => len rest sub
    | _, _ :: _ => throw (.displayable "Invalid path value")
    | .own (.node _ sub), [] => pure sub.length
    | .own (.literal (.arr xs)), [] => pure xs.length
    | .own (.literal _), [] => throw (.displayable "Invalid type for len")
    | .own t, [] => throw (.displayable ("Invalid tracker item type for len: " ++ t.t))
    | .inherited, [] => throw (.displayable "Invalid tracker item type for len: undefined")

/-- A change at the end of a path. -/
def update (blocked : TreeSlot → Exception) (leaf : JsString → Children → Except Exception Children) :
    List Segment → Children → Except Exception Children
  | [], _ => .error (.displayable "Invalid path")
  | segment :: rest, cs => do
    let k ← segment.key
    match rest with
    | [] => leaf k cs
    | _ :: _ =>
      match treeSlot cs k with
      | .own (.node array sub) => do
        let sub ← update blocked leaf rest sub
        pure (setProp k (.node array sub) cs)
      | s => .error (blocked s)

/-- The error of a `set` whose path goes through what is no node. -/
def blockedSet : TreeSlot → Exception
  | .absent => .typeError
  | .inherited | .own (.literal .undefined) => .displayable "Invalid path data in set"
  | .own _ => .displayable "Invalid path data in set: item.v is not a HostStorageTracker"

/-- The error of the other operations there. -/
def blockedValue : TreeSlot → Exception
  | .absent => .typeError
  | _ => .displayable "Invalid path value"

/-- Puts the tree of the value under the key. -/
def setLeaf (v : AnyValue) (k : JsString) (cs : Children) : Except Exception Children := do
  let t ← ofValue v
  pure (setProp k t cs)

/-- Puts a value at a path. -/
def set (path : List Segment) (v : AnyValue) : Children → Except Exception Children :=
  update blockedSet (setLeaf v) path

/-- Puts a literal `undefined` under the key. -/
def unsetLeaf (k : JsString) (cs : Children) : Except Exception Children :=
  match treeSlot cs k with
  | .absent => .error .typeError
  | _ => .ok (setProp k (.literal .undefined) cs)

/-- Takes the value at a path away. -/
def unset (path : List Segment) : Children → Except Exception Children :=
  update blockedValue unsetLeaf path

/-- The children of a new array. -/
def newEncArray (withLen : Bool) (k : JsString) (cs : Children) : Except Exception Children := do
  let _ ← (if withLen then len [.str k] cs else pure 0)
  match treeSlot cs k with
  | .absent => .error .typeError
  | .own (.literal .undefined) => set [.num (.fin (.ofInt 0))] .undefined []
  | .own (.literal (.arr xs)) => set [.num (.fin (.ofInt 0))] (.arr xs) []
  | .own (.literal _) => .error (.displayable "Invalid type for append")
  | .own (.node true _) => .error (.displayable "Invalid type for append, doesnt match")
  | _ => .error (.displayable "Invalid tracker item type for append")

/-- Puts an empty list under the key. -/
def encArrayLeaf (withLen : Bool) (k : JsString) (cs : Children) : Except Exception Children := do
  let sub ← newEncArray withLen k cs
  pure (setProp k (.node true sub) cs)

/-- Appends to the list at a path, as the code does. -/
def append (path : List Segment) : Children → Except Exception Children :=
  update blockedValue (encArrayLeaf true) path

/-- Inserts into the list at a path, as the code does. -/
def insertAt (path : List Segment) : Children → Except Exception Children :=
  if path.length ≤ 1 then update blockedValue (encArrayLeaf false) path else append path

/-- Removes from the list at a path, as the code does. -/
def removeAt (path : List Segment) : Children → Except Exception Children :=
  update blockedValue (encArrayLeaf true) path

/-- Replaces a child of the node under the key. -/
def replaceLeaf (v : AnyValue) (index : Segment) (k : JsString) (cs : Children) :
    Except Exception Children :=
  match treeSlot cs k with
  | .own (.node array sub) => do
    let sub ← set [index] v sub
    pure (setProp k (.node array sub) cs)
  | s => .error (blockedValue s)

/-- Replaces an element of the list at a path. -/
def replaceAt (path : List Segment) (v : AnyValue) (index : Segment) :
    Children → Except Exception Children :=
  update blockedValue (replaceLeaf v index) path

end Tree

end PointNetwork.HostStorage
