import PointNetwork.Js.Json

/-!
# Cookie strings

`util/cookieString.ts`: the text `key1=value1;key2=value2` of an object of strings, which is kept in
the records of name services. An object is the list of its own properties in property order.
-/

namespace PointNetwork.CookieString

open Js

/-- The properties of the object that `parseCookieString` returns, in their order. -/
abbrev Entries := List (JsString × JsString)

/-- The separator of two entries. -/
def semicolon : UInt16 := 0x3B

/-- The separator of the key and the value. -/
def equalsSign : UInt16 := 0x3D

/-- The property that a pair sets, if it has a key and a value. The assignment of a string to
`__proto__` does nothing. -/
def parsePair (map : Entries) (pair : JsString) : Entries :=
  match pair.splitOn equalsSign with
  | [key, value] =>
    if trim key ≠ [] ∧ trim value ≠ [] ∧ trim key ≠ js "__proto__" then
      setProp (trim key) (trim value) map
    else map
  | _ => map

/-- The entries of a text, a later one in place of an earlier one with its key. -/
def parseCookieString (str : JsString) : Entries := (str.splitOn semicolon).foldl parsePair []

/-- The text of the entries, without a semicolon at its end. -/
def encodeCookieString (obj : Entries) : JsString :=
  let cookieStr := obj.flatMap fun (key, value) => key ++ equalsSign :: value ++ [semicolon]
  -- remove trailing semi-colon
  if cookieStr.getLast? = some semicolon then cookieStr.dropLast else cookieStr

/-- `delete map[key]` -/
def deleteKey (key : JsString) (map : Entries) : Entries := map.filter fun entry => entry.1 ≠ key

/-- `obj[key]` is there and not empty. -/
def has (key : JsString) (obj : Entries) : Bool := ((obj.lookup key).getD []) ≠ []

/-- The new entries over those of the old text; an alias takes the place of routes and root, and a
root takes the place of an alias. -/
def mergeAndResolveConflicts (old : JsString) (obj : Entries) : Entries :=
  let prevData := parseCookieString old
  let prevData :=
    if has (js "pn_alias") obj then
      deleteKey (js "pn_routes") (deleteKey (js "pn_root") prevData)
    else if has (js "pn_root") obj then deleteKey (js "pn_alias") prevData
    else prevData
  obj.foldl (fun map (key, value) => setProp key value map) prevData

example : encodeCookieString (mergeAndResolveConflicts (js "a=b;pn_alias=old")
    [(js "pn_routes", js "r"), (js "pn_root", js "s")]) = js "a=b;pn_routes=r;pn_root=s" := by
  decide +kernel

end PointNetwork.CookieString
