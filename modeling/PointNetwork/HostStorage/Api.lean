import PointNetwork.Machine
import PointNetwork.HostStorage.UpdateTheorems

/-!
# The host storage of a node

The functions `hostStorageGet`, `hostStorageDir`, `hostStorageLen` and `hostStorageModify` of
`client/hostStorage.ts`, and a round of `syncHostStorage`. All hosts share one root tracker,
which every call loads anew from the id remembered locally or published under the node's
identity. `ensureSequential` runs the calls one at a time, so each is one step.

Of `syncHostStorage` a round that gets past its timer is modelled. The registry and the local
file do not fail; the download of the root does where an event says so.
-/

namespace PointNetwork.HostStorage

open Js

/-! ## Modifications -/

/-- `MODIFY_TYPE`. -/
inductive ModifyType
  | set
  | unset
  | append
  | removeAt
  | insertAt
  | replaceAt
  deriving DecidableEq

/-- The arguments of `hostStorageModify`. -/
structure Modify where
  host : JsString
  path : List Segment
  value : AnyValue
  type : ModifyType
  index : Option Segment := none

/-- `_prependPath([host], path)`. -/
def prependPath (host : JsString) (path : List Segment) : List Segment := .str host :: path

/-- The path below the host. -/
def Modify.fullPath (m : Modify) : List Segment := prependPath m.host m.path

/-- `makeSureValueDefined`. -/
def makeSureValueDefined : AnyValue → Except Exception Unit
  | .undefined => .error (.displayable "Value must be defined")
  | _ => .ok ()

/-- `if (index === null) throw …`. -/
def specifiedIndex (type : String) : Option Segment → Except Exception Segment
  | some index => .ok index
  | none => .error (.displayable ("Index must be specified for " ++ type))

section

variable {σ : Type} (env : Env σ)

/-- The switch of `hostStorageModify`. -/
def modifyRoot (m : Modify) (root : HostStorageTracker) : Run σ HostStorageTracker :=
  match m.type with
  | .set => do
    let _ ← Logged.ofExcept (makeSureValueDefined m.value)
    set env m.fullPath m.value root
  | .unset => unset env m.fullPath root
  | .append => append env m.fullPath root
  | .insertAt => do
    let _ ← Logged.ofExcept (specifiedIndex "insert_at" m.index)
    let _ ← Logged.ofExcept (makeSureValueDefined m.value)
    insertAt env m.fullPath root
  | .removeAt => do
    let _ ← Logged.ofExcept (specifiedIndex "remove_at" m.index)
    removeAt env m.fullPath root
  | .replaceAt => do
    let index ← Logged.ofExcept (specifiedIndex "replace_at" m.index)
    let _ ← Logged.ofExcept (makeSureValueDefined m.value)
    replaceAt env m.fullPath m.value index root

/-- What `hostStorageModify` does to the root. -/
def modifyAndUpload (m : Modify) (root : HostStorageTracker) : Run σ HostStorageTracker := do
  let root ← modifyRoot env m root
  upload env (some env.rootEncKey) root

end

/-- The same switch on the tree of the root. -/
def Tree.modify (m : Modify) (cs : Children) : Except Exception Children :=
  match m.type with
  | .set => do
    let _ ← makeSureValueDefined m.value
    Tree.set m.fullPath m.value cs
  | .unset => Tree.unset m.fullPath cs
  | .append => Tree.append m.fullPath cs
  | .insertAt => do
    let _ ← specifiedIndex "insert_at" m.index
    let _ ← makeSureValueDefined m.value
    Tree.insertAt m.fullPath cs
  | .removeAt => do
    let _ ← specifiedIndex "remove_at" m.index
    Tree.removeAt m.fullPath cs
  | .replaceAt => do
    let index ← specifiedIndex "replace_at" m.index
    let _ ← makeSureValueDefined m.value
    Tree.replaceAt m.fullPath m.value index cs

/-! ## The root -/

/-- What lasts between the calls: the file `HOST_STORAGE_ROOT_FILE_PATH`, empty where there is
none, the value of the key `HOST_STORAGE_IKV_KEY` in the registry, and the random bytes to
come. -/
structure HostState (σ : Type) where
  seed : σ
  localFileId : JsString := []
  remoteFileId : JsString := []
  deriving DecidableEq

/-- The file id `_getRoot` decides on. -/
def HostState.rootFileId {σ : Type} (st : HostState σ) : Option JsString :=
  if st.localFileId ≠ [] ∧ st.remoteFileId ≠ [] then some st.localFileId
  else if st.localFileId ≠ [] ∧ isValidStorageId st.localFileId then some st.localFileId
  else if st.remoteFileId ≠ [] ∧ isValidStorageId st.remoteFileId then some st.remoteFileId
  else none

section

variable {σ : Type} (env : Env σ)

/-- The `try` of `_getRoot`: an empty root is loaded if anything goes wrong. -/
def loadRoot (rootFails : Bool) (fileId : JsString) : HostStorageTracker :=
  if rootFails then {}
  else
    match fromDownload env ⟨env.rootEncKey, fileId⟩ with
    | .ok root => root
    | .error _ => {}

/-- `_getRoot`; `rootFails` says that the download of the root fails. -/
def getRoot (rootFails : Bool) (st : HostState σ) : HostStorageTracker :=
  match st.rootFileId with
  | some fileId => loadRoot env rootFails fileId
  | none => {}

/-- `root.encFile?.fileId || ''`. -/
def newRootFileId (root : HostStorageTracker) : JsString := root.encFile.elim [] (·.fileId)

/-! ## The calls -/

/-- `hostStorageGet` on the root that the host has. -/
def hostStorageGet (fuel : ℕ) (rootFails : Bool) (host : JsString) (path : List Segment)
    (st : HostState σ) : Except Exception AnyValue :=
  get env fuel (prependPath host path) (getRoot env rootFails st)

/-- `hostStorageDir` on the root that the host has. -/
def hostStorageDir (rootFails : Bool) (host : JsString) (path : List Segment)
    (st : HostState σ) : Except Exception AnyValue :=
  dir env (prependPath host path) (getRoot env rootFails st)

/-- `hostStorageLen` on the root that the host has. -/
def hostStorageLen (rootFails : Bool) (host : JsString) (path : List Segment)
    (st : HostState σ) : Except Exception ℕ :=
  len env (prependPath host path) (getRoot env rootFails st)

/-- `hostStorageModify`: what it returns, and the state it leaves. The id is remembered when all
went well. -/
def hostStorageModify (rootFails : Bool) (m : Modify) (st : HostState σ) :
    Except Exception Unit × HostState σ :=
  match modifyAndUpload env m (getRoot env rootFails st) st.seed with
  | (.ok root, _, seed) => (.ok (), { st with seed, localFileId := newRootFileId root })
  | (.error e, _, seed) => (.error e, { st with seed })

/-- What `hostStorageModify` uploads. -/
def uploads (rootFails : Bool) (m : Modify) (st : HostState σ) : List Bytes :=
  (modifyAndUpload env m (getRoot env rootFails st)).log st.seed

/-- A round of `syncHostStorage`. -/
def syncHostStorage (rootFails : Bool) (st : HostState σ) : HostState σ :=
  { st with remoteFileId := newRootFileId (getRoot env rootFails st) }

/-! ## Runs -/

/-- A call or a round, and whether its download of the root fails. -/
inductive Event
  /-- `hostStorageGet`, `hostStorageDir` or `hostStorageLen`. -/
  | read (rootFails : Bool)
  | modify (rootFails : Bool) (m : Modify)
  | sync (rootFails : Bool)

/-- Whether the download of the root fails in the event. -/
def Event.rootFails : Event → Bool
  | .read rootFails | .modify rootFails _ | .sync rootFails => rootFails

/-- One call of the API, or a synchronisation. -/
def step (st : HostState σ) : Event → Option (HostState σ)
  | .read _ => some st
  | .modify rootFails m => some (hostStorageModify env rootFails m st).2
  | .sync rootFails => some (syncHostStorage env rootFails st)

/-- What is downloaded under the ids of the event's uploads is what was uploaded. -/
def UploadsGood (st : HostState σ) : Event → Prop
  | .modify rootFails m => ∀ material ∈ uploads env rootFails m st, Good env material
  | _ => True

end

end PointNetwork.HostStorage
