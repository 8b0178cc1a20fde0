import PointNetwork.Deployer.ManifestTheorems
import PointNetwork.LockedStore
import Mathlib.Logic.Function.Basic

/-!
# Deployments that run at the same time

`fetchOrDeployGeneric` and `Manifest.addProxy` read, change and write the manifest inside
`lockedRun`, under a lock file that all processes on one data directory share. A `Node` is the disk
with the lock, and the calls with what each of them does next; `step` is one action of one call.

The third-party parts come as choices of the environment: what `resumeOrDeploy` and
`waitAndValidateDeployment` make of the chain, and whether `lockfile.lock` gets the lock within its
retries. `deployUpgradableContracts` writes and removes the file without the lock
(`Event.overwrite`).
-/

namespace PointNetwork.Manifest

open Js Machine

/-- What works on the manifest: a deployment, or a proxy that is added. -/
inductive Task
  | fetchOrDeploy (lens : Lens) (merge : Bool)
  | addProxy (proxy : Deployment)

/-- What a call does next. -/
inductive Phase
  | starting
  /-- Inside the first `lockedRun`. -/
  | inside
  /-- `waitAndValidateDeployment` runs. -/
  | waiting (deployment : Deployment)
  /-- An `InvalidDeployment` was thrown. -/
  | failing (invalid : Deployment)
  /-- Inside the `lockedRun` that removes an invalid deployment. -/
  | cleaning (invalid : Deployment)
  | returned (deployment : Deployment)
  | threw
  deriving DecidableEq

/-- What `resumeOrDeploy` does. -/
inductive Resumed
  | cached
  | deployed (updated : Deployment) (cleared : Bool)
  | threw (invalid : Option Deployment)

/-- It returns the stored deployment unless it merges. It deploys if there is none, if it merges,
or after it has set an invalid one to `undefined`, on a development network. What is deployed has
no `allAddresses`. -/
def Resumed.possible (development : Bool) (stored : Option Deployment) (merge : Bool) :
    Resumed → Bool
  | cached => stored.isSome && !merge
  | deployed updated cleared =>
    (stored.isNone || merge || cleared) && (!cleared || (development && stored.isSome)) &&
      updated.allAddresses.isNone
  | threw _ => true

/-- What `waitAndValidateDeployment` does. -/
inductive Validated
  | valid
  | invalid (deployment : Deployment)
  | threw

/-- A change of the manifest under the lock. -/
inductive Edit
  | record (lens : Lens) (merge : Bool) (updated : Deployment) (cleared : Bool)
  | addProxy (proxy : Deployment)
  | remove (lens : Lens)

/-- The edit is one that a task can make of data that it has read. -/
def Edit.possible (development : Bool) (data : ManifestData) : Edit → Bool
  | record lens merge updated cleared =>
    (Resumed.deployed updated cleared).possible development (lens.get data) merge
  | addProxy _ => true
  | remove _ => true

/-- The manifest to write; `none` is a throw. -/
def Edit.apply (development : Bool) (data : ManifestData) : Edit → Option ManifestData
  | record lens merge updated cleared =>
    recordDeployment development (if cleared then lens.set data none else data) lens merge updated
  | addProxy proxy => some (Manifest.addProxy data proxy)
  | remove lens => some (lens.set data none)

/-- What the tasks do, each under its index, and a disk that is overwritten from outside. -/
inductive Event
  | lock (i : ℕ)
  | lockFails (i : ℕ)
  | read (i : ℕ)
  | resume (i : ℕ) (r : Resumed)
  | validated (i : ℕ) (r : Validated)
  | remove (i : ℕ)
  | add (i : ℕ)
  | overwrite (disk : Disk)

/-- The manifest with its lock, and how far each task is. -/
structure Node where
  store : LockedStore.State ℕ Disk (Except ReadError ManifestData)
  phase : ℕ → Phase

/-- No task has started. -/
def Node.start (disk : Disk) : Node := ⟨⟨disk, none, none⟩, fun _ => .starting⟩

section

variable (chain : Chain) (task : ℕ → Task)

/-- A call acts on the store and goes on to its next phase. -/
def Node.act (s : Node) (e : LockedStore.Event ℕ Disk) (i : ℕ) (next : Phase) : Option Node :=
  (LockedStore.step (Manifest.read chain) s.store e).map fun store =>
    ⟨store, Function.update s.phase i next⟩

/-- The manifest that the call has read inside its section. -/
def Node.data? (s : Node) (i : ℕ) : Option ManifestData :=
  if s.store.lock = some i then
    match s.store.view with
    | some (.ok data) => some data
    | _ => none
  else none

/-- Write the changed manifest and leave the section; if the change throws, only leave it. -/
def Node.edit (s : Node) (i : ℕ) (data : ManifestData) (edit : Edit) (next : Phase) :
    Option Node :=
  match edit.apply chain.development data with
  | some data => s.act chain (.commit (write chain s.store.content data)) i next
  | none => s.act chain .release i .threw

/-- The rest of the first section of `fetchOrDeployGeneric`. -/
def Node.resume (s : Node) (i : ℕ) (lens : Lens) (merge : Bool) (data : ManifestData)
    (r : Resumed) : Option Node :=
  if merge && lens = .admin then s.act chain .release i .threw
  else if r.possible chain.development (lens.get data) merge then
    match r with
    | .cached =>
      match lens.get data with
      | some stored => s.act chain .release i (.waiting stored)
      | none => none
    | .deployed updated cleared =>
      s.edit chain i data (.record lens merge updated cleared) (.waiting updated)
    | .threw none => s.act chain .release i .threw
    | .threw (some invalid) => s.act chain .release i (.failing invalid)
  else none

/-- A task takes its next step, which its phase decides. -/
def Node.step (s : Node) : Event → Option Node
  | .lock i =>
    match s.phase i with
    | .starting => s.act chain (.acquire i) i .inside
    | .failing invalid => s.act chain (.acquire i) i (.cleaning invalid)
    | _ => none
  | .lockFails i =>
    match s.phase i with
    | .starting | .failing _ => some { s with phase := Function.update s.phase i .threw }
    | _ => none
  | .read i =>
    if s.store.lock = some i ∧ s.store.view.isNone then
      match Manifest.read chain s.store.content with
      | .ok _ => s.act chain .read i (s.phase i)
      | .error _ => s.act chain .release i .threw
    else none
  | .resume i r =>
    match s.phase i, task i, s.data? i with
    | .inside, .fetchOrDeploy lens merge, some data => s.resume chain i lens merge data r
    | _, _, _ => none
  | .validated i r =>
    match s.phase i with
    | .waiting deployment =>
      let next := match r with
        | .valid => Phase.returned deployment
        | .invalid invalid => .failing invalid
        | .threw => .threw
      some { s with phase := Function.update s.phase i next }
    | _ => none
  | .remove i =>
    match s.phase i, task i, s.data? i with
    | .cleaning invalid, .fetchOrDeploy lens _, some data =>
      if (lens.get data).bind Deployment.txHash = invalid.txHash then
        s.edit chain i data (.remove lens) .threw
      else s.act chain .release i .threw
    | _, _, _ => none
  | .add i =>
    match s.phase i, task i, s.data? i with
    | .inside, .addProxy proxy, some data => s.edit chain i data (.addProxy proxy) (.returned proxy)
    | _, _, _ => none
  | .overwrite disk =>
    (LockedStore.step (Manifest.read chain) s.store (.replace disk)).map fun store =>
      { s with store }

/-- The change that an action makes, if it makes one. -/
def editOf : Event → Option Edit
  | .resume i (.deployed updated cleared) =>
    match task i with
    | .fetchOrDeploy lens merge => some (.record lens merge updated cleared)
    | .addProxy _ => none
  | .remove i =>
    match task i with
    | .fetchOrDeploy lens _ => some (.remove lens)
    | .addProxy _ => none
  | .add i =>
    match task i with
    | .fetchOrDeploy _ _ => none
    | .addProxy proxy => some (.addProxy proxy)
  | _ => none

end

end PointNetwork.Manifest
