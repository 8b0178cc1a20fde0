import PointNetwork.Deployer.Deploy

/-!
# Rejected deployments

A deployment awaits neither its validation nor its version. A rejected one goes on to the first
upload unless one of the checks before it fails, and no write to the identity contract ever gets the
text of the version.

* `call_only`, `start_only`: what a call and a promise log;
* `deployContracts_until`, `writeIdentity_until`: what is done before the first write;
* `deploy_safe_iff`: when a deployment keeps its promises;
* `deploy_unchecked`: a deployment whose validation fails, and that does everything.
-/

namespace PointNetwork.Deployer

open Js Logged

namespace Entry

/-- The entry says that a check has failed. -/
def isRejection : Entry → Bool
  | .validated (.error _) => true
  | .versioned (.error _) => true
  | _ => false

/-- The entry is a call that others can see. -/
def isEffect : Entry → Bool
  | .call c => c.isEffect
  | _ => false

/-- The version that the entry writes with, if it writes. -/
def versionArg : Entry → Option VersionArg
  | .call c => c.versionArg
  | _ => none

/-- A call that is no effect. -/
def isCheck : Entry → Prop
  | .call c => c.isEffect = false
  | _ => False

/-- A call that writes nothing under a version. -/
def isUnversioned : Entry → Prop
  | .call c => c.versionArg = none
  | _ => False

/-- A call whose version, if it writes under one, is the promise. -/
def hasPromise (outcome : Except Failure (Option JsString)) : Entry → Prop
  | .call c => ∀ version ∈ c.versionArg, version = .promise outcome
  | _ => False

variable {entry : Entry} {outcome : Except Failure (Option JsString)}

/-- The checks come without a version. -/
theorem isCheck.isUnversioned (h : entry.isCheck) : entry.isUnversioned := by
  cases entry with
  | call c =>
    cases c <;> first | rfl | cases h
  | validated o => exact h
  | versioned o => exact h

/-- What has no version has no other one. -/
theorem isUnversioned.hasPromise (h : entry.isUnversioned) : entry.hasPromise outcome := by
  cases entry with
  | call c =>
    intro version hversion
    have hnone : c.versionArg = none := h
    rw [hnone] at hversion
    cases hversion
  | validated o => exact h
  | versioned o => exact h

end Entry

section

variable {σ α : Type} {world : World σ} {settings : Settings} {P : Entry → Prop}

/-! ## What the functions log -/

/-- A call notes itself only. -/
theorem call_only {c : Call} (h : P (.call c)) : Only P (call world c) :=
  fun _ _ hw => List.mem_singleton.mp hw ▸ h

/-- The calls that run side by side. -/
theorem promiseAll_only {ms : List (Deploy σ Unit)} (h : ∀ m ∈ ms, Only P m) :
    Only P (promiseAll ms) := by
  induction ms with
  | nil => exact .pure _
  | cons m ms ih =>
    refine Only.bind (Only.attempt (h m List.mem_cons_self)) fun outcome => ?_
    refine Only.bind (ih fun m hm => h m (List.mem_cons_of_mem _ hm)) fun _ => ?_
    exact .ofExcept outcome

/-- The version is looked up with checks only. -/
theorem getVersionAsync_only {cfgVersion : Option Json} {identity : JsString}
    {isPointTarget isAlias : Bool} :
    Only Entry.isCheck (getVersionAsync world cfgVersion identity isPointTarget isAlias) := by
  unfold getVersionAsync
  split
  · exact .pure _
  · refine .bind (.ofExcept _) fun _ => .bind (.ofExcept _) fun _ => ?_
    exact .bind (call_only rfl) fun _ => .ofExcept _

/-- The identity is checked with checks only. -/
theorem checkIdentity_only {identity : JsString} :
    Only Entry.isCheck (checkIdentity world settings identity) := by
  refine .bind (call_only rfl) fun owner => .bind (call_only rfl) fun sigAddr => ?_
  split
  · exact .fail _
  · refine .bind (call_only rfl) fun registeredOwner => ?_
    show Only _ (if _ then _ else _)
    split
    · refine .bind (call_only rfl) fun isDeployer => ?_
      split
      · exact .pure _
      · exact .ofExcept _
    · split
      · exact .bind (call_only rfl) fun _ => call_only rfl
      · exact .fail _

/-- The owner is checked with checks only. -/
theorem ensureIsDomainOwner_only {target : JsString} :
    Only Entry.isCheck (ensureIsDomainOwner world settings target) := by
  unfold ensureIsDomainOwner
  split
  · refine .bind (call_only rfl) fun address => .bind (call_only rfl) fun record => ?_
    split
    · exact .ofExcept _
    · exact .pure _
  · refine .bind (call_only rfl) fun result => ?_
    split
    · exact .fail _
    · split
      · exact .fail _
      · refine .bind (call_only rfl) fun record => ?_
        show Only _ (if _ then _ else _)
        split
        · exact .ofExcept _
        · exact .pure _

theorem readRoutes_only {deployPath : JsString} :
    Only Entry.isCheck (readRoutes world deployPath) :=
  .bind (call_only rfl) fun _ => .ofExcept _

/-- The upload of the root directory carries no version. -/
theorem uploadRootDir_only {deployPath : JsString} {rootDir : Option Json} :
    Only Entry.isUnversioned (uploadRootDir world deployPath rootDir) := by
  refine .bind (.ofExcept _) fun rootDir => .bind (call_only rfl) fun id => ?_
  refine .bind (call_only rfl) fun status => ?_
  split
  · exact .fail _
  · exact .pure _

theorem when_only {m : Deploy σ Unit} {b : Bool} (h : Only P m) : Only P (when b m) := by
  unfold when
  split
  · exact h
  · exact .pure _

theorem removeExisting_only {path : JsString} :
    Only Entry.isUnversioned (removeExisting world path) :=
  .bind (call_only rfl) fun _ => when_only (call_only rfl)

theorem compileUpgradable_only {deployPath : JsString} :
    Only Entry.isUnversioned (compileUpgradable world settings deployPath) := by
  refine .bind (call_only rfl) fun path => .bind removeExisting_only fun _ => ?_
  refine .bind removeExisting_only fun _ => .bind (call_only rfl) fun _ => ?_
  refine .bind (call_only rfl) fun _ => .bind (call_only rfl) fun _ => ?_
  refine .bind (promiseAll_only ?_) fun _ => .pure _
  intro m hm
  rcases List.mem_pair.mp hm with rfl | rfl <;> exact call_only rfl

theorem readAbi_only {abiPath : JsString} : Only Entry.isUnversioned (readAbi world abiPath) := by
  unfold readAbi
  split
  · exact .pure _
  · refine .bind (call_only rfl) fun isThere => ?_
    split
    · exact .bind (call_only rfl) fun _ => .bind (.ofExcept _) fun _ => .pure _
    · exact .pure _

theorem fromIDE_only {config : Json} {deployPath contractName : JsString} :
    Only Entry.isUnversioned (fromIDE world config deployPath contractName) :=
  .bind (.ofExcept _) fun _ => .bind readAbi_only fun _ => .bind (.ofExcept _) fun _ =>
    .bind (.ofExcept _) fun _ => .pure _

/-- The deployment of a proxy carries no version. -/
theorem deployOrUpgrade_only {contractF : Handle}
    {proxyAddress proxyDescriptionFileId identity path : JsString} {force : Bool} :
    Only Entry.isUnversioned
      (deployOrUpgrade world contractF proxyAddress proxyDescriptionFileId identity path force) := by
  unfold deployOrUpgrade
  split
  · exact .bind (call_only rfl) fun _ => .recover (call_only rfl) (call_only rfl)
  · refine .bind (call_only rfl) fun file => .bind (call_only rfl) fun _ => ?_
    refine .recover (call_only rfl) ?_
    exact .bind (call_only rfl) fun _ => .bind (call_only rfl) fun _ => call_only rfl

/-- The deployment of a contract carries no version. -/
theorem deployContract_only {config contract : Json} {deployPath name target path : JsString}
    {force : Bool} : Only Entry.isUnversioned
      (deployContract world config contract deployPath name target path force) := by
  refine .bind (.ofExcept _) fun hasIDE => ?_
  split
  · exact fromIDE_only
  · refine .bind (.ofExcept _) fun flag => ?_
    split
    · refine .bind (call_only rfl) fun address => .bind (call_only rfl) fun id => ?_
      refine .bind (call_only rfl) fun contractF => .bind deployOrUpgrade_only fun proxy => ?_
      exact .bind (call_only rfl) fun _ => .bind (call_only rfl) fun _ => .pure _
    · refine .bind (call_only rfl) fun ⟨handle, artifacts⟩ => ?_
      exact .bind (call_only rfl) fun _ => .pure _

theorem uploadProxyMetadata_only {path : JsString} :
    Only Entry.isUnversioned (uploadProxyMetadata world path) :=
  .bind (call_only rfl) fun _ => .bind (.ofExcept _) fun _ => call_only rfl

/-- The proxies are prepared without a version. -/
theorem prepareProxies_only {flag : Json} {deployPath : JsString} :
    Only Entry.isUnversioned (prepareProxies world settings flag deployPath) := by
  unfold prepareProxies
  split
  · exact compileUpgradable_only
  · exact .pure _

/-! ## The writes -/

section

variable {outcome : Except Failure (Option JsString)} {target : JsString}

/-- A call that is given the promise, or no version. -/
theorem call_promise {c : Call} (h : ∀ version ∈ c.versionArg, version = .promise outcome) :
    Only (Entry.hasPromise outcome) (call world c) := call_only h

/-- What carries no version carries no other promise. -/
theorem unversioned_promise {m : Deploy σ α} (h : Only Entry.isUnversioned m) :
    Only (Entry.hasPromise outcome) m := h.mono fun _ => Entry.isUnversioned.hasPromise

theorem storageResource_only {deployPath : JsString} {value : Json} :
    Only Entry.isUnversioned (storageResource world deployPath value) := by
  unfold storageResource
  split
  · split
    · exact .bind (.ofExcept _) fun _ => .bind (call_only rfl) fun _ => .pure _
    · refine .bind (.ofExcept _) fun file => .bind (call_only rfl) fun isThere => ?_
      split
      · exact .fail _
      · exact .bind (call_only rfl) fun _ => .bind (call_only rfl) fun _ => .pure _
    · exact .fail _
  · exact .fail _
  · exact .fail _

mutual
/-- The values are replaced without a version; the induction is on the value. -/
theorem replaceValue_only {deployPath : JsString} :
    ∀ value : Json, Only Entry.isUnversioned (replaceValue world deployPath value)
  | .obj kvs => by
    rw [replaceValue]
    exact .bind (replaceEntries_only kvs []) fun _ => .pure _
  | .arr xs => by
    rw [replaceValue]
    exact .bind (replaceElements_only 0 xs []) fun _ => .pure _
  | .null | .bool _ | .num _ | .str _ => by
    -- what is neither an object nor an array stays as it is
    rw [replaceValue]
    · exact .pure _
    · simp
    · simp

theorem replaceEntries_only {deployPath : JsString} : ∀ entries result : List (JsString × Json),
    Only Entry.isUnversioned (replaceEntries world deployPath entries result)
  | [], result => by
    rw [replaceEntries]
    exact .pure _
  | (key, value) :: entries, result => by
    rw [replaceEntries]
    split
    · exact .bind storageResource_only fun _ => replaceEntries_only entries _
    · exact .bind (replaceValue_only value) fun _ => replaceEntries_only entries _

theorem replaceElements_only {deployPath : JsString} :
    ∀ (i : ℕ) (values : List Json) (result : List (JsString × Json)),
      Only Entry.isUnversioned (replaceElements world deployPath i values result)
  | i, [], result => by
    rw [replaceElements]
    exact .pure _
  | i, value :: values, result => by
    rw [replaceElements]
    exact .bind (replaceValue_only value) fun _ => replaceElements_only (i + 1) values _
end

theorem contractSend_only {value : List (JsString × Json)} {send : Json} :
    Only Entry.isUnversioned (contractSend world target value send) := by
  refine .bind (.ofExcept _) fun text => .bind (.ofExcept _) fun ⟨contractName, method, names⟩ => ?_
  refine .bind ?_ fun ⟨params, value⟩ => .bind (call_only rfl) fun _ => .pure _
  unfold contractParams
  show Only _ (if _ then _ else _)
  split
  · exact .bind (call_only rfl) fun _ => .pure _
  · exact .pure _

theorem valueText_only {deployContracts : Bool} {value : Json} :
    Only Entry.isUnversioned (valueText world target deployContracts value) := by
  unfold valueText
  split
  · refine .bind ?_ fun _ => .pure _
    unfold sendIfAsked
    split
    · split
      · exact contractSend_only
      · exact .pure _
    · exact .pure _
  · exact .pure _
  · exact .ofExcept _

/-- The values are written under the promise of the version. -/
theorem updateKeyValue_only {values : Option Json} {deployPath : JsString} {deployContracts : Bool} :
    Only (Entry.hasPromise outcome)
      (updateKeyValue world target values deployPath deployContracts (.promise outcome)) := by
  refine .bind (unversioned_promise ?_) fun entries => ?_
  · exact .bind (.ofExcept _) fun _ => replaceEntries_only _ _
  · induction entries with
    | nil => exact .pure _
    | cons entry entries ih =>
      refine .bind (unversioned_promise valueText_only) fun text => ?_
      exact .bind (call_promise (by simp [Call.versionArg])) fun _ => ih

/-- The artifacts are stored under the promise of the version. -/
theorem storeContractArtifacts_only {artifacts address : Option Json} {name : JsString} :
    Only (Entry.hasPromise outcome)
      (storeContractArtifacts world artifacts name (.promise outcome) address target) := by
  refine .bind (call_promise (by simp [Call.versionArg])) fun _ => ?_
  refine .bind (call_promise (by simp [Call.versionArg])) fun _ => ?_
  exact call_promise (by simp [Call.versionArg])

/-- The contracts are deployed under the promise of the version. -/
theorem deployEach_only {config : Json} {map : List (JsString × Json)} {deployPath path : JsString}
    {force : Bool} (names : List JsString) : Only (Entry.hasPromise outcome)
      (deployEach world config map deployPath (.promise outcome) target path force names) := by
  induction names with
  | nil => exact .pure _
  | cons name names ih =>
    refine .bind (.ofExcept _) fun excluded => .bind (when_only ?_) fun _ => ih
    refine .bind (unversioned_promise deployContract_only) fun ⟨artifacts, address⟩ => ?_
    exact storeContractArtifacts_only

theorem storeProxyMetadata_only {path : JsString} : Only (Entry.hasPromise outcome)
    (storeProxyMetadata world settings target path (.promise outcome)) := by
  refine .bind (unversioned_promise uploadProxyMetadata_only) fun id => ?_
  refine .bind (call_promise (by simp [Call.versionArg])) fun _ => ?_
  refine unversioned_promise (promiseAll_only ?_)
  intro m hm
  simp only [List.mem_cons, List.not_mem_nil, or_false] at hm
  rcases hm with rfl | rfl | rfl <;> exact call_only rfl

/-- The contracts are deployed under the promise of the version. -/
theorem deployContracts_only {config : Json} {deployPath : JsString} {force : Bool} :
    Only (Entry.hasPromise outcome)
      (deployContracts world settings config deployPath (.promise outcome) target force) := by
  refine .bind (.ofExcept _) fun ⟨names, map, flag⟩ => ?_
  refine .bind (unversioned_promise prepareProxies_only) fun path => ?_
  exact .bind (deployEach_only names) fun _ => when_only storeProxyMetadata_only

theorem execCommand_only {command : JsString} :
    Only Entry.isUnversioned (execCommand world command) :=
  .recover (.bind (call_only rfl) fun _ => .pure _) (.pure _)

theorem updateTagOf_only {deployConfig : Json} {name key : JsString} :
    Only (Entry.hasPromise outcome)
      (updateTagOf world deployConfig name target key (.promise outcome)) :=
  .bind (.ofExcept _) fun _ => when_only (call_promise (by simp [Call.versionArg]))

/-- Every write to the identity contract is given the promise. -/
theorem writeIdentity_only {p : DeployParams} {a : Admission} {routeFileUploadedId dir : JsString} :
    Only (Entry.hasPromise a.version)
      (writeIdentity world settings p a routeFileUploadedId dir) := by
  refine .bind (when_only deployContracts_only) fun _ => .bind updateKeyValue_only fun _ => ?_
  refine .bind (call_promise (by simp [Call.versionArg])) fun _ => ?_
  refine .bind updateKeyValue_only fun _ => .bind ?_ fun _ => ?_
  · refine .bind (unversioned_promise execCommand_only) fun _ => ?_
    refine .bind (unversioned_promise execCommand_only) fun sha => ?_
    exact when_only (call_promise (by simp [Call.versionArg]))
  · exact .bind updateTagOf_only fun _ => updateTagOf_only

end

/-! ## Before the first write -/

/-- An entry that is a write to the identity contract. -/
def Entry.isWrite (entry : Entry) : Prop := entry.versionArg ≠ none

/-- A write carries a version. -/
theorem Entry.isUnversioned.not_isWrite {entry : Entry} (h : entry.isUnversioned) :
    ¬entry.isWrite := by
  cases entry with
  | call c => exact fun hwrite => hwrite h
  | validated o => exact h.elim
  | versioned o => exact h.elim

theorem not_isWrite {m : Deploy σ α} (h : Only Entry.isUnversioned m) :
    Only (fun entry => ¬entry.isWrite) m := h.mono fun _ => Entry.isUnversioned.not_isWrite

/-- A write comes at once. -/
theorem call_write {β : Type} {c : Call} {f : c.Answer → Deploy σ β} (h : c.versionArg ≠ none)
    (s : σ) : ∃ entry ∈ (call world c >>= f).log s, entry.isWrite :=
  exists_log_bind.mpr (.inl ⟨.call c, List.mem_singleton_self _, h⟩)

section

variable (world settings) (config : Json) (map : List (JsString × Json))
  (deployPath target path : JsString) (force : Bool)

/-- A contract, up to the write of its address. -/
def deployUntilWrite (contract : Json) (name : JsString) : Deploy σ Unit := do
  let (artifacts, _) ← deployContract world config contract deployPath name target path force
  let _ ← uploadArtifacts world artifacts
  pure ()

/-- The first contract that is not excluded; without one, what comes after the contracts. -/
def eachUntilWrite (after : Deploy σ Unit) : List JsString → Deploy σ Unit
  | [] => after
  | name :: names => do
    let contract := (map.lookup name).getD .null
    let excluded ← ofExcept (isExcluded contract)
    if excluded then eachUntilWrite after names
    else deployUntilWrite world config deployPath target path force contract name

/-- The metadata of the proxies, up to the write of their id. -/
def metadataUntilWrite (flag : Json) : Deploy σ Unit :=
  if flag = .bool true then do
    let _ ← uploadProxyMetadata world path
    pure ()
  else pure ()

/-- The deployment of the contracts up to its first write. -/
def contractsUntilWrite : Deploy σ Unit := do
  let (names, map, flag) ← ofExcept (contractTable config)
  let path ← prepareProxies world settings flag deployPath
  eachUntilWrite world config map deployPath target path force (metadataUntilWrite world path flag)
    names

end

variable {config : Json} {map : List (JsString × Json)} {deployPath target path : JsString}
  {force : Bool} {version : VersionArg}

/-- The first write of a contract is that of its address. -/
theorem deployAndStore_until {contract : Json} {name : JsString} :
    Until Entry.isWrite
      (deployUntilWrite world config deployPath target path force contract name)
      (deployAndStore world config contract deployPath name version target path force) := by
  refine .bind (not_isWrite deployContract_only) fun ⟨artifacts, address⟩ => ?_
  refine .bind (not_isWrite (call_only rfl)) fun id => ?_
  exact .now fun s => call_write (by simp [Call.versionArg]) s

/-- The contracts up to the first write. -/
theorem deployEach_until {after : Deploy σ Unit} {k : Deploy σ α}
    (h : Until Entry.isWrite after k) (names : List JsString) :
    Until Entry.isWrite (eachUntilWrite world config map deployPath target path force after names)
      (deployEach world config map deployPath version target path force names >>= fun _ => k) := by
  induction names with
  | nil =>
    show Until _ after (pure () >>= fun _ => k)
    rw [pure_bind]
    exact h
  | cons name names ih =>
    unfold deployEach
    rw [bind_assoc]
    refine .bind (.ofExcept _) fun excluded => ?_
    cases excluded with
    | true =>
      -- the contract is skipped
      show Until _ (eachUntilWrite _ _ _ _ _ _ _ _ _) ((pure () >>= fun _ => _) >>= fun _ => k)
      rw [pure_bind]
      exact ih
    | false => exact (deployAndStore_until.append _).append _

theorem storeProxyMetadata_until {flag : Json} {k : Deploy σ α}
    (h : ∀ s, ∃ entry ∈ k.log s, entry.isWrite) : Until Entry.isWrite
      (metadataUntilWrite world path flag)
      (when (flag = .bool true) (storeProxyMetadata world settings target path version) >>=
        fun _ => k) := by
  unfold metadataUntilWrite when
  by_cases hflag : flag = .bool true
  · rw [if_pos hflag, if_pos (by simpa using hflag)]
    refine .append (.bind (not_isWrite uploadProxyMetadata_only) fun id => ?_) _
    exact .now fun s => call_write (by simp [Call.versionArg]) s
  · rw [if_neg hflag, if_neg (by simpa using hflag), pure_bind]
    exact .now h

/-- The deployment of the contracts up to the first write. -/
theorem deployContracts_until {k : Deploy σ α} (h : ∀ s, ∃ entry ∈ k.log s, entry.isWrite) :
    Until Entry.isWrite (contractsUntilWrite world settings config deployPath target force)
      (deployContracts world settings config deployPath version target force >>= fun _ => k) := by
  unfold deployContracts
  rw [bind_assoc]
  refine .bind (.ofExcept _) fun ⟨names, map, flag⟩ => ?_
  rw [bind_assoc]
  refine .bind (not_isWrite prepareProxies_only) fun path => ?_
  rw [bind_assoc]
  exact deployEach_until (storeProxyMetadata_until h) names

/-- The id of the root directory is written without any condition. -/
theorem updateRootDir_eq {dir : JsString} {deployContracts : Bool} :
    updateKeyValue world target (some (.obj [(js "::rootDir", .str dir)])) deployPath
      deployContracts version =
        call world (.putKeyValue target (js "::rootDir") (some (.str dir)) version) >>=
          fun _ => pure () := by
  have hkey : storageKey (js "::rootDir") = none := by decide +kernel
  have hassign : assign (js "::rootDir") (.str dir) [] = [(js "::rootDir", Json.str dir)] := by
    unfold assign
    rw [if_neg (by decide +kernel)]
    rfl
  simp only [updateKeyValue, replaceContentsWithCids, entriesOf, Logged.ofExcept, Option.getD_some,
    replaceEntries, hkey, replaceValue, pure_bind, hassign, putEntries, valueText, toText]

/-! ## The rest of a deployment -/

section

variable (world settings) (p : DeployParams) (a : Admission) (routes : Json)

/-- What follows when the routes have been read. -/
def publish : Deploy σ Unit := do
  let routeFileUploadedId ← call world (.uploadData (.text (some routes.stringify)))
  let publicDirId ← uploadRootDir world p.deployPath (ownProperty (js "rootDir") a.deployConfig)
  when (a.target.isPointTarget || a.target.isAlias)
    (writeIdentity world settings p a routeFileUploadedId publicDirId)
  when (!a.target.isPointTarget) (editDomainRegistry world a.target.target
    (domainRegistryData a.target routeFileUploadedId publicDirId) a.preExistingDomainContent)

/-- The uploads of the routes and the root directory, and with contracts what comes before the first
write for them. -/
def untilFirstWrite : Deploy σ Unit := do
  let _ ← call world (.uploadData (.text (some routes.stringify)))
  let _ ← uploadRootDir world p.deployPath (ownProperty (js "rootDir") a.deployConfig)
  when p.deployContracts (contractsUntilWrite world settings a.deployConfig p.deployPath
    (if a.target.isAlias then a.target.identity else a.target.target) p.forceDeployProxy)

end

variable {p : DeployParams} {a : Admission} {routes : Json}

/-- A deployment is its admission, then the routes, then what is published. -/
theorem deploy_eq : deploy world settings p =
    admission world settings p >>= fun a =>
      readRoutes world p.deployPath >>= fun routes => publish world settings p a routes := by
  unfold deploy uploadRoutes publish
  simp only [bind_assoc]

theorem writeIdentity_until {id dir : JsString} : Until Entry.isWrite
    (when p.deployContracts (contractsUntilWrite world settings a.deployConfig p.deployPath
      (if a.target.isAlias then a.target.identity else a.target.target) p.forceDeployProxy))
    (writeIdentity world settings p a id dir) := by
  unfold writeIdentity
  cases p.deployContracts with
  | true =>
    refine deployContracts_until ?_
    intro s
    rw [updateRootDir_eq, bind_assoc]
    exact call_write (by simp [Call.versionArg]) s
  | false =>
    show Until _ (pure ()) (pure () >>= _)
    rw [pure_bind]
    refine .now ?_
    intro s
    rw [updateRootDir_eq, bind_assoc]
    exact call_write (by simp [Call.versionArg]) s

/-- What is published up to the first write. -/
theorem publish_until (h : (a.target.isPointTarget || a.target.isAlias) = true) :
    Until Entry.isWrite (untilFirstWrite world settings p a routes)
      (publish world settings p a routes) := by
  refine .bind (not_isWrite (call_only rfl)) fun id => ?_
  refine .bind (not_isWrite uploadRootDir_only) fun dir => ?_
  rw [h]
  exact writeIdentity_until.append _

theorem editDomainRegistry_only {domain content : JsString} {data : CookieString.Entries} :
    Only Entry.isUnversioned (editDomainRegistry world domain data content) := by
  unfold editDomainRegistry
  split <;> exact call_only rfl

/-- Without an identity nothing is written under a version. -/
theorem publish_unversioned (h : (a.target.isPointTarget || a.target.isAlias) = false) :
    Only Entry.isUnversioned (publish world settings p a routes) := by
  refine .bind (call_only rfl) fun id => .bind uploadRootDir_only fun dir => ?_
  rw [h]
  exact .bind (.pure _) fun _ => when_only editDomainRegistry_only

/-- All writes of a deployment go under the promise of its version. -/
theorem publish_only :
    Only (Entry.hasPromise a.version) (publish world settings p a routes) := by
  refine .bind (call_promise (by simp [Call.versionArg])) fun id => ?_
  refine .bind (unversioned_promise uploadRootDir_only) fun dir => ?_
  refine .bind (when_only writeIdentity_only) fun _ => ?_
  exact when_only (unversioned_promise editDomainRegistry_only)

/-- The routes are uploaded at once. -/
theorem publish_effect (s : σ) :
    ∃ entry ∈ (publish world settings p a routes).log s, entry.isEffect = true :=
  exists_log_bind.mpr (.inl ⟨_, List.mem_singleton_self _, rfl⟩)

/-! ## The admission -/

/-- A promise that is not awaited notes its outcome at the end. -/
theorem start_yields {m : Deploy σ α} {entry : Except Failure α → Entry} {s s' : σ}
    {outcome : Except Failure α} (h : Yields (start m entry) s outcome s') :
    (start m entry).log s = m.log s ++ [entry outcome] := by
  obtain ⟨w, h⟩ := h
  cases h
  rfl

/-- A promise that is not awaited notes its own entries and its outcome. -/
theorem start_only {m : Deploy σ α} {entry : Except Failure α → Entry} (hm : Only P m)
    (h : ∀ outcome, P (entry outcome)) : Only P (start m entry) :=
  .bind (.attempt hm) fun outcome => .bind (.tell (h outcome)) fun _ => .pure _

theorem configOf_only : Only Entry.isCheck (configOf world p) := by
  unfold configOf
  split
  · exact .pure _
  · exact .bind (call_only rfl) fun _ => .ofExcept _

/-- The target is checked with checks only. -/
theorem checkTarget_only {t : Target} : Only Entry.isCheck (checkTarget world settings t) := by
  unfold checkTarget
  split
  · exact .bind checkIdentity_only fun _ => .pure _
  · exact .bind ensureIsDomainOwner_only fun _ => .pure _

/-- An entry of the admission: a check, or the outcome of a promise. -/
def Entry.isAdmission : Entry → Prop
  | .call c => c.isEffect = false
  | _ => True

/-- The checks belong to the admission. -/
theorem Entry.isCheck.isAdmission {entry : Entry} (h : entry.isCheck) : entry.isAdmission := by
  cases entry with
  | call c => exact h
  | validated o => trivial
  | versioned o => trivial

/-- The admission consists of checks and of the two promises. -/
theorem admission_only : Only Entry.isAdmission (admission world settings p) := by
  have hcheck : ∀ {β : Type} {m : Deploy σ β}, Only Entry.isCheck m → Only Entry.isAdmission m :=
    fun h => h.mono fun _ => Entry.isCheck.isAdmission
  refine .bind (hcheck configOf_only) fun config => ?_
  refine .bind (start_only (.ofExcept _) fun _ => trivial) fun validation => ?_
  refine .bind (.ofExcept _) fun t => ?_
  refine .bind (start_only (hcheck getVersionAsync_only) fun _ => trivial) fun version => ?_
  exact .bind (hcheck checkTarget_only) fun _ => .pure _

/-- The log of an admission has the two outcomes, among calls. -/
theorem admission_log {s s' : σ} (h : Yields (admission world settings p) s a s') :
    ∃ before between after, (admission world settings p).log s =
      before ++ .validated a.validation :: (between ++ .versioned a.version :: after) ∧
      (∀ entry ∈ before, entry.isCheck) ∧ (∀ entry ∈ between, entry.isCheck) ∧
      ∀ entry ∈ after, entry.isCheck := by
  unfold admission at h ⊢
  obtain ⟨config, s₁, hconfig, h⟩ := yields_bind.mp h
  obtain ⟨validation, s₂, hvalidation, h⟩ := yields_bind.mp h
  obtain ⟨t, s₃, ht, h⟩ := yields_bind.mp h
  obtain ⟨version, s₄, hversion, h⟩ := yields_bind.mp h
  obtain ⟨content, s₅, hcontent, h⟩ := yields_bind.mp h
  rw [log_bind hconfig, log_bind hvalidation, log_bind ht, log_bind hversion, log_bind hcontent,
    start_yields hvalidation, start_yields hversion]
  obtain ⟨w, h⟩ := h
  cases h
  have hnone : ∀ {α : Type} (x : Except Failure α) (s : σ),
      (ofExcept x : Deploy σ α).log s = [] := by
    intro α x s
    cases x <;> rfl
  refine ⟨(configOf world p).log s,
    (getVersionAsync world (ownProperty (js "version") config) t.identity t.isPointTarget
      t.isAlias).log s₃,
    (checkTarget world settings t).log s₄, ?_,
    configOf_only s, getVersionAsync_only s₃, checkTarget_only s₄⟩
  rw [hnone, hnone]
  simp [log, pure]

/-- The checks are no outcome of a promise. -/
theorem Entry.isCheck.not_isRejection {entry : Entry} (h : entry.isCheck) :
    entry.isRejection = false := by
  cases entry with
  | call c => rfl
  | validated o => exact h.elim
  | versioned o => exact h.elim

/-- What the promise of the version is in is no rejection of it. -/
theorem Entry.hasPromise.not_isRejection {entry : Entry} {outcome : Except Failure (Option JsString)}
    (h : entry.hasPromise outcome) : entry.isRejection = false := by
  cases entry with
  | call c => rfl
  | validated o => exact h.elim
  | versioned o => exact h.elim

/-- The admission has no effect that others can see. -/
theorem Entry.isAdmission.isEffect {entry : Entry} (h : entry.isAdmission) :
    entry.isEffect = false := by
  cases entry with
  | call c => exact h
  | validated o => rfl
  | versioned o => rfl

/-- An admission writes nothing. -/
theorem Entry.isAdmission.not_isWrite {entry : Entry} (h : entry.isAdmission) : ¬entry.isWrite := by
  cases entry with
  | call c =>
    have hc : (Entry.call c).isCheck := h
    exact hc.isUnversioned.not_isWrite
  | validated o => exact fun hwrite => hwrite rfl
  | versioned o => exact fun hwrite => hwrite rfl

/-- An outcome that is no rejection. -/
def Accepted {α : Type} (outcome : Except Failure α) : Prop := ∃ a, outcome = .ok a

/-- A check has been rejected exactly when one of the two promises has. -/
theorem admission_rejects {s s' : σ} (h : Yields (admission world settings p) s a s') :
    (∃ entry ∈ (admission world settings p).log s, entry.isRejection = true) ↔
      ¬(Accepted a.validation ∧ Accepted a.version) := by
  obtain ⟨before, between, after, hlog, hbefore, hbetween, hafter⟩ := admission_log h
  rw [hlog]
  constructor
  · rintro ⟨entry, hmem, hrejection⟩ ⟨⟨_, hvalidation⟩, ⟨_, hversion⟩⟩
    have hcheck : ∀ {entries : List Entry}, (∀ entry ∈ entries, entry.isCheck) →
        entry ∉ entries := by
      intro entries hall hin
      rw [(hall entry hin).not_isRejection] at hrejection
      cases hrejection
    rw [hvalidation, hversion] at hmem
    obtain hmem | hmem := List.mem_append.mp hmem
    · exact hcheck hbefore hmem
    obtain rfl | hmem := List.mem_cons.mp hmem
    · cases hrejection
    obtain hmem | hmem := List.mem_append.mp hmem
    · exact hcheck hbetween hmem
    obtain rfl | hmem := List.mem_cons.mp hmem
    · cases hrejection
    · exact hcheck hafter hmem
  · intro hnot
    cases hvalidation : a.validation with
    | error e => exact ⟨.validated (.error e), by simp, rfl⟩
    | ok u =>
      cases hversion : a.version with
      | error e => exact ⟨.versioned (.error e), by simp, rfl⟩
      | ok version => exact (hnot ⟨⟨u, hvalidation⟩, version, hversion⟩).elim

/-! ## When a deployment keeps its promises -/

/-- A rejected deployment has no effect and is rejected itself, and every write is given the text of
the version. -/
structure Safe (m : Deploy σ Unit) (s : σ) : Prop where
  rejects : (∃ entry ∈ m.log s, entry.isRejection = true) →
    (∀ entry ∈ m.log s, entry.isEffect = false) ∧ Fails m s
  version : ∀ entry ∈ m.log s, ∀ version, entry.versionArg = some version →
    ∃ text, .versioned (.ok text) ∈ m.log s ∧ version = .text text

variable (world settings p)

/-- If the deployment comes to its first upload, then validation and version are accepted, and
without an identity, or before the first write to it, the deployment ends. -/
def StopsInTime (s : σ) : Prop :=
  ∀ a s₁, Yields (admission world settings p) s a s₁ →
    ∀ routes s₂, Yields (readRoutes world p.deployPath) s₁ routes s₂ →
      (Accepted a.validation ∧ Accepted a.version) ∧
        ((a.target.isPointTarget || a.target.isAlias) = true →
          Fails (untilFirstWrite world settings p a routes) s₂)

variable {world settings p}

/-- A deployment that respects its checks stops before its first write. -/
theorem stopsInTime_of_safe {s : σ} (h : Safe (deploy world settings p) s) :
    StopsInTime world settings p s := by
  intro a s₁ ha routes s₂ hroutes
  rw [deploy_eq] at h
  obtain ⟨hrejects, hversion⟩ := h
  rw [log_bind ha, log_bind hroutes] at hrejects hversion
  constructor
  · by_contra hnot
    obtain ⟨rejection, hmem, hrejection⟩ := (admission_rejects ha).mpr hnot
    obtain ⟨hnone, -⟩ := hrejects ⟨rejection, List.mem_append_left _ hmem, hrejection⟩
    obtain ⟨entry, hentry, heffect⟩ := @publish_effect σ world settings p a routes s₂
    rw [hnone entry (List.mem_append_right _ (List.mem_append_right _ hentry))] at heffect
    cases heffect
  · intro hidentity
    obtain ⟨u, s₃, hyields⟩ | hfails := yields_or_fails (untilFirstWrite world settings p a routes) s₂
    · obtain ⟨entry, hentry, hwrite⟩ := (publish_until hidentity s₂).2 u s₃ hyields
      obtain ⟨version, hsome⟩ := Option.ne_none_iff_exists'.mp hwrite
      obtain ⟨text, -, htext⟩ := hversion entry
        (List.mem_append_right _ (List.mem_append_right _ hentry)) version hsome
      -- it is the promise
      have honly := publish_only s₂ entry hentry
      cases entry with
      | call c =>
        have hpromise := honly version hsome
        rw [htext] at hpromise
        cases hpromise
      | validated o => exact honly.elim
      | versioned o => exact honly.elim
    · exact hfails

/-- Nothing is written before the checks are done. -/
theorem safe_of_fails {m : Deploy σ Unit} {s : σ} (honly : ∀ entry ∈ m.log s, entry.isAdmission)
    (h : Fails m s) : Safe m s where
  rejects _ := ⟨fun entry hentry => (honly entry hentry).isEffect, h⟩
  version entry hentry version hversion := by
    have hnone := (honly entry hentry).not_isWrite
    rw [Entry.isWrite, hversion] at hnone
    exact (hnone (by simp)).elim

/-- A deployment that stops before its first write respects its checks. -/
theorem safe_of_stopsInTime {s : σ} (h : StopsInTime world settings p s) :
    Safe (deploy world settings p) s := by
  rw [deploy_eq]
  obtain ⟨a, s₁, ha⟩ | hfails := yields_or_fails (admission world settings p) s
  · obtain ⟨routes, s₂, hroutes⟩ | hfails := yields_or_fails (readRoutes world p.deployPath) s₁
    -- admitted, and the routes are read: only now something is published
    · obtain ⟨haccepted, hidentity⟩ := h a s₁ ha routes s₂ hroutes
      have hunwritten : ∀ entry ∈ (publish world settings p a routes).log s₂, ¬entry.isWrite := by
        cases htarget : a.target.isPointTarget || a.target.isAlias with
        | true => exact ((publish_until htarget s₂).1 (hidentity htarget)).2
        | false =>
          intro entry hentry
          exact (publish_unversioned htarget s₂ entry hentry).not_isWrite
      refine ⟨?_, ?_⟩
      · rintro ⟨entry, hmem, hrejection⟩
        rw [log_bind ha, log_bind hroutes] at hmem
        obtain hmem | hmem := List.mem_append.mp hmem
        · exact ((admission_rejects ha).mp ⟨entry, hmem, hrejection⟩ haccepted).elim
        obtain hmem | hmem := List.mem_append.mp hmem
        · rw [(readRoutes_only s₁ entry hmem).not_isRejection] at hrejection
          cases hrejection
        · rw [(publish_only s₂ entry hmem).not_isRejection] at hrejection
          cases hrejection
      · intro entry hmem version hversion
        have hwrite : entry.isWrite := by
          rw [Entry.isWrite, hversion]
          simp
        rw [log_bind ha, log_bind hroutes] at hmem
        obtain hmem | hmem := List.mem_append.mp hmem
        · exact ((admission_only s entry hmem).not_isWrite hwrite).elim
        obtain hmem | hmem := List.mem_append.mp hmem
        · exact ((readRoutes_only s₁ entry hmem).isAdmission.not_isWrite hwrite).elim
        · exact (hunwritten entry hmem hwrite).elim
    -- whatever fails before leaves only entries of the admission in the log
    · refine safe_of_fails ?_ (fails_bind.mpr (.inr ⟨a, s₁, ha, fails_bind.mpr (.inl hfails)⟩))
      have honly : Only Entry.isAdmission (admission world settings p) := admission_only
      intro entry hmem
      rw [log_bind ha] at hmem
      obtain hmem | hmem := List.mem_append.mp hmem
      · exact honly s entry hmem
      · obtain ⟨w, hw, rfl⟩ | ⟨routes, s₂, hyields, -⟩ :=
          (exists_log_bind (P := fun w => w = entry)).mp ⟨entry, hmem, rfl⟩
        · exact (readRoutes_only s₁ w hw).isAdmission
        · exact (hyields.not_fails hfails).elim
  · refine safe_of_fails ?_ (fails_bind.mpr (.inl hfails))
    intro entry hmem
    obtain ⟨w, hw, rfl⟩ | ⟨a, s₁, hyields, -⟩ :=
      (exists_log_bind (P := fun w => w = entry)).mp ⟨entry, hmem, rfl⟩
    · exact admission_only s w hw
    · exact (hyields.not_fails hfails).elim

/-- For every configuration and every world: a deployment that is rejected has no effect, and every
write is given the text of the version, if and only if the deployment stops in time. -/
theorem deploy_safe_iff {s : σ} :
    Safe (deploy world settings p) s ↔ StopsInTime world settings p s :=
  ⟨stopsInTime_of_safe, safe_of_stopsInTime⟩

end

/-- A world in which the wallet owns every identity, every upload is completed and every write
succeeds; all files are empty objects. -/
def answer : (c : Call) → Except Failure c.Answer
  | .getOwner => .ok (js "0xA")
  | .getSigner => .ok (js "0xA")
  | .ownerByIdentity _ => .ok (some (js "0xA"))
  | .isIdentityDeployer _ _ => .ok true
  | .getikVersion _ _ => .ok none
  | .putKeyValue _ _ _ _ => .ok ()
  | .putZRecord _ _ _ => .ok ()
  | .uploadData _ => .ok (js "id")
  | .uploadDir _ => .ok (js "dir")
  | .waitForDirToUpload _ => .ok (js "COMPLETED")
  | .readFileUtf8 _ => .ok (js "\x7b\x7d")
  | .execSync _ => .ok []
  | _ => .error .rejected

/-- A world in which each call succeeds. -/
def friendly : World Unit := fun c s => (answer c, s)

/-- The configuration has no `keyvalue`. -/
def incomplete : DeployParams where
  deployPath := js "/site"
  deployContracts := false
  dev := false
  forceDeployProxy := false
  config := some (.obj [(js "version", .num (.ofInt 1)), (js "target", .str (js "a.point")),
    (js "contracts", .arr [])])

/-- Settings of a process without MODE. -/
def plainSettings : Settings := ⟨js "/data", none, id⟩

/-- The validation fails, and the deployment uploads the routes, writes the root directory under
the promise of the version, and succeeds. -/
theorem deploy_unchecked : ¬Safe (deploy friendly plainSettings incomplete) () ∧
    (∃ e, .validated (.error e) ∈ (deploy friendly plainSettings incomplete).log ()) ∧
    .call (.uploadData (.text (some (js "\x7b\x7d")))) ∈
      (deploy friendly plainSettings incomplete).log () ∧
    .call (.putKeyValue (js "a.point") (js "::rootDir") (some (.str (js "dir")))
      (.promise (.ok (some (js "1.0.0"))))) ∈ (deploy friendly plainSettings incomplete).log () ∧
    (deploy friendly plainSettings incomplete ()).1 = .ok () := by
  have hvalidation : Entry.validated (_validateDeployConfigOrFail (incomplete.config.getD .null)) ∈
      (deploy friendly plainSettings incomplete).log () := by decide +kernel
  have hrejected : (Entry.validated
      (_validateDeployConfigOrFail (incomplete.config.getD .null))).isRejection = true := by
    decide +kernel
  have hupload : .call (.uploadData (.text (some (js "\x7b\x7d")))) ∈
      (deploy friendly plainSettings incomplete).log () := by decide +kernel
  refine ⟨?_, ?_, hupload, by decide +kernel, by decide +kernel⟩
  · intro hsafe
    obtain ⟨hnone, -⟩ := hsafe.rejects ⟨_, hvalidation, hrejected⟩
    cases hnone _ hupload
  · revert hvalidation hrejected
    cases _validateDeployConfigOrFail (incomplete.config.getD .null) with
    | ok u =>
      intro _ hrejected
      cases hrejected
    | error e => exact fun hvalidation _ => ⟨e, hvalidation⟩

end PointNetwork.Deployer
