import PointNetwork.Deployer.FetchOrDeploy

/-!
# What concurrent deployments keep

Every action of a call is an action on the locked store (`store_step`), so the manifest is always
the result of sections that ran one after the other (`manifest_serial`), and a property that each
change keeps holds all along (`manifest_invariant`).

On a network that is not a development network:

* the recorded addresses differ (`distinct_of_reach`);
* what a call has recorded for a version stays recorded, until a call removes that version
  (`recorded_of_reach`).

On every network a proxy is found as it was registered last (`proxy_of_reach`).
-/

namespace PointNetwork.Manifest

open Js Machine

section Steps

variable (chain : Chain) (task : ℕ → Task)

/-- A change among the allowed ones, on the manifest that was read. -/
def tx (allowed : Edit → Prop) (view : Except ReadError ManifestData) (disk disk' : Disk) : Prop :=
  ∃ data data' edit, view = .ok data ∧ allowed edit ∧
    edit.possible chain.development data = true ∧
    edit.apply chain.development data = some data' ∧ disk' = write chain disk data'

/-- The runs whose changes are allowed; the file is overwritten only while nobody holds the
lock. -/
def Ok (allowed : Edit → Prop) (env : Disk → Disk → Prop) (s : Node) (e : Event) : Prop :=
  (∀ edit, editOf task e = some edit → allowed edit) ∧
    ∀ disk, e = .overwrite disk → s.store.lock = none ∧ env s.store.content disk

variable {chain task} {allowed : Edit → Prop} {env : Disk → Disk → Prop} {s s' : Node} {e : Event}
  {i : ℕ} {data : ManifestData} {next : Phase}

/-- A step of a task is one of the store. -/
lemma store_of_act {e : LockedStore.Event ℕ Disk} (h : s.act chain e i next = some s') :
    LockedStore.step (Manifest.read chain) s.store e = some s'.store := by
  obtain ⟨store, hstore, heq⟩ := Option.map_eq_some_iff.mp h
  cases heq
  exact hstore

/-- A step of a task changes its own phase only. -/
lemma phase_of_act {e : LockedStore.Event ℕ Disk} (h : s.act chain e i next = some s') :
    s'.phase = Function.update s.phase i next := by
  obtain ⟨store, -, heq⟩ := Option.map_eq_some_iff.mp h
  cases heq
  rfl

/-- What a task has read is the view of the lock. -/
lemma view_of_data? (h : s.data? i = some data) : s.store.view = some (.ok data) := by
  unfold Node.data? at h
  split_ifs at h
  split at h
  · next hview =>
    cases h
    exact hview
  · cases h

/-- What an action does to the store: nothing, or an action of the locked store. -/
def StoreStep (chain : Chain) (allowed : Edit → Prop) (env : Disk → Disk → Prop)
    (s s' : Node) : Prop :=
  s'.store = s.store ∨ ∃ e, LockedStore.step (Manifest.read chain) s.store e = some s'.store ∧
    LockedStore.Ok (tx chain allowed) env s.store e

lemma storeStep_of_act {e : LockedStore.Event ℕ Disk} (h : s.act chain e i next = some s')
    (hok : LockedStore.Ok (tx chain allowed) env s.store e) : StoreStep chain allowed env s s' :=
  .inr ⟨e, store_of_act h, hok⟩

/-- An edit of what has been read is a step of the store. -/
lemma storeStep_of_edit {edit : Edit} (h : s.edit chain i data edit next = some s')
    (hview : s.store.view = some (.ok data)) (hallowed : allowed edit)
    (hpossible : edit.possible chain.development data = true) :
    StoreStep chain allowed env s s' := by
  unfold Node.edit at h
  split at h
  · next data' happly =>
    exact storeStep_of_act h ⟨.ok data, hview, data, data', edit, rfl, hallowed, hpossible, happly,
      rfl⟩
  · exact storeStep_of_act h trivial

/-- An action that can happen is an action on the locked store. -/
theorem store_step (hok : Ok task allowed env s e) (h : s.step chain task e = some s') :
    StoreStep chain allowed env s s' := by
  unfold Node.step at h
  split at h
  · -- lock
    split at h
    · exact storeStep_of_act h trivial
    · exact storeStep_of_act h trivial
    · cases h
  · -- lockFails
    split at h
    · cases h
      exact .inl rfl
    · cases h
      exact .inl rfl
    · cases h
  · -- read
    split_ifs at h
    split at h
    · exact storeStep_of_act h trivial
    · exact storeStep_of_act h trivial
  · -- resume
    next i r =>
    split at h
    · next lens merge data _ htask hdata =>
      have hview := view_of_data? hdata
      unfold Node.resume at h
      split_ifs at h with hadmin hpossible
      · exact storeStep_of_act h trivial
      · split at h
        · split at h
          · exact storeStep_of_act h trivial
          · cases h
        · next updated cleared =>
          refine storeStep_of_edit h hview (hok.1 _ ?_) hpossible
          simp [editOf, htask]
        · exact storeStep_of_act h trivial
        · exact storeStep_of_act h trivial
    · cases h
  · -- validated
    split at h
    · cases h
      exact .inl rfl
    · cases h
  · -- remove
    next i =>
    split at h
    · next invalid lens _ data _ htask hdata =>
      split_ifs at h
      · refine storeStep_of_edit h (view_of_data? hdata) (hok.1 _ ?_) rfl
        simp [editOf, htask]
      · exact storeStep_of_act h trivial
    · cases h
  · -- add
    next i =>
    split at h
    · next proxy data _ htask hdata =>
      refine storeStep_of_edit h (view_of_data? hdata) (hok.1 _ ?_) rfl
      simp [editOf, htask]
    · cases h
  · -- overwrite
    next disk =>
    obtain ⟨store, hstore, heq⟩ := Option.map_eq_some_iff.mp h
    cases heq
    exact .inr ⟨.replace disk, hstore, hok.2 disk rfl⟩

/-- The store of a run of the node is a run of the locked store. -/
theorem store_reach {s₀ : Node} (h : Reach (Node.step chain task) (Ok task allowed env) s₀ s) :
    Reach (LockedStore.step (Manifest.read chain)) (LockedStore.Ok (tx chain allowed) env)
      s₀.store s.store := by
  induction h with
  | init => exact .init
  | step _ hok hs ih =>
    rcases store_step hok hs with heq | ⟨e, he, hok'⟩
    · rw [heq]
      exact ih
    · exact ih.step hok' he

/-! ## Whole runs -/

lemma current_start (disk : Disk) :
    LockedStore.Current (Manifest.read chain) (Node.start disk).store :=
  ⟨by simp [Node.start], by simp [Node.start]⟩

/-- What the holder of the lock has read is on the disk, in every reachable state. -/
lemma current_of_reach {disk : Disk}
    (h : Reach (Node.step chain task) (Ok task allowed env) (Node.start disk) s) :
    LockedStore.Current (Manifest.read chain) s.store :=
  LockedStore.current_of_reach (current_start disk) (store_reach h)

/-- A run on a list of events that make allowed changes only and never overwrite the file. -/
lemma reach_of_events {s₀ : Node} (es : List Event)
    (hes : ∀ e ∈ es, (∀ edit, editOf task e = some edit → allowed edit) ∧
      ∀ disk, e ≠ .overwrite disk)
    (h : (run (Node.step chain task) s₀ es).isSome) :
    Reach (Node.step chain task) (Ok task allowed env) s₀
      (after (Node.step chain task) s₀ es) := by
  obtain ⟨t, ht⟩ := Option.isSome_iff_exists.mp h
  have hafter : after (Node.step chain task) s₀ es = t := by simp [after, ht]
  rw [hafter]
  clear hafter h
  induction es generalizing s₀ with
  | nil =>
    cases ht
    exact .init
  | cons e es ih =>
    obtain ⟨s₁, hs₁, hrest⟩ := Option.bind_eq_some_iff.mp ht
    have he := hes e (by simp)
    have hok : Ok task allowed env s₀ e := ⟨he.1, fun disk hdisk => absurd hdisk (he.2 disk)⟩
    exact (Reach.init.step hok hs₁).trans (ih (fun e he => hes e (by simp [he])) hrest)

/-- However the calls interleave, the manifest is what sections leave that run one after the other,
and a call inside its section works on the manifest of the disk. -/
theorem manifest_serial {disk : Disk}
    (h : Reach (Node.step chain task) (Ok task allowed env) (Node.start disk) s) :
    Relation.ReflTransGen (LockedStore.Section (Manifest.read chain) (tx chain allowed) env)
        disk s.store.content ∧
      ∀ i data, s.data? i = some data → Manifest.read chain s.store.content = .ok data := by
  refine ⟨LockedStore.serial_of_reach (current_start disk) (store_reach h), ?_⟩
  intro i data hdata
  exact (current_of_reach h).look_eq _ (view_of_data? hdata)

/-- Two deployments of one version, the import of a proxy and another version. -/
def sampleTask : ℕ → Task
  | 0 | 1 => .fetchOrDeploy (.impl sampleVersion) false
  | 2 => .addProxy ⟨js "0xbb", none, some .uups, none, none⟩
  | _ => .fetchOrDeploy (.impl ⟨List.replicate 64 0x62, rfl⟩) true

/-- The state after some actions on a fresh directory. -/
def sampleNode (es : List Event) : Node :=
  after (Node.step sampleChain sampleTask) (Node.start ⟨none, none⟩) es

/-- A call deploys, and while it waits for the transaction another one enters its section. -/
def sampleRun : List Event :=
  [.lock 0, .read 0, .resume 0 (.deployed sampleDeployment false), .lock 1, .read 1]

theorem manifest_serial_two :
    ∃ data, (sampleNode sampleRun).data? 1 = some data ∧
      Manifest.read sampleChain (sampleNode sampleRun).store.content = .ok data := by
  have hreach : Reach (Node.step sampleChain sampleTask)
      (Ok sampleTask (fun _ => True) fun _ _ => False) (Node.start ⟨none, none⟩)
      (sampleNode sampleRun) :=
    reach_of_events sampleRun (by simp [sampleRun]) (by decide +kernel)
  have hdata : ((sampleNode sampleRun).data? 1).isSome := by decide +kernel
  obtain ⟨data, hdata⟩ := Option.isSome_iff_exists.mp hdata
  exact ⟨data, hdata, (manifest_serial hreach).2 1 data hdata⟩

/-- The manifest on the disk can be read, and it is `good`. -/
def Shows (chain : Chain) (good : ManifestData → Prop) (disk : Disk) : Prop :=
  ∃ data, Manifest.read chain disk = .ok data ∧ good data

/-- The version and the proxies stay. -/
lemma Lens.frame_set (lens : Lens) (data : ManifestData) (value : Option Deployment) :
    (lens.set data value).manifestVersion = data.manifestVersion ∧
      (lens.set data value).proxies = data.proxies := by
  cases lens <;> exact ⟨rfl, rfl⟩

/-- The check for a clash leaves the version and the proxies alone. -/
lemma frame_of_check {development checkAll : Bool} {updated : Deployment}
    {data data' : ManifestData}
    (h : checkForAddressClash development data updated checkAll = some data') :
    data'.manifestVersion = data.manifestVersion ∧ data'.proxies = data.proxies := by
  unfold checkForAddressClash at h
  split at h
  · cases h
    exact ⟨rfl, rfl⟩
  · split_ifs at h
    cases h
    exact Lens.frame_set _ _ _

/-- Recording a deployment leaves the version of the manifest and the proxies alone. -/
lemma frame_of_record {development merge : Bool} {lens : Lens} {updated : Deployment}
    {data data' : ManifestData}
    (h : recordDeployment development data lens merge updated = some data') :
    data'.manifestVersion = data.manifestVersion ∧ data'.proxies = data.proxies := by
  unfold recordDeployment at h
  split_ifs at h
  · obtain ⟨checked, hchecked, hmerge⟩ := Option.bind_eq_some_iff.mp h
    obtain ⟨hversion, hproxies⟩ := frame_of_check hchecked
    cases lens with
    | admin => cases hmerge
    | impl version =>
      cases hmerge
      rw [← hversion, ← hproxies]
      unfold mergeImpl
      split
      · exact ⟨rfl, rfl⟩
      · exact ⟨rfl, rfl⟩
  · obtain ⟨checked, hchecked, heq⟩ := Option.map_eq_some_iff.mp h
    obtain ⟨hversion, hproxies⟩ := Lens.frame_set lens checked (some updated)
    rw [← heq, hversion, hproxies]
    exact frame_of_check hchecked

/-- No change touches the version of the manifest, and only `addProxy` the proxies. -/
lemma frame_of_apply {development : Bool} {edit : Edit} {data data' : ManifestData}
    (h : edit.apply development data = some data') :
    data'.manifestVersion = data.manifestVersion ∧
      ((∀ proxy, edit ≠ .addProxy proxy) → data'.proxies = data.proxies) := by
  cases edit with
  | record lens merge updated cleared =>
    obtain ⟨hversion, hproxies⟩ := frame_of_record h
    rw [hversion, hproxies]
    cases cleared with
    | false => exact ⟨rfl, fun _ => rfl⟩
    | true => exact (Lens.frame_set lens data none).imp_right fun h _ => h
  | addProxy proxy =>
    cases h
    exact ⟨rfl, fun hne => absurd rfl (hne proxy)⟩
  | remove lens =>
    cases h
    exact (Lens.frame_set lens data none).imp_right fun h _ => h

/-- What every change keeps, and the form on the disk too, holds in every reachable state. -/
theorem manifest_invariant {good : ManifestData → Prop} {s₀ : Node}
    (hpersist : ∀ data, good data → good data.persisted)
    (hedit : ∀ edit data data', allowed edit → edit.possible chain.development data = true →
      edit.apply chain.development data = some data' → good data → good data')
    (henv : ∀ disk disk', env disk disk' → Shows chain good disk → Shows chain good disk')
    (hcurrent : LockedStore.Current (Manifest.read chain) s₀.store)
    (h0 : Shows chain good s₀.store.content)
    (h : Reach (Node.step chain task) (Ok task allowed env) s₀ s) :
    Shows chain good s.store.content := by
  refine LockedStore.content_invariant hcurrent h0 ?_ (store_reach h)
  intro disk disk' hshows hsection
  rcases hsection with ⟨data, data', edit, hread, hallowed, hpossible, happly, rfl⟩ | hreplaced
  · obtain ⟨data₀, hread₀, hgood⟩ := hshows
    have heq : data₀ = data := Except.ok.inj (hread₀.symm.trans hread)
    subst heq
    have hversion : data'.manifestVersion = currentManifestVersion :=
      (frame_of_apply happly).1.trans (version_of_read hread)
    exact ⟨data'.persisted, read_write chain disk hversion,
      hpersist data' (hedit edit _ data' hallowed hpossible happly hgood)⟩
  · exact henv disk disk' hreplaced hshows

end Steps

/-! ## Lenses -/

section Lenses

variable {data data' : ManifestData} {lens lens' : Lens} {value : Option Deployment}
  {updated : Deployment} {address : JsString}

@[simp] lemma Lens.get_set_self : lens.get (lens.set data value) = value := by
  cases lens with
  | admin => rfl
  | impl version =>
    show ((data.impls.set version value).get version).join = value
    rw [Map.get_set_self]
    cases value <;> rfl

/-- The other lenses see what they saw. -/
lemma Lens.get_set_of_ne (h : lens ≠ lens') : lens.get (lens'.set data value) = lens.get data := by
  cases lens with
  | admin =>
    cases lens' with
    | admin => exact absurd rfl h
    | impl version => rfl
  | impl version =>
    cases lens' with
    | admin => rfl
    | impl version' =>
      have hne : version ≠ version' := fun heq => h (by rw [heq])
      show ((data.impls.set version' value).get version).join = _
      rw [Map.get_set_of_ne hne]
      rfl

lemma getD_get_eq_some {version : VersionHash} {d : Deployment} :
    (Lens.impl version).get data = some d ↔ (version, some d) ∈ data.impls.entries := by
  show (data.impls.get version).join = some d ↔ _
  rw [Option.join_eq_some_iff, Map.get_eq_some]

/-- No clash: the address belongs to nobody. -/
lemma ne_address_of_lookup {checkAll : Bool} (h : lookupDeployment data address checkAll = none)
    {d : Deployment} (hget : lens.get data = some d) : d.address ≠ address := by
  unfold lookupDeployment at h
  split_ifs at h with hadmin
  cases lens with
  | admin =>
    intro heq
    have hsome : data.admin = some d := hget
    rw [hsome, ← heq] at hadmin
    exact hadmin rfl
  | impl version =>
    rw [Option.map_eq_none_iff, List.find?_eq_none] at h
    have hentry := h _ (getD_get_eq_some.mp hget)
    intro heq
    simp [heq] at hentry

/-- Away from a development network a clash throws. -/
lemma checkForAddressClash_eq_some {checkAll : Bool}
    (h : checkForAddressClash false data updated checkAll = some data') :
    data' = data ∧ lookupDeployment data updated.address checkAll = none := by
  unfold checkForAddressClash at h
  split at h
  · next hnone =>
    cases h
    exact ⟨rfl, hnone⟩
  · cases h

/-- The deployment under the lens after `updated` was recorded. -/
def recorded (stored : Option Deployment) (merge : Bool) (updated : Deployment) : Deployment :=
  match stored, merge with
  | some existing, true =>
    { existing with allAddresses := some (mergeAddresses existing updated) }
  | _, _ => updated

/-- All that recording a deployment does, away from a development network. -/
theorem record_spec {merge : Bool}
    (h : recordDeployment false data lens merge updated = some data') :
    (∀ (l : Lens) (d : Deployment), l.get data = some d → d.address ≠ updated.address) ∧
    lens.get data' = some (recorded (lens.get data) merge updated) ∧
    (∀ l : Lens, l ≠ lens → l.get data' = l.get data) ∧ data'.proxies = data.proxies := by
  unfold recordDeployment at h
  split_ifs at h with hmerge
  · obtain ⟨cleared, hcleared, hset⟩ := Option.bind_eq_some_iff.mp h
    obtain ⟨rfl, hnone⟩ := checkForAddressClash_eq_some hcleared
    refine ⟨fun l d hget => ne_address_of_lookup hnone hget, ?_⟩
    cases lens with
    | admin => cases hset
    | impl version =>
      cases hset
      unfold mergeImpl
      split
      · next existing hexisting =>
        rw [hexisting, hmerge]
        exact ⟨Lens.get_set_self, fun l hne => Lens.get_set_of_ne hne, rfl⟩
      · next hnew =>
        rw [hnew]
        exact ⟨Lens.get_set_self, fun l hne => Lens.get_set_of_ne hne, rfl⟩
  · obtain ⟨cleared, hcleared, rfl⟩ := Option.map_eq_some_iff.mp h
    obtain ⟨rfl, hnone⟩ := checkForAddressClash_eq_some hcleared
    refine ⟨fun l d hget => ne_address_of_lookup hnone hget, ?_,
      fun l hne => Lens.get_set_of_ne hne, by cases lens <;> rfl⟩
    rw [Lens.get_set_self]
    have hfalse : merge = false := by simpa using hmerge
    rw [hfalse]
    cases lens.get cleared <;> rfl

end Lenses

/-! ## Different addresses -/

/-- The admin and the versions are at different addresses. -/
def Distinct (data : ManifestData) : Prop :=
  ∀ (l l' : Lens) (d d' : Deployment), l.get data = some d → l'.get data = some d' →
    d.address = d'.address → l = l'

/-- The addresses stay distinct on the disk. -/
lemma Distinct.persisted {data : ManifestData} (h : Distinct data) : Distinct data.persisted := by
  intro l l' d d' hd hd' heq
  rw [get_persisted] at hd hd'
  obtain ⟨e, he, rfl⟩ := Option.map_eq_some_iff.mp hd
  obtain ⟨e', he', rfl⟩ := Option.map_eq_some_iff.mp hd'
  exact h l l' e e' he he' heq

/-- Outside development no address is cleared. -/
lemma not_cleared {stored : Option Deployment} {merge cleared : Bool} {updated : Deployment}
    (h : (Resumed.deployed updated cleared).possible false stored merge = true) :
    cleared = false := by
  simp only [Resumed.possible, Bool.false_and, Bool.or_false, Bool.and_eq_true,
    Bool.not_eq_true'] at h
  exact h.1.2

/-- The address that is recorded is the new one or that of the deployment it is merged with. -/
lemma recorded_address (stored : Option Deployment) (merge : Bool) (updated : Deployment) :
    (recorded stored merge updated).address = updated.address ∨
      ∃ existing, stored = some existing ∧
        (recorded stored merge updated).address = existing.address := by
  cases stored with
  | none => exact .inl rfl
  | some existing =>
    cases merge with
    | false => exact .inl rfl
    | true => exact .inr ⟨existing, rfl, rfl⟩

/-- A deployment that passes the check for a clash keeps the addresses distinct. -/
lemma Distinct.record {data data' : ManifestData} {lens : Lens} {merge : Bool}
    {updated : Deployment} (h : Distinct data)
    (happly : recordDeployment false data lens merge updated = some data') : Distinct data' := by
  obtain ⟨hfree, hself, hother, -⟩ := record_spec happly
  -- the recorded address belongs to no other lens
  have hne : ∀ (l : Lens) (d : Deployment), l ≠ lens → l.get data = some d →
      (recorded (lens.get data) merge updated).address ≠ d.address := by
    intro l d hl hd heq
    rcases recorded_address (lens.get data) merge updated with hnew | ⟨existing, hexisting, hold⟩
    · exact hfree l d hd (heq.symm.trans hnew)
    · exact hl (h lens l existing d hexisting hd (hold.symm.trans heq)).symm
  intro l l' d d' hd hd' heq
  by_cases hl : l = lens
  · by_cases hl' : l' = lens
    · rw [hl, hl']
    · rw [hl, hself] at hd
      cases hd
      rw [hother l' hl'] at hd'
      exact absurd heq (hne l' d' hl' hd')
  · rw [hother l hl] at hd
    by_cases hl' : l' = lens
    · rw [hl', hself] at hd'
      cases hd'
      exact absurd heq.symm (hne l d hl hd)
    · rw [hother l' hl'] at hd'
      exact h l l' d d' hd hd' heq

lemma get_addProxy (data : ManifestData) (proxy : Deployment) (lens : Lens) :
    lens.get (addProxy data proxy) = lens.get data := by
  cases lens <;> rfl

/-- Each edit keeps the addresses distinct. -/
lemma Distinct.edit {data data' : ManifestData} (edit : Edit) (h : Distinct data)
    (hpossible : edit.possible false data = true) (happly : edit.apply false data = some data') :
    Distinct data' := by
  cases edit with
  | record lens merge updated cleared =>
    have hcleared := not_cleared hpossible
    subst hcleared
    exact h.record happly
  | addProxy proxy =>
    cases happly
    intro l l' d d' hd hd' heq
    rw [get_addProxy] at hd hd'
    exact h l l' d d' hd hd' heq
  | remove lens =>
    cases happly
    intro l l' d d' hd hd' heq
    have hold : ∀ {l : Lens} {d : Deployment}, l.get (lens.set data none) = some d →
        l.get data = some d := by
      intro l d hd
      by_cases hl : l = lens
      · rw [hl, Lens.get_set_self] at hd
        cases hd
      · rwa [Lens.get_set_of_ne hl] at hd
    exact h l l' d d' (hold hd) (hold hd') heq

section Runs

variable {chain : Chain} {task : ℕ → Task} {s s₁ s₂ s₃ : Node} {disk : Disk}

/-- Away from development networks, the admin and the versions are recorded at different addresses
in every state that calls reach, whatever their order and whichever of them fail. -/
theorem distinct_of_reach (hnetwork : chain.development = false)
    (h0 : Shows chain Distinct disk)
    (h : Reach (Node.step chain task)
      (Ok task (fun _ => True) fun _ restored => Shows chain Distinct restored)
      (Node.start disk) s) :
    Shows chain Distinct s.store.content := by
  refine manifest_invariant (fun data hd => hd.persisted) ?_ (fun _ _ hnew _ => hnew)
    (current_start disk) h0 h
  intro edit data data' _ hpossible happly hd
  rw [hnetwork] at hpossible happly
  exact hd.edit edit hpossible happly

/-- A directory without a manifest. -/
lemma shows_start {good : ManifestData → Prop} (h : good defaultManifest) (chain : Chain) :
    Shows chain good ⟨none, none⟩ := by
  refine ⟨defaultManifest, ?_, h⟩
  unfold Manifest.read readFile
  cases chain.named <;> rfl

lemma distinct_default : Distinct defaultManifest := by
  intro l l' d d' hd
  cases l with
  | admin => cases hd
  | impl version => cases hd

theorem distinct_of_reach_two : Shows sampleChain Distinct (sampleNode sampleRun).store.content :=
  distinct_of_reach rfl (shows_start distinct_default sampleChain)
    (reach_of_events sampleRun (by simp [sampleRun]) (by decide +kernel))

/-! ## What a call has recorded -/

/-- The version is on record, with this address or with it among its further ones. -/
def Records (version : VersionHash) (address : JsString) (data : ManifestData) : Prop :=
  ∃ d, (Lens.impl version).get data = some d ∧
    (d.address = address ∨ address ∈ d.allAddresses.getD [])

/-- The version is on record at this address. -/
def Owns (version : VersionHash) (address : JsString) (data : ManifestData) : Prop :=
  ∃ d, (Lens.impl version).get data = some d ∧ d.address = address

variable {version : VersionHash} {address : JsString} {data data' : ManifestData}

/-- What is recorded is so on the disk. -/
lemma Records.persisted (h : Records version address data) :
    Records version address data.persisted := by
  obtain ⟨d, hget, hd⟩ := h
  refine ⟨normalizeDeployment d [.layout, .allAddresses], ?_, hd⟩
  rw [get_persisted, hget]
  rfl

/-- An address that belongs to a version does so on the disk. -/
lemma Owns.persisted (h : Owns version address data) : Owns version address data.persisted := by
  obtain ⟨d, hget, hd⟩ := h
  refine ⟨normalizeDeployment d [.layout, .allAddresses], ?_, hd⟩
  rw [get_persisted, hget]
  rfl

/-- A version on record is found under each of its addresses. -/
lemma Records.isSome (h : Records version address data) :
    (getDeploymentFromAddress data address).isSome := by
  obtain ⟨d, hget, hd⟩ := h
  have hmem := getD_get_eq_some.mp hget
  have hhas : ManifestData.hasAddress address (some d) = true := by
    simpa [ManifestData.hasAddress] using hd
  have hfind : (data.impls.entries.find? fun entry =>
      ManifestData.hasAddress address entry.2).isSome :=
    List.find?_isSome.mpr ⟨_, hmem, hhas⟩
  obtain ⟨entry, hentry⟩ := Option.isSome_iff_exists.mp hfind
  have hentry' := List.find?_some hentry
  unfold getDeploymentFromAddress
  rw [hentry, Option.bind_some]
  cases hsnd : entry.2 with
  | none =>
    rw [hsnd] at hentry'
    cases hentry'
  | some d' => rfl

/-- The addresses of both deployments are kept. -/
lemma mem_mergeAddresses {existing value : Deployment} {address : JsString} :
    address ∈ mergeAddresses existing value ↔ address = existing.address ∨
      address = value.address ∨ address ∈ existing.allAddresses.getD [] ∨
      address ∈ value.allAddresses.getD [] := by
  unfold mergeAddresses
  rw [Table.mem_insertIgnore_id]
  simp

/-- What is recorded over a deployment keeps its address and its further addresses, if it is
recorded at all. -/
lemma recorded_of_possible {merge : Bool} {updated stored : Deployment}
    (hpossible : (Resumed.deployed updated false).possible false (some stored) merge = true) :
    recorded (some stored) merge updated
      = { stored with allAddresses := some (mergeAddresses stored updated) } := by
  cases merge with
  | false => simp [Resumed.possible] at hpossible
  | true => rfl

/-- A change that removes another entry, or none, keeps the entry of a version: its address stays,
and its further addresses are at least what they were. -/
lemma edit_keeps {edit : Edit} {stored : Deployment}
    (hallowed : edit ≠ .remove (.impl version))
    (hpossible : edit.possible false data = true) (happly : edit.apply false data = some data')
    (hget : (Lens.impl version).get data = some stored) :
    ∃ d, (Lens.impl version).get data' = some d ∧ d.address = stored.address ∧
      ∀ a ∈ stored.allAddresses.getD [], a ∈ d.allAddresses.getD [] := by
  cases edit with
  | record lens merge updated cleared =>
    have hcleared := not_cleared hpossible
    subst hcleared
    have hrecord : recordDeployment false data lens merge updated = some data' := happly
    obtain ⟨-, hself, hother, -⟩ := record_spec hrecord
    -- a record of another lens leaves this one as it was
    by_cases hlens : lens = .impl version
    · subst hlens
      have hpossible' : (Resumed.deployed updated false).possible false (some stored) merge
          = true := by
        rw [← hget]
        exact hpossible
      refine ⟨_, hself, ?_, ?_⟩
      · rw [hget, recorded_of_possible hpossible']
      · intro a ha
        rw [hget, recorded_of_possible hpossible']
        exact mem_mergeAddresses.mpr (.inr (.inr (.inl ha)))
    · refine ⟨stored, ?_, rfl, fun _ ha => ha⟩
      rw [hother _ (Ne.symm hlens)]
      exact hget
  | addProxy proxy =>
    cases happly
    exact ⟨stored, (get_addProxy data proxy _).trans hget, rfl, fun _ ha => ha⟩
  | remove lens =>
    cases happly
    refine ⟨stored, ?_, rfl, fun _ ha => ha⟩
    have hne : Lens.impl version ≠ lens := fun heq => hallowed (by rw [heq])
    rw [Lens.get_set_of_ne hne]
    exact hget

/-- How a call leaves its section with a deployment: it found it on record, or recorded it. -/
lemma resume_spec {i : ℕ} {r : Resumed} {lens : Lens} {merge : Bool} {d : Deployment}
    (htask : task i = .fetchOrDeploy lens merge)
    (h : s.step chain task (.resume i r) = some s₁) (hphase : s₁.phase i = .waiting d) :
    ∃ data, s.data? i = some data ∧
      ((merge = false ∧ lens.get data = some d ∧ s₁.store.content = s.store.content) ∨
        ∃ cleared data', (Edit.record lens merge d cleared).possible chain.development data = true ∧
          (Edit.record lens merge d cleared).apply chain.development data = some data' ∧
          s₁.store.content = write chain s.store.content data') := by
  have hnext : ∀ {e : LockedStore.Event ℕ Disk} {next : Phase},
      s.act chain e i next = some s₁ → next = .waiting d := by
    intro e next hact
    rw [phase_of_act hact, Function.update_self] at hphase
    exact hphase
  simp only [Node.step, htask] at h
  split at h
  · next lens' merge' data _ htask' hdata =>
    cases htask'
    refine ⟨data, hdata, ?_⟩
    unfold Node.resume at h
    split_ifs at h with hadmin hpossible
    · exact absurd (hnext h) (by simp)
    · split at h
      · -- the stored deployment is handed back
        split at h
        · next stored hstored =>
          obtain rfl : stored = d := by simpa using hnext h
          have hmerge : merge = false := by
            simpa [Resumed.possible, hstored] using hpossible
          refine .inl ⟨hmerge, hstored, ?_⟩
          have hstore := store_of_act h
          obtain ⟨-, heq⟩ := Option.ite_none_right_eq_some.mp hstore
          rw [← Option.some.inj heq]
        · cases h
      · -- a new one is recorded
        next updated cleared =>
        unfold Node.edit at h
        split at h
        · next data' happly =>
          obtain rfl : updated = d := by simpa using hnext h
          refine .inr ⟨cleared, data', hpossible, happly, ?_⟩
          have hstore := store_of_act h
          obtain ⟨-, heq⟩ := Option.ite_none_right_eq_some.mp hstore
          rw [← Option.some.inj heq]
        · exact absurd (hnext h) (by simp)
      · exact absurd (hnext h) (by simp)
      · exact absurd (hnext h) (by simp)
  · cases h

variable {allowed : Edit → Prop} {env : Disk → Disk → Prop}

/-- A step keeps the view of the holder that of the disk. -/
lemma current_of_step {e : Event} (hok : Ok task allowed env s e)
    (hcurrent : LockedStore.Current (Manifest.read chain) s.store)
    (h : s.step chain task e = some s₁) :
    LockedStore.Current (Manifest.read chain) s₁.store :=
  LockedStore.current_of_reach hcurrent (store_reach (Reach.init.step hok h))

/-- Right after a section that ends with a deployment, the manifest has it under its version. -/
lemma shows_of_resume {i : ℕ} {r : Resumed} {merge : Bool} {d : Deployment}
    (hnetwork : chain.development = false)
    (hcurrent : LockedStore.Current (Manifest.read chain) s.store)
    (htask : task i = .fetchOrDeploy (.impl version) merge)
    (h : s.step chain task (.resume i r) = some s₁) (hphase : s₁.phase i = .waiting d) :
    Shows chain (Records version d.address) s₁.store.content ∧
      (merge = false → Shows chain (Owns version d.address) s₁.store.content) := by
  obtain ⟨data, hdata, hcase⟩ := resume_spec htask h hphase
  have hread : Manifest.read chain s.store.content = .ok data :=
    hcurrent.look_eq _ (view_of_data? hdata)
  -- the task has found its deployment, or has just recorded it
  rcases hcase with ⟨-, hget, hsame⟩ | ⟨cleared, data', hpossible, happly, hwrite⟩
  · rw [hsame]
    exact ⟨⟨data, hread, d, hget, .inl rfl⟩, fun _ => ⟨data, hread, d, hget, rfl⟩⟩
  · rw [hnetwork] at hpossible happly
    have hcleared := not_cleared hpossible
    subst hcleared
    have hrecord : recordDeployment false data (.impl version) merge d = some data' := happly
    obtain ⟨-, hself, -, -⟩ := record_spec hrecord
    have hwritten : Manifest.read chain s₁.store.content = .ok data'.persisted := by
      rw [hwrite]
      exact read_write chain _ ((frame_of_apply happly).1.trans (version_of_read hread))
    cases hstored : (Lens.impl version).get data with
    | none =>
      rw [hstored] at hself
      have howns : Owns version d.address data' := ⟨d, hself, rfl⟩
      refine ⟨⟨_, hwritten, Records.persisted ⟨d, hself, .inl rfl⟩⟩, fun _ => ?_⟩
      exact ⟨_, hwritten, howns.persisted⟩
    | some stored =>
      have hpossible' : (Resumed.deployed d false).possible false (some stored) merge = true := by
        rw [← hstored]
        exact hpossible
      rw [hstored, recorded_of_possible hpossible'] at hself
      refine ⟨⟨_, hwritten, Records.persisted ⟨_, hself, .inr ?_⟩⟩, ?_⟩
      · exact mem_mergeAddresses.mpr (.inr (.inl rfl))
      -- without merging, a task does not deploy over a deployment
      · intro hmerge
        subst hmerge
        simp [Resumed.possible] at hpossible'

/-- A call ends its section with a deployment of a version. From then on, as long as no call
removes that version and nobody overwrites the file, the version stays on record with the address
the call returns, and a deployment is found under it. -/
theorem recorded_of_reach {i : ℕ} {r : Resumed} {merge : Bool} {d : Deployment}
    (hnetwork : chain.development = false)
    (h : Reach (Node.step chain task) (Ok task (fun _ => True) env) (Node.start disk) s)
    (htask : task i = .fetchOrDeploy (.impl version) merge)
    (hresume : s.step chain task (.resume i r) = some s₁) (hphase : s₁.phase i = .waiting d)
    (hlater : Reach (Node.step chain task)
      (Ok task (fun edit => edit ≠ .remove (.impl version)) fun _ _ => False) s₁ s₂) :
    Shows chain (fun data => Records version d.address data ∧
      (getDeploymentFromAddress data d.address).isSome) s₂.store.content := by
  have hok : Ok task (fun _ => True) env s (.resume i r) :=
    ⟨fun _ _ => trivial, fun _ hdisk => by cases hdisk⟩
  have hcurrent := current_of_reach h
  have hshows : Shows chain (Records version d.address) s₂.store.content := by
    refine manifest_invariant (fun data hd => hd.persisted) ?_ (fun _ _ hno _ => hno.elim)
      (current_of_step hok hcurrent hresume)
      (shows_of_resume hnetwork hcurrent htask hresume hphase).1 hlater
    intro edit data data' hallowed hpossible happly hd
    rw [hnetwork] at hpossible happly
    obtain ⟨stored, hget, hstored⟩ := hd
    obtain ⟨d', hget', haddress, hall⟩ := edit_keeps hallowed hpossible happly hget
    exact ⟨d', hget', hstored.imp (haddress.trans ·) (hall _)⟩
  obtain ⟨data, hread, hrecords⟩ := hshows
  exact ⟨data, hread, hrecords, hrecords.isSome⟩

/-- The state after one more action. -/
def sampleNext (es : List Event) (e : Event)
    (h : ((sampleNode es).step sampleChain sampleTask e).isSome) : Node :=
  ((sampleNode es).step sampleChain sampleTask e).get h

lemma sampleNext_step (es : List Event) (e : Event)
    (h : ((sampleNode es).step sampleChain sampleTask e).isSome) :
    (sampleNode es).step sampleChain sampleTask e = some (sampleNext es e h) :=
  (Option.some_get h).symm

/-- The first call has recorded its deployment. -/
def sampleRecorded : Node :=
  sampleNext [.lock 0, .read 0] (.resume 0 (.deployed sampleDeployment false)) (by decide +kernel)

/-- The second call reads what the first one has recorded. -/
def sampleLater : Node :=
  after (Node.step sampleChain sampleTask) sampleRecorded [.lock 1, .read 1]

lemma sampleRecorded_reach :
    Reach (Node.step sampleChain sampleTask) (Ok sampleTask (fun _ => True) fun _ _ => False)
      (Node.start ⟨none, none⟩) (sampleNode [.lock 0, .read 0]) :=
  reach_of_events [.lock 0, .read 0] (by simp) (by decide +kernel)

lemma sampleLater_reach :
    Reach (Node.step sampleChain sampleTask)
      (Ok sampleTask (fun edit => edit ≠ .remove (.impl sampleVersion)) fun _ _ => False)
      sampleRecorded sampleLater :=
  reach_of_events [.lock 1, .read 1] (by simp [editOf]) (by decide +kernel)

lemma sampleRecorded_step :
    (sampleNode [.lock 0, .read 0]).step sampleChain sampleTask
      (.resume 0 (.deployed sampleDeployment false)) = some sampleRecorded :=
  sampleNext_step _ _ _

lemma sampleRecorded_phase : sampleRecorded.phase 0 = .waiting sampleDeployment := by
  decide +kernel

theorem recorded_of_reach_two :
    Shows sampleChain (fun data => Records sampleVersion (js "0xaa") data ∧
      (getDeploymentFromAddress data (js "0xaa")).isSome) sampleLater.store.content :=
  recorded_of_reach rfl sampleRecorded_reach rfl sampleRecorded_step sampleRecorded_phase
    sampleLater_reach

/-- Two calls without `merge` for one version return the same address, if no call removes the
version in between. -/
theorem same_address {i j : ℕ} {r r' : Resumed} {d d' : Deployment}
    (hnetwork : chain.development = false)
    (h : Reach (Node.step chain task) (Ok task (fun _ => True) env) (Node.start disk) s)
    (htask : task i = .fetchOrDeploy (.impl version) false)
    (hresume : s.step chain task (.resume i r) = some s₁) (hphase : s₁.phase i = .waiting d)
    (hlater : Reach (Node.step chain task)
      (Ok task (fun edit => edit ≠ .remove (.impl version)) fun _ _ => False) s₁ s₂)
    (htask' : task j = .fetchOrDeploy (.impl version) false)
    (hresume' : s₂.step chain task (.resume j r') = some s₃)
    (hphase' : s₃.phase j = .waiting d') : d'.address = d.address := by
  have hok : Ok task (fun _ => True) env s (.resume i r) :=
    ⟨fun _ _ => trivial, fun _ hdisk => by cases hdisk⟩
  have hcurrent := current_of_reach h
  have hshows : Shows chain (Owns version d.address) s₂.store.content := by
    refine manifest_invariant (fun data hd => hd.persisted) ?_ (fun _ _ hno _ => hno.elim)
      (current_of_step hok hcurrent hresume)
      ((shows_of_resume hnetwork hcurrent htask hresume hphase).2 rfl) hlater
    intro edit data data' hallowed hpossible happly hd
    rw [hnetwork] at hpossible happly
    obtain ⟨stored, hget, hstored⟩ := hd
    obtain ⟨d', hget', haddress, -⟩ := edit_keeps hallowed hpossible happly hget
    exact ⟨d', hget', haddress.trans hstored⟩
  have hcurrent' : LockedStore.Current (Manifest.read chain) s₂.store :=
    LockedStore.current_of_reach (current_of_step hok hcurrent hresume) (store_reach hlater)
  obtain ⟨data, hread, stored, hget, haddress⟩ := hshows
  obtain ⟨data', hdata', hcase⟩ := resume_spec htask' hresume' hphase'
  have hread' := hcurrent'.look_eq _ (view_of_data? hdata')
  obtain rfl : data = data' := Except.ok.inj (hread.symm.trans hread')
  rcases hcase with ⟨-, hget', -⟩ | ⟨cleared, _, hpossible, -, -⟩
  · rw [hget] at hget'
    cases hget'
    exact haddress
  · -- a deployment on record is not deployed again
    rw [hnetwork] at hpossible
    have hcleared := not_cleared hpossible
    subst hcleared
    have hget'' : (Lens.impl version).get data = some stored := hget
    simp [Edit.possible, Resumed.possible, hget''] at hpossible

/-- The second call gets the deployment of the first one. -/
def sampleReturned : Node :=
  (sampleLater.step sampleChain sampleTask (.resume 1 .cached)).get (by decide +kernel)

theorem same_address_two : ∃ d, sampleReturned.phase 1 = .waiting d ∧ d.address = js "0xaa" := by
  have hphase : sampleReturned.phase 1 = .waiting sampleDeployment := by decide +kernel
  have hresume : sampleLater.step sampleChain sampleTask (.resume 1 .cached)
      = some sampleReturned := (Option.some_get _).symm
  exact ⟨sampleDeployment, hphase, same_address rfl sampleRecorded_reach rfl sampleRecorded_step
    sampleRecorded_phase sampleLater_reach rfl hresume hphase⟩

/-! ## Proxies -/

/-- No two proxies are at one address. -/
def DistinctProxies (data : ManifestData) : Prop :=
  (data.proxies.map Deployment.address).Nodup

/-- The proxies stay distinct on the disk. -/
lemma DistinctProxies.persisted (h : DistinctProxies data) : DistinctProxies data.persisted := by
  show ((data.proxies.map fun p => normalizeDeployment p [.kind]).map Deployment.address).Nodup
  rw [List.map_map]
  exact h

/-- In a list of different keys the first entry with a key is the only one. -/
lemma not_mem_eraseP {ps : List Deployment} (h : (ps.map Deployment.address).Nodup)
    (address : JsString) :
    ∀ p ∈ ps.eraseP (fun p => p.address = address), p.address ≠ address := by
  induction ps with
  | nil => simp
  | cons p ps ih =>
    rw [List.map_cons, List.nodup_cons] at h
    by_cases hp : p.address = address
    · rw [List.eraseP_cons_of_pos (by simpa using hp)]
      intro q hq heq
      exact h.1 (List.mem_map.mpr ⟨q, hq, heq.trans hp.symm⟩)
    · rw [List.eraseP_cons_of_neg (by simpa using hp)]
      intro q hq
      rcases List.mem_cons.mp hq with rfl | hq
      · exact hp
      · exact ih h.2 q hq

/-- A proxy takes the place of the one at its address. -/
lemma DistinctProxies.addProxy (h : DistinctProxies data) (proxy : Deployment) :
    DistinctProxies (addProxy data proxy) := by
  show ((data.proxies.eraseP _ ++ [proxy]).map Deployment.address).Nodup
  rw [List.map_append, List.nodup_append]
  refine ⟨(List.eraseP_sublist.map Deployment.address).nodup h, List.nodup_singleton _, ?_⟩
  intro a ha b hb
  obtain ⟨p, hp, rfl⟩ := List.mem_map.mp ha
  rw [List.mem_singleton.mp hb]
  exact not_mem_eraseP h proxy.address p hp

/-- The proxy registered last is the one that is found. -/
lemma getProxyFromAddress_addProxy (h : DistinctProxies data) (proxy : Deployment) :
    getProxyFromAddress (addProxy data proxy) proxy.address = some proxy := by
  show (data.proxies.eraseP _ ++ [proxy]).find? _ = some proxy
  rw [List.find?_append]
  have hnone : (data.proxies.eraseP fun p => p.address = proxy.address).find?
      (fun p => p.address = proxy.address) = none := by
    rw [List.find?_eq_none]
    intro p hp
    simpa using not_mem_eraseP h proxy.address p hp
  rw [hnone]
  simp

/-- The proxies at other addresses are found as before. -/
lemma getProxyFromAddress_addProxy_of_ne {proxy : Deployment} (h : address ≠ proxy.address) :
    getProxyFromAddress (addProxy data proxy) address = getProxyFromAddress data address := by
  show (data.proxies.eraseP _ ++ [proxy]).find? _ = data.proxies.find? _
  rw [List.find?_append]
  have herase : (data.proxies.eraseP fun p => p.address = proxy.address).find?
      (fun p => p.address = address) = data.proxies.find? fun p => p.address = address := by
    induction data.proxies with
    | nil => rfl
    | cons p ps ih =>
      by_cases hp : p.address = proxy.address
      · rw [List.eraseP_cons_of_pos (by simpa using hp),
          List.find?_cons_of_neg (by simpa [hp] using h.symm)]
      · rw [List.eraseP_cons_of_neg (by simpa using hp), List.find?_cons, List.find?_cons, ih]
  rw [herase]
  simp [h.symm]

/-- Each edit keeps the proxies distinct. -/
lemma DistinctProxies.edit {development : Bool} (edit : Edit) (h : DistinctProxies data)
    (happly : edit.apply development data = some data') : DistinctProxies data' := by
  by_cases hadd : ∃ proxy, edit = .addProxy proxy
  · obtain ⟨proxy, rfl⟩ := hadd
    cases happly
    exact h.addProxy proxy
  · unfold DistinctProxies
    rw [(frame_of_apply happly).2 fun proxy heq => hadd ⟨proxy, heq⟩]
    exact h

/-- A call has registered a proxy. From then on, until an `addProxy` for the same address, the
proxy is found as that call registered it, on every network and whatever the other calls do. -/
theorem proxy_of_reach {i : ℕ} {proxy : Deployment} (h0 : Shows chain DistinctProxies disk)
    (h : Reach (Node.step chain task)
      (Ok task (fun _ => True) fun _ restored => Shows chain DistinctProxies restored)
      (Node.start disk) s)
    (htask : task i = .addProxy proxy) (hadd : s.step chain task (.add i) = some s₁)
    (hlater : Reach (Node.step chain task)
      (Ok task (fun edit => ∀ other, edit = .addProxy other → other.address ≠ proxy.address)
        fun _ _ => False) s₁ s₂) :
    Shows chain (fun data => getProxyFromAddress data proxy.address
      = some (normalizeDeployment proxy [.kind])) s₂.store.content := by
  have hdistinct : Shows chain DistinctProxies s.store.content :=
    manifest_invariant (fun data hd => hd.persisted)
      (fun edit _ _ _ _ happly hd => hd.edit edit happly) (fun _ _ hnew _ => hnew)
      (current_start disk) h0 h
  have hcurrent := current_of_reach h
  have hok : Ok task (fun _ => True) (fun _ restored => Shows chain DistinctProxies restored) s
      (.add i) := ⟨fun _ _ => trivial, fun _ hdisk => by cases hdisk⟩
  -- right after the call has written
  have hwritten : ∃ data, Manifest.read chain s.store.content = .ok data ∧
      s₁.store.content = write chain s.store.content (addProxy data proxy) := by
    simp only [Node.step, htask] at hadd
    split at hadd
    · next proxy' data _ htask' hdata =>
      cases htask'
      refine ⟨data, hcurrent.look_eq _ (view_of_data? hdata), ?_⟩
      have hstore := store_of_act hadd
      obtain ⟨-, heq⟩ := Option.ite_none_right_eq_some.mp hstore
      rw [← Option.some.inj heq]
    · cases hadd
  have hfound : Shows chain (fun data => DistinctProxies data ∧
      getProxyFromAddress data proxy.address = some (normalizeDeployment proxy [.kind]))
      s₁.store.content := by
    obtain ⟨data, hread, hwrite⟩ := hwritten
    obtain ⟨data', hread', hdata'⟩ := hdistinct
    obtain rfl : data' = data := Except.ok.inj (hread'.symm.trans hread)
    refine ⟨(addProxy data' proxy).persisted, ?_, (hdata'.addProxy proxy).persisted, ?_⟩
    · have hversion : data'.manifestVersion = currentManifestVersion := version_of_read hread
      rw [hwrite]
      exact read_write chain _ hversion
    · rw [getProxyFromAddress_persisted, getProxyFromAddress_addProxy hdata' proxy]
      rfl
  obtain ⟨data, hread, -, hproxy⟩ : Shows chain (fun data => DistinctProxies data ∧
      getProxyFromAddress data proxy.address = some (normalizeDeployment proxy [.kind]))
      s₂.store.content := by
    refine manifest_invariant ?_ ?_ (fun _ _ hno _ => hno.elim)
      (current_of_step hok hcurrent hadd) hfound hlater
    · intro data hd
      refine ⟨hd.1.persisted, ?_⟩
      rw [getProxyFromAddress_persisted, hd.2]
      rfl
    · intro edit data data' hallowed _ happly hd
      refine ⟨hd.1.edit edit happly, ?_⟩
      by_cases hother : ∃ other, edit = .addProxy other
      · obtain ⟨other, rfl⟩ := hother
        cases happly
        rw [getProxyFromAddress_addProxy_of_ne (Ne.symm (hallowed other rfl))]
        exact hd.2
      · unfold getProxyFromAddress
        rw [(frame_of_apply happly).2 fun proxy heq => hother ⟨proxy, heq⟩]
        exact hd.2
  exact ⟨data, hread, hproxy⟩

lemma distinctProxies_default : DistinctProxies defaultManifest := List.nodup_nil

/-- The proxy of the third call is registered. -/
def sampleProxied : Node := sampleNext [.lock 2, .read 2] (.add 2) (by decide +kernel)

theorem proxy_of_reach_one :
    Shows sampleChain (fun data => getProxyFromAddress data (js "0xbb")
        = some ⟨js "0xbb", none, some .uups, none, none⟩)
      (after (Node.step sampleChain sampleTask) sampleProxied
        [.lock 0, .read 0, .resume 0 (.deployed sampleDeployment false)]).store.content := by
  have hreach : Reach (Node.step sampleChain sampleTask)
      (Ok sampleTask (fun _ => True) fun _ restored => Shows sampleChain DistinctProxies restored)
      (Node.start ⟨none, none⟩) (sampleNode [.lock 2, .read 2]) :=
    reach_of_events [.lock 2, .read 2] (by simp) (by decide +kernel)
  have hadd : (sampleNode [.lock 2, .read 2]).step sampleChain sampleTask (.add 2)
      = some sampleProxied := sampleNext_step _ _ _
  exact proxy_of_reach (shows_start distinctProxies_default sampleChain) hreach rfl hadd
    (reach_of_events [.lock 0, .read 0, .resume 0 (.deployed sampleDeployment false)]
      (by simp [editOf, sampleTask]) (by decide +kernel))

end Runs

end PointNetwork.Manifest
