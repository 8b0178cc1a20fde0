import PointNetwork.HostStorage.Api

/-!
# Host storage over whole runs

* `Represents`: the tree a state stands for; `hostStorageModify_rep` and `syncHostStorage_rep`:
  what a call and a round do to it;
* `hosts_isolated`: what other hosts do changes nothing a host reads;
* `setRoundTrip_iff`: when a value that is set is read back;
* `data_kept`: no data is lost to failing downloads, but for the modifications that succeed on
  an empty root and for rounds of `syncHostStorage`.
-/

namespace PointNetwork.HostStorage

open Js Machine

/-! ## Modifications of the tree -/

/-- The path whose last key a modification sets. -/
def Modify.target (m : Modify) : List Segment :=
  match m.type, m.index with
  | .replaceAt, some index => m.fullPath ++ [index]
  | _, _ => m.fullPath

/-- The modifications that succeed on an empty root. -/
def Modify.overwritesHost (m : Modify) : Prop :=
  m.path = [] ∧ (m.type = .set ∨ m.type = .unset ∧ isInherited m.host = true)

/-- What is under the keys is unset or overwritten. -/
def Modify.discards (m : Modify) (ks : List JsString) : Prop :=
  m.target.map Segment.key <+: ks.map .ok ∧
    (m.type = .unset ∨ m.target.map Segment.key ≠ ks.map .ok)

section Tree

variable {m : Modify} {cs cs' : Children}

/-- What is modified is at or below the path of the call. -/
lemma Modify.fullPath_prefix_target (m : Modify) : m.fullPath <+: m.target := by
  unfold Modify.target
  split
  · exact List.prefix_append _ _
  · exact List.prefix_rfl

/-- What a modification that succeeds does. -/
lemma Tree.modify_cases (h : Tree.modify m cs = .ok cs') :
    m.type = .set ∧ Tree.set m.fullPath m.value cs = .ok cs' ∨
    m.type = .unset ∧ Tree.unset m.fullPath cs = .ok cs' ∨
    (∃ withLen, m.type ≠ .replaceAt ∧
      Tree.update Tree.blockedValue (Tree.encArrayLeaf withLen) m.fullPath cs = .ok cs') ∨
    ∃ index, m.type = .replaceAt ∧ m.index = some index ∧
      Tree.replaceAt m.fullPath m.value index cs = .ok cs' := by
  unfold Tree.modify at h
  cases htype : m.type with
  | set =>
    rw [htype] at h
    obtain ⟨-, -, h⟩ := bind_ok h
    exact Or.inl ⟨rfl, h⟩
  | unset =>
    rw [htype] at h
    exact Or.inr (Or.inl ⟨rfl, h⟩)
  | append =>
    rw [htype] at h
    exact Or.inr (Or.inr (Or.inl ⟨true, by simp, h⟩))
  | removeAt =>
    rw [htype] at h
    obtain ⟨-, -, h⟩ := bind_ok h
    exact Or.inr (Or.inr (Or.inl ⟨true, by simp, h⟩))
  | insertAt =>
    rw [htype] at h
    obtain ⟨-, -, h⟩ := bind_ok h
    obtain ⟨-, -, h⟩ := bind_ok h
    refine Or.inr (Or.inr (Or.inl ?_))
    unfold Tree.insertAt at h
    split_ifs at h with hlen
    · exact ⟨false, by simp, h⟩
    · exact ⟨true, by simp, h⟩
  | replaceAt =>
    rw [htype] at h
    obtain ⟨index, hindex, h⟩ := bind_ok h
    obtain ⟨-, -, h⟩ := bind_ok h
    refine Or.inr (Or.inr (Or.inr ⟨index, rfl, ?_, h⟩))
    cases hi : m.index with
    | none =>
      rw [hi] at hindex
      cases hindex
    | some i =>
      rw [hi] at hindex
      cases hindex
      rfl

/-- Every modification sets the last key of its target. -/
theorem Tree.modify_update (h : Tree.modify m cs = .ok cs') :
    ∃ blocked leaf, Tree.SetsKey leaf ∧ Tree.update blocked leaf m.target cs = .ok cs' := by
  have htarget : m.type ≠ .replaceAt → m.target = m.fullPath := by
    intro hne
    unfold Modify.target
    split
    · exact absurd ‹_› hne
    · rfl
  rcases Tree.modify_cases h with ⟨htype, h⟩ | ⟨htype, h⟩ | ⟨withLen, hne, h⟩ |
    ⟨index, htype, hindex, h⟩
  · rw [htarget (by simp [htype])]
    exact ⟨_, _, Tree.setLeaf_setsKey m.value, h⟩
  · rw [htarget (by simp [htype])]
    exact ⟨_, _, Tree.unsetLeaf_setsKey, h⟩
  · rw [htarget hne]
    exact ⟨_, _, Tree.encArrayLeaf_setsKey withLen, h⟩
  · have heq : m.target = m.fullPath ++ [index] := by rw [Modify.target, htype, hindex]
    rw [heq]
    exact ⟨_, _, Tree.setLeaf_setsKey m.value, Tree.set_of_replaceAt h⟩

lemma incomparable_target {q : List Segment} (h : Tree.Incomparable m.fullPath q) :
    Tree.Incomparable m.target q := by
  obtain ⟨rest, hrest⟩ := m.fullPath_prefix_target
  have hpre : m.fullPath.map Segment.key <+: m.target.map Segment.key :=
    ⟨rest.map Segment.key, by rw [← List.map_append, hrest]⟩
  refine ⟨fun htarget => h.1 (hpre.trans htarget), fun hq => ?_⟩
  rcases List.prefix_or_prefix_of_prefix hq hpre with hle | hle
  · exact h.2 hle
  · exact h.1 hle

/-- A modification changes nothing at the paths not comparable with its own. -/
theorem Tree.modify_same (h : Tree.modify m cs = .ok cs') {q : List Segment}
    (hq : Tree.Incomparable m.fullPath q) : Tree.SameAt q cs cs' := by
  obtain ⟨blocked, leaf, hleaf, hupdate⟩ := Tree.modify_update h
  exact Tree.update_same hleaf m.target q hupdate (incomparable_target hq)

/-- A modification keeps the keys it does not discard. -/
theorem Tree.has_modify (h : Tree.modify m cs = .ok cs') {ks : List JsString}
    (hks : Tree.has ks cs = true) (hm : ¬ m.discards ks) : Tree.has ks cs' = true := by
  obtain ⟨blocked, leaf, hleaf, hupdate⟩ := Tree.modify_update h
  obtain ⟨target, htarget, hhas, hkeep⟩ := Tree.has_update hleaf m.target hupdate
  by_cases hpre : target <+: ks
  · -- the keys are those that were set: others would be discarded
    have heq : target = ks := by
      by_contra hne
      refine hm ⟨?_, Or.inr ?_⟩
      · rw [htarget]
        exact hpre.map _
      · rw [htarget]
        exact fun hmap => hne (List.map_injective_iff.mpr (fun _ _ h => Except.ok.inj h) hmap)
    rwa [← heq]
  · exact hkeep ks hks hpre

/-- What is under another host stays as it is. -/
lemma Tree.slot_modify (h : Tree.modify m cs = .ok cs') {B : JsString} (hB : B ≠ m.host) :
    treeSlot cs' B = treeSlot cs B := by
  obtain ⟨blocked, leaf, hleaf, hupdate⟩ := Tree.modify_update h
  obtain ⟨rest, hrest⟩ := m.fullPath_prefix_target
  rw [← hrest] at hupdate
  obtain ⟨k, hk, hcase⟩ := Tree.update_cases hupdate
  obtain rfl : m.host = k := Except.ok.inj hk
  rcases hcase with ⟨-, hset⟩ | ⟨-, array, sub, sub', -, -, rfl⟩
  · obtain ⟨t, rfl⟩ := hleaf _ _ _ hset
    exact Tree.treeSlot_setProp_ne hB _ _
  · exact Tree.treeSlot_setProp_ne hB _ _

/-- An empty root has what every object has. -/
lemma treeSlot_nil (k : JsString) : treeSlot [] k = .absent ∨
    isInherited k = true ∧ treeSlot [] k = .inherited := by
  unfold treeSlot
  by_cases hk : isInherited k = true
  · exact Or.inr ⟨hk, by rw [List.lookup_nil]; exact if_pos hk⟩
  · exact Or.inl (by rw [List.lookup_nil]; exact if_neg hk)

/-- An update of an empty tree is one of a single key. -/
lemma Tree.update_nil {blocked : TreeSlot → Exception}
    {leaf : JsString → Children → Except Exception Children} {segment : Segment}
    {rest : List Segment} (h : Tree.update blocked leaf (segment :: rest) [] = .ok cs') :
    rest = [] ∧ ∃ k, segment.key = .ok k ∧ leaf k [] = .ok cs' := by
  obtain ⟨k, hk, ⟨rfl, hleaf⟩ | ⟨-, array, sub, sub', hslot, -, -⟩⟩ := Tree.update_cases h
  · exact ⟨rfl, k, hk, hleaf⟩
  · rcases treeSlot_nil k with hnil | ⟨-, hnil⟩
    · rw [hnil] at hslot
      cases hslot
    · rw [hnil] at hslot
      cases hslot

lemma Tree.encArrayLeaf_nil (withLen : Bool) (k : JsString) :
    Tree.encArrayLeaf withLen k [] ≠ .ok cs' := by
  intro h
  obtain ⟨sub, hsub, -⟩ := bind_ok h
  obtain ⟨-, -, hsub⟩ := bind_ok hsub
  rcases treeSlot_nil k with hnil | ⟨-, hnil⟩
  · rw [hnil] at hsub
    cases hsub
  · rw [hnil] at hsub
    cases hsub

/-- On an empty root only the setting and the unsetting of a whole host succeed. -/
theorem Tree.overwritesHost_of_modify (h : Tree.modify m [] = .ok cs') : m.overwritesHost := by
  rcases Tree.modify_cases h with ⟨htype, h⟩ | ⟨htype, h⟩ | ⟨withLen, -, h⟩ | ⟨index, -, -, h⟩
  · exact ⟨(Tree.update_nil h).1, Or.inl htype⟩
  · obtain ⟨hpath, k, hk, hleaf⟩ := Tree.update_nil h
    obtain rfl : m.host = k := Except.ok.inj hk
    refine ⟨hpath, Or.inr ⟨htype, ?_⟩⟩
    unfold Tree.unsetLeaf at hleaf
    rcases treeSlot_nil m.host with hnil | ⟨hmem, -⟩
    · rw [hnil] at hleaf
      cases hleaf
    · exact hmem
  · obtain ⟨-, k, -, hleaf⟩ := Tree.update_nil h
    exact absurd hleaf (Tree.encArrayLeaf_nil withLen k)
  · obtain ⟨-, k, -, hleaf⟩ := Tree.update_nil h
    unfold Tree.replaceLeaf at hleaf
    rcases treeSlot_nil k with hnil | ⟨-, hnil⟩
    · rw [hnil] at hleaf
      cases hleaf
    · rw [hnil] at hleaf
      cases hleaf

end Tree

/-! ## What a state stands for -/

section

variable {σ : Type} {env : Env σ} {cs cs' : Children} {st st' : HostState σ}

/-- The file with the id holds a root that stands for the tree. -/
structure RootFile (env : Env σ) (cs : Children) (fileId : JsString) : Prop where
  valid : isValidStorageId fileId = true
  holds : Holds env (RepList env False cs) ⟨env.rootEncKey, fileId⟩

/-- The root of the state stands for the tree. -/
inductive Represents (env : Env σ) (cs : Children) (st : HostState σ) : Prop
  | nothing : st.localFileId = [] → st.remoteFileId = [] → cs = [] → Represents env cs st
  | remote : st.localFileId = [] → RootFile env cs st.remoteFileId → Represents env cs st
  | localId : RootFile env cs st.localFileId → Represents env cs st

lemma RootFile.ne_nil {fileId : JsString} (h : RootFile env cs fileId) : fileId ≠ [] := by
  rintro rfl
  exact absurd h.valid (by decide)

/-- The id `_getRoot` decides on is that of a file that holds the root, if there is one. -/
lemma Represents.rootFileId (h : Represents env cs st) :
    (st.rootFileId = none ∧ st.remoteFileId = [] ∧ cs = []) ∨
      ∃ fileId, st.rootFileId = some fileId ∧ RootFile env cs fileId ∧
        (st.localFileId = [] ∨ st.localFileId = fileId) := by
  cases h with
  | nothing hlocal hremote hcs =>
    refine Or.inl ⟨?_, hremote, hcs⟩
    simp [HostState.rootFileId, hlocal, hremote]
  | remote hlocal hfile =>
    refine Or.inr ⟨_, ?_, hfile, Or.inl hlocal⟩
    simp [HostState.rootFileId, hlocal, hfile.ne_nil, hfile.valid]
  | localId hfile =>
    refine Or.inr ⟨_, ?_, hfile, Or.inr rfl⟩
    by_cases hremote : st.remoteFileId = []
    · simp [HostState.rootFileId, hremote, hfile.ne_nil, hfile.valid]
    · simp [HostState.rootFileId, hremote, hfile.ne_nil]

/-- A root is loaded from its file as it was stored. -/
lemma RootFile.loadRoot {fileId : JsString} (h : RootFile env cs fileId) :
    Stored env False cs (loadRoot env false fileId) ∧
      Stored env True cs (loadRoot env false fileId) ∧
      newRootFileId (loadRoot env false fileId) = fileId := by
  obtain ⟨items, hload, hstored⟩ := fromDownload_rep h.holds
  obtain ⟨items', hload', hstored'⟩ := fromDownload_rep h.holds.of_json
  have heq : HostStorage.loadRoot env false fileId = ⟨items, some ⟨env.rootEncKey, fileId⟩⟩ := by
    unfold HostStorage.loadRoot
    rw [hload]
    rfl
  rw [hload] at hload'
  obtain rfl : items = items' := by
    have := Except.ok.inj hload'
    simpa using this
  rw [heq]
  exact ⟨hstored, hstored', rfl⟩

/-- The root as it is loaded. -/
theorem Represents.getRoot (h : Represents env cs st) :
    RepTracker env False cs (getRoot env false st) ∧
      RepTracker env True cs (getRoot env false st) := by
  unfold HostStorage.getRoot
  rcases h.rootFileId with ⟨hnone, -, rfl⟩ | ⟨fileId, hid, hfile, -⟩
  · rw [hnone]
    exact ⟨RepTracker.empty, RepTracker.empty⟩
  · rw [hid]
    exact ⟨hfile.loadRoot.1.toRepTracker, hfile.loadRoot.2.1.toRepTracker⟩

/-- When its download fails, the root is empty. -/
lemma getRoot_of_fails (st : HostState σ) : getRoot env true st = {} := by
  unfold getRoot
  cases st.rootFileId with
  | none => rfl
  | some fileId => rfl

lemma Represents.fresh (seed : σ) : Represents env [] ⟨seed, [], []⟩ := .nothing rfl rfl rfl

/-! ## Steps -/

/-- The switch of `hostStorageModify` agrees with that of the tree. -/
lemma modifyRoot_agree (m : Modify) {root : HostStorageTracker}
    (h : RepTracker env False cs root) :
    Logged.Agree (Good env) (modifyRoot env m root) (Tree.modify m cs)
      fun root cs => Stored env False cs root := by
  unfold modifyRoot Tree.modify
  cases m.type with
  | set => exact .ofExcept_bind fun _ _ => set_agree _ (fun hs => hs.elim) h
  | unset => exact unset_agree _ h
  | append => exact append_agree _ h
  | removeAt => exact .ofExcept_bind fun _ _ => removeAt_agree _ h
  | insertAt => exact .ofExcept_bind fun _ _ => .ofExcept_bind fun _ _ => insertAt_agree _ h
  | replaceAt =>
    exact .ofExcept_bind fun _ _ => .ofExcept_bind fun _ _ =>
      replaceAt_agree _ (fun hs => hs.elim) _ h

/-- `hostStorageModify` throws as the operation on the tree does, and leaves the ids alone then;
if it succeeds, the new local id is that of the result. -/
theorem hostStorageModify_rep {rootFails : Bool} {m : Modify}
    (hroot : RepTracker env False cs (getRoot env rootFails st))
    (hgood : UploadsGood env st (.modify rootFails m)) :
    (∃ e, Tree.modify m cs = .error e ∧ (hostStorageModify env rootFails m st).1 = .error e ∧
      (hostStorageModify env rootFails m st).2.localFileId = st.localFileId) ∨
    (∃ cs', Tree.modify m cs = .ok cs' ∧ (hostStorageModify env rootFails m st).1 = .ok () ∧
      RootFile env cs' (hostStorageModify env rootFails m st).2.localFileId) := by
  -- the changes of the root follow those of the tree, up to the file that is uploaded at the end
  have hagree : Logged.Agree (Good env) (modifyAndUpload env m (getRoot env rootFails st))
      (Tree.modify m cs) fun root cs => RootFile env cs (newRootFileId root) := by
    unfold modifyAndUpload
    rw [← bind_pure (Tree.modify m cs)]
    refine (modifyRoot_agree m hroot).bind fun root cs' hstored => ?_
    refine (upload_agree hstored.toRepTracker ?_).known fun root' ⟨hroot', hkey⟩ => ?_
    · intro key hkey
      exact Option.some.inj hkey ▸ env.validKey_rootEncKey
    · obtain ⟨fileId, hfile, hvalid⟩ := hkey _ rfl
      obtain ⟨f, hf, hholds⟩ := hroot'.file
      rw [hfile] at hf
      cases hf
      rw [show newRootFileId root' = fileId by rw [newRootFileId, hfile]; rfl]
      exact ⟨hvalid, hholds⟩
  unfold hostStorageModify
  have hrel := hagree st.seed hgood
  rcases hrun : modifyAndUpload env m (getRoot env rootFails st) st.seed with
    ⟨e | root, w, seed⟩
  · rw [hrun] at hrel
    cases hres : Tree.modify m cs with
    | ok cs' =>
      rw [hres] at hrel
      exact hrel.elim
    | error e' =>
      rw [hres] at hrel
      obtain rfl : e = e' := hrel
      exact Or.inl ⟨e, rfl, rfl, rfl⟩
  · rw [hrun] at hrel
    cases hres : Tree.modify m cs with
    | error e' =>
      rw [hres] at hrel
      exact hrel.elim
    | ok cs' =>
      rw [hres] at hrel
      exact Or.inr ⟨cs', rfl, rfl, hrel⟩

/-- The remote id does not change in a call. -/
lemma hostStorageModify_remoteFileId (rootFails : Bool) (m : Modify) (st : HostState σ) :
    (hostStorageModify env rootFails m st).2.remoteFileId = st.remoteFileId := by
  unfold hostStorageModify
  rcases modifyAndUpload env m (getRoot env rootFails st) st.seed with ⟨e | root, w, seed⟩
  · rfl
  · rfl

/-- The state stands for the same after the ids stayed as they are. -/
lemma Represents.of_ids (h : Represents env cs st) (hlocal : st'.localFileId = st.localFileId)
    (hremote : st'.remoteFileId = st.remoteFileId) : Represents env cs st' := by
  cases h with
  | nothing hl hr hcs => exact .nothing (hlocal.trans hl) (hremote.trans hr) hcs
  | remote hl hfile => exact .remote (hlocal.trans hl) (hremote ▸ hfile)
  | localId hfile => exact .localId (hlocal ▸ hfile)

/-- A round that loads the root publishes its id; nothing is published where there is none. -/
theorem syncHostStorage_rep (h : Represents env cs st) :
    Represents env cs (syncHostStorage env false st) ∧
      (RootFile env cs (syncHostStorage env false st).remoteFileId ∨
        (syncHostStorage env false st).remoteFileId = [] ∧ st.remoteFileId = []) := by
  have hroot : getRoot env false st = st.rootFileId.elim {} (loadRoot env false) := by
    unfold getRoot
    cases st.rootFileId with
    | none => rfl
    | some fileId => rfl
  rcases h.rootFileId with ⟨hnone, hremote, rfl⟩ | ⟨fileId, hid, hfile, hlocal⟩
  · have hempty : (syncHostStorage env false st).remoteFileId = [] := by
      show newRootFileId (getRoot env false st) = []
      rw [hroot, hnone]
      rfl
    exact ⟨h.of_ids rfl (hempty.trans hremote.symm), Or.inr ⟨hempty, hremote⟩⟩
  · have hpublished : (syncHostStorage env false st).remoteFileId = fileId := by
      show newRootFileId (getRoot env false st) = fileId
      rw [hroot, hid]
      exact hfile.loadRoot.2.2
    have hremote : RootFile env cs (syncHostStorage env false st).remoteFileId :=
      hpublished ▸ hfile
    refine ⟨?_, Or.inl hremote⟩
    rcases hlocal with hlocal | hlocal
    · exact .remote hlocal hremote
    · exact .localId (show RootFile env cs st.localFileId from hlocal ▸ hfile)

/-! ## Small runs -/

instance (env : Env σ) (st : HostState σ) (e : Event) : Decidable (UploadsGood env st e) :=
  match e with
  | .modify _ _ => inferInstanceAs (Decidable (∀ material ∈ _, Good env material))
  | .read _ | .sync _ => .isTrue trivial

/-- What a run uploads, each event downloading what the ones before it uploaded. -/
def runUploads (uploaded : List Bytes) (st : HostState ℕ) : List Event → List Bytes
  | [] => uploaded
  | .modify rootFails m :: es =>
    runUploads (uploaded ++ uploads (.small uploaded) rootFails m st)
      (hostStorageModify (.small uploaded) rootFails m st).2 es
  | .read _ :: es => runUploads uploaded st es
  | .sync rootFails :: es =>
    runUploads uploaded (syncHostStorage (.small uploaded) rootFails st) es

/-- The small node that can download what the run uploads. -/
def Env.ofRun (es : List Event) : Env ℕ := .small (runUploads [] ⟨0, [], []⟩ es)

/-- The state after a run. -/
def afterRun (env : Env ℕ) (st : HostState ℕ) (es : List Event) : HostState ℕ :=
  (run (step env) st es).getD st

/-- The arguments of a `hostStorageModify` that sets a JSON value. -/
def setModify (host : JsString) (path : List Segment) (j : Json) : Modify :=
  { host, path, value := .ofJson j, type := .set }

/-- Sets the key `k` of the host, or the whole host, to a number. -/
def setNumber (host : String) (path : List String) (n : ℤ) : Modify :=
  setModify (js host) (path.map fun k => .str (js k)) (.num (.ofInt n))

/-! ## Isolation of hosts -/

/-- `hostStorageGet` returns `r`, given enough fuel. -/
def GetReturns (env : Env σ) (host : JsString) (path : List Segment) (st : HostState σ)
    (r : Except Exception AnyValue) : Prop :=
  ∃ n, ∀ fuel, n ≤ fuel → hostStorageGet env fuel false host path st = r

/-- What `hostStorageGet`, `hostStorageDir` and `hostStorageLen` return in a state. -/
theorem Represents.reads (h : Represents env cs st) (host : JsString) (path : List Segment) :
    GetReturns env host path st (Tree.get (prependPath host path) cs) ∧
      hostStorageDir env false host path st = Tree.dir (prependPath host path) cs ∧
      hostStorageLen env false host path st = Tree.len (prependPath host path) cs :=
  ⟨reads_rep h.getRoot.2 _, dir_rep _ h.getRoot.2, len_rep _ h.getRoot.2⟩

/-- All downloads of the root succeed, and what is uploaded is downloaded. -/
def Succeeding (env : Env σ) (st : HostState σ) (e : Event) : Prop :=
  UploadsGood env st e ∧ e.rootFails = false

instance (env : Env σ) (st : HostState σ) (e : Event) : Decidable (Succeeding env st e) :=
  inferInstanceAs (Decidable (_ ∧ _))

/-- The event is no modification by the host. -/
def Event.notBy (host : JsString) : Event → Prop
  | .modify _ m => m.host ≠ host
  | _ => True

instance (host : JsString) (e : Event) : Decidable (e.notBy host) :=
  match e with
  | .modify _ _ => inferInstanceAs (Decidable (_ ≠ _))
  | .read _ | .sync _ => .isTrue trivial

/-- One step of a run without failures: what the state stands for afterwards. -/
lemma step_rep {e : Event} (h : Represents env cs st) (hok : Succeeding env st e)
    (hs : step env st e = some st') :
    (∃ cs', Represents env cs' st' ∧ ∀ host, e.notBy host → treeSlot cs' host = treeSlot cs host) := by
  cases e with
  | read rootFails =>
    cases hs
    exact ⟨cs, h, fun _ _ => rfl⟩
  | sync rootFails =>
    obtain ⟨-, rfl : rootFails = false⟩ := hok
    cases hs
    exact ⟨cs, (syncHostStorage_rep h).1, fun _ _ => rfl⟩
  | modify rootFails m =>
    obtain ⟨hgood, rfl : rootFails = false⟩ := hok
    cases hs
    rcases hostStorageModify_rep h.getRoot.1 hgood with ⟨e, -, -, hlocal⟩ | ⟨cs', hcs', -, hfile⟩
    · exact ⟨cs, h.of_ids hlocal (hostStorageModify_remoteFileId _ _ _), fun _ _ => rfl⟩
    · exact ⟨cs', .localId hfile, fun host hhost => Tree.slot_modify hcs' (Ne.symm hhost)⟩

/-- The state reached by a run without failures stands for a tree. -/
theorem reach_represents {seed : σ}
    (h : Reach (step env) (Succeeding env) ⟨seed, [], []⟩ st) : ∃ cs, Represents env cs st := by
  apply h.invariant (P := fun st => ∃ cs, Represents env cs st) ⟨[], Represents.fresh seed⟩
  rintro s e s' ⟨cs, hcs⟩ hok hs
  obtain ⟨cs', hcs', -⟩ := step_rep hcs hok hs
  exact ⟨cs', hcs'⟩

/-- Whatever the other hosts do, whether it succeeds or throws, and whatever is synced: each
`get`, `dir` and `len` of a host returns what it returned before. -/
theorem hosts_isolated {seed : σ} {B : JsString}
    (hst : Reach (step env) (Succeeding env) ⟨seed, [], []⟩ st)
    (hrun : Reach (step env) (fun st e => Succeeding env st e ∧ e.notBy B) st st')
    (path : List Segment) :
    (∃ r, GetReturns env B path st r ∧ GetReturns env B path st' r) ∧
      hostStorageDir env false B path st' = hostStorageDir env false B path st ∧
      hostStorageLen env false B path st' = hostStorageLen env false B path st := by
  obtain ⟨cs, hcs⟩ := reach_represents hst
  have hinv : ∃ cs', Represents env cs' st' ∧ treeSlot cs' B = treeSlot cs B := by
    apply hrun.invariant (P := fun st' => ∃ cs', Represents env cs' st' ∧
      treeSlot cs' B = treeSlot cs B) ⟨cs, hcs, rfl⟩
    rintro s e s' ⟨cs₁, hcs₁, hslot⟩ ⟨hok, hB⟩ hs
    obtain ⟨cs₂, hcs₂, hother⟩ := step_rep hcs₁ hok hs
    exact ⟨cs₂, hcs₂, (hother B hB).trans hslot⟩
  obtain ⟨cs', hcs', hslot⟩ := hinv
  have hsame : Tree.SameAt (prependPath B path) cs' cs := fun k hk => by
    obtain rfl : B = k := Except.ok.inj hk
    exact Or.inl hslot
  obtain ⟨hget, hdir, hlen⟩ := hcs.reads B path
  obtain ⟨hget', hdir', hlen'⟩ := hcs'.reads B path
  refine ⟨⟨_, hget, ?_⟩, ?_, ?_⟩
  · rwa [Tree.walks_get.same _ hsame] at hget'
  · rw [hdir', hdir, Tree.walks_dir.same _ hsame]
  · rw [hlen', hlen, Tree.walks_len.same _ hsame]

/-- The host `b` sets a number; then `a` sets one below a key that is missing, which throws, and
one at its root, and the root is published. -/
def isolationRun : List Event × List Event :=
  ([.modify false (setNumber "b" [] 1)],
    [.modify false (setNumber "a" ["x"] 2), .modify false (setNumber "a" [] 3), .sync false])

/-- The uploads of the run on two hosts. -/
def isolationEnv : Env ℕ := .ofRun (isolationRun.1 ++ isolationRun.2)

/-- The state after its first part. -/
def isolationState : HostState ℕ := afterRun isolationEnv ⟨0, [], []⟩ isolationRun.1

theorem hosts_isolated_two :
    let st' := afterRun isolationEnv isolationState isolationRun.2
    (∃ r, GetReturns isolationEnv (js "b") [] isolationState r ∧
        GetReturns isolationEnv (js "b") [] st' r) ∧
      hostStorageDir isolationEnv false (js "b") [] st'
        = hostStorageDir isolationEnv false (js "b") [] isolationState ∧
      hostStorageLen isolationEnv false (js "b") [] st'
        = hostStorageLen isolationEnv false (js "b") [] isolationState :=
  have hst : Reach (step isolationEnv) (Succeeding isolationEnv) ⟨0, [], []⟩ isolationState :=
    .of_guarded isolationRun.1 (by decide +kernel)
  hosts_isolated hst (.of_guarded isolationRun.2 (by decide +kernel)) []

/-! ## Setting and getting -/

/-- The event changes nothing but the published id. -/
def Event.idle : Event → Prop
  | .modify _ _ => False
  | _ => True

/-- Setting the value succeeds, and every later `hostStorageGet` returns it. -/
def SetRoundTrips (env : Env σ) (host : JsString) (path : List Segment) (j : Json)
    (st : HostState σ) : Prop :=
  (hostStorageModify env false (setModify host path j) st).1 = .ok () ∧
    ∀ st', Reach (step env) (fun st e => Succeeding env st e ∧ e.idle)
      (hostStorageModify env false (setModify host path j) st).2 st' →
      GetReturns env host path st' (.ok (.ofJson j))

/-- Calls that modify nothing leave what is represented. -/
lemma Represents.of_idle (h : Represents env cs st)
    (hrun : Reach (step env) (fun st e => Succeeding env st e ∧ e.idle) st st') :
    Represents env cs st' := by
  apply hrun.invariant h
  rintro s e s' hs ⟨⟨-, hfails⟩, hidle⟩ hstep
  cases e with
  | read rootFails =>
    cases hstep
    exact hs
  | sync rootFails =>
    obtain rfl : rootFails = false := hfails
    cases hstep
    exact (syncHostStorage_rep hs).1
  | modify rootFails m => exact hidle.elim

/-- A `set` puts the value at the path below the host. -/
lemma tree_modify_set (host : JsString) (path : List Segment) (j : Json) (cs : Children) :
    Tree.modify (setModify host path j) cs = Tree.set (prependPath host path) (.ofJson j) cs := by
  cases j with
  | _ => rfl

/-- In every reachable state: a JSON value that is set at a path of strings and numbers is read
back if and only if every proper beginning of the path, the host included, holds a container
(it has a listing), and nothing in the value is lost in storing it. -/
theorem setRoundTrip_iff {seed : σ} {host : JsString} {path : List Segment} {j : Json}
    (hst : Reach (step env) (Succeeding env) ⟨seed, [], []⟩ st)
    (hpath : ∀ segment ∈ path, segment ≠ .invalid) (hj : j.canonical = true)
    (hgood : UploadsGood env st (.modify false (setModify host path j))) :
    SetRoundTrips env host path j st ↔
      (∀ q, q <+: prependPath host path → q ≠ [] → q ≠ prependPath host path →
        ∃ xs, dir env q (getRoot env false st) = .ok (.arr xs)) ∧ readsBack j = true := by
  obtain ⟨cs, hcs⟩ := reach_represents hst
  obtain ⟨t, ht, hvalue⟩ := value_ofValue_iff j hj
  have hkeys : ∀ segment ∈ prependPath host path, ∃ k, segment.key = .ok k := by
    intro segment hmem
    rcases List.mem_cons.mp hmem with rfl | hmem
    · exact ⟨host, rfl⟩
    · cases segment with
      | invalid => exact absurd rfl (hpath _ hmem)
      | _ => exact ⟨_, rfl⟩
  -- the condition on the listings is one on the tree
  have hleads : Tree.Leads (prependPath host path) cs ↔ ∀ q, q <+: prependPath host path →
      q ≠ [] → q ≠ prependPath host path →
      ∃ xs, dir env q (getRoot env false st) = .ok (.arr xs) := by
    rw [Tree.leads_iff (by simp [prependPath]) hkeys]
    simp only [dir_rep _ hcs.getRoot.1]
  rw [← hleads, ← hvalue]
  have hmodify := hostStorageModify_rep hcs.getRoot.1 hgood
  rw [tree_modify_set] at hmodify
  constructor
  · rintro ⟨hok, hget⟩
    rcases hmodify with ⟨e, -, herror, -⟩ | ⟨cs', hcs', -, hfile⟩
    · rw [hok] at herror
      cases herror
    -- what is read back is what the tree says of the value that was set
    · have hlead := Tree.leads_of_set hcs'
      obtain ⟨cs'', hset, hread⟩ := Tree.get_set ht hlead
      obtain rfl : cs'' = cs' := Except.ok.inj (hset.symm.trans hcs')
      refine ⟨hlead, ?_⟩
      have hreads := ((Represents.localId hfile).reads host path).1
      rw [hread] at hreads
      exact Except.ok.inj (Reads.unique hreads (hget _ .init))
  · rintro ⟨hlead, heq⟩
    obtain ⟨cs', hset, hread⟩ := Tree.get_set ht hlead
    rcases hmodify with ⟨e, herror, -, -⟩ | ⟨cs'', hcs', hok, hfile⟩
    · rw [hset] at herror
      cases herror
    · obtain rfl : cs' = cs'' := Except.ok.inj (hset.symm.trans hcs')
      refine ⟨hok, fun st' hrun => ?_⟩
      have hreads := (((Represents.localId hfile).of_idle hrun).reads host path).1
      rwa [hread, heq] at hreads

/-- A host that has been set to an object sets another of its keys. -/
def objectRun : List Event :=
  [.modify false (setModify (js "h") [] (.obj [(js "a", .num (.ofInt 1))]))]

/-- The uploads of a run that sets inside an object. -/
def objectEnv : Env ℕ := .ofRun (objectRun ++ [.modify false (setNumber "h" ["b"] 2)])

theorem setRoundTrip_iff_key :
    SetRoundTrips objectEnv (js "h") [.str (js "b")] (.num (.ofInt 2))
        (afterRun objectEnv ⟨0, [], []⟩ objectRun) ↔
      (∀ q, q <+: prependPath (js "h") [.str (js "b")] → q ≠ [] →
        q ≠ prependPath (js "h") [.str (js "b")] →
        ∃ xs, dir objectEnv q (getRoot objectEnv false (afterRun objectEnv ⟨0, [], []⟩ objectRun))
          = .ok (.arr xs)) ∧ readsBack (.num (.ofInt 2)) = true :=
  have hst : Reach (step objectEnv) (Succeeding objectEnv) ⟨0, [], []⟩
      (afterRun objectEnv ⟨0, [], []⟩ objectRun) := .of_guarded objectRun (by decide +kernel)
  setRoundTrip_iff hst (by simp) rfl (by decide +kernel)

/-- On a new node: the host is absent, and setting one of its keys throws. -/
theorem set_below_missing_host :
    Reads (.small []) (getRoot (.small []) false ⟨0, [], []⟩) [.str (js "h")] (.ok .undefined) ∧
      (hostStorageModify (.small []) false (setNumber "h" ["a"] 1) ⟨0, [], []⟩).1
        = .error .typeError ∧
      ¬ SetRoundTrips (.small []) (js "h") [.str (js "a")] (.num (.ofInt 1)) ⟨0, [], []⟩ := by
  have hthrows : (hostStorageModify (.small []) false (setNumber "h" ["a"] 1) ⟨0, [], []⟩).1
      = .error .typeError := by decide +kernel
  refine ⟨Reads.of_get (n := 0) (by decide +kernel), hthrows, fun hset => ?_⟩
  cases hthrows.symm.trans hset.1

/-! ## Failing downloads -/

/-- What is uploaded is downloaded, and downloads of the root may fail, but for those of rounds
of `syncHostStorage` and of the modifications that succeed on an empty root. -/
def Allowed (env : Env σ) (st : HostState σ) (e : Event) : Prop :=
  UploadsGood env st e ∧
    match e with
    | .read _ => True
    | .modify rootFails m => rootFails = true → ¬ m.overwritesHost
    | .sync rootFails => rootFails = false

instance (m : Modify) : Decidable m.overwritesHost := inferInstanceAs (Decidable (_ ∧ _))

instance (env : Env σ) (st : HostState σ) (e : Event) : Decidable (Allowed env st e) :=
  match e with
  | .read _ => inferInstanceAs (Decidable (_ ∧ True))
  | .modify _ _ => inferInstanceAs (Decidable (_ ∧ (_ → ¬ _)))
  | .sync _ => inferInstanceAs (Decidable (_ ∧ _ = _))

/-- If the event is a modification that succeeds, it does not discard the keys. -/
def Keeps (env : Env σ) (ks : List JsString) (st : HostState σ) : Event → Prop
  | .modify rootFails m =>
    (hostStorageModify env rootFails m st).1 = .ok () → ¬ m.discards ks
  | _ => True

/-- The keys were stored in a root of the run, and nothing has discarded them since. -/
def Kept (env : Env σ) (seed : σ) (ks : List JsString) (st : HostState σ) : Prop :=
  ∃ st₁, Reach (step env) (Allowed env) ⟨seed, [], []⟩ st₁ ∧
    hasKey env ks (getRoot env false st₁) = true ∧
    Reach (step env) (fun st e => Allowed env st e ∧ Keeps env ks st e) st₁ st

/-- The root under the id has an item under the keys. -/
def RootHas (env : Env σ) (ks : List JsString) (fileId : JsString) : Prop :=
  ∃ root, fromDownload env ⟨env.rootEncKey, fileId⟩ = .ok root ∧ hasKey env ks root = true

/-- A key of the tree is one of the root in the file. -/
lemma RootFile.has {fileId : JsString} (h : RootFile env cs fileId) {ks : List JsString}
    (hks : Tree.has ks cs = true) : RootHas env ks fileId := by
  obtain ⟨items, hload, hstored⟩ := fromDownload_rep h.holds
  exact ⟨_, hload, (hasKey_rep ks hstored.toRepTracker).trans hks⟩

/-- One step of a run with failures. A modification that finds an empty root in place of the
real one throws, so that every one that succeeds has changed the real one. -/
theorem allowed_step {e : Event} (h : Represents env cs st) (hok : Allowed env st e)
    (hs : step env st e = some st') :
    ∃ cs', Represents env cs' st' ∧
      (st'.localFileId = st.localFileId ∨ RootFile env cs' st'.localFileId) ∧
      (st'.remoteFileId = st.remoteFileId ∨ RootFile env cs' st'.remoteFileId) ∧
      (cs' = cs ∨ ∃ rootFails m, e = .modify rootFails m ∧
        (hostStorageModify env rootFails m st).1 = .ok () ∧ Tree.modify m cs = .ok cs') := by
  obtain ⟨hgood, hok⟩ := hok
  cases e with
  | read rootFails =>
    cases hs
    exact ⟨cs, h, Or.inl rfl, Or.inl rfl, Or.inl rfl⟩
  -- the synchronization publishes the root, or there is none on either side
  | sync rootFails =>
    obtain rfl : rootFails = false := hok
    cases hs
    obtain ⟨hrep, hfile | ⟨hempty, hremote⟩⟩ := syncHostStorage_rep h
    · exact ⟨cs, hrep, Or.inl rfl, Or.inr hfile, Or.inl rfl⟩
    · exact ⟨cs, hrep, Or.inl rfl, Or.inl (hempty.trans hremote.symm), Or.inl rfl⟩
  | modify rootFails m =>
    cases hs
    have hremote : (hostStorageModify env rootFails m st).2.remoteFileId = st.remoteFileId :=
      hostStorageModify_remoteFileId rootFails m st
    cases rootFails with
    | false =>
      rcases hostStorageModify_rep h.getRoot.1 hgood with ⟨e, -, -, hlocal⟩ | ⟨cs', hcs', hres, hfile⟩
      · exact ⟨cs, h.of_ids hlocal hremote, Or.inl hlocal, Or.inl hremote, Or.inl rfl⟩
      · exact ⟨cs', .localId hfile, Or.inr hfile, Or.inl hremote,
          Or.inr ⟨false, m, rfl, hres, hcs'⟩⟩
    -- a failed read of the root gives an empty tree: the case that is excluded
    | true =>
      have hempty : RepTracker env False [] (getRoot env true st) := by
        rw [getRoot_of_fails]
        exact RepTracker.empty
      rcases hostStorageModify_rep hempty hgood with ⟨e, -, -, hlocal⟩ | ⟨cs', hcs', -, -⟩
      · exact ⟨cs, h.of_ids hlocal hremote, Or.inl hlocal, Or.inl hremote, Or.inl rfl⟩
      · exact absurd (Tree.overwritesHost_of_modify hcs') (hok rfl)

/-- In every reachable state some tree is represented. -/
theorem allowed_represents {seed : σ}
    (h : Reach (step env) (Allowed env) ⟨seed, [], []⟩ st) : ∃ cs, Represents env cs st := by
  apply h.invariant (P := fun st => ∃ cs, Represents env cs st) ⟨[], Represents.fresh seed⟩
  rintro s e s' ⟨cs, hcs⟩ hok hs
  obtain ⟨cs', hcs', -⟩ := allowed_step hcs hok hs
  exact ⟨cs', hcs'⟩

/-- A key that is kept is still there after the event. -/
lemma allowed_keeps {e : Event} {ks : List JsString} {cs' : Children} (hks : Tree.has ks cs = true)
    (hkeeps : Keeps env ks st e)
    (h : cs' = cs ∨ ∃ rootFails m, e = .modify rootFails m ∧
      (hostStorageModify env rootFails m st).1 = .ok () ∧ Tree.modify m cs = .ok cs') :
    Tree.has ks cs' = true := by
  rcases h with rfl | ⟨rootFails, m, rfl, hres, hcs'⟩
  · exact hks
  · exact Tree.has_modify hcs' hks (hkeeps hres)

/-- The root of a state has the keys that were kept. -/
lemma Kept.has {seed : σ} {ks : List JsString} (h : Kept env seed ks st) :
    ∃ cs, Represents env cs st ∧ Tree.has ks cs = true := by
  obtain ⟨st₁, hreach, hhas, hrun⟩ := h
  obtain ⟨cs, hcs⟩ := allowed_represents hreach
  rw [hasKey_rep ks hcs.getRoot.1] at hhas
  apply hrun.invariant (P := fun st => ∃ cs, Represents env cs st ∧ Tree.has ks cs = true)
    ⟨cs, hcs, hhas⟩
  rintro s e s' ⟨cs₁, hcs₁, hks⟩ ⟨hok, hkeeps⟩ hs
  obtain ⟨cs₂, hcs₂, -, -, hcase⟩ := allowed_step hcs₁ hok hs
  exact ⟨cs₂, hcs₂, allowed_keeps hks hkeeps hcase⟩

/-- In every run in which downloads of the root fail where they may, and for every next event:
a modification that succeeds leaves what is read at the paths not comparable with its own; no id
is replaced by the empty string; and where the local or the published id changes, the root under
the new id has all keys that were stored earlier and not discarded. -/
theorem data_kept {seed : σ} {e : Event}
    (hst : Reach (step env) (Allowed env) ⟨seed, [], []⟩ st) (hok : Allowed env st e)
    (hs : step env st e = some st') :
    (∀ rootFails m, e = .modify rootFails m →
      (hostStorageModify env rootFails m st).1 = .ok () →
      ∀ q, Tree.Incomparable m.fullPath q →
        ∃ r, Reads env (getRoot env false st) q r ∧ Reads env (getRoot env false st') q r) ∧
    (st'.localFileId = [] → st.localFileId = []) ∧
    (st'.remoteFileId = [] → st.remoteFileId = []) ∧
    ∀ ks, Kept env seed ks st → Keeps env ks st e →
      (st'.localFileId = st.localFileId ∨ RootHas env ks st'.localFileId) ∧
      (st'.remoteFileId = st.remoteFileId ∨ RootHas env ks st'.remoteFileId) := by
  obtain ⟨cs, hcs⟩ := allowed_represents hst
  obtain ⟨cs', hcs', hlocal, hremote, hcase⟩ := allowed_step hcs hok hs
  refine ⟨?_, ?_, ?_, ?_⟩
  · rintro rootFails m rfl hres q hq
    refine ⟨_, reads_rep hcs.getRoot.2 q, ?_⟩
    have hreads := reads_rep hcs'.getRoot.2 q
    rcases hcase with rfl | ⟨rootFails', m', hevent, -, hmodify⟩
    · exact hreads
    · cases hevent
      rwa [Tree.walks_get.same q (Tree.modify_same hmodify hq)]
  · intro hempty
    rcases hlocal with hsame | hfile
    · exact hsame ▸ hempty
    · exact absurd hempty hfile.ne_nil
  · intro hempty
    rcases hremote with hsame | hfile
    · exact hsame ▸ hempty
    · exact absurd hempty hfile.ne_nil
  · intro ks hkept hkeeps
    obtain ⟨cs₁, hcs₁, hks⟩ := hkept.has
    obtain ⟨cs₂, hcs₂, hlocal', hremote', hcase'⟩ := allowed_step hcs₁ hok hs
    have hks' := allowed_keeps hks hkeeps hcase'
    exact ⟨hlocal'.imp_right fun hfile => hfile.has hks',
      hremote'.imp_right fun hfile => hfile.has hks'⟩

/-- A host is set; a modification that finds an empty root throws; a call finds one, too. -/
def keptRun : List Event :=
  [.modify false (setNumber "a" [] 1), .modify true (setNumber "b" ["x"] 2), .read true]

/-- The uploads of a run whose downloads succeed. -/
def keptEnv : Env ℕ := .ofRun (keptRun ++ [.modify false (setNumber "b" [] 3)])

/-- The state after that run. -/
def keptState : HostState ℕ := afterRun keptEnv ⟨0, [], []⟩ keptRun

theorem data_kept_two :
    let st' := (hostStorageModify keptEnv false (setNumber "b" [] 3) keptState).2
    let e := Event.modify false (setNumber "b" [] 3)
    (∀ rootFails m, e = .modify rootFails m →
      (hostStorageModify keptEnv rootFails m keptState).1 = .ok () →
      ∀ q, Tree.Incomparable m.fullPath q →
        ∃ r, Reads keptEnv (getRoot keptEnv false keptState) q r ∧
          Reads keptEnv (getRoot keptEnv false st') q r) ∧
    (st'.localFileId = [] → keptState.localFileId = []) ∧
    (st'.remoteFileId = [] → keptState.remoteFileId = []) ∧
    ∀ ks, Kept keptEnv 0 ks keptState → Keeps keptEnv ks keptState e →
      (st'.localFileId = keptState.localFileId ∨ RootHas keptEnv ks st'.localFileId) ∧
      (st'.remoteFileId = keptState.remoteFileId ∨ RootHas keptEnv ks st'.remoteFileId) :=
  data_kept (.of_guarded keptRun (by decide +kernel)) ⟨by decide +kernel, by simp⟩ rfl

/-- One host is set and the root published. -/
def lossRun : List Event := [.modify false (setNumber "a" [] 1), .sync false]

/-- The uploads of a run in which the root cannot be downloaded. -/
def lossEnv : Env ℕ := .ofRun (lossRun ++ [.modify true (setNumber "b" [] 2)])

/-- The state before the download fails. -/
def lossState : HostState ℕ := afterRun lossEnv ⟨0, [], []⟩ lossRun

/-- A failed download of the root while another host is set: the modification succeeds, the
value of the first host is gone, and the root remembered locally lacks its key. A failed download
in a round: the empty string replaces the published id. -/
theorem failed_download_loses_data :
    let st' := (hostStorageModify lossEnv true (setNumber "b" [] 2) lossState).2
    Reach (step lossEnv) (UploadsGood lossEnv) ⟨0, [], []⟩ lossState ∧
    UploadsGood lossEnv lossState (.modify true (setNumber "b" [] 2)) ∧
    (hostStorageModify lossEnv true (setNumber "b" [] 2) lossState).1 = .ok () ∧
    Tree.Incomparable (setNumber "b" [] 2).fullPath [.str (js "a")] ∧
    Reads lossEnv (getRoot lossEnv false lossState) [.str (js "a")]
      (.ok (.num (.fin (.ofInt 1)))) ∧
    Reads lossEnv (getRoot lossEnv false st') [.str (js "a")] (.ok .undefined) ∧
    hasKey lossEnv [js "a"] (getRoot lossEnv false lossState) = true ∧
    hasKey lossEnv [js "a"] (getRoot lossEnv false st') = false ∧
    lossState.remoteFileId ≠ [] ∧ (syncHostStorage lossEnv true lossState).remoteFileId = [] := by
  refine ⟨.of_guarded lossRun (by decide +kernel), by decide +kernel, by decide +kernel, ?_,
    Reads.of_get (n := 0) (by decide +kernel), Reads.of_get (n := 0) (by decide +kernel),
    by decide +kernel, by decide +kernel, by decide +kernel, by decide +kernel⟩
  exact ⟨by decide +kernel, by decide +kernel⟩

end

end PointNetwork.HostStorage
