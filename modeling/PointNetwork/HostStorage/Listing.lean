import PointNetwork.HostStorage.ApiTheorems

/-!
# Listings against readings

`dir` and `len` count the items of a container, and an item that was unset is still one, with the
literal `undefined`; the empty object is a literal and has no listing. `unset` works on such an item,
but throws where there is none.

* `Tree.find`: what is stored under a path;
* `Tree.read_of_find`: how a container is listed and read;
* `Tree.unset_of_absent`: `unset` where nothing is read;
* `Tree.listed_iff`: which containers are listed as they are read;
* `listing_agrees_iff`: when a listing agrees with what is read, and when `unset` of what is not
  there changes nothing.
-/

namespace PointNetwork.HostStorage

open Js Machine

namespace Tree

variable {cs : Children}

/-! ## What is stored under a path -/

/-- The item at a path. -/
def find : List Segment → Children → Option Tree
  | [], _ => none
  | segment :: rest, cs =>
    match segment.key with
    | .error _ => none
    | .ok k =>
      match treeSlot cs k, rest with
      | .own t, [] => some t
      | .own (.node _ sub), _ :: _ => find rest sub
      | _, _ => none

/-- The segments of a path that is found have keys. -/
lemma find_key {segment : Segment} {rest : List Segment} {t : Tree}
    (h : find (segment :: rest) cs = some t) : ∃ k, segment.key = .ok k := by
  unfold find at h
  cases hkey : segment.key with
  | error e =>
    rw [hkey] at h
    cases h
  | ok k => exact ⟨k, rfl⟩

/-- How a container is listed and counted, and what is read in it. -/
theorem read_of_find {array : Bool} {sub : Children} : ∀ {path : List Segment} {cs : Children},
    find path cs = some (.node array sub) →
      dir path cs = .ok (.arr (sub.map fun (k, _) => .str k)) ∧ len path cs = .ok sub.length ∧
        ∀ segment rest, get (path ++ segment :: rest) cs = get (segment :: rest) sub
  | [], _, h => by cases h
  | segment :: rest, cs, h => by
    rcases find_key h with ⟨k, hk⟩
    unfold find at h
    unfold dir len
    rw [hk] at h ⊢
    dsimp only [bind, Except.bind] at h ⊢
    split at h
    · rename_i t hslot
      cases h
      rw [hslot]
      refine ⟨rfl, rfl, fun segment' rest' => ?_⟩
      rw [List.singleton_append, get, hk]
      simp only [bind, Except.bind, hslot]
    · rename_i array' below segment' rest' hslot
      rcases read_of_find h with ⟨hdir, hlen, hget⟩
      rw [hslot]
      refine ⟨hdir, hlen, fun segment'' rest'' => ?_⟩
      rw [← hget, List.cons_append, get, hk]
      simp only [bind, Except.bind, hslot]
      rfl
    · cases h

/-- What has a listing is a container. -/
theorem find_of_dir {xs : List AnyValue} : ∀ {path : List Segment} {cs : Children},
    dir path cs = .ok (.arr xs) → ∃ array sub, find path cs = some (.node array sub)
  | [], _, h => by cases h
  | segment :: rest, cs, h => by
    unfold dir at h
    rcases bind_ok h with ⟨k, hk, h⟩
    unfold find
    rw [hk]
    dsimp only
    split at h
    · cases h
    · rename_i array sub segment' rest' hslot _
      rw [hslot]
      exact find_of_dir h
    · rename_i array sub hslot _
      rw [hslot]
      exact ⟨array, sub, rfl⟩
    · cases h

section

variable {σ : Type} {env : Env σ} {strict : Prop}

/-- The keys of a container stand in property order. -/
theorem ordered_of_find {array : Bool} {sub : Children} : ∀ {path : List Segment} {cs : Children}
    {tracker : HostStorageTracker}, RepTracker env strict cs tracker →
      find path cs = some (.node array sub) → orderedKeys sub = true
  | [], _, _, _, h => by cases h
  | segment :: rest, cs, tracker, hrep, h => by
    rcases find_key h with ⟨k, hk⟩
    unfold find at h
    rw [hk] at h
    dsimp only at h
    rcases load_slot hrep k with ⟨tracker', -, -, hslot⟩
    revert hslot h
    generalize treeSlot cs k = ts
    generalize slot tracker'.items k = s
    intro h hslot
    cases hslot with
    | container hsub =>
      cases rest with
      | nil =>
        cases h
        exact hsub.ordered
      | cons segment' rest => exact ordered_of_find hsub.toRepTracker h
    | _ => cases rest <;> cases h

/-- Only a literal `undefined` has the value `undefined`. -/
lemma value_eq_undefined {t : Tree} : t.value = .undefined ↔ t = .literal .undefined := by
  cases t <;> simp [Tree.value]

/-- A defined value is read under a key if a subtree with this value is stored under it. -/
lemma get_key_iff {k : JsString} {v : AnyValue} (hv : v ≠ .undefined) :
    get [.str k] cs = .ok v ↔ ∃ t, cs.lookup k = some t ∧ t.value = v := by
  unfold get
  dsimp only [Segment.key, bind, Except.bind, pure, Except.pure]
  constructor
  · intro h
    cases hslot : treeSlot cs k with
    | absent =>
      rw [hslot] at h
      exact absurd (Except.ok.inj h).symm hv
    | inherited =>
      rw [hslot] at h
      cases h
    | own t =>
      rw [hslot] at h
      refine ⟨t, lookup_of_slot hslot, ?_⟩
      cases t <;> exact Except.ok.inj h
  · intro h
    rcases h with ⟨t, ht, hvalue⟩
    unfold treeSlot
    rw [ht, ← hvalue]
    cases t <;> rfl

/-- The listing of a path has the keys under which something is read, each once. -/
def Listed (path : List Segment) (cs : Children) : Prop :=
  ∃ ks : List JsString, dir path cs = .ok (.arr (ks.map .str)) ∧ ks.Nodup ∧
    (∀ k, k ∈ ks ↔ ∃ v, v ≠ .undefined ∧ get (path ++ [.str k]) cs = .ok v) ∧
    len path cs = .ok ks.length

/-- A listing agrees with what is read if the path has a container without `undefined`. -/
theorem listed_iff {path : List Segment} {tracker : HostStorageTracker}
    (hrep : RepTracker env strict cs tracker) :
    Listed path cs ↔ ∃ array sub, find path cs = some (.node array sub) ∧
      ∀ child ∈ sub, child.2 ≠ .literal .undefined := by
  constructor
  · intro ⟨ks, hdir, _, hks, _⟩
    rcases find_of_dir hdir with ⟨array, sub, hfind⟩
    refine ⟨array, sub, hfind, fun ⟨k, t⟩ hchild hundefined => ?_⟩
    rcases read_of_find hfind with ⟨hdir', -, hget⟩
    have heq : ks = sub.map Prod.fst := by
      have h := AnyValue.arr.inj (Except.ok.inj (hdir.symm.trans hdir'))
      refine List.map_injective_iff.mpr (fun _ _ => AnyValue.str.inj) ?_
      rw [h, List.map_map]
      rfl
    have hk : k ∈ ks := heq ▸ List.mem_map.mpr ⟨(k, t), hchild, rfl⟩
    rcases (hks k).mp hk with ⟨v, hv, hread⟩
    rw [hget, get_key_iff hv] at hread
    rcases hread with ⟨t', ht', hvalue⟩
    -- the keys differ, so that the subtree that is read is the one listed
    have hlookup := lookup_of_mem (nodup_of_ordered (ordered_of_find hrep hfind)) hchild
    rw [ht'] at hlookup
    cases hlookup
    exact hv (hvalue.symm.trans (value_eq_undefined.mpr hundefined))
  · intro ⟨array, sub, hfind, hdefined⟩
    rcases read_of_find hfind with ⟨hdir, hlen, hget⟩
    have hnodup := nodup_of_ordered (ordered_of_find hrep hfind)
    refine ⟨sub.map Prod.fst, ?_, hnodup, fun k => ?_, ?_⟩
    · rw [hdir, List.map_map]
      rfl
    · constructor
      · intro hk
        rcases List.mem_map.mp hk with ⟨⟨k, t⟩, hchild, rfl⟩
        have hv : t.value ≠ .undefined := fun h =>
          hdefined _ hchild (value_eq_undefined.mp h)
        refine ⟨t.value, hv, ?_⟩
        rw [hget, get_key_iff hv]
        exact ⟨t, lookup_of_mem hnodup hchild, rfl⟩
      · intro ⟨v, hv, hread⟩
        rw [hget, get_key_iff hv] at hread
        rcases hread with ⟨t, ht, -⟩
        exact List.mem_map.mpr ⟨(k, t), mem_of_lookup ht, rfl⟩
    · rw [hlen, List.length_map]

/-- Unsetting where no value is read: if something is stored there, this is `undefined` already and
nothing changes, and else it throws or something else is read there afterwards. -/
theorem unset_of_absent : ∀ {path : List Segment} {cs : Children} {tracker : HostStorageTracker},
    RepTracker env strict cs tracker → (∀ v, get path cs = .ok v → v = .undefined) →
      (find path cs).isSome ∧ unset path cs = .ok cs ∨
        find path cs = none ∧ ∀ cs', unset path cs = .ok cs' → get path cs' ≠ get path cs
  | [], _, _, _, _ => Or.inr ⟨rfl, fun _ h => by cases h⟩
  | segment :: rest, cs, tracker, hrep, h => by
    unfold get at h ⊢
    unfold find unset update
    cases hkey : segment.key with
    | error e => exact Or.inr ⟨rfl, fun _ h => by cases h⟩
    | ok k =>
      rw [hkey] at h
      rcases load_slot hrep k with ⟨tracker', -, -, hloaded⟩
      dsimp only [bind, Except.bind] at h ⊢
      cases hslot : treeSlot cs k with
      | absent =>
        cases rest with
        | nil => exact Or.inr ⟨rfl, fun _ h => by simp [unsetLeaf, hslot] at h⟩
        | cons segment' rest => exact Or.inr ⟨rfl, fun _ h => by cases h⟩
      | inherited =>
        cases rest with
        -- an inherited property is hidden by the new own one
        | nil =>
          refine Or.inr ⟨rfl, fun cs' hcs' => ?_⟩
          rw [unsetLeaf, hslot] at hcs'
          cases hcs'
          rw [treeSlot_setProp_self]
          intro heq
          cases heq
        | cons segment' rest => exact Or.inr ⟨rfl, fun _ h => by cases h⟩
      | own t =>
        rw [hslot] at h hloaded
        cases rest with
        | nil =>
          have hundefined := value_eq_undefined.mp (h t.value (by cases t <;> rfl))
          refine Or.inl ⟨rfl, ?_⟩
          rw [unsetLeaf, hslot, ← hundefined, setProp_of_lookup hrep.ordered (lookup_of_slot hslot)]
        | cons segment' rest =>
          -- the path goes on below a container only
          generalize slot tracker'.items k = s at hloaded
          cases hloaded with
          | @container array sub items encFile hsub =>
            rcases unset_of_absent hsub.toRepTracker h with ⟨hfind, hunset⟩ | ⟨hfind, hunset⟩
            · refine Or.inl ⟨hfind, ?_⟩
              rw [unset] at hunset
              dsimp only
              rw [hunset]
              exact congrArg Except.ok (setProp_of_lookup hrep.ordered (lookup_of_slot hslot))
            · refine Or.inr ⟨hfind, fun cs' hcs' => ?_⟩
              rcases bind_ok hcs' with ⟨sub', hsub', hset⟩
              cases hset
              rw [treeSlot_setProp_self]
              exact hunset sub' hsub'
          | _ => exact Or.inr ⟨rfl, fun _ h => by cases h⟩

end

end Tree

/-! ## States -/

section

variable {σ : Type} {env : Env σ} {cs : Children} {st st' : HostState σ}

/-- Whatever fails, the state stands for some tree. -/
theorem represents_step {e : Event} (h : Represents env cs st) (hgood : UploadsGood env st e)
    (hs : step env st e = some st') : ∃ cs', Represents env cs' st' := by
  cases e with
  | read rootFails =>
    cases hs
    exact ⟨cs, h⟩
  | sync rootFails =>
    cases hs
    cases rootFails with
    | false => exact ⟨cs, (syncHostStorage_rep h).1⟩
    | true =>
      -- the id of no file is published
      have hremote : (syncHostStorage env true st).remoteFileId = [] := by
        rw [syncHostStorage, getRoot_of_fails]
        rfl
      cases h with
      | nothing hlocal _ _ => exact ⟨[], .nothing hlocal hremote rfl⟩
      | remote hlocal _ => exact ⟨[], .nothing hlocal hremote rfl⟩
      | localId hfile => exact ⟨cs, .localId hfile⟩
  | modify rootFails m =>
    cases hs
    have hroot : ∃ cs₀, RepTracker env False cs₀ (getRoot env rootFails st) := by
      cases rootFails with
      | false => exact ⟨cs, h.getRoot.1⟩
      | true =>
        refine ⟨[], ?_⟩
        rw [getRoot_of_fails]
        exact RepTracker.empty
    rcases hroot with ⟨cs₀, hroot⟩
    rcases hostStorageModify_rep hroot hgood with ⟨_, -, -, hlocal⟩ | ⟨cs', -, -, hfile⟩
    · exact ⟨cs, h.of_ids hlocal (hostStorageModify_remoteFileId _ _ _)⟩
    · exact ⟨cs', .localId hfile⟩

/-- In every reachable state some tree is represented. -/
theorem good_represents {seed : σ}
    (h : Reach (step env) (UploadsGood env) ⟨seed, [], []⟩ st) : ∃ cs, Represents env cs st := by
  apply h.invariant (P := fun st => ∃ cs, Represents env cs st) ⟨[], Represents.fresh seed⟩
  intro s e s' ⟨cs, hcs⟩ hgood hs
  exact represents_step hcs hgood hs

end

section

variable {σ : Type} (env : Env σ) (host : JsString) (path : List Segment) (st : HostState σ)

/-- `dir` lists the keys under which a defined value is read, each once, and `len` is their
number. -/
def ListingAgrees : Prop :=
  ∃ ks : List JsString, hostStorageDir env false host path st = .ok (.arr (ks.map .str)) ∧
    ks.Nodup ∧
    (∀ k, k ∈ ks ↔ ∃ v, v ≠ .undefined ∧ GetReturns env host (path ++ [.str k]) st (.ok v)) ∧
    hostStorageLen env false host path st = .ok ks.length

/-- No defined value is read. -/
def Absent : Prop := ∀ v, GetReturns env host path st (.ok v) → v = .undefined

/-- The arguments of a `hostStorageModify` that unsets a path. -/
def unsetModify (host : JsString) (path : List Segment) : Modify :=
  { host, path, value := .undefined, type := .unset }

/-- `unset` succeeds, and whatever host is read returns what it returned before. -/
def UnsetIdle : Prop :=
  (hostStorageModify env false (unsetModify host path) st).1 = .ok () ∧
    ∀ host' path',
      (∃ r, GetReturns env host' path' st r ∧
        GetReturns env host' path' (hostStorageModify env false (unsetModify host path) st).2 r) ∧
      hostStorageDir env false host' path' (hostStorageModify env false (unsetModify host path) st).2
        = hostStorageDir env false host' path' st ∧
      hostStorageLen env false host' path' (hostStorageModify env false (unsetModify host path) st).2
        = hostStorageLen env false host' path' st

end

section

variable {σ : Type} {env : Env σ} {cs : Children} {host : JsString} {path : List Segment}
  {st : HostState σ}

/-- A read returns what the tree has at the path. -/
lemma Represents.getReturns_iff (h : Represents env cs st) {r : Except Exception AnyValue} :
    GetReturns env host path st r ↔ Tree.get (prependPath host path) cs = r := by
  constructor
  · intro hget
    exact Reads.unique (h.reads host path).1 hget
  · intro hget
    exact hget ▸ (h.reads host path).1

/-- The listing agrees with the reads when it does in the tree. -/
lemma Represents.listingAgrees_iff (h : Represents env cs st) :
    ListingAgrees env host path st ↔ Tree.Listed (prependPath host path) cs := by
  unfold ListingAgrees Tree.Listed
  simp only [(h.reads host path).2.1, (h.reads host path).2.2, h.getReturns_iff]
  rfl

/-- An `unset` of what reads as absent does nothing but where something is found. -/
lemma Represents.unsetIdle_iff (h : Represents env cs st) (habsent : Absent env host path st)
    (hgood : UploadsGood env st (.modify false (unsetModify host path))) :
    UnsetIdle env host path st ↔ (Tree.find (prependPath host path) cs).isSome := by
  have hunset := Tree.unset_of_absent h.getRoot.1 fun v hv =>
    habsent v (h.getReturns_iff.mpr hv)
  have hmodify := hostStorageModify_rep h.getRoot.1 hgood
  constructor
  · intro ⟨hok, hsame⟩
    rcases hunset with ⟨hfind, -⟩ | ⟨-, hother⟩
    · exact hfind
    · rcases hmodify with ⟨e, -, herror, -⟩ | ⟨cs', hcs', -, hfile⟩
      · rw [hok] at herror
        cases herror
      · rcases (hsame host path).1 with ⟨r, hr, hr'⟩
        have hread := h.getReturns_iff.mp hr
        have hread' := (Represents.localId hfile).getReturns_iff.mp hr'
        exact absurd (hread'.trans hread.symm) (hother cs' hcs')
  · intro hfind
    rcases hunset with ⟨-, hidle⟩ | ⟨hnone, -⟩
    · rcases hmodify with ⟨e, herror, -, -⟩ | ⟨cs', hcs', hok, hfile⟩
      · rw [show Tree.modify (unsetModify host path) cs = .ok cs from hidle] at herror
        cases herror
      · obtain rfl : cs = cs' := Except.ok.inj (hidle.symm.trans hcs')
        refine ⟨hok, fun host' path' => ?_⟩
        have hreads := h.reads host' path'
        have hreads' := (Represents.localId hfile).reads host' path'
        exact ⟨⟨_, hreads.1, hreads'.1⟩, hreads'.2.1.trans hreads.2.1.symm,
          hreads'.2.2.trans hreads.2.2.symm⟩
    · rw [hnone] at hfind
      cases hfind

/-- In every state of every run: it stands for a tree, and for every tree it stands for, a path
that reads as an object has a listing that agrees with what is read if and only if a container
without `undefined` is stored there, and `unset` where nothing is read succeeds and changes nothing
if and only if something is stored there. -/
theorem listing_agrees_iff {seed : σ}
    (hst : Reach (step env) (UploadsGood env) ⟨seed, [], []⟩ st) :
    (∃ cs, Represents env cs st) ∧ ∀ cs, Represents env cs st → ∀ host path,
      (∀ kvs, GetReturns env host path st (.ok (.obj kvs)) →
        (ListingAgrees env host path st ↔
          ∃ array sub, Tree.find (prependPath host path) cs = some (.node array sub) ∧
            ∀ child ∈ sub, child.2 ≠ .literal .undefined)) ∧
      (Absent env host path st → UploadsGood env st (.modify false (unsetModify host path)) →
        (UnsetIdle env host path st ↔ (Tree.find (prependPath host path) cs).isSome)) := by
  refine ⟨good_represents hst, fun cs hcs host path => ⟨fun _ _ => ?_, fun habsent hgood => ?_⟩⟩
  · exact hcs.listingAgrees_iff.trans (Tree.listed_iff hcs.getRoot.1)
  · exact hcs.unsetIdle_iff habsent hgood

/-- A host sets an object and unsets its key; another sets the empty object. -/
def unsetRun : List Event :=
  [.modify false (setModify (js "h") [] (.obj [(js "a", .num (.ofInt 1))])),
    .modify false (unsetModify (js "h") [.str (js "a")]),
    .modify false (setModify (js "g") [] (.obj []))]

/-- The uploads of a run that unsets an item. -/
def unsetEnv : Env ℕ := .ofRun (unsetRun ++ [.modify false (unsetModify (js "h") [.str (js "b")])])

/-- The state after the run. -/
def unsetState : HostState ℕ := afterRun unsetEnv ⟨0, [], []⟩ unsetRun

lemma reach_unsetState : Reach (step unsetEnv) (UploadsGood unsetEnv) ⟨0, [], []⟩ unsetState :=
  .of_guarded unsetRun (by decide +kernel)

/-- What reads as `undefined` is absent. -/
lemma absent_of_get {fuel : ℕ}
    (h : hostStorageGet env fuel false host path st = .ok .undefined) : Absent env host path st := by
  intro v hv
  exact Except.ok.inj (Reads.unique hv (Reads.of_get h))

theorem listing_agrees_iff_unset :
    ∃ cs, Represents unsetEnv cs unsetState ∧
      (ListingAgrees unsetEnv (js "h") [] unsetState ↔
        ∃ array sub, Tree.find (prependPath (js "h") []) cs = some (.node array sub) ∧
          ∀ child ∈ sub, child.2 ≠ .literal .undefined) ∧
      (UnsetIdle unsetEnv (js "h") [.str (js "b")] unsetState ↔
        (Tree.find (prependPath (js "h") [.str (js "b")]) cs).isSome) := by
  have h : hostStorageGet unsetEnv 2 false (js "h") [] unsetState =
        .ok (.obj [(js "a", .undefined)]) ∧
      hostStorageGet unsetEnv 2 false (js "h") [.str (js "b")] unsetState = .ok .undefined ∧
      UploadsGood unsetEnv unsetState (.modify false (unsetModify (js "h") [.str (js "b")])) := by
    decide +kernel
  rcases listing_agrees_iff reach_unsetState with ⟨⟨cs, hcs⟩, hiff⟩
  exact ⟨cs, hcs, (hiff cs hcs (js "h") []).1 _ (Reads.of_get h.1),
    (hiff cs hcs (js "h") [.str (js "b")]).2 (absent_of_get h.2.1) h.2.2⟩

/-- After the run the key that was unset is listed and counted, though nothing is read there; the
empty object has no listing; and unsetting a key that was never there throws. -/
theorem unset_key_listed :
    Reach (step unsetEnv) (UploadsGood unsetEnv) ⟨0, [], []⟩ unsetState ∧
      (GetReturns unsetEnv (js "h") [] unsetState (.ok (.obj [(js "a", .undefined)])) ∧
        hostStorageDir unsetEnv false (js "h") [] unsetState = .ok (.arr [.str (js "a")]) ∧
        hostStorageLen unsetEnv false (js "h") [] unsetState = .ok 1 ∧
        Absent unsetEnv (js "h") [.str (js "a")] unsetState ∧
        ¬ ListingAgrees unsetEnv (js "h") [] unsetState) ∧
      (GetReturns unsetEnv (js "g") [] unsetState (.ok (.obj [])) ∧
        hostStorageDir unsetEnv false (js "g") [] unsetState =
          .error (.displayable "Invalid path value: not a HostStorageTracker")) ∧
      Absent unsetEnv (js "h") [.str (js "b")] unsetState ∧
      (hostStorageModify unsetEnv false (unsetModify (js "h") [.str (js "b")]) unsetState).1 =
        .error .typeError := by
  have h : hostStorageGet unsetEnv 2 false (js "h") [] unsetState =
        .ok (.obj [(js "a", .undefined)]) ∧
      hostStorageDir unsetEnv false (js "h") [] unsetState = .ok (.arr [.str (js "a")]) ∧
      hostStorageLen unsetEnv false (js "h") [] unsetState = .ok 1 ∧
      hostStorageGet unsetEnv 2 false (js "h") [.str (js "a")] unsetState = .ok .undefined ∧
      hostStorageGet unsetEnv 2 false (js "g") [] unsetState = .ok (.obj []) ∧
      hostStorageDir unsetEnv false (js "g") [] unsetState =
        .error (.displayable "Invalid path value: not a HostStorageTracker") ∧
      hostStorageGet unsetEnv 2 false (js "h") [.str (js "b")] unsetState = .ok .undefined ∧
      (hostStorageModify unsetEnv false (unsetModify (js "h") [.str (js "b")]) unsetState).1 =
        .error .typeError := by
    decide +kernel
  rcases h with ⟨hget, hdir, hlen, habsent, hempty, hlisting, hmissing, hthrows⟩
  refine ⟨reach_unsetState, ⟨Reads.of_get hget, hdir, hlen, absent_of_get habsent, ?_⟩,
    ⟨Reads.of_get hempty, hlisting⟩, absent_of_get hmissing, hthrows⟩
  intro ⟨ks, hks, _, hreads, _⟩
  have heq := AnyValue.arr.inj (Except.ok.inj (hdir.symm.trans hks))
  have hk : js "a" ∈ ks := by
    have hmem : AnyValue.str (js "a") ∈ ks.map AnyValue.str := heq ▸ List.mem_singleton.mpr rfl
    rcases List.mem_map.mp hmem with ⟨k, hk, hstr⟩
    exact AnyValue.str.inj hstr ▸ hk
  rcases (hreads _).mp hk with ⟨v, hv, hread⟩
  exact hv (absent_of_get habsent v hread)

end

end PointNetwork.HostStorage
