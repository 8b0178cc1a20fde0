import PointNetwork.Deployer.DeployTheorems
import PointNetwork.Js.JsonTheorems

/-!
# What is stored of a key-value tree

`replaceContentsWithCids` turns every array inside the section into an object: the branch for
objects comes first, and an array is one. A name that holds `storage[` itself is cut, and an entry
`__proto__` is lost. All other trees are stored as written (`keyValues_stored_iff`).

* `asWritten`: the tree in which each `storage[name]` is replaced by the id or link of its upload;
* `replaced`: what the loop makes of it, without the calls;
* `nodes`: the values of a tree, without those that are uploaded.
-/

namespace PointNetwork.Deployer

open Js Logged

/-! ## Storage keys -/

/-- The name in a key `storage[name]`. -/
def storageName (key : JsString) : Option JsString :=
  let inner := (key.drop 8).dropLast
  if (js "storage[").isPrefixOf key ∧ key.getLast? = some 0x5D ∧ inner ≠ [] ∧
      (0x5D : UInt16) ∉ inner
  then some inner
  else none

/-- The key under which an entry is to be stored. -/
def writtenKey (key : JsString) : JsString := (storageName key).getD key

/-- No `storage[` with text behind it stands in the first line of the name. -/
def PlainName (name : JsString) : Prop := afterStorage name = none

instance (name : JsString) : Decidable (PlainName name) := inferInstanceAs (Decidable (_ = _))

/-- The entry is stored, and under its name. -/
def PlainKey (key : JsString) : Prop :=
  writtenKey key ≠ js "__proto__" ∧ ∀ name ∈ storageName key, PlainName name

instance (key : JsString) : Decidable (PlainKey key) := inferInstanceAs (Decidable (_ ∧ _))

lemma storage_units : js "storage[" = [0x73, 0x74, 0x6F, 0x72, 0x61, 0x67, 0x65, 0x5B] := by
  decide +kernel

/-- What stands in the first line comes before the rest. -/
lemma afterStorage_append_eq_none {before after : JsString}
    (hbefore : ∀ u ∈ before, isLineTerminator u = false)
    (h : afterStorage (before ++ after) = none) : afterStorage after = none := by
  induction before with
  | nil => exact h
  | cons u before ih =>
    have hu := hbefore u List.mem_cons_self
    rw [List.cons_append, afterStorage, hu, Option.or_eq_none_iff] at h
    exact ih (fun v hv => hbefore v (List.mem_cons_of_mem _ hv)) h.1

/-- A key that begins so has the rest behind it. -/
lemma isPrefixOf_storage {s : JsString} (h : (js "storage[").isPrefixOf s = true) :
    s = js "storage[" ++ s.drop 8 := by
  rcases List.isPrefixOf_iff_prefix.mp h with ⟨t, rfl⟩
  rw [List.drop_left' (by decide +kernel : (js "storage[").length = 8)]

lemma lineTerminator_storage : ∀ u ∈ js "storage[", isLineTerminator u = false := by
  have hall : (js "storage[").all (fun u => !isLineTerminator u) = true := by decide +kernel
  intro u hu
  have hu' := List.all_eq_true.mp hall u hu
  simpa using hu'

/-- Only an `s` begins `storage[`. -/
lemma afterStorage_cons {u : UInt16} (hu : u ≠ 0x73) (hline : isLineTerminator u = false)
    (s : JsString) : afterStorage (u :: s) = afterStorage s := by
  have hnot : (js "storage[").isPrefixOf (u :: s) = false := by
    rw [storage_units, List.isPrefixOf, beq_false_of_ne (Ne.symm hu), Bool.false_and]
  rw [afterStorage, hline, hnot]
  simp

/-- The name behind the first `storage[` of a key. -/
lemma afterStorage_storage {name : JsString} (h : name ≠ []) :
    afterStorage (js "storage[" ++ name) = some ((afterStorage name).getD name) := by
  have htail : afterStorage (0x74 :: 0x6F :: 0x72 :: 0x61 :: 0x67 :: 0x65 :: 0x5B :: name) =
      afterStorage name := by
    iterate 7 rw [afterStorage_cons (by decide) (by decide)]
  have hhead : (js "storage[").isPrefixOf (js "storage[" ++ name) = true :=
    List.isPrefixOf_iff_prefix.mpr ⟨name, rfl⟩
  have hdrop : (js "storage[" ++ name).drop 8 = name := List.drop_left' (by decide +kernel)
  have hcons : js "storage[" ++ name =
      0x73 :: 0x74 :: 0x6F :: 0x72 :: 0x61 :: 0x67 :: 0x65 :: 0x5B :: name := by
    rw [storage_units]
    rfl
  rw [hcons] at hhead hdrop ⊢
  rw [afterStorage, htail, if_neg (by decide), hhead, hdrop, if_pos (And.intro rfl h)]
  cases afterStorage name with
  | none => rfl
  | some found => rfl

/-- What is found does not hold another `storage[`. -/
lemma plainName_of_afterStorage {s name : JsString} (h : afterStorage s = some name) :
    PlainName name := by
  induction s with
  | nil => cases h
  | cons u s ih =>
    rw [afterStorage, Option.or_eq_some_iff] at h
    rcases h with h | ⟨hnone, hfound⟩
    · split_ifs at h
      exact ih h
    · split_ifs at hfound with hhere
      cases hfound
      have hkey := isPrefixOf_storage hhere.1
      have hmem : u ∈ js "storage[" := by
        rw [storage_units] at hkey ⊢
        rw [(List.cons.inj hkey).1]
        exact List.mem_cons_self
      have htail : s = (js "storage[").tail ++ (u :: s).drop 8 := by
        rw [storage_units] at hkey ⊢
        exact (List.cons.inj hkey).2
      rw [if_neg (by rw [lineTerminator_storage u hmem]; decide), htail] at hnone
      refine afterStorage_append_eq_none (fun v hv => ?_) hnone
      exact lineTerminator_storage v (List.mem_of_mem_tail hv)

/-- What `replace` takes out of a name stands behind the last mark on the line. -/
lemma exists_of_afterStorage {s name : JsString} (h : afterStorage s = some name) :
    ∃ before, s = before ++ js "storage[" ++ name ∧ name ≠ [] ∧
      ∀ u ∈ before, isLineTerminator u = false := by
  induction s with
  | nil => cases h
  | cons u s ih =>
    rw [afterStorage, Option.or_eq_some_iff] at h
    rcases h with h | ⟨-, hfound⟩
    · split_ifs at h with hline
      rcases ih h with ⟨before, hs, hne, hbefore⟩
      refine ⟨u :: before, ?_, hne, ?_⟩
      · rw [hs]
        rfl
      · intro v hv
        rcases List.mem_cons.mp hv with hv | hv
        · rw [hv]
          simpa using hline
        · exact hbefore v hv
    · split_ifs at hfound with hhere
      cases hfound
      exact ⟨[], isPrefixOf_storage hhere.1, hhere.2, fun v hv => absurd hv List.not_mem_nil⟩

/-- A name is plain when it has no further mark with something behind it. -/
theorem plainName_iff (name : JsString) : PlainName name ↔
    ¬ ∃ before after, name = before ++ js "storage[" ++ after ∧ after ≠ [] ∧
      ∀ u ∈ before, isLineTerminator u = false := by
  constructor
  · intro h hfound
    rcases hfound with ⟨before, after, hname, hne, hbefore⟩
    unfold PlainName at h
    rw [hname, List.append_assoc] at h
    have hnone := afterStorage_append_eq_none hbefore h
    rw [afterStorage_storage hne] at hnone
    cases hnone
  · intro h
    by_contra hfound
    rcases Option.ne_none_iff_exists'.mp hfound with ⟨after, hafter⟩
    rcases exists_of_afterStorage hafter with ⟨before, hname, hne, hbefore⟩
    exact h ⟨before, after, hname, hne, hbefore⟩

/-- A `[storage]` key is its name in the brackets. -/
lemma storageName_eq_some {key name : JsString} (h : storageName key = some name) :
    key = js "storage[" ++ name ++ [0x5D] ∧ name ≠ [] := by
  simp only [storageName] at h
  split_ifs at h with hkey
  cases h
  refine ⟨?_, hkey.2.2.1⟩
  have hfront := isPrefixOf_storage hkey.1
  have hne : key.drop 8 ≠ [] := fun hnil => hkey.2.2.1 (by rw [hnil]; rfl)
  have hlast : (key.drop 8).getLast? = some 0x5D := by
    have hkeylast := hkey.2.1
    rw [hfront, List.getLast?_append_of_ne_nil _ hne] at hkeylast
    exact hkeylast
  have hback : key.drop 8 = (key.drop 8).dropLast ++ [0x5D] :=
    (List.dropLast_append_getLast? _ hlast).symm
  rw [List.append_assoc, ← hback]
  exact hfront

/-- The key that the code computes is the one behind the last `storage[`. -/
lemma storageKey_eq (key : JsString) :
    storageKey key = (storageName key).map fun name => (afterStorage name).getD name := by
  cases hname : storageName key with
  | none =>
    simp only [storageName] at hname
    split_ifs at hname with hkey
    exact if_neg hkey
  | some name =>
    rcases storageName_eq_some hname with ⟨hkey, hne⟩
    simp only [storageName] at hname
    split_ifs at hname with hpattern
    refine (if_pos hpattern).trans ?_
    have hfront : key.dropLast = js "storage[" ++ name := by
      rw [hkey, List.dropLast_concat]
    rw [hfront]
    exact afterStorage_storage hne

/-- Two storage keys of one name are one. -/
lemma storageName_inj {key key' name : JsString} (h : storageName key = some name)
    (h' : storageName key' = some name) : key = key' :=
  (storageName_eq_some h).1.trans (storageName_eq_some h').1.symm

/-- The key that the code stores an entry under. -/
def codeKey (key : JsString) : JsString := (storageKey key).getD key

lemma codeKey_of_none {key : JsString} (h : storageName key = none) : codeKey key = key := by
  unfold codeKey
  rw [storageKey_eq, h]
  rfl

lemma codeKey_of_some {key name : JsString} (h : storageName key = some name) :
    codeKey key = (afterStorage name).getD name := by
  unfold codeKey
  rw [storageKey_eq, h]
  rfl

/-- A plain key is written as it should be. -/
lemma codeKey_of_plain {key : JsString} (h : PlainKey key) : codeKey key = writtenKey key := by
  unfold writtenKey
  cases hname : storageName key with
  | none => exact codeKey_of_none hname
  | some name =>
    rw [codeKey_of_some hname, show afterStorage name = none from h.2 name hname]
    rfl

/-! ## The tree as written, and what the code makes of it -/

/-- Where the data are uploaded to, and the files that are there. -/
structure Storage where
  ids : UploadArg → JsString
  files : JsString → Option Bytes

namespace Storage

/-- The id, or the link with the extension, of an entry `storage[name]` that names its data. -/
def resource (storage : Storage) (deployPath : JsString) : Json → Option Json
  | .obj kvs =>
    match kvs.lookup (js "blob"), kvs.lookup (js "file") with
    | some blob, _ => (toText blob).toOption.map fun text => .str (storage.ids (.text (some text)))
    | none, some (.str file) =>
      (storage.files (Path.join [deployPath, js "public", file])).map fun data =>
        .str (js "/_storage/" ++ storage.ids (.buffer data) ++ js "." ++ extension file)
    | none, _ => none
  | _ => none

/-- The world uploads to this storage: an id depends on the data alone, the files stay as they are,
and every write succeeds. -/
structure Serves {σ : Type} (storage : Storage) (world : World σ) : Prop where
  upload : ∀ data, Returns (call world (.uploadData data)) (storage.ids data)
  existing : ∀ path, Returns (call world (.existsSync path)) (storage.files path).isSome
  read : ∀ path data, storage.files path = some data →
    Returns (call world (.readFile path)) data
  put : ∀ target key value version,
    Returns (call world (.putKeyValue target key value version)) ()

variable (storage : Storage) (deployPath : JsString)

mutual
/-- The tree in which every entry `storage[name]` is an entry `name` with its id or link. -/
def asWritten : Json → Json
  | .arr xs => .arr (asWrittenElements xs)
  | .obj kvs => .obj (ofEntries (asWrittenEntries kvs))
  | v => v

/-- `asWritten` of each element. -/
def asWrittenElements : List Json → List Json
  | [] => []
  | x :: xs => asWritten x :: asWrittenElements xs

/-- `asWritten` of each entry, under the key that is written. -/
def asWrittenEntries : List (JsString × Json) → List (JsString × Json)
  | [] => []
  | (key, value) :: entries =>
    (writtenKey key,
      if (storageName key).isSome then (storage.resource deployPath value).getD .null
      else asWritten value) :: asWrittenEntries entries
end

mutual
/-- What `replaceContentsWithCids` makes of a value. -/
def replaced : Json → Json
  | .arr xs => .obj (ofEntries (replacedElements 0 xs))
  | .obj kvs => .obj (assignAll (replacedEntries kvs))
  | v => v

/-- What `replaceElements` makes of the elements, without its calls. -/
def replacedElements : ℕ → List Json → List (JsString × Json)
  | _, [] => []
  | i, x :: xs => (natText i, replaced x) :: replacedElements (i + 1) xs

/-- What `replaceEntries` makes of the entries, without its calls. -/
def replacedEntries : List (JsString × Json) → List (JsString × Json)
  | [] => []
  | (key, value) :: entries =>
    (codeKey key,
      if (storageName key).isSome then (storage.resource deployPath value).getD .null
      else replaced value) :: replacedEntries entries
end

end Storage

mutual
/-- The values of a tree, itself among them, without the values of `storage[name]`. -/
def nodes : Json → List Json
  | .arr xs => .arr xs :: nodesOfElements xs
  | .obj kvs => .obj kvs :: nodesOfEntries kvs
  | v => [v]

/-- The nodes of each element. -/
def nodesOfElements : List Json → List Json
  | [] => []
  | x :: xs => nodes x ++ nodesOfElements xs

/-- The nodes of the values whose keys are not `[storage]` keys. -/
def nodesOfEntries : List (JsString × Json) → List Json
  | [] => []
  | (key, value) :: entries =>
    (if (storageName key).isSome then [] else nodes value) ++ nodesOfEntries entries
end

/-- The value is stored as written: it is no array, and all keys of an object are plain. -/
def Kept : Json → Prop
  | .arr _ => False
  | .obj kvs => ∀ entry ∈ kvs, PlainKey entry.1
  | _ => True

/-- Every `storage[name]` entry among these names data that are there. -/
def EntriesHaveResources (storage : Storage) (deployPath : JsString)
    (kvs : List (JsString × Json)) : Prop :=
  ∀ entry ∈ kvs, (storageName entry.1).isSome → (storage.resource deployPath entry.2).isSome

/-- The resources of every object in the tree are there. -/
def HasResources (storage : Storage) (deployPath : JsString) (tree : Json) : Prop :=
  ∀ kvs, .obj kvs ∈ nodes tree → EntriesHaveResources storage deployPath kvs

/-- There are not both `storage[name]` and `name`. -/
def EntriesNoClash (kvs : List (JsString × Json)) : Prop :=
  ∀ entry ∈ kvs, ∀ name ∈ storageName entry.1, ∀ entry' ∈ kvs, entry'.1 ≠ name

/-- In no object of the tree two keys are written as one. -/
def NoClash (tree : Json) : Prop := ∀ kvs, .obj kvs ∈ nodes tree → EntriesNoClash kvs

/-- No entry of the tree is `contract_send`. -/
def NoContractSend (tree : Json) : Prop :=
  ∀ kvs, .obj kvs ∈ nodes tree → ∀ entry ∈ kvs, writtenKey entry.1 ≠ js "contract_send"

lemma nodes_obj (kvs : List (JsString × Json)) :
    nodes (.obj kvs) = .obj kvs :: nodesOfEntries kvs := by
  rw [nodes]

lemma nodesOfEntries_cons (key : JsString) (value : Json) (entries : List (JsString × Json)) :
    nodesOfEntries ((key, value) :: entries) =
      (if (storageName key).isSome then [] else nodes value) ++ nodesOfEntries entries := by
  rw [nodesOfEntries]

/-! ## The uploads -/

section

variable {σ : Type} {world : World σ} {storage : Storage} {deployPath : JsString}

/-- The code finds a name in the same keys. -/
lemma storageKey_isSome (key : JsString) : (storageKey key).isSome = (storageName key).isSome := by
  rw [storageKey_eq, Option.isSome_map]

/-- The upload of a resource returns what the storage has for it. -/
theorem storageResource_returns (hserves : storage.Serves world) {value resource : Json}
    (h : storage.resource deployPath value = some resource) :
    Returns (storageResource world deployPath value) resource := by
  cases value with
  | obj kvs =>
    simp only [Storage.resource] at h
    simp only [storageResource]
    cases hblob : kvs.lookup (js "blob") with
    | some blob =>
      simp only [hblob] at h ⊢
      cases htext : toText blob with
      | error e =>
        rw [htext] at h
        cases h
      | ok text =>
        rw [htext] at h
        cases h
        exact .bind (.ofExcept rfl) (.bind (hserves.upload _) (.pure _))
    | none =>
      cases hfile : kvs.lookup (js "file") with
      | none => simp only [hblob, hfile, reduceCtorEq] at h
      | some file =>
        cases file with
        | str file =>
          simp only [hblob, hfile, Option.map_eq_some_iff] at h ⊢
          rcases h with ⟨data, hdata, rfl⟩
          refine .bind (.ofExcept rfl) (.bind (hserves.existing _) ?_)
          rw [hdata]
          exact .bind (hserves.read _ _ hdata) (.bind (hserves.upload _) (.pure _))
        | _ => simp only [hblob, hfile, reduceCtorEq] at h
  | _ => cases h

mutual
/-- The replacement of a value always returns; the induction is on the value. -/
theorem replaceValue_returns (hserves : storage.Serves world) : ∀ value : Json,
    HasResources storage deployPath value →
      Returns (replaceValue world deployPath value) (storage.replaced deployPath value)
  | .obj kvs, h => by
    unfold HasResources at h
    rw [nodes_obj] at h
    rw [replaceValue, Storage.replaced]
    refine .bind (replaceEntries_returns hserves kvs [] (h kvs List.mem_cons_self) ?_) (.pure _)
    exact fun o ho => h o (List.mem_cons_of_mem _ ho)
  | .arr xs, h => by
    unfold HasResources at h
    rw [nodes] at h
    rw [replaceValue, Storage.replaced]
    refine .bind (replaceElements_returns hserves 0 xs [] ?_) (.pure _)
    exact fun o ho => h o (List.mem_cons_of_mem _ ho)
  | .null, _ | .bool _, _ | .num _, _ | .str _, _ => by
    rw [replaceValue, Storage.replaced]
    · exact .pure _
    all_goals simp

theorem replaceEntries_returns (hserves : storage.Serves world) :
    ∀ entries result : List (JsString × Json), EntriesHaveResources storage deployPath entries →
      (∀ kvs, .obj kvs ∈ nodesOfEntries entries → EntriesHaveResources storage deployPath kvs) →
        Returns (replaceEntries world deployPath entries result)
          ((storage.replacedEntries deployPath entries).foldl
            (fun result entry => assign entry.1 entry.2 result) result)
  | [], result, _, _ => by
    rw [replaceEntries, Storage.replacedEntries]
    exact .pure _
  | (key, value) :: entries, result, hentries, h => by
    have hrest : EntriesHaveResources storage deployPath entries :=
      fun entry hentry => hentries entry (List.mem_cons_of_mem _ hentry)
    have hnodes : ∀ kvs, .obj kvs ∈ nodesOfEntries entries →
        EntriesHaveResources storage deployPath kvs := fun kvs hkvs =>
      h kvs (by
        rw [nodesOfEntries_cons]
        exact List.mem_append_right _ hkvs)
    rw [replaceEntries, Storage.replacedEntries, List.foldl_cons]
    -- a key that names a file is replaced by its id, any other is kept
    cases hkey : storageKey key with
    | some name =>
      have hname : (storageName key).isSome = true := by rw [← storageKey_isSome, hkey]; rfl
      rcases Option.isSome_iff_exists.mp (hentries _ List.mem_cons_self hname) with ⟨r, hr⟩
      have hcode : codeKey key = name := by rw [codeKey, hkey]; rfl
      rw [if_pos hname, hr, hcode]
      exact .bind (storageResource_returns hserves hr)
        (replaceEntries_returns hserves entries _ hrest hnodes)
    | none =>
      have hname : ¬ (storageName key).isSome = true := by rw [← storageKey_isSome, hkey]; simp
      have hcode : codeKey key = key := by rw [codeKey, hkey]; rfl
      rw [if_neg hname, hcode]
      refine .bind (replaceValue_returns hserves value fun kvs hkvs => h kvs ?_)
        (replaceEntries_returns hserves entries _ hrest hnodes)
      rw [nodesOfEntries_cons, if_neg hname]
      exact List.mem_append_left _ hkvs

theorem replaceElements_returns (hserves : storage.Serves world) :
    ∀ (i : ℕ) (xs : List Json) (result : List (JsString × Json)),
      (∀ kvs, .obj kvs ∈ nodesOfElements xs → EntriesHaveResources storage deployPath kvs) →
        Returns (replaceElements world deployPath i xs result)
          ((storage.replacedElements deployPath i xs).foldl
            (fun result entry => setProp entry.1 entry.2 result) result)
  | i, [], result, _ => by
    rw [replaceElements, Storage.replacedElements]
    exact .pure _
  | i, x :: xs, result, h => by
    rw [nodesOfElements] at h
    rw [replaceElements, Storage.replacedElements, List.foldl_cons]
    refine .bind (replaceValue_returns hserves x fun kvs hkvs => h kvs ?_)
      (replaceElements_returns hserves (i + 1) xs _ fun kvs hkvs => h kvs ?_)
    · exact List.mem_append_left _ hkvs
    · exact List.mem_append_right _ hkvs
end

end

/-! ## When nothing is changed -/

section

variable {storage : Storage} {deployPath : JsString} {kvs : List (JsString × Json)}

/-- The value of an entry, as written. -/
def Storage.writtenValue (storage : Storage) (deployPath : JsString)
    (entry : JsString × Json) : Json :=
  if (storageName entry.1).isSome then (storage.resource deployPath entry.2).getD .null
  else storage.asWritten deployPath entry.2

/-- The value that an entry is replaced by. -/
def Storage.replacedValue (storage : Storage) (deployPath : JsString)
    (entry : JsString × Json) : Json :=
  if (storageName entry.1).isSome then (storage.resource deployPath entry.2).getD .null
  else storage.replaced deployPath entry.2

/-- The entries one by one. -/
lemma asWrittenEntries_eq : storage.asWrittenEntries deployPath kvs =
    kvs.map fun entry => (writtenKey entry.1, storage.writtenValue deployPath entry) := by
  induction kvs with
  | nil => rw [Storage.asWrittenEntries, List.map_nil]
  | cons entry kvs ih =>
    rw [Storage.asWrittenEntries, ih, List.map_cons]
    rfl

/-- The entries one by one. -/
lemma replacedEntries_eq : storage.replacedEntries deployPath kvs =
    kvs.map fun entry => (codeKey entry.1, storage.replacedValue deployPath entry) := by
  induction kvs with
  | nil => rw [Storage.replacedEntries, List.map_nil]
  | cons entry kvs ih =>
    rw [Storage.replacedEntries, ih, List.map_cons]
    rfl

/-- The keys as written differ. -/
lemma nodup_asWritten (hkeys : (kvs.map Prod.fst).Nodup) (hclash : EntriesNoClash kvs) :
    ((storage.asWrittenEntries deployPath kvs).map Prod.fst).Nodup := by
  have hmap : (storage.asWrittenEntries deployPath kvs).map Prod.fst =
      (kvs.map Prod.fst).map writtenKey := by
    rw [asWrittenEntries_eq, List.map_map, List.map_map]
    rfl
  rw [hmap]
  refine hkeys.map_on ?_
  intro key hkey key' hkey' heq
  rcases List.mem_map.mp hkey with ⟨entry, hentry, rfl⟩
  rcases List.mem_map.mp hkey' with ⟨entry', hentry', rfl⟩
  unfold writtenKey at heq
  cases hname : storageName entry.1 with
  | none =>
    cases hname' : storageName entry'.1 with
    | none =>
      rw [hname, hname'] at heq
      exact heq
    | some name' =>
      rw [hname, hname'] at heq
      exact absurd heq (hclash entry' hentry' name' hname' entry hentry)
  | some name =>
    cases hname' : storageName entry'.1 with
    | none =>
      rw [hname, hname'] at heq
      exact absurd heq.symm (hclash entry hentry name hname entry' hentry')
    | some name' =>
      rw [hname, hname'] at heq
      exact storageName_inj hname (hname'.trans (congrArg some heq.symm))

/-- If the code stores something under each key, then all keys are plain. -/
lemma plainKey_of_stored (hclash : EntriesNoClash kvs)
    (h : ∀ entry ∈ kvs, ∃ entry' ∈ kvs, codeKey entry'.1 = writtenKey entry.1 ∧
      writtenKey entry.1 ≠ js "__proto__") : ∀ entry ∈ kvs, PlainKey entry.1 := by
  intro entry hentry
  rcases h entry hentry with ⟨entry', hentry', hcode, hproto⟩
  refine ⟨hproto, ?_⟩
  intro name hname
  have hwritten : writtenKey entry.1 = name := by
    unfold writtenKey
    rw [hname]
    rfl
  rw [hwritten] at hcode
  cases hname' : storageName entry'.1 with
  | none =>
    rw [codeKey_of_none hname'] at hcode
    exact absurd hcode (hclash entry hentry name hname entry' hentry')
  | some name' =>
    rw [codeKey_of_some hname'] at hcode
    cases hfound : afterStorage name' with
    | none =>
      rw [hfound] at hcode
      rw [← hcode]
      exact hfound
    | some found =>
      rw [hfound] at hcode
      rw [← hcode]
      exact plainName_of_afterStorage hfound

/-- With plain keys the code keeps the keys as written. -/
lemma keys_replaced (hplain : ∀ entry ∈ kvs, PlainKey entry.1) :
    storage.replacedEntries deployPath kvs =
      kvs.map fun entry => (writtenKey entry.1, storage.replacedValue deployPath entry) := by
  rw [replacedEntries_eq]
  refine List.map_congr_left fun entry hentry => ?_
  rw [codeKey_of_plain (hplain entry hentry)]

/-- Keys that do not clash stay different. -/
lemma nodup_replaced (hkeys : (kvs.map Prod.fst).Nodup) (hclash : EntriesNoClash kvs)
    (hplain : ∀ entry ∈ kvs, PlainKey entry.1) :
    ((storage.replacedEntries deployPath kvs).map Prod.fst).Nodup := by
  have hnodup := @nodup_asWritten storage deployPath kvs hkeys hclash
  rw [asWrittenEntries_eq, List.map_map] at hnodup
  rw [keys_replaced hplain, List.map_map]
  exact hnodup

/-- The properties come in the order of the entries, array indices first. -/
lemma assignAll_replaced (hplain : ∀ entry ∈ kvs, PlainKey entry.1) :
    assignAll (storage.replacedEntries deployPath kvs) =
      ofEntries (storage.replacedEntries deployPath kvs) := by
  apply assignAll_eq_ofEntries
  rw [keys_replaced hplain]
  intro entry hentry
  rcases List.mem_map.mp hentry with ⟨entry', hentry', rfl⟩
  exact (hplain entry' hentry').1

/-- An entry of an object is found under its key as written. -/
lemma lookup_written (hkeys : (kvs.map Prod.fst).Nodup) (hclash : EntriesNoClash kvs)
    {entry : JsString × Json} (hentry : entry ∈ kvs) :
    (ofEntries (storage.asWrittenEntries deployPath kvs)).lookup (writtenKey entry.1) =
      some (storage.writtenValue deployPath entry) := by
  rw [lookup_ofEntries (nodup_asWritten hkeys hclash)]
  apply lookup_of_mem (nodup_asWritten hkeys hclash)
  rw [asWrittenEntries_eq]
  exact List.mem_map.mpr ⟨entry, hentry, rfl⟩

/-- Each entry is found under its key as written. -/
lemma lookup_replaced (hkeys : (kvs.map Prod.fst).Nodup) (hclash : EntriesNoClash kvs)
    (hplain : ∀ entry ∈ kvs, PlainKey entry.1) {entry : JsString × Json} (hentry : entry ∈ kvs) :
    (assignAll (storage.replacedEntries deployPath kvs)).lookup (writtenKey entry.1) =
      some (storage.replacedValue deployPath entry) := by
  rw [assignAll_replaced hplain, lookup_ofEntries (nodup_replaced hkeys hclash hplain)]
  apply lookup_of_mem (nodup_replaced hkeys hclash hplain)
  rw [keys_replaced hplain]
  exact List.mem_map.mpr ⟨entry, hentry, rfl⟩

/-- With plain keys the objects are equal only if the values of the entries are. -/
lemma assignAll_eq_iff (hkeys : (kvs.map Prod.fst).Nodup) (hclash : EntriesNoClash kvs)
    (hplain : ∀ entry ∈ kvs, PlainKey entry.1) :
    assignAll (storage.replacedEntries deployPath kvs) =
        ofEntries (storage.asWrittenEntries deployPath kvs) ↔
      storage.replacedEntries deployPath kvs = storage.asWrittenEntries deployPath kvs := by
  constructor
  · intro h
    rw [keys_replaced hplain, asWrittenEntries_eq]
    refine List.map_congr_left fun entry hentry => ?_
    have hvalue := @lookup_written storage deployPath kvs hkeys hclash entry hentry
    rw [← h, lookup_replaced hkeys hclash hplain hentry] at hvalue
    rw [Option.some.inj hvalue]
  · intro h
    rw [assignAll_replaced hplain, h]

/-- If an object is stored as written then all its keys are plain. -/
lemma plainKey_of_eq (hclash : EntriesNoClash kvs)
    (h : ∀ entry ∈ kvs, ∃ value,
      (writtenKey entry.1, value) ∈ assignAll (storage.replacedEntries deployPath kvs)) :
    ∀ entry ∈ kvs, PlainKey entry.1 := by
  apply plainKey_of_stored hclash
  intro entry hentry
  rcases h entry hentry with ⟨value, hvalue⟩
  rcases mem_of_mem_assignAll _ hvalue with ⟨hmem, hproto⟩
  rw [replacedEntries_eq] at hmem
  rcases List.mem_map.mp hmem with ⟨entry', hentry', heq⟩
  exact ⟨entry', hentry', (Prod.mk.inj heq).1, hproto⟩

mutual
/-- The replaced value is as written exactly when every node of it is kept. -/
theorem replaced_eq_iff : ∀ value : Json, value.canonical = true → NoClash value →
    (storage.replaced deployPath value = storage.asWritten deployPath value ↔
      ∀ node ∈ nodes value, Kept node)
  | .obj kvs, hcanonical, hclash => by
    rcases canonical_obj.mp hcanonical with ⟨hordered, hvalues⟩
    have hkeys := nodup_of_ordered hordered
    have hhere : EntriesNoClash kvs := hclash kvs (by rw [nodes_obj]; exact List.mem_cons_self)
    have hbelow : ∀ o, .obj o ∈ nodesOfEntries kvs → EntriesNoClash o := fun o ho =>
      hclash o (by rw [nodes_obj]; exact List.mem_cons_of_mem _ ho)
    rw [Storage.replaced, Storage.asWritten, Json.obj.injEq, nodes_obj, List.forall_mem_cons]
    constructor
    · intro h
      have hplain := @plainKey_of_eq storage deployPath kvs hhere fun entry hentry =>
        ⟨_, mem_of_lookup (by rw [h]; exact lookup_written hkeys hhere hentry)⟩
      refine ⟨hplain, ?_⟩
      apply (replacedEntries_eq_iff kvs hvalues hbelow hplain).mp
      exact (assignAll_eq_iff hkeys hhere hplain).mp h
    · intro h
      apply (assignAll_eq_iff hkeys hhere h.1).mpr
      exact (replacedEntries_eq_iff kvs hvalues hbelow h.1).mpr h.2
  | .arr xs, _, _ => by
    rw [Storage.replaced, Storage.asWritten, nodes]
    constructor
    · intro h
      cases h
    · intro h
      exact (h _ List.mem_cons_self).elim
  | .null, _, _ | .bool _, _, _ | .num _, _, _ | .str _, _, _ => by
    simp [Storage.replaced, Storage.asWritten, nodes, Kept]

theorem replacedEntries_eq_iff : ∀ kvs : List (JsString × Json),
    (∀ kv ∈ kvs, kv.2.canonical = true) →
    (∀ o, .obj o ∈ nodesOfEntries kvs → EntriesNoClash o) → (∀ entry ∈ kvs, PlainKey entry.1) →
      (storage.replacedEntries deployPath kvs = storage.asWrittenEntries deployPath kvs ↔
        ∀ node ∈ nodesOfEntries kvs, Kept node)
  | [], _, _, _ => by
    rw [Storage.replacedEntries, Storage.asWrittenEntries, nodesOfEntries]
    simp
  | (key, value) :: kvs, hcanonical, hclash, hplain => by
    have hrest := replacedEntries_eq_iff kvs
      (fun kv hkv => hcanonical kv (List.mem_cons_of_mem _ hkv))
      (fun o ho => hclash o (by rw [nodesOfEntries_cons]; exact List.mem_append_right _ ho))
      (fun entry hentry => hplain entry (List.mem_cons_of_mem _ hentry))
    have hkey : codeKey key = writtenKey key := codeKey_of_plain (hplain _ List.mem_cons_self)
    rw [Storage.replacedEntries, Storage.asWrittenEntries, List.cons.injEq, hrest, hkey,
      Prod.mk.injEq, nodesOfEntries_cons, List.forall_mem_append]
    by_cases hname : (storageName key).isSome = true
    · simp [hname]
    · have hvalue := replaced_eq_iff value (hcanonical _ List.mem_cons_self) fun o ho =>
        hclash o (by
          rw [nodesOfEntries_cons, if_neg hname]
          exact List.mem_append_left _ ho)
      rw [if_neg hname, if_neg hname, if_neg hname, hvalue]
      simp only [true_and]
end

/-! ## Canonical trees -/

/-- What is put for a name of the storage is text. -/
lemma resource_eq_str {value r : Json} (h : storage.resource deployPath value = some r) :
    ∃ text, r = .str text := by
  unfold Storage.resource at h
  split at h
  · split at h
    · rcases Option.map_eq_some_iff.mp h with ⟨text, -, heq⟩
      exact ⟨_, heq.symm⟩
    · rcases Option.map_eq_some_iff.mp h with ⟨data, -, heq⟩
      exact ⟨_, heq.symm⟩
    · cases h
  · cases h

lemma canonical_resource {value : Json} :
    ((storage.resource deployPath value).getD .null).canonical = true := by
  cases h : storage.resource deployPath value with
  | none => rfl
  | some r =>
    rcases resource_eq_str h with ⟨text, heq⟩
    rw [heq]
    rfl

lemma canonical_ofEntries {entries : List (JsString × Json)}
    (h : ∀ entry ∈ entries, entry.2.canonical = true) :
    (Json.obj (ofEntries entries)).canonical = true :=
  canonical_obj.mpr ⟨orderedKeys_ofEntries entries, fun entry hentry =>
    h entry (mem_of_mem_ofEntries entry hentry)⟩

mutual
/-- Values as written can be read back; the induction is on the value. -/
theorem canonical_asWritten : ∀ value : Json, value.canonical = true →
    (storage.asWritten deployPath value).canonical = true
  | .obj kvs, h => by
    rw [Storage.asWritten]
    exact canonical_ofEntries (canonical_asWrittenEntries kvs (canonical_obj.mp h).2)
  | .arr xs, h => by
    rw [Json.canonical] at h
    rw [Storage.asWritten, Json.canonical]
    exact canonical_asWrittenElements xs h
  | .null, _ | .bool _, _ | .num _, _ | .str _, _ => by
    simp [Storage.asWritten, Json.canonical]

theorem canonical_asWrittenElements : ∀ xs : List Json, canonicalList xs = true →
    canonicalList (storage.asWrittenElements deployPath xs) = true
  | [], _ => by
    rw [Storage.asWrittenElements]
    rfl
  | x :: xs, h => by
    rw [canonicalList, Bool.and_eq_true] at h
    rw [Storage.asWrittenElements, canonicalList, canonical_asWritten x h.1,
      canonical_asWrittenElements xs h.2]
    rfl

theorem canonical_asWrittenEntries : ∀ kvs : List (JsString × Json),
    (∀ kv ∈ kvs, kv.2.canonical = true) →
      ∀ entry ∈ storage.asWrittenEntries deployPath kvs, entry.2.canonical = true
  | [], _, entry, hentry => by
    rw [Storage.asWrittenEntries] at hentry
    cases hentry
  | (key, value) :: kvs, h, entry, hentry => by
    rw [Storage.asWrittenEntries, List.mem_cons] at hentry
    rcases hentry with heq | hrest
    · rw [heq]
      split_ifs
      · exact canonical_resource
      · exact canonical_asWritten value (h _ List.mem_cons_self)
    · exact canonical_asWrittenEntries kvs (fun kv hkv => h kv (List.mem_cons_of_mem _ hkv))
        entry hrest
end

mutual
/-- Replaced values can be read back; the induction is on the value. -/
theorem canonical_replaced : ∀ value : Json, value.canonical = true →
    (storage.replaced deployPath value).canonical = true
  | .obj kvs, h => by
    rw [Storage.replaced]
    refine canonical_obj.mpr ⟨orderedKeys_assignAll _, fun entry hentry => ?_⟩
    exact canonical_replacedEntries kvs (canonical_obj.mp h).2 entry
      (mem_of_mem_assignAll entry hentry).1
  | .arr xs, h => by
    rw [Json.canonical] at h
    rw [Storage.replaced]
    exact canonical_ofEntries (canonical_replacedElements 0 xs h)
  | .null, _ | .bool _, _ | .num _, _ | .str _, _ => by
    simp [Storage.replaced, Json.canonical]

theorem canonical_replacedElements : ∀ (i : ℕ) (xs : List Json), canonicalList xs = true →
    ∀ entry ∈ storage.replacedElements deployPath i xs, entry.2.canonical = true
  | i, [], _, entry, hentry => by
    rw [Storage.replacedElements] at hentry
    cases hentry
  | i, x :: xs, h, entry, hentry => by
    rw [canonicalList, Bool.and_eq_true] at h
    rw [Storage.replacedElements, List.mem_cons] at hentry
    rcases hentry with heq | hrest
    · rw [heq]
      exact canonical_replaced x h.1
    · exact canonical_replacedElements (i + 1) xs h.2 entry hrest

theorem canonical_replacedEntries : ∀ kvs : List (JsString × Json),
    (∀ kv ∈ kvs, kv.2.canonical = true) →
      ∀ entry ∈ storage.replacedEntries deployPath kvs, entry.2.canonical = true
  | [], _, entry, hentry => by
    rw [Storage.replacedEntries] at hentry
    cases hentry
  | (key, value) :: kvs, h, entry, hentry => by
    rw [Storage.replacedEntries, List.mem_cons] at hentry
    rcases hentry with heq | hrest
    · rw [heq]
      split_ifs
      · exact canonical_resource
      · exact canonical_replaced value (h _ List.mem_cons_self)
    · exact canonical_replacedEntries kvs (fun kv hkv => h kv (List.mem_cons_of_mem _ hkv))
        entry hrest
end

end

/-! ## The writes -/

/-- The text that the entry writes under the key. -/
def Entry.putText (target key : JsString) (version : VersionArg) : Entry → Option JsString
  | .call (.putKeyValue target' key' (some (.str text)) version') =>
    if target' = target ∧ key' = key ∧ version' = version then some text else none
  | _ => none

/-- What is stored under a key, in the order of the writes. -/
def stored (target : JsString) (version : VersionArg) (log : List Entry) (key : JsString) :
    List JsString :=
  log.filterMap (Entry.putText target key version)

/-- The text of a literal, and JSON text for the rest. -/
def storedText : Json → JsString
  | .str s => s
  | .num n => n.text
  | v => v.stringify

/-- What carries no version writes no key. -/
lemma putText_of_unversioned {target key : JsString} {version : VersionArg} {entry : Entry}
    (h : entry.isUnversioned) : entry.putText target key version = none := by
  cases entry with
  | call c =>
    cases c with
    | putKeyValue target' key' value version' => cases h
    | _ => rfl
  | _ => rfl

section

variable {σ α : Type} {world : World σ} {target : JsString} {deployContracts : Bool}
  {version : VersionArg}

/-- What is stored in a sequence is stored in one of its parts. -/
lemma stored_append (log log' : List Entry) (key : JsString) :
    stored target version (log ++ log') key =
      stored target version log key ++ stored target version log' key := by
  unfold stored
  rw [List.filterMap_append]

/-- What carries no version stores nothing. -/
lemma stored_of_unversioned {m : Deploy σ α} (h : Only Entry.isUnversioned m) (s : σ)
    (key : JsString) : stored target version (m.log s) key = [] := by
  unfold stored
  rw [List.filterMap_eq_nil_iff]
  exact fun entry hentry => putText_of_unversioned (h s entry hentry)

/-- A text is stored when an entry of the log writes it. -/
lemma mem_stored {log : List Entry} {key text : JsString} :
    text ∈ stored target version log key ↔
      ∃ entry ∈ log, entry.putText target key version = some text := List.mem_filterMap

/-- Whatever is stored under a key is the text of a value with this key. -/
lemma stored_putEntries {values : List (JsString × Json)} {s : σ} {key text : JsString}
    (h : text ∈ stored target version
      ((putEntries world target deployContracts version values).log s) key) :
    ∃ value, (key, value) ∈ values ∧
      ∃ s₁ s₂, Yields (valueText world target deployContracts value) s₁ text s₂ := by
  induction values generalizing s with
  | nil => cases h
  | cons entry values ih =>
    obtain ⟨key', value⟩ := entry
    have hunversioned : Only Entry.isUnversioned
      (valueText world target deployContracts value) := valueText_only
    rw [mem_stored, putEntries] at h
    rcases exists_log_bind.mp h with ⟨entry, hentry, htext⟩ | ⟨text', s₁, htext', hrest⟩
    · rw [putText_of_unversioned (hunversioned s entry hentry)] at htext
      cases htext
    · rcases exists_log_bind.mp hrest with ⟨entry, hentry, htext⟩ | ⟨_, s₂, -, hlater⟩
      · rw [show entry = _ from List.mem_singleton.mp hentry, Entry.putText] at htext
        split_ifs at htext with heq
        cases htext
        rw [← heq.2.1]
        exact ⟨value, List.mem_cons_self, s, s₁, htext'⟩
      · rcases ih (mem_stored.mpr hlater) with ⟨value', hmem, hyields⟩
        exact ⟨value', List.mem_cons_of_mem _ hmem, hyields⟩

/-- All values are stored if each has its text. -/
lemma putEntries_returns {storage : Storage} (hserves : storage.Serves world)
    {values : List (JsString × Json)} (h : ∀ entry ∈ values,
      Returns (valueText world target deployContracts entry.2) (storedText entry.2)) :
    Returns (putEntries world target deployContracts version values) () ∧ ∀ s key,
      stored target version ((putEntries world target deployContracts version values).log s) key =
        (values.filter fun entry => entry.1 = key).map fun entry => storedText entry.2 := by
  induction values with
  | nil => exact ⟨.pure _, fun s key => rfl⟩
  | cons entry values ih =>
    obtain ⟨key', value⟩ := entry
    rcases ih fun entry hentry => h entry (List.mem_cons_of_mem _ hentry) with ⟨hreturns, hstored⟩
    have hvalue := h (key', value) List.mem_cons_self
    have hput := hserves.put target key' (some (.str (storedText value))) version
    -- the text of a value is computed without a versioned put
    have hunversioned : Only Entry.isUnversioned
      (valueText world target deployContracts value) := valueText_only
    refine ⟨?_, ?_⟩
    · rw [putEntries]
      exact hvalue.bind (hput.bind hreturns)
    · intro s key
      rcases hvalue s with ⟨s₁, hyields⟩
      rcases hput s₁ with ⟨s₂, hyields'⟩
      have hcall : stored target version ((call world (.putKeyValue target key'
          (some (.str (storedText value))) version)).log s₁) key =
            if key' = key then [storedText value] else [] := by
        show stored target version [_] key = _
        unfold stored
        rw [List.filterMap_cons, Entry.putText]
        split_ifs with hall hkey hkey
        · rfl
        · exact absurd hall.2.1 hkey
        · exact absurd ⟨rfl, hkey, rfl⟩ hall
        · rfl
      rw [putEntries, log_bind hyields, log_bind hyields', stored_append, stored_append,
        stored_of_unversioned hunversioned, hcall, hstored, List.nil_append, List.filter_cons]
      by_cases hkey : key' = key
      · simp [hkey]
      · simp [hkey]

/-- One text for each key. -/
lemma filter_of_nodup {values : List (JsString × Json)} (hkeys : (values.map Prod.fst).Nodup)
    (key : JsString) : ((values.filter fun entry => entry.1 = key).map fun entry =>
      storedText entry.2) = (values.lookup key).toList.map storedText := by
  induction values with
  | nil => rfl
  | cons entry values ih =>
    obtain ⟨key', value⟩ := entry
    rw [List.map_cons, List.nodup_cons] at hkeys
    rw [List.filter_cons, lookup_cons_eq]
    by_cases hkey : key' = key
    · subst hkey
      have hnone : values.filter (fun entry => entry.1 = key') = [] := by
        rw [List.filter_eq_nil_iff]
        intro entry hentry heq
        exact hkeys.1 (List.mem_map.mpr ⟨entry, hentry, of_decide_eq_true heq⟩)
      rw [if_pos (decide_eq_true rfl), if_pos rfl, hnone]
      rfl
    · rw [if_neg (by simpa using hkey), if_neg (Ne.symm hkey)]
      exact ih hkeys.2

lemma canonical_setMetadataHash {hash : JsString} {v : Json} (h : v.canonical = true) :
    (setMetadataHash hash v).canonical = true := by
  cases v with
  | obj kvs =>
    rcases canonical_obj.mp h with ⟨hordered, hvalues⟩
    refine canonical_obj.mpr ⟨orderedKeys_setProp _ _ hordered, fun entry hentry => ?_⟩
    rcases mem_setProp hentry with heq | hold
    · rw [heq]
      rfl
    · exact hvalues entry hold
  | _ => exact h

/-- A transaction changes the metadata of a `contract_send` value only. -/
lemma sendIfAsked_yields {o o' : List (JsString × Json)} {s s' : σ}
    (h : Yields (sendIfAsked world target deployContracts o) s o' s') :
    o' = o ∨ (o'.lookup (js "contract_send")).isSome ∧
      ((Json.obj o).canonical = true → (Json.obj o').canonical = true) := by
  unfold sendIfAsked at h
  cases hsend : o.lookup (js "contract_send") with
  | none =>
    rw [hsend] at h
    exact .inl (yields_pure.mp h).1
  | some send =>
    rw [hsend] at h
    cases deployContracts with
    | false => exact .inl (yields_pure.mp h).1
    | true =>
      right
      rcases yields_ofExcept_bind.mp h with ⟨text, -, hparams⟩
      rcases yields_ofExcept_bind.mp hparams with ⟨⟨contractName, methodName, names⟩, -, hrun⟩
      rcases yields_bind.mp hrun with ⟨⟨params, value⟩, s₁, hvalue, hcall⟩
      rcases yields_bind.mp hcall with ⟨_, s₂, -, hpure⟩
      rw [(yields_pure.mp hpure).1]
      unfold contractParams at hvalue
      by_cases htruthy : truthy (o.lookup (js "metadata")) = true
      -- the metadata become their hash, at the place they had
      · rcases yields_bind.mp ((if_pos htruthy).symm ▸ hvalue) with ⟨hash, s₃, -, hset⟩
        have heq : value = setProp (js "metadata") _ o :=
          (Prod.mk.inj (yields_pure.mp hset).1).2
        have hne : js "contract_send" ≠ js "metadata" := by decide +kernel
        refine ⟨?_, ?_⟩
        · rw [heq, lookup_setProp_ne hne, hsend]
          rfl
        · intro hcanonical
          rcases canonical_obj.mp hcanonical with ⟨hordered, hvalues⟩
          rw [heq]
          refine canonical_obj.mpr ⟨orderedKeys_setProp _ _ hordered, fun entry hentry => ?_⟩
          rcases mem_setProp hentry with hmetadata | hold
          · rw [hmetadata]
            apply canonical_setMetadataHash
            cases hold : o.lookup (js "metadata") with
            | none => rfl
            | some metadata => exact hvalues _ (mem_of_lookup hold)
          · exact hvalues entry hold
      · have heq : value = o := (Prod.mk.inj (yields_pure.mp ((if_neg htruthy).symm ▸ hvalue)).1).2
        rw [heq]
        exact ⟨by rw [hsend]; rfl, fun hcanonical => hcanonical⟩

/-- The text of an object, with the hash of the metadata after a transaction. -/
lemma valueText_obj {o : List (JsString × Json)} {s s' : σ} {text : JsString}
    (hcanonical : (Json.obj o).canonical = true)
    (h : Yields (valueText world target deployContracts (.obj o)) s text s') :
    ∃ o', text = (Json.obj o').stringify ∧ (Json.obj o').canonical = true ∧
      (o' = o ∨ (o'.lookup (js "contract_send")).isSome) := by
  rcases yields_bind.mp h with ⟨o', s₁, hsent, hpure⟩
  refine ⟨o', (yields_pure.mp hpure).1, ?_⟩
  rcases sendIfAsked_yields hsent with heq | ⟨hsome, hkept⟩
  · rw [heq]
    exact ⟨hcanonical, .inl rfl⟩
  · exact ⟨hkept hcanonical, .inr hsome⟩

/-- Two values with one text are the same. -/
lemma stringify_inj {v v' : Json} (hv : v.canonical = true) (hv' : v'.canonical = true)
    (h : v.stringify = v'.stringify) : v = v' :=
  Option.some.inj ((parse_stringify hv).symm.trans (h ▸ parse_stringify hv'))

section

variable {storage : Storage} {deployPath : JsString}

/-- No value as written asks for a `contract_send`. -/
lemma lookup_contractSend {value : Json} (hsend : NoContractSend value)
    {o : List (JsString × Json)} (h : storage.asWritten deployPath value = .obj o) :
    o.lookup (js "contract_send") = none := by
  cases value with
  | obj kvs =>
    rw [Storage.asWritten, Json.obj.injEq] at h
    by_contra hsome
    rcases Option.ne_none_iff_exists'.mp hsome with ⟨v, hv⟩
    rw [← h] at hv
    have hmem := mem_of_mem_ofEntries _ (mem_of_lookup hv)
    rw [asWrittenEntries_eq] at hmem
    rcases List.mem_map.mp hmem with ⟨entry, hentry, heq⟩
    refine hsend kvs ?_ entry hentry (Prod.mk.inj heq).1
    rw [nodes_obj]
    exact List.mem_cons_self
  | _ => simp [Storage.asWritten] at h

/-- A value whose text is the one of the value as written is the value as written. -/
lemma replaced_of_text {value : Json} (hcanonical : value.canonical = true)
    (hsend : NoContractSend value) {s s' : σ} (h : Yields (valueText world target deployContracts
      (storage.replaced deployPath value)) s
      (storedText (storage.asWritten deployPath value)) s') :
    storage.replaced deployPath value = storage.asWritten deployPath value := by
  have hwritten := @canonical_asWritten storage deployPath value hcanonical
  have hreplaced := @canonical_replaced storage deployPath value hcanonical
  -- equal texts come from equal canonical values
  cases value with
  | obj kvs =>
    have hobj : storage.asWritten deployPath (.obj kvs) =
        .obj (ofEntries (storage.asWrittenEntries deployPath kvs)) := by rw [Storage.asWritten]
    rw [Storage.replaced] at h hreplaced ⊢
    rcases valueText_obj hreplaced h with ⟨o', htext, hcanonical', ho'⟩
    have heq : storage.asWritten deployPath (.obj kvs) = .obj o' := by
      apply stringify_inj hwritten hcanonical'
      rw [hobj] at htext ⊢
      exact htext
    rcases ho' with ho' | hsome
    · rw [heq, ho']
    · rw [lookup_contractSend hsend heq] at hsome
      cases hsome
  | arr xs =>
    have harr : storage.asWritten deployPath (.arr xs) =
        .arr (storage.asWrittenElements deployPath xs) := by rw [Storage.asWritten]
    rw [Storage.replaced] at h hreplaced
    rcases valueText_obj hreplaced h with ⟨o', htext, hcanonical', -⟩
    have heq : storage.asWritten deployPath (.arr xs) = .obj o' := by
      apply stringify_inj hwritten hcanonical'
      rw [harr] at htext ⊢
      exact htext
    rw [harr] at heq
    cases heq
  | _ => simp [Storage.replaced, Storage.asWritten]

/-- The text of a value as written. -/
lemma valueText_returns {value : Json}
    (hsend : ∀ o, value = .obj o → o.lookup (js "contract_send") = none) :
    Returns (valueText world target deployContracts value) (storedText value) := by
  cases value with
  | obj o =>
    show Returns (sendIfAsked world target deployContracts o >>= _) _
    have hnone : sendIfAsked world target deployContracts o = pure o := by
      unfold sendIfAsked
      rw [hsend o rfl]
    rw [hnone, pure_bind]
    exact .pure _
  | bool b => cases b <;> exact .pure _
  | _ => exact .pure _

/-- A resource is never an object. -/
lemma resource_ne_obj {value : Json} (o : List (JsString × Json)) :
    (storage.resource deployPath value).getD .null ≠ .obj o := by
  cases h : storage.resource deployPath value with
  | none => simp
  | some r =>
    rcases resource_eq_str h with ⟨text, heq⟩
    rw [heq]
    simp

lemma mem_nodesOfEntries {kvs : List (JsString × Json)} {entry : JsString × Json}
    (hentry : entry ∈ kvs) (hname : ¬ (storageName entry.1).isSome = true) {node : Json}
    (hnode : node ∈ nodes entry.2) : node ∈ nodesOfEntries kvs := by
  induction kvs with
  | nil => cases hentry
  | cons first kvs ih =>
    obtain ⟨key, value⟩ := first
    rw [nodesOfEntries_cons]
    rcases List.mem_cons.mp hentry with heq | hrest
    · subst heq
      rw [if_neg hname]
      exact List.mem_append_left _ hnode
    · exact List.mem_append_right _ (ih hrest)

/-- The upload of the data, and the replaced section. -/
lemma replaceContents_returns (hserves : storage.Serves world) {kvs : List (JsString × Json)}
    (hresources : HasResources storage deployPath (.obj kvs)) :
    Returns (replaceContentsWithCids world deployPath (.obj kvs))
      (assignAll (storage.replacedEntries deployPath kvs)) := by
  refine .bind (.ofExcept rfl) (replaceEntries_returns hserves kvs [] ?_ ?_)
  · exact hresources kvs (by rw [nodes_obj]; exact List.mem_cons_self)
  · exact fun o ho => hresources o (by rw [nodes_obj]; exact List.mem_cons_of_mem _ ho)

/-- What is stored comes from the writes behind the uploads. -/
lemma stored_updateKeyValue {kvs values : List (JsString × Json)} {s s₁ : σ}
    (h : Yields (replaceContentsWithCids world deployPath (.obj kvs)) s values s₁)
    (key : JsString) :
    stored target version ((updateKeyValue world target (some (.obj kvs)) deployPath
      deployContracts version).log s) key =
        stored target version
          ((putEntries world target deployContracts version values).log s₁) key := by
  have hunversioned : Only Entry.isUnversioned
      (replaceContentsWithCids world deployPath (.obj kvs)) :=
    .bind (.ofExcept _) fun _ => replaceEntries_only _ _
  unfold updateKeyValue
  rw [Option.getD_some, log_bind h, stored_append, stored_of_unversioned hunversioned,
    List.nil_append]

end

/-- A section of a configuration that was read from a text has its properties in the order of
JavaScript. -/
lemma canonical_section {text key : JsString} {deployConfig kvs : List (JsString × Json)}
    (hparse : parseJson text = .ok (.obj deployConfig))
    (hsection : deployConfig.lookup key = some (.obj kvs)) : (Json.obj kvs).canonical = true := by
  have hconfig : (Json.obj deployConfig).canonical = true := by
    unfold parseJson at hparse
    split at hparse
    · rename_i hv
      cases hparse
      exact canonical_of_parse hv
    · cases hparse
  exact (canonical_obj.mp hconfig).2 _ (mem_of_lookup hsection)

/-- The section is stored as written if and only if no value in it is an array, no key in it is
`__proto__` and no `storage[name]` has another `storage[` in its name. -/
theorem keyValues_stored_iff {storage : Storage} (hserves : storage.Serves world)
    {kvs : List (JsString × Json)} {deployPath : JsString}
    (hcanonical : (Json.obj kvs).canonical = true)
    (hresources : HasResources storage deployPath (.obj kvs)) (hclash : NoClash (.obj kvs))
    (hsend : NoContractSend (.obj kvs)) (s : σ) :
    ((∃ s', Yields (updateKeyValue world target (some (.obj kvs)) deployPath deployContracts
        version) s () s') ∧
      ∀ key, stored target version ((updateKeyValue world target (some (.obj kvs)) deployPath
        deployContracts version).log s) key =
          (ownProperty key (storage.asWritten deployPath (.obj kvs))).toList.map storedText) ↔
      ∀ node ∈ nodes (.obj kvs), Kept node := by
  rcases canonical_obj.mp hcanonical with ⟨hordered, hvalues⟩
  have hkeys := nodup_of_ordered hordered
  have hhere : EntriesNoClash kvs := hclash kvs (by rw [nodes_obj]; exact List.mem_cons_self)
  have hbelow : ∀ o, .obj o ∈ nodesOfEntries kvs → EntriesNoClash o := fun o ho =>
    hclash o (by rw [nodes_obj]; exact List.mem_cons_of_mem _ ho)
  have hsendBelow : ∀ entry ∈ kvs, ¬ (storageName entry.1).isSome = true →
      NoContractSend entry.2 := fun entry hentry hname o ho =>
    hsend o (by rw [nodes_obj]; exact List.mem_cons_of_mem _ (mem_nodesOfEntries hentry hname ho))
  have hreturns := replaceContents_returns hserves hresources
  rcases hreturns s with ⟨s₁, hyields⟩
  simp only [stored_updateKeyValue hyields, Storage.asWritten, ownProperty]
  constructor
  · intro h
    -- a text that is stored under a key is that of the value that was meant, so nothing was lost on
    -- the way
    have hstored : ∀ entry ∈ kvs, ∃ value,
        (writtenKey entry.1, value) ∈ assignAll (storage.replacedEntries deployPath kvs) ∧
          ∃ s₁ s₂, Yields (valueText world target deployContracts value) s₁
            (storedText (storage.writtenValue deployPath entry)) s₂ := by
      intro entry hentry
      apply stored_putEntries
      rw [h.2, lookup_written hkeys hhere hentry]
      exact List.mem_singleton_self _
    have hplain : ∀ entry ∈ kvs, PlainKey entry.1 := by
      apply plainKey_of_eq hhere
      intro entry hentry
      rcases hstored entry hentry with ⟨value, hvalue, -⟩
      exact ⟨value, hvalue⟩
    have hentries : storage.replacedEntries deployPath kvs =
        storage.asWrittenEntries deployPath kvs := by
      rw [keys_replaced hplain, asWrittenEntries_eq]
      refine List.map_congr_left fun entry hentry => ?_
      rcases hstored entry hentry with ⟨value, hvalue, s₂, s₃, htext⟩
      have hlookup := lookup_of_mem (nodup_of_ordered (orderedKeys_assignAll _)) hvalue
      rw [lookup_replaced hkeys hhere hplain hentry] at hlookup
      rw [← Option.some.inj hlookup] at htext
      unfold Storage.replacedValue Storage.writtenValue at htext ⊢
      by_cases hname : (storageName entry.1).isSome = true
      · rw [if_pos hname, if_pos hname]
      · rw [if_neg hname, if_neg hname] at htext ⊢
        rw [replaced_of_text (hvalues entry hentry) (hsendBelow entry hentry hname) htext]
    rw [nodes_obj, List.forall_mem_cons]
    exact ⟨hplain, (replacedEntries_eq_iff kvs hvalues hbelow hplain).mp hentries⟩
  · intro h
    rw [nodes_obj, List.forall_mem_cons] at h
    have hentries : storage.replacedEntries deployPath kvs =
        storage.asWrittenEntries deployPath kvs :=
      (replacedEntries_eq_iff kvs hvalues hbelow h.1).mpr h.2
    -- conversely the assignments come to the same properties, and every one of them is put
    have hall : assignAll (storage.replacedEntries deployPath kvs) =
        ofEntries (storage.asWrittenEntries deployPath kvs) :=
      (assignAll_eq_iff hkeys hhere h.1).mpr hentries
    rw [hall] at hreturns ⊢
    have hputs := @putEntries_returns σ world target deployContracts version storage hserves
      (ofEntries (storage.asWrittenEntries deployPath kvs)) (by
        intro entry hentry
        apply valueText_returns
        intro o ho
        have hmem := mem_of_mem_ofEntries entry hentry
        rw [asWrittenEntries_eq] at hmem
        rcases List.mem_map.mp hmem with ⟨entry', hentry', rfl⟩
        unfold Storage.writtenValue at ho
        by_cases hname : (storageName entry'.1).isSome = true
        · rw [if_pos hname] at ho
          exact absurd ho (resource_ne_obj o)
        · rw [if_neg hname] at ho
          exact lookup_contractSend (hsendBelow entry' hentry' hname) ho)
    refine ⟨hreturns.bind hputs.1 s, ?_⟩
    intro key
    rw [hputs.2, filter_of_nodup (nodup_of_ordered (orderedKeys_ofEntries _))]

end

/-- A world that does nothing but upload, read and write. -/
def Storage.answer (storage : Storage) : (c : Call) → Except Failure c.Answer
  | .uploadData data => .ok (storage.ids data)
  | .existsSync path => .ok (storage.files path).isSome
  | .readFile path => (storage.files path).elim (.error .rejected) .ok
  | .putKeyValue _ _ _ _ => .ok ()
  | _ => .error .rejected

/-- A world that answers from the storage. -/
def Storage.world (storage : Storage) : World Unit := fun c s => (storage.answer c, s)

/-- The world of the storage is served by it. -/
lemma Storage.serves_world (storage : Storage) : storage.Serves storage.world where
  upload _ := fun s => ⟨s, _, rfl⟩
  existing _ := fun s => ⟨s, _, rfl⟩
  read path data h := by
    intro s
    refine ⟨s, [.call (.readFile path)], ?_⟩
    show ((storage.files path).elim _ _, _, _) = _
    rw [h]
    rfl
  put _ _ _ _ := fun s => ⟨s, _, rfl⟩

/-- A storage in which every upload has the same id. -/
def someStorage : Storage := ⟨fun _ => js "id", fun _ => none⟩

/-- A version to write with. -/
def someVersion : VersionArg := .text (some (js "1.0.0"))

/-- An object with an uploaded logo, and a text. -/
def plainSection : List (JsString × Json) :=
  [(js "theme", .obj [(js "storage[logo]", .obj [(js "blob", .str (js "x"))]),
    (js "dark", .null)]), (js "title", .str (js "a"))]

/-- An array of one number. -/
def arraySection : List (JsString × Json) := [(js "menu", .arr [.num (.ofInt 1)])]

/-- The text of a configuration with this section. -/
def plainConfig : JsString :=
  js "\x7b\"keyvalue\":\x7b\"theme\":\x7b\"storage[logo]\":\x7b\"blob\":\"x\"\x7d,\"dark\":null\x7d,\"title\":\"a\"\x7d\x7d"

lemma nodes_plainSection : nodes (.obj plainSection) = [.obj plainSection,
    .obj [(js "storage[logo]", .obj [(js "blob", .str (js "x"))]), (js "dark", .null)], .null,
    .str (js "a")] := by
  decide +kernel

lemma nodes_arraySection : nodes (.obj arraySection) =
    [.obj arraySection, .arr [.num (.ofInt 1)], .num (.ofInt 1)] := by
  decide +kernel

instance (kvs : List (JsString × Json)) : Decidable (EntriesNoClash kvs) :=
  inferInstanceAs (Decidable (∀ entry ∈ kvs, ∀ name ∈ storageName entry.1, _))

instance (storage : Storage) (deployPath : JsString) (kvs : List (JsString × Json)) :
    Decidable (EntriesHaveResources storage deployPath kvs) :=
  inferInstanceAs (Decidable (∀ entry ∈ kvs, _ → _))

lemma forall_nodes {tree : Json} {P : List (JsString × Json) → Prop}
    (h : ∀ node ∈ nodes tree, ∀ kvs, node = .obj kvs → P kvs) :
    ∀ kvs, .obj kvs ∈ nodes tree → P kvs := fun kvs hkvs => h _ hkvs kvs rfl

theorem keyValues_stored_theme :
    (∃ s', Yields (updateKeyValue someStorage.world (js "a.point") (some (.obj plainSection))
        (js "/site") true someVersion) () () s') ∧
      ∀ key, stored (js "a.point") someVersion ((updateKeyValue someStorage.world (js "a.point")
        (some (.obj plainSection)) (js "/site") true someVersion).log ()) key =
          (ownProperty key (someStorage.asWritten (js "/site") (.obj plainSection))).toList.map
            storedText := by
  have hparse : parseJson plainConfig = .ok (.obj [(js "keyvalue", .obj plainSection)]) := by
    decide +kernel
  have hcanonical : (Json.obj plainSection).canonical = true :=
    @canonical_section plainConfig (js "keyvalue") _ plainSection hparse rfl
  refine (keyValues_stored_iff someStorage.serves_world hcanonical ?_ ?_ ?_ ()).mpr ?_
  iterate 3
    · apply forall_nodes
      rw [nodes_plainSection]
      intro node hnode kvs heq
      simp only [List.mem_cons, List.not_mem_nil, or_false] at hnode
      rcases hnode with rfl | rfl | rfl | rfl <;> cases heq <;> decide +kernel
  · rw [nodes_plainSection]
    intro node hnode
    simp only [List.mem_cons, List.not_mem_nil, or_false] at hnode
    rcases hnode with rfl | rfl | rfl | rfl
    · show ∀ entry ∈ plainSection, PlainKey entry.1
      decide +kernel
    · show ∀ entry ∈ ([_, _] : List (JsString × Json)), PlainKey entry.1
      decide +kernel
    · trivial
    · trivial

/-- An array is stored as an object of its indices. -/
theorem array_stored_as_object :
    (Json.obj arraySection).canonical = true ∧
      HasResources someStorage (js "/site") (.obj arraySection) ∧ NoClash (.obj arraySection) ∧
      NoContractSend (.obj arraySection) ∧
      stored (js "a.point") someVersion ((updateKeyValue someStorage.world (js "a.point")
        (some (.obj arraySection)) (js "/site") true someVersion).log ()) (js "menu") =
          [js "\x7b\"0\":1\x7d"] ∧
      (ownProperty (js "menu") (someStorage.asWritten (js "/site") (.obj arraySection))).toList.map
        storedText = [js "[1]"] := by
  have hnodes : ∀ P : List (JsString × Json) → Prop, P arraySection →
      ∀ kvs, .obj kvs ∈ nodes (.obj arraySection) → P kvs := by
    intro P h
    apply forall_nodes
    rw [nodes_arraySection]
    intro node hnode kvs heq
    simp only [List.mem_cons, List.not_mem_nil, or_false] at hnode
    rcases hnode with rfl | rfl | rfl
    · cases heq
      exact h
    · cases heq
    · cases heq
  refine ⟨by decide +kernel, hnodes _ ?_, hnodes _ ?_, hnodes _ ?_, by decide +kernel,
    by decide +kernel⟩
  all_goals decide +kernel

end PointNetwork.Deployer
