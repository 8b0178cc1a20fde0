import PointNetwork.Deployer.Manifest

/-!
# The manifest on disk

What `write` puts into the file, `read` gives back in normal form, without the entries that hold
`undefined` (`read_write`); the queries and the lenses do not see the difference
(`get_persisted`, `getProxyFromAddress_persisted`).
-/

namespace PointNetwork.Manifest

open Js

/-! ## Property order -/

/-- Different keys that are no array indices may stand in any order. -/
lemma orderedKeys_of_names {α : Type*} {o : List (JsString × α)}
    (hnames : ∀ kv ∈ o, arrayIndex? kv.1 = none) (hn : (o.map Prod.fst).Nodup) :
    orderedKeys o = true := by
  induction o with
  | nil => rfl
  | cons kv o ih =>
    obtain ⟨k, v⟩ := kv
    rw [List.map_cons, List.nodup_cons] at hn
    refine ordered_cons.mpr ⟨?_, ih (fun kv hkv => hnames kv (by simp [hkv])) hn.2⟩
    intro x hx
    have hne : k ≠ x.1 := fun heq => hn.1 (List.mem_map.mpr ⟨x, hx, heq.symm⟩)
    have hindex := hnames x (by simp [hx])
    simp [precedes, insertsBefore, hindex, hne]

lemma length_natText_le {n : ℕ} (h : n < 10 ^ 10) : (natText n).length ≤ 10 := by
  rw [natText, List.length_map, natDigits]
  split
  · decide
  · rw [List.length_reverse]
    exact (Nat.digits_length_le_iff (by decide) n).mpr h

/-- The digits of a hash are no array index. -/
lemma VersionHash.arrayIndex?_text (version : VersionHash) : arrayIndex? version.text = none := by
  unfold arrayIndex?
  refine if_neg ?_
  intro h
  have hlen := length_natText_le (n := ofDigits (spanDigits version.text).1) (by omega)
  rw [h.2.1, version.length_eq] at hlen
  omega

lemma VersionHash.of?_text (version : VersionHash) : VersionHash.of? version.text = some version :=
  dif_pos version.length_eq

/-- Two version hashes with one text are the same. -/
lemma VersionHash.text_injective : Function.Injective VersionHash.text := by
  intro a b h
  cases a
  cases b
  cases h
  rfl

/-! ## A deployment as JSON -/

lemma lookup_optional (k key : JsString) (value : Option Json) :
    (optional key value).lookup k = if k = key then value else none := by
  cases value with
  | none => simp [optional]
  | some value =>
    show [(key, value)].lookup k = _
    rw [lookup_cons_eq]
    rfl

/-- A property that may be missing is read back. -/
lemma readOptional_eq {α : Type} {read : Json → Option α} {key : JsString}
    {kvs : List (JsString × Json)} {value : Option α} {print : α → Json}
    (hread : ∀ a, read (print a) = some a) (h : kvs.lookup key = value.map print) :
    readOptional read key kvs = some value := by
  unfold readOptional
  rw [h]
  cases value with
  | none => rfl
  | some a => simp [hread]

/-- A kind is read back from its text. -/
lemma readKind_text (kind : Kind) : readKind (.str kind.text) = some kind := by
  cases kind <;> decide

/-- A list of strings is read back. -/
lemma readStrings_map (all : List JsString) :
    readStrings (.arr (all.map .str)) = some all := by
  show (all.map Json.str).mapM readString = some all
  induction all with
  | nil => rfl
  | cons s all ih => simp [List.mapM_cons, readString, ih]

lemma readValue_val (layout : Value) : readValue layout.val = some layout := dif_pos layout.property

/-- Each property of a deployment is found under its name. -/
lemma properties_lookup (d : Deployment) :
    d.properties.lookup (js "address") = some (.str d.address) ∧
    d.properties.lookup (js "txHash") = d.txHash.map .str ∧
    d.properties.lookup (js "kind") = d.kind.map (fun kind => .str kind.text) ∧
    d.properties.lookup (js "layout") = d.layout.map Subtype.val ∧
    d.properties.lookup (js "allAddresses")
      = d.allAddresses.map (fun all => .arr (all.map .str)) := by
  refine ⟨?_, ?_, ?_, ?_, ?_⟩ <;>
    simp +decide [Deployment.properties, lookup_cons_eq, List.lookup_append, lookup_optional]

/-- A deployment is read back from its JSON form. -/
theorem Deployment.of?_toJson (d : Deployment) : Deployment.of? d.toJson = some d := by
  obtain ⟨haddress, htxHash, hkind, hlayout, hall⟩ := properties_lookup d
  have h1 : readOptional readString (js "txHash") d.properties = some d.txHash :=
    readOptional_eq (fun _ => rfl) htxHash
  have h2 : readOptional readKind (js "kind") d.properties = some d.kind :=
    readOptional_eq readKind_text hkind
  have h3 : readOptional readValue (js "layout") d.properties = some d.layout :=
    readOptional_eq readValue_val hlayout
  have h4 : readOptional readStrings (js "allAddresses") d.properties = some d.allAddresses :=
    readOptional_eq readStrings_map hall
  simp only [Deployment.toJson, Deployment.of?, haddress, h1, h2, h3, h4]
  rfl

lemma canonicalList_map {α : Type*} (f : α → Json) (xs : List α)
    (h : ∀ x ∈ xs, (f x).canonical = true) : canonicalList (xs.map f) = true := by
  induction xs with
  | nil => rfl
  | cons x xs ih =>
    rw [List.map_cons, canonicalList, h x (by simp), ih fun y hy => h y (by simp [hy])]
    rfl

lemma mem_optional {key : JsString} {value : Option Json} {kv : JsString × Json}
    (h : kv ∈ optional key value) : kv.1 = key ∧ value = some kv.2 := by
  cases value with
  | none => simp [optional] at h
  | some value =>
    have heq : kv = (key, value) := by simpa [optional] using h
    rw [heq]
    exact ⟨rfl, rfl⟩

lemma keys_optional (key : JsString) (value : Option Json) :
    List.Sublist ((optional key value).map Prod.fst) [key] := by
  cases value with
  | none => exact List.nil_sublist _
  | some value => exact List.Sublist.refl _

/-- The properties of an object whose keys are among some names, in this order. -/
lemma orderedKeys_of_sublist {α : Type*} {o : List (JsString × α)} {names : List JsString}
    (hsub : List.Sublist (o.map Prod.fst) names) (hn : names.Nodup)
    (hnames : ∀ name ∈ names, arrayIndex? name = none) : orderedKeys o = true :=
  orderedKeys_of_names
    (fun _ hkv => hnames _ (hsub.subset (List.mem_map_of_mem hkv))) (hsub.nodup hn)

/-- The object of a deployment can be read back. -/
theorem Deployment.canonical_toJson (d : Deployment) : d.toJson.canonical = true := by
  refine canonical_obj.mpr ⟨?_, ?_⟩
  · refine @orderedKeys_of_sublist Json d.properties [js "address", js "txHash", js "kind",
      js "layout", js "allAddresses"] ?_ (by decide) (by decide)
    simp only [Deployment.properties, List.map_cons, List.map_append]
    refine List.Sublist.cons_cons _ ?_
    exact (keys_optional _ _).append ((keys_optional _ _).append
      ((keys_optional _ _).append (keys_optional _ _)))
  · intro kv hkv
    simp only [Deployment.properties, List.mem_cons, List.mem_append] at hkv
    rcases hkv with rfl | h | h | h | h
    · rfl
    · obtain ⟨s, -, heq⟩ := Option.map_eq_some_iff.mp (mem_optional h).2
      rw [← heq]
      rfl
    · obtain ⟨kind, -, heq⟩ := Option.map_eq_some_iff.mp (mem_optional h).2
      rw [← heq]
      rfl
    · obtain ⟨layout, -, heq⟩ := Option.map_eq_some_iff.mp (mem_optional h).2
      rw [← heq]
      exact layout.property
    · obtain ⟨all, -, heq⟩ := Option.map_eq_some_iff.mp (mem_optional h).2
      rw [← heq]
      exact canonicalList_map Json.str all fun _ _ => rfl

/-! ## The manifest as JSON -/

/-- A list of deployments is read back. -/
lemma readDeployments_map (ds : List Deployment) :
    readDeployments (.arr (ds.map Deployment.toJson)) = some ds := by
  show (ds.map Deployment.toJson).mapM Deployment.of? = some ds
  induction ds with
  | nil => rfl
  | cons d ds ih => simp [List.mapM_cons, Deployment.of?_toJson, ih]

/-- The entries that hold a deployment. -/
def definedEntries (impls : List (VersionHash × Option Deployment)) :
    List (VersionHash × Option Deployment) := impls.filter fun entry => entry.2.isSome

/-- A manifest without the entries that hold `undefined`. -/
def ManifestData.defined (data : ManifestData) : ManifestData :=
  { data with impls := ⟨definedEntries data.impls.entries, data.impls.keyed.filter _⟩ }

/-- The implementations that are not `undefined` are read back. -/
lemma implsOf?_implsJson (impls : Map VersionHash (Option Deployment)) :
    implsOf? (implsJson impls.entries)
      = some ⟨definedEntries impls.entries, impls.keyed.filter _⟩ := by
  have hentries : ∀ entries : List (VersionHash × Option Deployment),
      (implsJson entries).mapM (fun kv => do
        pure (← VersionHash.of? kv.1, some (← Deployment.of? kv.2)))
        = some (definedEntries entries) := by
    intro entries
    induction entries with
    | nil => rfl
    | cons entry entries ih =>
      obtain ⟨version, d⟩ := entry
      cases d with
      | none => exact ih
      | some d =>
        have hcons : implsJson ((version, some d) :: entries)
            = (version.text, d.toJson) :: implsJson entries := rfl
        rw [hcons, List.mapM_cons, ih, VersionHash.of?_text, Deployment.of?_toJson]
        rfl
  unfold implsOf?
  rw [hentries]
  exact Map.of?_entries ⟨definedEntries impls.entries, impls.keyed.filter _⟩

/-- The keys of the implementations are different texts. -/
lemma keys_implsJson (impls : List (VersionHash × Option Deployment)) :
    List.Sublist ((implsJson impls).map Prod.fst)
      ((impls.map Prod.fst).map VersionHash.text) := by
  induction impls with
  | nil => exact List.Sublist.refl _
  | cons entry impls ih =>
    obtain ⟨version, d⟩ := entry
    cases d with
    | none => exact ih.cons _
    | some d => exact ih.cons_cons _

lemma canonical_implsJson (impls : Map VersionHash (Option Deployment)) :
    (Json.obj (implsJson impls.entries)).canonical = true := by
  refine canonical_obj.mpr ⟨?_, ?_⟩
  · refine orderedKeys_of_sublist (keys_implsJson impls.entries)
      (impls.keyed.map VersionHash.text_injective) ?_
    intro name hname
    obtain ⟨version, -, rfl⟩ := List.mem_map.mp hname
    exact version.arrayIndex?_text
  · intro kv hkv
    obtain ⟨entry, -, hentry⟩ := List.mem_filterMap.mp hkv
    obtain ⟨d, -, rfl⟩ := Option.map_eq_some_iff.mp hentry
    exact d.canonical_toJson

/-- The object of a manifest can be read back. -/
theorem ManifestData.canonical_toJson (data : ManifestData) : data.toJson.canonical = true := by
  refine canonical_obj.mpr ⟨?_, ?_⟩
  · refine @orderedKeys_of_sublist Json data.properties [js "manifestVersion", js "admin",
      js "proxies", js "impls"] ?_ (by decide) (by decide)
    simp only [ManifestData.properties, List.map_cons, List.map_append, List.map_nil]
    exact ((keys_optional _ _).append (List.Sublist.refl _)).cons_cons _
  · intro kv hkv
    simp only [ManifestData.properties, List.mem_cons, List.mem_append, List.not_mem_nil,
      or_false] at hkv
    rcases hkv with rfl | h | rfl | rfl
    · rfl
    · obtain ⟨admin, -, heq⟩ := Option.map_eq_some_iff.mp (mem_optional h).2
      rw [← heq]
      exact admin.canonical_toJson
    · exact canonicalList_map _ _ fun d _ => d.canonical_toJson
    · exact canonical_implsJson data.impls

/-- A manifest is read back from its JSON form, without its undefined entries. -/
theorem ManifestData.of?_toJson (data : ManifestData) :
    ManifestData.of? data.toJson = some data.defined := by
  have hlookup : data.properties.lookup (js "manifestVersion")
        = some (.str data.manifestVersion) ∧
      data.properties.lookup (js "admin") = data.admin.map Deployment.toJson ∧
      data.properties.lookup (js "proxies")
        = some (.arr (data.proxies.map Deployment.toJson)) ∧
      data.properties.lookup (js "impls") = some (.obj (implsJson data.impls.entries)) := by
    refine ⟨?_, ?_, ?_, ?_⟩ <;>
      simp +decide [ManifestData.properties, lookup_cons_eq, List.lookup_append, lookup_optional]
  obtain ⟨hversion, hadmin, hproxies, himpls⟩ := hlookup
  have hadmin' : readOptional Deployment.of? (js "admin") data.properties = some data.admin :=
    readOptional_eq Deployment.of?_toJson hadmin
  simp only [ManifestData.toJson, ManifestData.of?, hversion, hadmin', hproxies, himpls,
    Option.bind_some, readDeployments_map, readImpls, implsOf?_implsJson]
  rfl

/-! ## Reading what was written -/

/-- What `write` keeps of a manifest. -/
def ManifestData.persisted (data : ManifestData) : ManifestData :=
  (normalizeManifestData data).defined

section Chain

variable (chain : Chain) (disk : Disk)

/-- The file that was written is the one that is read. -/
lemma readFile_writeFile (content : Bytes) :
    readFile chain (writeFile chain disk content) = .ok content := by
  unfold readFile writeFile renameFileIfRequired
  cases hnamed : chain.named with
  | false => simp
  | true =>
    cases hfallback : disk.fallbackFile with
    | none => simp [hfallback]
    | some old => simp

/-- The text of a manifest is its normalized object. -/
lemma decode_manifestText (data : ManifestData) :
    Json.decode (manifestText data) = some (normalizeManifestData data).toJson := by
  refine decode_stringifyIndent (normalizeManifestData data).canonical_toJson ?_
  intro u hu
  rw [List.mem_singleton.mp hu]
  decide

/-- What is written under the lock is what the next reader gets, in normal form. -/
theorem read_write {data : ManifestData} (hversion : data.manifestVersion = currentManifestVersion) :
    read chain (write chain disk data) = .ok data.persisted := by
  have hvalid : validateOrUpdateManifestVersion chain (normalizeManifestData data).toJson
      = .ok (normalizeManifestData data).toJson := by
    have hlookup : (normalizeManifestData data).properties.lookup (js "manifestVersion")
        = some (.str currentManifestVersion) := by
      rw [← hversion]
      exact List.lookup_cons_self
    rw [ManifestData.toJson, validateOrUpdateManifestVersion, hlookup]
    simp only [chain.compare_oldest, chain.compare_current, if_true]
  have hparse : parseManifest chain (manifestText data) = .ok data.persisted := by
    simp only [parseManifest, decode_manifestText, hvalid, bind, Except.bind,
      ManifestData.of?_toJson]
    rfl
  rw [read, write, readFile_writeFile]
  exact hparse

variable {chain disk}

/-- What has been validated has the current version. -/
lemma version_of_validate {value value' : Json}
    (h : validateOrUpdateManifestVersion chain value = .ok value') :
    ∃ kvs, value' = .obj kvs ∧
      kvs.lookup (js "manifestVersion") = some (.str currentManifestVersion) := by
  unfold validateOrUpdateManifestVersion at h
  split at h
  · cases h
  · next kvs =>
    split at h
    · next manifestVersion hversion =>
      split at h
      · cases h
      · cases h
      · split at h
        · cases h
        · unfold migrateManifest at h
          split_ifs at h
          cases h
          refine ⟨_, rfl, ?_⟩
          rw [lookup_setProp_ne (by decide)]
          exact lookup_setProp_self _ _ _
        · split_ifs at h with heq
          cases h
          exact ⟨kvs, rfl, heq ▸ hversion⟩
    · cases h
  · cases h

/-- A manifest that was read has the current version. -/
theorem version_of_read {data : ManifestData} (h : read chain disk = .ok data) :
    data.manifestVersion = currentManifestVersion := by
  unfold read at h
  split at h
  · cases h
    rfl
  · cases h
  · next content _ =>
    unfold parseManifest at h
    split at h
    · cases h
    · next value _ =>
      cases hvalid : validateOrUpdateManifestVersion chain value with
      | error e =>
        rw [hvalid] at h
        cases h
      | ok value' =>
        rw [hvalid] at h
        obtain ⟨kvs, rfl, hlookup⟩ := version_of_validate hvalid
        cases hof : ManifestData.of? (.obj kvs) with
        | none =>
          simp only [hof, bind, Except.bind] at h
          cases h
        | some data' =>
          simp only [hof, bind, Except.bind] at h
          cases h
          simp only [ManifestData.of?, hlookup, Option.bind_eq_bind, Option.bind_some, readString,
            Option.bind_eq_some_iff] at hof
          obtain ⟨admin, -, proxies, -, impls, -, heq⟩ := hof
          cases heq
          rfl

end Chain

/-! ## The queries on what was written -/

@[simp] lemma normalizeDeployment_address (d : Deployment) (fields : List Field) :
    (normalizeDeployment d fields).address = d.address := rfl

@[simp] lemma normalizeDeployment_txHash (d : Deployment) (fields : List Field) :
    (normalizeDeployment d fields).txHash = d.txHash := rfl

/-- An implementation is found as before when the `undefined` ones are left out. -/
lemma get_defined (impls : Map VersionHash (Option Deployment)) (version : VersionHash) :
    (Map.get ⟨definedEntries impls.entries, impls.keyed.filter _⟩ version).join
      = (impls.get version).join := by
  ext d
  have hmem : ∀ map : Map VersionHash (Option Deployment),
      (map.get version).join = some d ↔ (version, some d) ∈ map.entries := by
    intro map
    rw [← Map.get_eq_some, Option.join_eq_some_iff]
  rw [hmem, hmem]
  show (version, some d) ∈ definedEntries impls.entries ↔ _
  simp [definedEntries]

/-- Under every lens the file holds the deployment in normal form. -/
theorem get_persisted (data : ManifestData) (lens : Lens) :
    lens.get data.persisted = (lens.get data).map fun d => normalizeDeployment d lens.fields := by
  cases lens with
  | admin => rfl
  | impl version =>
    show (Map.get ⟨definedEntries _, _⟩ version).join = _
    rw [get_defined]
    show ((data.impls.mapValues _).get version).join = _
    rw [Map.get_mapValues]
    show _ = ((data.impls.get version).join).map _
    cases data.impls.get version with
    | none => rfl
    | some d => rfl

lemma find?_map_of_address (ds : List Deployment) (f : Deployment → Deployment)
    (hf : ∀ d, (f d).address = d.address) (address : JsString) :
    (ds.map f).find? (fun p => p.address = address)
      = (ds.find? fun p => p.address = address).map f := by
  rw [List.find?_map]
  congr 2
  funext d
  simp [hf]

/-- A proxy is found on the disk as in the manifest. -/
theorem getProxyFromAddress_persisted (data : ManifestData) (address : JsString) :
    getProxyFromAddress data.persisted address
      = (getProxyFromAddress data address).map fun p => normalizeDeployment p [.kind] :=
  find?_map_of_address data.proxies (fun p => normalizeDeployment p [.kind]) (fun _ => rfl) address

lemma hasAddress_normal (address : JsString) (d : Option Deployment) :
    ManifestData.hasAddress address
        (d.map fun d => normalizeDeployment d [.layout, .allAddresses])
      = ManifestData.hasAddress address d := by
  cases d with
  | none => rfl
  | some d => rfl

/-- A deployment is found on the disk as in the manifest. -/
theorem getDeploymentFromAddress_persisted (data : ManifestData) (address : JsString) :
    getDeploymentFromAddress data.persisted address
      = (getDeploymentFromAddress data address).map fun d =>
        normalizeDeployment d [.layout, .allAddresses] := by
  have hpred : ∀ d : Option Deployment,
      decide ((d.map fun d => normalizeDeployment d [.layout, .allAddresses]).isSome = true ∧
        ManifestData.hasAddress address d = true) = ManifestData.hasAddress address d := by
    intro d
    cases d with
    | none => rfl
    | some d => simp
  show (((definedEntries (data.impls.entries.map _)).find? _).bind _) = _
  unfold definedEntries getDeploymentFromAddress
  simp only [List.find?_filter, List.find?_map, Function.comp_def, hasAddress_normal, hpred]
  cases data.impls.entries.find? fun entry => ManifestData.hasAddress address entry.2 with
  | none => rfl
  | some entry => rfl

/-- The manifest that is read after a write answers every query as the written one does, up to the
fields that are not stored. -/
theorem written_is_read (chain : Chain) (disk : Disk) {data : ManifestData}
    (hversion : data.manifestVersion = currentManifestVersion) :
    ∃ data', read chain (write chain disk data) = .ok data' ∧
      (∀ lens : Lens, lens.get data'
        = (lens.get data).map fun d => normalizeDeployment d lens.fields) ∧
      (∀ address, getProxyFromAddress data' address
        = (getProxyFromAddress data address).map fun p => normalizeDeployment p [.kind]) ∧
      ∀ address, getDeploymentFromAddress data' address
        = (getDeploymentFromAddress data address).map fun d =>
          normalizeDeployment d [.layout, .allAddresses] :=
  ⟨data.persisted, read_write chain disk hversion, get_persisted data,
    getProxyFromAddress_persisted data, getDeploymentFromAddress_persisted data⟩

/-- A chain with a name, away from development. -/
def sampleChain : Chain := ⟨true, false, fun _ _ => some false, rfl, rfl⟩

/-- A version hash. -/
def sampleVersion : VersionHash := ⟨List.replicate 64 0x61, rfl⟩

/-- A deployment with a transaction. -/
def sampleDeployment : Deployment := ⟨js "0xaa", some (js "0x01"), none, none, none⟩

/-- The first write on a chain whose file still has the name without a network name. -/
theorem written_is_read_renamed :
    ∃ data', read sampleChain (write sampleChain
        ⟨none, some (manifestText defaultManifest)⟩
        (Lens.set defaultManifest (some sampleDeployment) (.impl sampleVersion))) = .ok data' ∧
      getDeploymentFromAddress data' (js "0xaa") = some sampleDeployment := by
  obtain ⟨data', hread, -, -, hfound⟩ := @written_is_read sampleChain
    ⟨none, some (manifestText defaultManifest)⟩
    (Lens.set defaultManifest (some sampleDeployment) (.impl sampleVersion)) rfl
  refine ⟨data', hread, ?_⟩
  rw [hfound]
  decide +kernel

end PointNetwork.Manifest
