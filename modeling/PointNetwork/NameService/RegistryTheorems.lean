import PointNetwork.Js.Ascii
import PointNetwork.NameService.Registry

/-!
# Theorems about the records of domains

A content that is written is read as a cookie string, and then exactly as it was merged, unless its
first key begins with `ipfs://`.
-/

namespace PointNetwork.NameService

open Js CookieString

variable {map : Entries}

/-- The first entry of the content has a key that begins with `ipfs://`. -/
def StartsWithIpfs (map : Entries) : Prop := ∃ entry ∈ map.head?, ipfs <+: entry.1

/-- The text of a map begins with `ipfs://` if and only if its first key does. -/
lemma ipfs_prefix_encode (map : Entries) : ipfs <+: encodeCookieString map ↔ StartsWithIpfs map := by
  have hequals : equalsSign ∉ ipfs := by decide
  have hne : ¬ ipfs <+: [] := by decide
  rw [encodeCookieString_eq]
  cases map with
  | nil => simp [StartsWithIpfs, hne]
  | cons entry map =>
    have htext : ∃ rest, [semicolon].intercalate ((entry :: map).map pairText) =
        entry.1 ++ equalsSign :: rest := by
      cases map with
      | nil => exact ⟨entry.2, by simp [pairText]⟩
      | cons next map =>
        refine ⟨entry.2 ++ semicolon :: [semicolon].intercalate ((next :: map).map pairText), ?_⟩
        rw [List.map_cons, List.map_cons, List.intercalate_cons_cons]
        simp [pairText]
    obtain ⟨rest, htext⟩ := htext
    rw [htext, prefix_append_of_not_mem hequals (Or.inr rfl)]
    simp [StartsWithIpfs]

/-- What the reader makes of a written content. -/
lemma valuesOf_encode (h : Clean map) (hipfs : ¬ StartsWithIpfs map) :
    valuesOf (encodeCookieString map) = map := by
  rw [← ipfs_prefix_encode, ← List.isPrefixOf_iff_prefix] at hipfs
  rw [valuesOf, if_neg hipfs, h.parse_encode]

/-- A content that begins as an ipfs address is read as a root directory. -/
lemma valuesOf_of_ipfs {content : JsString} (h : ipfs <+: content) :
    valuesOf content =
      [(js "pn_routes", js "ipfs://ignore"), (js "pn_root", content), (js "pn_key", [])] := by
  rw [valuesOf, if_pos (List.isPrefixOf_iff_prefix.mpr h)]

/-- The assignment of a key that is no index puts it behind the others. -/
lemma head?_setProp {key v : JsString} (hkey : arrayIndex? key = none) (map : Entries) :
    (setProp key v map).head?.map Prod.fst = if map = [] then some key else map.head?.map Prod.fst := by
  cases map with
  | nil => rfl
  | cons entry map =>
    obtain ⟨x, w⟩ := entry
    have hbefore : insertsBefore key x = false := by simp [insertsBefore, hkey]
    rw [setProp]
    by_cases hx : x = key
    · simp [hx]
    · simp [hx, hbefore]

/-- The content begins so when its first key does. -/
lemma startsWithIpfs_iff (map : Entries) :
    StartsWithIpfs map ↔ ∃ key ∈ map.head?.map Prod.fst, ipfs <+: key := by
  unfold StartsWithIpfs
  cases map with
  | nil => simp
  | cons entry map => simp

/-- A key that the node writes. -/
structure IsRecordKey (key : JsString) : Prop where
  plain : IsPlain key
  ne_proto : key ≠ js "__proto__"
  index_none : arrayIndex? key = none
  no_ipfs : ¬ ipfs <+: key

lemma isRecordKey_pn_alias : IsRecordKey (js "pn_alias") :=
  ⟨by decide, by decide, by decide, by decide⟩

lemma isRecordKey_pn_routes : IsRecordKey (js "pn_routes") :=
  ⟨by decide, by decide, by decide, by decide⟩

lemma isRecordKey_pn_root : IsRecordKey (js "pn_root") :=
  ⟨by decide, by decide, by decide, by decide⟩

lemma isRecordKey_pn_key : IsRecordKey (js "pn_key") :=
  ⟨by decide, by decide, by decide, by decide⟩

lemma IsRecordKey.clean_setProp {key v : JsString} (hkey : IsRecordKey key) (hv : IsPlain v)
    (h : Clean map) : Clean (setProp key v map) := h.setProp hkey.plain hkey.ne_proto hv

/-- Setting a key of the record does not change how the content begins. -/
lemma IsRecordKey.startsWithIpfs_setProp {key v : JsString} (hkey : IsRecordKey key)
    (map : Entries) : StartsWithIpfs (setProp key v map) ↔ StartsWithIpfs map := by
  rw [startsWithIpfs_iff, startsWithIpfs_iff, head?_setProp hkey.index_none]
  by_cases hmap : map = []
  · simp [hmap, hkey.no_ipfs]
  · rw [if_neg hmap]

/-! ## Deployments -/

/-- A value that deploy data can have. -/
abbrev PlainText := {text : JsString // IsPlain text}

/-- The data that a deployment registers for a domain. -/
inductive DomainData
  | pnAlias (identity : PlainText)
  | pnRoot (routes root : PlainText)

namespace DomainData

/-- What is written for the data. -/
def entries : DomainData → Entries
  | .pnAlias identity => [(js "pn_alias", identity)]
  | .pnRoot routes root => [(js "pn_routes", routes), (js "pn_root", root)]

/-- Resolution sees exactly this data. -/
def SeenIn (resolved : PointDomainData) : DomainData → Prop
  | .pnAlias identity => resolved.identity = identity ∧ resolved.isAlias = true ∧
      resolved.routesId = [] ∧ resolved.rootDirId = []
  | .pnRoot routes root => resolved.isAlias = false ∧ resolved.routesId = routes ∧
      resolved.rootDirId = root

lemma clean_merge (old : JsString) (data : DomainData) :
    Clean (mergeAndResolveConflicts old data.entries) := by
  rw [mergeAndResolveConflicts_eq]
  have hkept := clean_kept old data.entries
  cases data with
  | pnAlias identity => exact isRecordKey_pn_alias.clean_setProp identity.2 hkept
  | pnRoot routes root =>
    exact isRecordKey_pn_root.clean_setProp root.2
      (isRecordKey_pn_routes.clean_setProp routes.2 hkept)

/-- A merge begins as what it keeps of the old content. -/
lemma startsWithIpfs_merge (old : JsString) (data : DomainData) :
    StartsWithIpfs (mergeAndResolveConflicts old data.entries) ↔
      StartsWithIpfs (kept old data.entries) := by
  rw [mergeAndResolveConflicts_eq]
  cases data with
  | pnAlias identity => exact isRecordKey_pn_alias.startsWithIpfs_setProp _
  | pnRoot routes root =>
    exact (isRecordKey_pn_root.startsWithIpfs_setProp _).trans
      (isRecordKey_pn_routes.startsWithIpfs_setProp _)

/-- Beside an alias, the old root and routes do not matter. -/
lemma lookup_pnAlias (old : JsString) (identity : PlainText) :
    (mergeAndResolveConflicts old (pnAlias identity).entries).lookup (js "pn_alias") =
      some identity.1 :=
  lookup_setProp_self _ _ _

/-- Beside a root there is no alias. -/
lemma lookup_pnRoot (old : JsString) (routes root : PlainText) {merged : Entries}
    (hmerged : merged = mergeAndResolveConflicts old (pnRoot routes root).entries) :
    merged.lookup (js "pn_alias") = none ∧ merged.lookup (js "pn_routes") = some routes.1 ∧
      merged.lookup (js "pn_root") = some root.1 := by
  have hrootRoutes : js "pn_routes" ≠ js "pn_root" := by decide
  have hrootAlias : js "pn_alias" ≠ js "pn_root" := by decide
  have hroutesAlias : js "pn_alias" ≠ js "pn_routes" := by decide
  have halias : has (js "pn_alias") (pnRoot routes root).entries = false := by
    simp [has, entries, lookup_cons_eq, hrootAlias, hroutesAlias]
  have hroot : has (js "pn_root") (pnRoot routes root).entries = true := by
    simp [has, entries, lookup_cons_eq, hrootRoutes.symm, root.2.ne_nil]
  have hkept : (kept old (pnRoot routes root).entries).lookup (js "pn_alias") = none := by
    rw [kept, if_neg (by simp [halias]), if_pos hroot, lookup_deleteKey, if_pos rfl]
  subst hmerged
  refine ⟨?_, ?_, lookup_setProp_self _ _ _⟩
  · rw [← hkept]
    exact (lookup_setProp_ne hrootAlias _ _).trans (lookup_setProp_ne hroutesAlias _ _)
  · exact (lookup_setProp_ne hrootRoutes _ _).trans (lookup_setProp_self _ _ _)

end DomainData

variable {addresses : Addresses} {owner content : JsString}

/-- A content that begins with `ipfs://` is no deploy data. -/
lemma DomainData.not_seenIn_of_ipfs {data : DomainData} (h : ipfs <+: content)
    (hequals : equalsSign ∈ content) :
    ¬ data.SeenIn (parseDomainRegistry addresses ⟨owner, some content⟩) := by
  intro hseen
  have hvalues := valuesOf_of_ipfs h
  have halias : value (valuesOf content) (js "pn_alias") = [] := by
    rw [hvalues]
    rfl
  have hroot : value (valuesOf content) (js "pn_root") = content := by
    rw [hvalues]
    rfl
  cases data with
  | pnAlias identity =>
    obtain ⟨-, hisAlias, -⟩ := hseen
    simp [parseDomainRegistry, halias] at hisAlias
  | pnRoot routes root =>
    obtain ⟨-, -, hseen⟩ := hseen
    simp [parseDomainRegistry, halias, hroot] at hseen
    exact root.2.no_equals (hseen ▸ hequals)

/-- A content with entries has an equals sign. -/
lemma equalsSign_mem_encode (h : StartsWithIpfs map) : equalsSign ∈ encodeCookieString map := by
  obtain ⟨entry, hentry, -⟩ := h
  rw [encodeCookieString_eq]
  cases map with
  | nil => cases hentry
  | cons e map => cases map <;> simp [pairText]

/-- The data is seen in what is merged and written. -/
theorem DomainData.seenIn_encode_iff (old : JsString) (data : DomainData) :
    data.SeenIn (parseDomainRegistry addresses
        ⟨owner, some (encodeCookieString (mergeAndResolveConflicts old data.entries))⟩) ↔
      ¬ StartsWithIpfs (kept old data.entries) := by
  rw [← data.startsWithIpfs_merge]
  constructor
  · exact fun hseen hipfs => DomainData.not_seenIn_of_ipfs ((ipfs_prefix_encode _).mpr hipfs)
      (equalsSign_mem_encode hipfs) hseen
  · intro hipfs
    have hvalues := valuesOf_encode (data.clean_merge old) hipfs
    cases data with
    | pnAlias identity =>
      have hlookup := lookup_pnAlias old identity
      have hne := identity.2.ne_nil
      simp [SeenIn, parseDomainRegistry, hvalues, value, hlookup, hne]
    | pnRoot routes root =>
      obtain ⟨halias, hroutes, hroot⟩ := lookup_pnRoot old routes root rfl
      simp [SeenIn, parseDomainRegistry, hvalues, value, halias, hroutes, hroot]

/-- For a domain of the Solana name service, resolution sees the deployed data in the written content
if and only if the old entries that are kept do not begin with a key `ipfs://…`. -/
theorem editDomainRegistry_seen_iff {σ : Type} (world : Deployer.World σ) (s : σ)
    (addresses : Addresses) (owner : JsString) {domain : JsString}
    (hdomain : Deployer.getNameService domain = .SNS) (old : JsString) (data : DomainData) :
    (∀ content, Deployer.Entry.call (.setDomainContent .SNS domain content) ∈
        (Deployer.editDomainRegistry world domain data.entries old).log s →
      data.SeenIn (parseDomainRegistry addresses ⟨owner, some content⟩)) ↔
      ¬ StartsWithIpfs (kept old data.entries) := by
  have hlog : (Deployer.editDomainRegistry world domain data.entries old).log s =
      [.call (.setDomainContent .SNS domain
        (encodeCookieString (mergeAndResolveConflicts old data.entries)))] := by
    unfold Deployer.editDomainRegistry
    rw [hdomain]
    rfl
  have hseen := @DomainData.seenIn_encode_iff addresses owner old data
  rw [hlog, ← hseen]
  simp

/-- The addresses of the runs below. -/
def Addresses.small : Addresses := ⟨.firstBytes, id⟩

/-- A deployment of an alias over the content of an older site. -/
theorem editDomainRegistry_seen_alias :
    Deployer.getNameService (js "a.sol") = .SNS ∧
      ∀ content, Deployer.Entry.call (.setDomainContent .SNS (js "a.sol") content) ∈
        (Deployer.editDomainRegistry (fun _ s => (.error .rejected, s)) (js "a.sol")
          (DomainData.pnAlias ⟨js "bob", by decide⟩).entries (js "x=1;pn_root=old")).log (0 : ℕ) →
      DomainData.SeenIn (parseDomainRegistry .small ⟨js "owner", some content⟩)
        (.pnAlias ⟨js "bob", by decide⟩) := by
  have hdomain : Deployer.getNameService (js "a.sol") = .SNS := by decide
  refine ⟨hdomain, ?_⟩
  apply (editDomainRegistry_seen_iff _ _ _ _ hdomain _ _).mpr
  unfold StartsWithIpfs
  decide +kernel

/-- Over the content `ipfs://a?x=1`, the deployed alias is not seen. -/
theorem editDomainRegistry_not_seen : ¬ ∀ {σ : Type} (world : Deployer.World σ) (s : σ)
    (addresses : Addresses) (owner domain : JsString), Deployer.getNameService domain = .SNS →
    ∀ (old : JsString) (data : DomainData) (content : JsString),
      Deployer.Entry.call (.setDomainContent .SNS domain content) ∈
        (Deployer.editDomainRegistry world domain data.entries old).log s →
      data.SeenIn (parseDomainRegistry addresses ⟨owner, some content⟩) := by
  intro h
  have hseen := h (fun _ s => (.error .rejected, s)) (0 : ℕ) .small (js "owner") (js "a.sol")
    (by decide) (js "ipfs://a?x=1") (.pnAlias ⟨js "bob", by decide⟩) _ List.mem_cons_self
  refine (DomainData.seenIn_encode_iff _ _).mp hseen ⟨(js "ipfs://a?x", js "1"), ?_, by decide⟩
  decide +kernel

/-! ## The reference to the wallet -/

/-- Without an equals sign there is no entry. -/
lemma parseCookieString_of_no_equals {str : JsString} (h : equalsSign ∉ str) :
    parseCookieString str = [] := by
  have hstep : ∀ pairs : List JsString, (∀ pair ∈ pairs, equalsSign ∉ pair) →
      pairs.foldl parsePair [] = [] := by
    intro pairs
    induction pairs with
    | nil => exact fun _ => rfl
    | cons pair pairs ih =>
      intro hpairs
      have hpair : parsePair [] pair = [] := by
        rw [parsePair, List.splitOn_eq_singleton (hpairs pair List.mem_cons_self)]
      rw [List.foldl_cons, hpair]
      exact ih fun p hp => hpairs p (List.mem_cons_of_mem _ hp)
  exact hstep _ fun pair hp hm => h ((not_mem_and_subset_of_mem_splitOn hp).2 hm)

/-- Nothing is lost when a blank content is taken for an empty one. -/
lemma parseCookieString_of_blank {str : JsString} (h : trim str = []) :
    parseCookieString str = [] := by
  apply parseCookieString_of_no_equals
  intro hequals
  exact absurd (isSpace_of_trim_eq_nil h hequals) (by decide)

/-- The key of a wallet. -/
abbrev PublicKey := {key : Bytes // key.length = 64}

lemma isPlain_publicKey (key : PublicKey) : IsPlain (toHex key.1) := by
  have hdigits : ∀ d < 16, isSpace (hexDigitUnit d) = false ∧ semicolon ≠ hexDigitUnit d ∧
      equalsSign ≠ hexDigitUnit d := by decide
  refine ⟨fun hnil => ?_, trim_of_no_space fun u hu => ?_, fun hu => ?_, fun hu => ?_⟩
  · have hlength := length_toHex key.1
    rw [hnil, key.2] at hlength
    simp at hlength
  · obtain ⟨d, hd, rfl⟩ := exists_hexDigitUnit hu
    exact (hdigits d hd).1
  · obtain ⟨d, hd, he⟩ := exists_hexDigitUnit hu
    exact (hdigits d hd).2.1 he
  · obtain ⟨d, hd, he⟩ := exists_hexDigitUnit hu
    exact (hdigits d hd).2.2 he

/-- Between two contents of the record, the key is set and all else is as it was. -/
structure OnlyKeyChanged (addresses : Addresses) (owner old content publicKey : JsString) :
    Prop where
  identity : (parseDomainRegistry addresses ⟨owner, some content⟩).identity =
    (parseDomainRegistry addresses ⟨owner, some old⟩).identity
  isAlias : (parseDomainRegistry addresses ⟨owner, some content⟩).isAlias =
    (parseDomainRegistry addresses ⟨owner, some old⟩).isAlias
  routesId : (parseDomainRegistry addresses ⟨owner, some content⟩).routesId =
    (parseDomainRegistry addresses ⟨owner, some old⟩).routesId
  rootDirId : (parseDomainRegistry addresses ⟨owner, some content⟩).rootDirId =
    (parseDomainRegistry addresses ⟨owner, some old⟩).rootDirId
  pointPublicKey :
    (parseDomainRegistry addresses ⟨owner, some content⟩).pointPublicKey = publicKey
  entries : ∀ key v, key ≠ js "pn_key" → (parseCookieString old).lookup key = some v →
    (parseCookieString content).lookup key = some v

/-- What `setPointReference` writes. -/
lemma setPointReference_eq (solDomain owner old : JsString) (publicKey : JsString) :
    setPointReference true solDomain owner ⟨owner, some old⟩ publicKey =
      .ok (some (encodeCookieString (setProp (js "pn_key") publicKey (parseCookieString old)))) := by
  have halias : has (js "pn_alias") [(js "pn_key", publicKey)] = false := by
    have hne : js "pn_alias" ≠ js "pn_key" := by decide
    simp [has, hne]
  have hroot : has (js "pn_root") [(js "pn_key", publicKey)] = false := by
    have hne : js "pn_root" ≠ js "pn_key" := by decide
    simp [has, hne]
  have hkept : ∀ content : JsString, kept content [(js "pn_key", publicKey)] =
      parseCookieString content := fun content => by
    rw [kept, if_neg (by simp [halias]), if_neg (by simp [hroot])]
  have hcontent : parseCookieString (if trim old ≠ [] then old else []) = parseCookieString old := by
    split
    · rfl
    · rename_i hblank
      rw [parseCookieString_of_blank (not_not.mp hblank)]
      rfl
  unfold setPointReference
  simp only [Bool.not_true, Bool.false_eq_true, if_false, ne_eq, not_true_eq_false,
    mergeAndResolveConflicts_eq, hkept]
  rw [List.foldl_cons, List.foldl_nil, ← hcontent]

/-- The record of a site on IPFS does not survive. -/
lemma rootDirId_ne_of_ipfs {old : JsString} (hold : ipfs <+: old) {v : JsString}
    (hv : v = value (parseCookieString old) (js "pn_root")) : v ≠ old := by
  intro he
  have hne : old ≠ [] := fun hnil => by
    rw [hnil] at hold
    exact absurd hold (by decide)
  unfold value at hv
  cases hlookup : (parseCookieString old).lookup (js "pn_root") with
  | none =>
    rw [hlookup] at hv
    exact hne (he.symm.trans hv)
  | some w =>
    rw [hlookup] at hv
    have hw : w = old := hv.symm.trans he
    have hmem := mem_of_lookup hlookup
    have hplain := (clean_parseCookieString old).values _ hmem
    have hequals : equalsSign ∉ old := hw ▸ hplain.no_equals
    rw [parseCookieString_of_no_equals hequals] at hmem
    exact List.not_mem_nil hmem

/-- `setPointReference` changes nothing but the key if and only if the old content does not begin with
`ipfs://` and the first of its entries has no such key. -/
theorem setPointReference_onlyKeyChanged_iff (addresses : Addresses)
    (solDomain owner old : JsString) (key : PublicKey) :
    (∀ content, setPointReference true solDomain owner ⟨owner, some old⟩ (toHex key.1) =
        .ok (some content) → OnlyKeyChanged addresses owner old content (toHex key.1)) ↔
      ¬ ipfs <+: old ∧ ¬ StartsWithIpfs (parseCookieString old) := by
  have hold := clean_parseCookieString old
  have hclean := isRecordKey_pn_key.clean_setProp (isPlain_publicKey key) hold
  have hstarts := isRecordKey_pn_key.startsWithIpfs_setProp (v := toHex key.1) (parseCookieString old)
  have hother : ∀ k, k ≠ js "pn_key" →
      (setProp (js "pn_key") (toHex key.1) (parseCookieString old)).lookup k =
        (parseCookieString old).lookup k := fun k hk => lookup_setProp_ne hk _ _
  have hself := lookup_setProp_self (js "pn_key") (toHex key.1) (parseCookieString old)
  have hforall : (∀ content, setPointReference true solDomain owner ⟨owner, some old⟩ (toHex key.1) =
        .ok (some content) → OnlyKeyChanged addresses owner old content (toHex key.1)) ↔
      OnlyKeyChanged addresses owner old
        (encodeCookieString (setProp (js "pn_key") (toHex key.1) (parseCookieString old)))
        (toHex key.1) := by
    simp [setPointReference_eq]
  rw [hforall, ← hstarts]
  generalize setProp (js "pn_key") (toHex key.1) (parseCookieString old) = merged at *
  constructor
  · intro h
    -- a record that begins with a key `ipfs://…` is read as a root directory only, without the new
    -- key
    have hno : ¬ StartsWithIpfs merged := by
      intro hipfs
      have hkey := h.pointPublicKey
      have hvalue : value (valuesOf (encodeCookieString merged)) (js "pn_key") = [] := by
        rw [valuesOf_of_ipfs ((ipfs_prefix_encode merged).mpr hipfs)]
        rfl
      exact (isPlain_publicKey key).ne_nil (hkey.symm.trans hvalue)
    refine ⟨fun hipfs => ?_, hno⟩
    have hvalues := valuesOf_encode hclean hno
    have holdValues := valuesOf_of_ipfs hipfs
    have halias : value merged (js "pn_alias") = [] := by
      have hidentity := h.identity
      simp only [parseDomainRegistry, Option.getD_some, hvalues, holdValues] at hidentity
      exact hidentity
    -- the old record was a root directory, which the new one no longer gives
    have hroot := h.rootDirId
    simp only [parseDomainRegistry, Option.getD_some, hvalues, holdValues, halias] at hroot
    have hvalue : value merged (js "pn_root") = value (parseCookieString old) (js "pn_root") := by
      rw [value, value, hother _ (by decide)]
    exact rootDirId_ne_of_ipfs hipfs hvalue hroot
  · rintro ⟨hipfs, hno⟩
    have hvalues := valuesOf_encode hclean hno
    have holdValues : valuesOf old = parseCookieString old := by
      rw [valuesOf, if_neg fun hpre => hipfs (List.isPrefixOf_iff_prefix.mp hpre)]
    have hsame : ∀ k, k ≠ js "pn_key" → value merged k = value (parseCookieString old) k :=
      fun k hk => by rw [value, value, hother k hk]
    have halias := hsame (js "pn_alias") (by decide)
    have hroutes := hsame (js "pn_routes") (by decide)
    have hroot := hsame (js "pn_root") (by decide)
    constructor
    · simp only [parseDomainRegistry, Option.getD_some, hvalues, holdValues, halias]
    · simp only [parseDomainRegistry, Option.getD_some, hvalues, holdValues, halias]
    · simp only [parseDomainRegistry, Option.getD_some, hvalues, holdValues, halias, hroutes]
    · simp only [parseDomainRegistry, Option.getD_some, hvalues, holdValues, halias, hroot]
    · simp only [parseDomainRegistry, Option.getD_some, hvalues, value, hself]
    · intro k v hk hv
      rw [hclean.parse_encode, hother k hk, hv]

/-- The content `ipfs://a` is gone. -/
theorem setPointReference_loses : ¬ ∀ (addresses : Addresses) (solDomain owner old : JsString)
    (key : PublicKey) (content : JsString),
      setPointReference true solDomain owner ⟨owner, some old⟩ (toHex key.1) = .ok (some content) →
      OnlyKeyChanged addresses owner old content (toHex key.1) := by
  intro h
  have hchanged := h .small (js "a.sol") (js "owner") (js "ipfs://a")
    ⟨List.replicate 64 1, List.length_replicate⟩ _ (setPointReference_eq _ _ _ _)
  have hroot := hchanged.rootDirId
  revert hroot
  decide +kernel

end PointNetwork.NameService
