import Mathlib.Data.List.Permutation
import PointNetwork.Js.JsonTheorems
import PointNetwork.Storage.Directory
import PointNetwork.Storage.FileReadTheorems

/-!
# What directory ids say

* `getFileIdByPath_uploadDir`: whatever order the entries of the directories got done in,
  `getFileIdByPath` finds the id that the upload gave to the file or directory at a path;
* `sameId_iff`: the id of a directory does not depend on this order only where no directory has
  two entries.
-/

namespace PointNetwork.Storage

open Js

variable {H : HashFn} {C : ℕ} {σ : Schedule} {path : List JsString}
  {entries : List (JsString × Tree)}

/-! ## The lines of a listing -/

theorem uploadEntry_name (name : JsString) (t : Tree) :
    (uploadEntry H C σ path name t).1.name = name := by
  cases t <;> rfl

theorem uploadEntry_id (name : JsString) (t : Tree) :
    (uploadEntry H C σ path name t).1.id = treeId H C σ (path ++ [name]) t := by
  cases t <;> rfl

/-- The line of each entry. -/
theorem uploadEntries_lines : (uploadEntries H C σ path entries).1 =
    entries.map fun entry => (uploadEntry H C σ path entry.1 entry.2).1 := by
  induction entries with
  | nil => rfl
  | cons entry entries ih => rw [uploadEntries, ih, List.map_cons]

/-- The names of the lines are those of the entries. -/
theorem uploadEntries_names (σ : Schedule) (path : List JsString) :
    (uploadEntries H C σ path entries).1.map FileInfo.name = entries.map Prod.fst := by
  rw [uploadEntries_lines, List.map_map]
  apply List.map_congr_left
  intro entry _
  exact uploadEntry_name entry.1 entry.2

/-- The listings uploaded for an entry are among those uploaded for the directory. -/
theorem uploadEntries_listings {name : JsString} {t : Tree} (h : (name, t) ∈ entries) :
    ∀ info ∈ (uploadEntry H C σ path name t).2, info ∈ (uploadEntries H C σ path entries).2 := by
  induction entries with
  | nil => cases h
  | cons entry entries ih =>
    intro info hinfo
    rw [uploadEntries]
    obtain rfl | h := List.mem_cons.mp h
    · exact List.mem_append_left _ hinfo
    · exact List.mem_append_right _ (ih h info hinfo)

/-- Looking for the name of an element in a list without repeated names finds the element. -/
theorem find?_name {files : List FileInfo} {f : FileInfo} (hn : (files.map FileInfo.name).Nodup)
    (hf : f ∈ files) : files.find? (fun g => g.name = f.name) = some f := by
  induction files with
  | nil => cases hf
  | cons g files ih =>
    rw [List.map_cons, List.nodup_cons] at hn
    obtain rfl | hf := List.mem_cons.mp hf
    · exact List.find?_cons_of_pos (by simp)
    · have hne : g.name ≠ f.name := by
        intro heq
        exact hn.1 (heq ▸ List.mem_map_of_mem hf)
      rw [List.find?_cons_of_neg (by simpa using hne)]
      exact ih hn.2 hf

theorem mem_of_lookup {name : JsString} {t : Tree} (h : entries.lookup name = some t) :
    (name, t) ∈ entries := by
  induction entries with
  | nil => cases h
  | cons entry entries ih =>
    obtain ⟨n, u⟩ := entry
    rw [List.lookup_cons] at h
    split at h
    · rename_i heq
      rw [beq_iff_eq.mp heq, Option.some.inj h]
      exact List.mem_cons_self
    · exact List.mem_cons_of_mem _ (ih h)

theorem lookup_eq_none {name : JsString} (h : entries.lookup name = none) :
    name ∉ entries.map Prod.fst := by
  induction entries with
  | nil => simp
  | cons entry entries ih =>
    obtain ⟨n, u⟩ := entry
    rw [List.lookup_cons] at h
    split at h
    · cases h
    · rename_i hne
      rw [List.map_cons, List.mem_cons, not_or]
      exact ⟨by simpa using hne, ih h⟩

/-- A listing has the line of an entry under its name. -/
theorem find?_listing (σ : Schedule) (path : List JsString) (hn : (entries.map Prod.fst).Nodup) {name : JsString} {t : Tree}
    (h : entries.lookup name = some t) :
    (σ.pushed path (uploadEntries H C σ path entries).1).find? (fun f => f.name = name) =
      some (uploadEntry H C σ path name t).1 := by
  have hperm := σ.pushed_perm path (uploadEntries H C σ path entries).1
  have hmem : (uploadEntry H C σ path name t).1 ∈
      σ.pushed path (uploadEntries H C σ path entries).1 := by
    rw [hperm.mem_iff, uploadEntries_lines]
    exact List.mem_map.mpr ⟨(name, t), mem_of_lookup h, rfl⟩
  have hnodup : ((σ.pushed path (uploadEntries H C σ path entries).1).map FileInfo.name).Nodup := by
    rw [(hperm.map FileInfo.name).nodup_iff, uploadEntries_names σ path]
    exact hn
  have hfind := find?_name hnodup hmem
  rw [uploadEntry_name] at hfind
  exact hfind

/-- A name that no entry has is not in the listing. -/
theorem find?_listing_none {name : JsString} (h : entries.lookup name = none) :
    (σ.pushed path (uploadEntries H C σ path entries).1).find? (fun f => f.name = name) = none := by
  rw [List.find?_eq_none]
  intro f hf
  have hname : f.name ∈ entries.map Prod.fst := by
    rw [← uploadEntries_names (H := H) (C := C) σ path]
    exact List.mem_map_of_mem ((σ.pushed_perm path _).mem_iff.mp hf)
  intro heq
  exact lookup_eq_none h (of_decide_eq_true heq ▸ hname)

/-- The names are distinct in each entry. -/
theorem NamesDistinctAll.mem (h : NamesDistinctAll entries) {name : JsString} {t : Tree}
    (ht : (name, t) ∈ entries) : t.NamesDistinct := by
  induction entries with
  | nil => cases ht
  | cons entry entries ih =>
    obtain rfl | ht := List.mem_cons.mp ht
    · exact h.1
    · exact ih h.2 ht

/-! ## Paths -/

/-- A path of plain names falls apart into these names. -/
theorem segments_join {names : List JsString} (hne : names ≠ [])
    (h : ∀ name ∈ names, Path.Plain name) : segments (Path.join names) = names := by
  have hsep : ∀ name ∈ names, ∀ u ∈ name, isSeparator u = false := by
    intro name hname u hu
    have hslash : u ≠ Path.slash := fun he => (h name hname).no_slash (he ▸ hu)
    have hback : u ≠ 0x5C := fun he => (h name hname).no_backslash (he ▸ hu)
    simp [isSeparator, hslash, hback]
  unfold segments
  rw [Path.join_names hne h, Path.splitOnP_names rfl hne hsep]
  exact List.filter_eq_self.mpr fun name hname => by simpa using (h name hname).ne_nil

/-! ## `getFileIdByPath` -/

/-- The result is this id; without an id, it is a not-found error. -/
def Resolved (result : Except Exception JsString) : Option JsString → Prop
  | some id => result = .ok id
  | none => ∃ message, result = .error (.httpNotFound message)

/-- A path in an uploaded directory resolves to the id of the entry; the induction is on the names
of the path. -/
theorem getFileIdByPathFuel_uploadDir {getJSON : JsString → Except Exception DirInfo}
    {names : List JsString} {fuel : ℕ} {filePath : JsString}
    (hnames : (Tree.dir entries).NamesDistinct)
    (hget : ∀ info ∈ (uploadDir H C σ path entries).2, getJSON (dirId H C info) = .ok info)
    (hpath : segments filePath = names) (hne : names ≠ [])
    (hplain : ∀ name ∈ names, Path.Plain name) (hfuel : names.length < fuel) :
    Resolved (getFileIdByPathFuel getJSON fuel (uploadDir H C σ path entries).1 filePath)
      ((findEntry entries names).map (treeId H C σ (path ++ names))) := by
  induction names generalizing path entries fuel filePath with
  | nil => exact absurd rfl hne
  | cons name names ih =>
    obtain ⟨fuel, rfl⟩ := Nat.exists_eq_succ_of_ne_zero (Nat.ne_zero_of_lt hfuel)
    have hroot := hget _ List.mem_cons_self
    unfold getFileIdByPathFuel
    -- the listing read is the one this directory has uploaded
    rw [show getJSON (uploadDir H C σ path entries).1 =
      .ok ⟨σ.pushed path (uploadEntries H C σ path entries).1⟩ from hroot, ok_bind, hpath]
    cases hlookup : entries.lookup name with
    | none =>
      have hnone : findEntry entries (name :: names) = none := by
        cases names <;> simp [findEntry, hlookup]
      rw [hnone]
      simp only [find?_listing_none hlookup]
      exact ⟨_, rfl⟩
    | some t =>
      have hmem : (name, t) ∈ entries := mem_of_lookup hlookup
      simp only [find?_listing _ _ hnames.1 hlookup]
      cases names with
      | nil =>
        rw [if_pos rfl, findEntry, hlookup, uploadEntry_id]
        rfl
      | cons name' names =>
        rw [if_neg (List.cons_ne_nil _ _)]
        cases t with
        | file contents =>
          have hnone : findEntry entries (name :: name' :: names) = none := by
            simp [findEntry, hlookup]
          have htype : (uploadEntry H C σ path name (.file contents)).1.type = .fileptr := rfl
          rw [hnone, if_pos htype]
          exact ⟨_, rfl⟩
        | dir entries' =>
          have hfind : findEntry entries (name :: name' :: names) =
              findEntry entries' (name' :: names) := by
            simp [findEntry, hlookup]
          have hrest : ∀ n ∈ name' :: names, Path.Plain n :=
            fun n hn => hplain n (List.mem_cons_of_mem _ hn)
          have hne' : name' :: names ≠ [] := List.cons_ne_nil _ _
          have htype : (uploadEntry H C σ path name (.dir entries')).1.type ≠ .fileptr := by
            simp [uploadEntry]
          rw [if_neg htype, hfind, List.append_cons]
          refine ih (hnames.2.mem hmem) ?_ (segments_join hne' hrest) hne' hrest ?_
          · intro info hinfo
            apply hget
            exact List.mem_cons_of_mem _ (uploadEntries_listings hmem info hinfo)
          · exact Nat.lt_of_succ_lt_succ hfuel

/-- Looking up a path of plain names in an uploaded directory gives the id that the upload gave
to the file or directory at this path, and a not-found error where there is none. -/
theorem getFileIdByPath_uploadDir {getJSON : JsString → Except Exception DirInfo}
    {filePath : JsString} (hnames : (Tree.dir entries).NamesDistinct)
    (hget : ∀ info ∈ (uploadDir H C σ path entries).2, getJSON (dirId H C info) = .ok info)
    (hne : segments filePath ≠ []) (hplain : ∀ name ∈ segments filePath, Path.Plain name) :
    Resolved (getFileIdByPath getJSON (uploadDir H C σ path entries).1 filePath)
      ((findEntry entries (segments filePath)).map
        (treeId H C σ (path ++ segments filePath))) :=
  getFileIdByPathFuel_uploadDir hnames hget rfl hne hplain (Nat.lt_succ_self _)

/-- A hash function for small concrete runs: the last bytes of the data. -/
def lastBytes : HashFn where
  digest b := (b.reverse ++ List.replicate 32 1).take 32
  length_digest b := by simp

/-- What `getJSON` returns once these listings are uploaded. -/
def listed (H : HashFn) (C : ℕ) (listings : List DirInfo) (id : JsString) :
    Except Exception DirInfo :=
  match listings.find? fun info => dirId H C info = id with
  | some info => .ok info
  | none => .error .rejected

/-- The uploads of a directory end in the order in which they began. -/
def Schedule.inOrder : Schedule := ⟨fun _ infos => infos, fun _ _ => .refl _⟩

/-- The uploads of a directory end in the opposite order. -/
def Schedule.reversed : Schedule := ⟨fun _ infos => infos.reverse, fun _ infos => infos.reverse_perm⟩

/-- The file `b` in the directory `a` beside the file `c`. -/
theorem getFileIdByPath_uploadDir_two :
    let entries := [(js "a", Tree.dir [(js "b", .file [1])]), (js "c", .file [2])]
    let dir := uploadDir lastBytes 1000 .reversed [] entries
    getFileIdByPath (listed lastBytes 1000 dir.2) dir.1 (js "a/b") =
      .ok (fileId lastBytes 1000 [1]) := by
  intro entries dir
  have hsegments : segments (js "a/b") = [js "a", js "b"] := by decide +kernel
  have hresolved : Resolved (getFileIdByPath (listed lastBytes 1000 dir.2) dir.1 (js "a/b"))
      ((findEntry entries (segments (js "a/b"))).map
        (treeId lastBytes 1000 .reversed ([] ++ segments (js "a/b")))) := by
    apply getFileIdByPath_uploadDir
    · exact ⟨by decide, ⟨by decide, trivial, trivial⟩, trivial, trivial⟩
    · decide +kernel
    · rw [hsegments]
      decide
    · rw [hsegments]
      decide
  rw [hsegments] at hresolved
  exact hresolved

/-! ## The files of a tree -/

mutual

/-- The contents of all files of an entry. -/
def Tree.files : Tree → List Bytes
  | .file contents => [contents]
  | .dir entries => Tree.filesOf entries

/-- The contents of the files of the entries. -/
def Tree.filesOf : List (JsString × Tree) → List Bytes
  | [] => []
  | (_, t) :: rest => t.files ++ Tree.filesOf rest

end

/-- The files of an entry are among those of all entries. -/
lemma Tree.subset_filesOf {entries : List (JsString × Tree)} {name : JsString} {t : Tree}
    (h : entries.lookup name = some t) : t.files ⊆ filesOf entries := by
  induction entries with
  | nil => cases h
  | cons entry entries ih =>
    obtain ⟨name', t'⟩ := entry
    rw [List.lookup_cons] at h
    rw [filesOf]
    split at h
    · cases h
      exact List.subset_append_left _ _
    · exact List.Subset.trans (ih h) (List.subset_append_right _ _)

/-- The files that paths lead to are among them. -/
lemma Tree.mem_filesOf {entries : List (JsString × Tree)} {names : List JsString} {contents : Bytes}
    (h : findEntry entries names = some (.file contents)) : contents ∈ filesOf entries := by
  induction names generalizing entries with
  | nil => cases entries <;> cases h
  | cons name names ih =>
    cases names with
    | nil => exact subset_filesOf h (List.mem_singleton_self _)
    | cons name' names =>
      unfold findEntry at h
      split at h
      · rename_i entries' hlookup
        exact subset_filesOf hlookup (ih h)
      · cases h

/-! ## When ids tell listings apart -/

/-- Chunks with the same ids are the same. -/
theorem NoCollision.map_id_inj {S : Set Bytes} (hS : NoCollision H S) {xs ys : List Bytes}
    (hx : ∀ c ∈ xs, c ∈ S) (hy : ∀ c ∈ ys, c ∈ S) (h : xs.map H.id = ys.map H.id) : xs = ys := by
  induction xs generalizing ys with
  | nil =>
    rw [List.map_nil, eq_comm, List.map_eq_nil_iff] at h
    exact h.symm
  | cons x xs ih =>
    cases ys with
    | nil => cases h
    | cons y ys =>
      obtain ⟨hhead, htail⟩ := List.cons.inj h
      rw [hS.id_inj (hx x List.mem_cons_self) (hy y List.mem_cons_self) hhead,
        ih (fun c hc => hx c (List.mem_cons_of_mem _ hc))
          (fun c hc => hy c (List.mem_cons_of_mem _ hc)) htail]

/-- Files that are not taken for info chunks have different ids, as long as no two of their
chunks have the same digest. -/
theorem fileId_injOn (hC : 0 < C) {S : Set Bytes} (hS : NoCollision H S) {x y : Bytes}
    (hx : ∀ c ∈ (fileChunks H C x).2, c ∈ S) (hy : ∀ c ∈ (fileChunks H C y).2, c ∈ S)
    (hxinfo : isChunkInfo x = false) (hyinfo : isChunkInfo y = false)
    (h : fileId H C x = fileId H C y) : x = y := by
  unfold fileId at h
  obtain hxlen | hxlen := Nat.lt_or_ge C x.length
  · rw [fileChunks_of_lt H hC hxlen] at hx h
    have hinfo : createChunkInfoChunk H C (chunkify C x) ∈ S := hx _ (by simp)
    obtain hylen | hylen := Nat.lt_or_ge C y.length
    · rw [fileChunks_of_lt H hC hylen] at hy h
      have heq := hS.id_inj hinfo (hy _ (by simp)) h
      have hids : (chunkify C x).map H.id = (chunkify C y).map H.id := by
        have hparse := parseChunkInfo_createChunkInfoChunk H C (chunkify C x)
        rw [heq, parseChunkInfo_createChunkInfoChunk H C (chunkify C y)] at hparse
        exact (congrArg ParsedChunkInfo.chunkIds (Except.ok.inj hparse)).symm
      have hchunks : chunkify C x = chunkify C y :=
        hS.map_id_inj (fun c hc => hx c (List.mem_append_left _ hc))
          (fun c hc => hy c (List.mem_append_left _ hc)) hids
      rw [← flatten_chunkify hC x, hchunks, flatten_chunkify hC y]
    · rw [fileChunks_of_le H hC hylen] at hy h
      have heq := hS.id_inj hinfo (hy _ (by simp)) h
      rw [← heq, isChunkInfo_createChunkInfoChunk] at hyinfo
      cases hyinfo
  · rw [fileChunks_of_le H hC hxlen] at hx h
    obtain hylen | hylen := Nat.lt_or_ge C y.length
    · rw [fileChunks_of_lt H hC hylen] at hy h
      have heq := hS.id_inj (hx _ (by simp)) (hy _ (by simp)) h
      rw [heq, isChunkInfo_createChunkInfoChunk] at hxinfo
      cases hxinfo
    · rw [fileChunks_of_le H hC hylen] at hy h
      exact hS.id_inj (hx _ (by simp)) (hy _ (by simp)) h

theorem FileInfo.canonical_toJson (info : FileInfo) : info.toJson.canonical = true := by
  have hkeys : ∀ a b c d : Json, orderedKeys [(js "type", a), (js "name", b), (js "size", c),
      (js "id", d)] = true := by
    intro a b c d
    have hunit : orderedKeys [(js "type", ()), (js "name", ()), (js "size", ()),
      (js "id", ())] = true := by decide
    rw [← hunit]
    exact orderedKeys_congr rfl
  simp only [FileInfo.toJson, Json.canonical, canonicalProps, hkeys, Bool.and_self]

theorem DirInfo.canonical_toJson (info : DirInfo) : info.toJson.canonical = true := by
  have hkeys : ∀ a b : Json, orderedKeys [(js "type", a), (js "files", b)] = true := by
    intro a b
    have hunit : orderedKeys [(js "type", ()), (js "files", ())] = true := by decide
    rw [← hunit]
    exact orderedKeys_congr rfl
  have hfiles : ∀ files : List FileInfo,
      canonicalList (files.map FileInfo.toJson) = true := by
    intro files
    induction files with
    | nil => rfl
    | cons f files ih => simp [canonicalList, FileInfo.canonical_toJson, ih]
  simp only [DirInfo.toJson, Json.canonical, canonicalProps, hkeys, hfiles, Bool.and_self]

/-- A line of a listing is told by its object. -/
theorem FileInfo.toJson_injective : Function.Injective FileInfo.toJson := by
  intro a b h
  simp only [FileInfo.toJson, Json.obj.injEq, List.cons.injEq, Prod.mk.injEq, Json.str.injEq,
    Json.num.injEq, true_and, and_true] at h
  obtain ⟨htype, hname, hsize, hid⟩ := h
  have htype' : a.type = b.type := by
    cases ha : a.type <;> cases hb : b.type <;> rw [ha, hb] at htype
    · exact absurd htype (by decide)
    · exact absurd htype (by decide)
  have hsize' : a.size = b.size := by
    exact Int.ofNat.inj (Number.ofInt_inj.mp hsize)
  obtain ⟨ta, na, sa, ia⟩ := a
  obtain ⟨tb, nb, sb, ib⟩ := b
  rw [show ta = tb from htype', show na = nb from hname, show sa = sb from hsize',
    show ia = ib from hid]

/-- A listing is told by its object. -/
theorem DirInfo.toJson_injective : Function.Injective DirInfo.toJson := by
  intro a b h
  simp only [DirInfo.toJson, Json.obj.injEq, List.cons.injEq, Prod.mk.injEq, Json.arr.injEq,
    true_and, and_true] at h
  obtain ⟨fa⟩ := a
  obtain ⟨fb⟩ := b
  exact congrArg DirInfo.mk (List.map_injective_iff.mpr FileInfo.toJson_injective h)

/-- The text of a listing starts with a brace, which no info chunk does. -/
theorem isChunkInfo_listing (info : DirInfo) : isChunkInfo info.toJson.encode = false := by
  have htext : bufferToString info.toJson.encode = info.toJson.stringify :=
    (wellFormed_stringify _).bufferToString_eq
  obtain ⟨rest, hrest⟩ : ∃ rest, info.toJson.stringify = 0x7B :: rest := ⟨_, rfl⟩
  rw [isChunkInfo, htext, hrest]
  rfl

/-- Listings with the same id are the same, as long as no two chunks have the same digest. -/
theorem dirId_injOn (hC : 0 < C) {S : Set Bytes} (hS : NoCollision H S) {info info' : DirInfo}
    (h : ∀ c ∈ (fileChunks H C info.toJson.encode).2, c ∈ S)
    (h' : ∀ c ∈ (fileChunks H C info'.toJson.encode).2, c ∈ S)
    (hid : dirId H C info = dirId H C info') : info = info' := by
  have hbytes : info.toJson.encode = info'.toJson.encode :=
    fileId_injOn hC hS h h' (isChunkInfo_listing info) (isChunkInfo_listing info') hid
  have hdecode := decode_encode info.canonical_toJson
  rw [hbytes, decode_encode info'.canonical_toJson] at hdecode
  exact (DirInfo.toJson_injective (Option.some.inj hdecode)).symm

/-! ## When the id of a directory depends on the order -/

/-- The chunks uploaded for the listings of a directory, in any run. -/
def listingChunks (H : HashFn) (C : ℕ) (path : List JsString) (entries : List (JsString × Tree)) :
    Set Bytes :=
  fun c => ∃ σ, ∃ info ∈ (uploadDir H C σ path entries).2,
    c ∈ (fileChunks H C info.toJson.encode).2

/-- All runs of `uploadDir` return the same id. -/
def SameId (H : HashFn) (C : ℕ) (path : List JsString) (entries : List (JsString × Tree)) : Prop :=
  ∀ σ σ', (uploadDir H C σ path entries).1 = (uploadDir H C σ' path entries).1

mutual

/-- No directory has two entries. -/
def Tree.AtMostOne : Tree → Prop
  | .file _ => True
  | .dir entries => entries.length ≤ 1 ∧ AtMostOneAll entries

/-- No directory of the entries has more than one entry. -/
def AtMostOneAll : List (JsString × Tree) → Prop
  | [] => True
  | (_, t) :: rest => t.AtMostOne ∧ AtMostOneAll rest

end

theorem uploadEntries_length (path : List JsString) (entries : List (JsString × Tree))
    (σ : Schedule) : (uploadEntries H C σ path entries).1.length = entries.length := by
  rw [uploadEntries_lines, List.length_map]

/-- A single line can be pushed in one order only. -/
theorem finishDir_atMostOne (σ' : Schedule) (path : List JsString)
    {results : List FileInfo × List DirInfo} (h : results.1.length ≤ 1) :
    finishDir H C σ path results = finishDir H C σ' path results := by
  have hpushed : ∀ τ : Schedule, τ.pushed path results.1 = results.1 := by
    intro τ
    have hperm := τ.pushed_perm path results.1
    cases hres : results.1 with
    | nil =>
      rw [hres] at hperm
      exact hperm.eq_nil
    | cons f fs =>
      rw [hres] at hperm h
      obtain rfl : fs = [] := List.length_eq_zero_iff.mp (by simpa using h)
      exact List.perm_singleton.mp hperm
  simp only [finishDir, hpushed]

mutual

/-- Where no directory has two entries, all runs upload the same. -/
theorem uploadEntry_atMostOne (σ' : Schedule) (path : List JsString) (name : JsString) :
    ∀ t : Tree, t.AtMostOne → uploadEntry H C σ path name t = uploadEntry H C σ' path name t
  | .file _, _ => rfl
  | .dir entries, h => by
    have hresults := uploadEntries_atMostOne σ' (path ++ [name]) entries h.2
    have hlength : (uploadEntries H C σ (path ++ [name]) entries).1.length ≤ 1 := by
      rw [uploadEntries_length]
      exact h.1
    rw [uploadEntry, uploadEntry, finishDir_atMostOne σ' (path ++ [name]) hlength, hresults]

/-- With one entry at most the order does not matter; the induction is on the entries. -/
theorem uploadEntries_atMostOne (σ' : Schedule) (path : List JsString) :
    ∀ entries : List (JsString × Tree), AtMostOneAll entries →
      uploadEntries H C σ path entries = uploadEntries H C σ' path entries
  | [], _ => rfl
  | (name, t) :: rest, h => by
    rw [uploadEntries, uploadEntries, uploadEntry_atMostOne σ' path name t h.1,
      uploadEntries_atMostOne σ' path rest h.2]

end

/-- The listings uploaded for what is at a path. -/
def Tree.listings (H : HashFn) (C : ℕ) (σ : Schedule) (path : List JsString) : Tree → List DirInfo
  | .file _ => []
  | .dir entries => (uploadDir H C σ path entries).2

/-- The listings that an upload of an entry makes. -/
theorem uploadEntry_listings (name : JsString) (t : Tree) :
    (uploadEntry H C σ path name t).2 = t.listings H C σ (path ++ [name]) := by
  cases t <;> rfl

/-- A list without repetitions that is its own reverse has at most one element. -/
theorem length_le_one_of_reverse {α : Type*} {l : List α} (hn : l.Nodup) (h : l = l.reverse) :
    l.length ≤ 1 := by
  by_contra hlen
  have hfirst : l[0]? = l[l.length - 1]? := by
    conv_lhs => rw [h]
    rw [List.getElem?_reverse (by omega), Nat.sub_zero]
  rw [List.getElem?_eq_getElem (by omega), List.getElem?_eq_getElem (by omega)] at hfirst
  have heq := (hn.getElem_inj_iff).mp (Option.some.inj hfirst)
  omega

/-- Where all runs give a directory the same id, they give it the same listing. -/
theorem pushed_eq_of_sameId (hC : 0 < C) {S : Set Bytes} (hS : NoCollision H S)
    (hsub : ∀ σ, ∀ info ∈ (uploadDir H C σ path entries).2,
      ∀ c ∈ (fileChunks H C info.toJson.encode).2, c ∈ S)
    (hsame : SameId H C path entries) (σ σ' : Schedule) :
    σ.pushed path (uploadEntries H C σ path entries).1 =
      σ'.pushed path (uploadEntries H C σ' path entries).1 := by
  have heq := dirId_injOn hC hS (hsub σ _ List.mem_cons_self) (hsub σ' _ List.mem_cons_self)
    (hsame σ σ')
  exact congrArg DirInfo.files heq

mutual

/-- A directory whose id does not depend on the order has one entry at most; the induction is on the
tree. -/
theorem atMostOne_of_sameId (hC : 0 < C) {S : Set Bytes} (hS : NoCollision H S)
    (path : List JsString) :
    ∀ t : Tree, t.NamesDistinct →
      (∀ σ, ∀ info ∈ t.listings H C σ path, ∀ c ∈ (fileChunks H C info.toJson.encode).2, c ∈ S) →
      (∀ σ σ', treeId H C σ path t = treeId H C σ' path t) → t.AtMostOne
  | .file _, _, _, _ => trivial
  | .dir entries, hn, hsub, hsame => by
    have hpushed := pushed_eq_of_sameId hC hS hsub hsame
    refine ⟨?_, atMostOneAll_of_sameId hC hS path entries hn.2 ?_⟩
    · -- the lines in order and in reverse are the same
      have hnames : entries.map Prod.fst = (entries.map Prod.fst).reverse := by
        have heq := congrArg (List.map FileInfo.name) (hpushed .inOrder .reversed)
        simp only [Schedule.inOrder, Schedule.reversed, List.map_reverse,
          uploadEntries_names] at heq
        exact heq
      rw [← List.length_map (f := Prod.fst)]
      exact length_le_one_of_reverse hn.1 hnames
    · intro entry hentry
      obtain ⟨name, t⟩ := entry
      refine ⟨?_, ?_⟩
      · intro σ info hinfo
        apply hsub σ info
        rw [← uploadEntry_listings] at hinfo
        exact List.mem_cons_of_mem _ (uploadEntries_listings hentry info hinfo)
      · -- the line of the entry can be read off the listing
        intro σ σ'
        have hfind := find?_listing (H := H) (C := C) σ path hn.1
          (lookup_of_mem hn.1 hentry)
        rw [hpushed σ σ', find?_listing _ _ hn.1 (lookup_of_mem hn.1 hentry)] at hfind
        rw [← uploadEntry_id, ← uploadEntry_id, Option.some.inj hfind]

/-- The same for all entries. -/
theorem atMostOneAll_of_sameId (hC : 0 < C) {S : Set Bytes} (hS : NoCollision H S)
    (path : List JsString) :
    ∀ entries : List (JsString × Tree), NamesDistinctAll entries →
      (∀ entry ∈ entries,
        (∀ σ, ∀ info ∈ entry.2.listings H C σ (path ++ [entry.1]),
          ∀ c ∈ (fileChunks H C info.toJson.encode).2, c ∈ S) ∧
        ∀ σ σ', treeId H C σ (path ++ [entry.1]) entry.2 =
          treeId H C σ' (path ++ [entry.1]) entry.2) → AtMostOneAll entries
  | [], _, _ => trivial
  | (name, t) :: rest, hn, h => by
    obtain ⟨hsub, hsame⟩ := h (name, t) List.mem_cons_self
    exact ⟨atMostOne_of_sameId hC hS (path ++ [name]) t hn.1 hsub hsame,
      atMostOneAll_of_sameId hC hS path rest hn.2 fun entry hentry =>
        h entry (List.mem_cons_of_mem _ hentry)⟩

end

/-- All runs of `uploadDir` on a directory return the same id exactly where neither the
directory nor one inside it has two entries, as long as no two chunks of its listings have the
same digest. -/
theorem sameId_iff (hC : 0 < C) (hnames : (Tree.dir entries).NamesDistinct)
    (hS : NoCollision H (listingChunks H C path entries)) :
    SameId H C path entries ↔ (Tree.dir entries).AtMostOne := by
  constructor
  · intro hsame
    exact atMostOne_of_sameId hC hS path (.dir entries) hnames
      (fun σ info hinfo c hc => ⟨σ, info, hinfo, hc⟩) hsame
  · intro hone σ σ'
    have hlength : (uploadEntries H C σ path entries).1.length ≤ 1 := by
      rw [uploadEntries_length]
      exact hone.1
    rw [uploadDir, uploadDir, finishDir_atMostOne σ' path hlength,
      uploadEntries_atMostOne σ' path entries hone.2]

/-- A directory with two files does not have the same id in all runs. -/
theorem sameId_iff_two :
    ¬ SameId lastBytes 1000 []
      [(js "a", .file (List.replicate 32 1)), (js "b", .file (List.replicate 32 2))] := by
  let entries : List (JsString × Tree) :=
    [(js "a", .file (List.replicate 32 1)), (js "b", .file (List.replicate 32 2))]
  have hnames : (Tree.dir entries).NamesDistinct := ⟨by decide, trivial, trivial, trivial⟩
  have hmany : ¬ (Tree.dir entries).AtMostOne := fun h => absurd h.1 (by decide)
  -- there are two listings, one of them in reverse, and each is one chunk
  let line (name : JsString) (b : UInt8) : FileInfo :=
    ⟨.fileptr, name, 32, fileId lastBytes 1000 (List.replicate 32 b)⟩
  let listings : List DirInfo :=
    [⟨[line (js "a") 1, line (js "b") 2]⟩, ⟨[line (js "b") 2, line (js "a") 1]⟩]
  have hlength : ∀ info ∈ listings, info.toJson.encode.length ≤ 1000 := by decide +kernel
  have hchunk : ∀ c ∈ listingChunks lastBytes 1000 [] entries,
      c ∈ listings.map fun info => info.toJson.encode := by
    rintro c ⟨σ, info, hinfo, hc⟩
    have hinfo' : info = ⟨σ.pushed [] [line (js "a") 1, line (js "b") 2]⟩ :=
      List.mem_singleton.mp hinfo
    have hmem : info ∈ listings := by
      rw [hinfo']
      obtain hpushed | hpushed := List.perm_pair.mp
        (σ.pushed_perm [] [line (js "a") 1, line (js "b") 2])
      · rw [hpushed]
        exact List.mem_cons_self
      · rw [hpushed]
        exact List.mem_cons_of_mem _ List.mem_cons_self
    rw [fileChunks_of_le lastBytes (by decide) (hlength info hmem)] at hc
    rw [List.mem_singleton.mp hc]
    exact List.mem_map_of_mem hmem
  have hfree : NoCollision lastBytes (listingChunks lastBytes 1000 [] entries) := by
    have hdigests : ∀ c ∈ listings.map fun info => info.toJson.encode,
        ∀ d ∈ listings.map fun info => info.toJson.encode,
          lastBytes.digest c = lastBytes.digest d → c = d := by decide +kernel
    exact fun c hc d hd => hdigests c (hchunk c hc) d (hchunk d hd)
  exact fun hsame => hmany ((sameId_iff (by decide) hnames hfree).mp hsame)

/-- Two files whose lines are pushed in order and in reverse. -/
theorem uploadDir_order_dependent :
    ¬ ∀ (H : HashFn) (C : ℕ) (σ σ' : Schedule) (path : List JsString)
      (entries : List (JsString × Tree)),
      (uploadDir H C σ path entries).1 = (uploadDir H C σ' path entries).1 := by
  intro h
  have heq := h lastBytes 1000 .inOrder .reversed []
    [(js "a", .file (List.replicate 32 1)), (js "b", .file (List.replicate 32 2))]
  exact absurd heq (by decide +kernel)

end PointNetwork.Storage
