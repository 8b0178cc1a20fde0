import PointNetwork.Storage.LocalDownload

/-!
# What a local network's cache gives back

A downloaded chunk is returned as what its base64 text decodes to, but the file of the chunk gets
the text. The calls served from the file return other bytes then, unless the text is empty:
`cacheAgrees_iff`.
-/

namespace PointNetwork.Storage

open Js Uploader

variable {Encoding : Type} {env : LocalEnv Encoding} {chunkId : JsString}

/-- After a download, every call that is served from the file returns the bytes that the last
download returned, in the encoding that it asks for. -/
def CacheAgrees (env : LocalEnv Encoding) (chunkId : JsString) (s : LocalState) : Prop :=
  ∀ call : LocalCall Encoding, call.FromCache s → ∀ d, s.downloads.getLast? = some d →
    (getChunkLocally env chunkId call s).1 = some (.ok (present env call.encoding d.buf))

/-- What is in the file of a completed download. -/
structure FileHoldsText (s : LocalState) : Prop where
  decoded : ∀ d ∈ s.downloads, d.buf = fromBase64 d.data
  file : (s.row.getD {}).dl_status = .completed → ∀ d, s.downloads.getLast? = some d →
    s.file = some (bufferFrom d.data)

/-- What the loop finds was decoded and has the hash. -/
lemma findMatching_ok {edges : List (Option AnswerData)} {d : LocalDownload}
    (h : findMatching env chunkId edges = .ok d) :
    d.buf = fromBase64 d.data ∧ env.hashFn.id d.buf = chunkId := by
  fun_induction findMatching env chunkId edges with
  | case1 => cases h
  | case2 => cases h
  | case3 => cases h
  | case4 buf rest hne ih => exact ih h
  | case5 => cases h
  | case6 data rest buf hne ih => exact ih h
  | case7 data rest buf heq =>
    cases h
    exact ⟨rfl, not_not.mp heq⟩

/-- What is found is the data of an answer, and has the id. -/
lemma findChunk_ok {queryResult : Option (List (Option AnswerData))} {d : LocalDownload}
    (h : findChunk env chunkId queryResult = .ok d) :
    d.buf = fromBase64 d.data ∧ env.hashFn.id d.buf = chunkId := by
  cases queryResult with
  | none => cases h
  | some edges => exact findMatching_ok h

/-- What a call does: it leaves the row and the file alone, or it downloads, or it fails. -/
lemma step_cases {s s' : LocalState} {call : LocalCall Encoding}
    (hs : s.step env chunkId call = some s') :
    (s'.row.getD {} = s.row.getD {} ∧ s'.file = s.file ∧ s'.downloads = s.downloads) ∨
    (∃ d, d.buf = fromBase64 d.data ∧ s'.file = some (bufferFrom d.data) ∧
      s'.downloads = s.downloads ++ [d]) ∨
    ((s'.row.getD {}).dl_status = .failed ∧ s'.downloads = s.downloads) := by
  rw [LocalState.step, Option.some.injEq] at hs
  subst hs
  unfold getChunkLocally
  dsimp only
  split
  · exact .inl ⟨rfl, rfl, rfl⟩
  · split
    · exact .inl ⟨rfl, rfl, rfl⟩
    · split
      · rename_i d hd
        exact .inr (.inl ⟨d, (findChunk_ok hd).1, rfl, rfl⟩)
      · exact .inr (.inr ⟨rfl, rfl⟩)

/-- A step keeps the text of the last download in the file, as long as the row says that there is
one. -/
lemma FileHoldsText.step {s s' : LocalState} {call : LocalCall Encoding} (h : FileHoldsText s)
    (hs : s.step env chunkId call = some s') : FileHoldsText s' := by
  rcases step_cases hs with ⟨hrow, hfile, hdown⟩ | ⟨d, hd, hfile, hdown⟩ | ⟨hrow, hdown⟩
  · constructor
    · rw [hdown]
      exact h.decoded
    · rw [hrow, hfile, hdown]
      exact h.file
  · constructor
    · intro d' hd'
      rw [hdown, List.mem_append, List.mem_singleton] at hd'
      rcases hd' with hd' | rfl
      · exact h.decoded d' hd'
      · exact hd
    · intro _ d' hd'
      rw [hdown, List.getLast?_concat, Option.some.injEq] at hd'
      rw [hfile, hd']
  · constructor
    · rw [hdown]
      exact h.decoded
    · intro hcompleted
      rw [hrow] at hcompleted
      cases hcompleted

/-- The file and the last download in every state of a run. -/
theorem fileHoldsText {row : Option LocalRow} {file : Option Bytes} {s : LocalState}
    (h : Machine.Reach (LocalState.step env chunkId) Machine.Any (.start row file) s) :
    FileHoldsText s := by
  have hstart : FileHoldsText (.start row file) := by
    constructor
    · intro d hd
      cases hd
    · intro _ d hd
      cases hd
  exact h.invariant hstart fun _ _ _ hinv _ hs => hinv.step hs

/-- The bytes of a text are what it decodes to for the empty text only. -/
lemma bufferFrom_eq_fromBase64_iff (s : JsString) : bufferFrom s = fromBase64 s ↔ s = [] := by
  constructor
  · intro h
    have hlong := le_length_bufferFrom s
    have hshort := length_fromBase64 s
    rw [h] at hlong
    apply List.length_eq_zero_iff.mp
    omega
  · rintro rfl
    rfl

/-- In every state of every run of calls: the calls served from the file return the bytes that
were downloaded exactly when there are none, the text downloaded being empty. -/
theorem cacheAgrees_iff {row : Option LocalRow} {file : Option Bytes} {s : LocalState}
    (h : Machine.Reach (LocalState.step env chunkId) Machine.Any (.start row file) s) :
    CacheAgrees env chunkId s ↔
      ((s.row.getD {}).dl_status = .completed → ∀ d, s.downloads.getLast? = some d →
        d.data = []) := by
  have hinv := fileHoldsText h
  -- a call served from the file returns the bytes of the text
  have hserved : ∀ call : LocalCall Encoding, call.FromCache s → ∀ d,
      s.downloads.getLast? = some d → (getChunkLocally env chunkId call s).1 =
        some (.ok (present env call.encoding (bufferFrom d.data))) := by
    intro call hcall d hd
    unfold getChunkLocally
    dsimp only
    rw [if_pos (by simp [hcall.1, hcall.2]), hinv.file hcall.2 d hd]
    rfl
  constructor
  · intro hagrees hcompleted d hd
    have hcall : (⟨none, true, none⟩ : LocalCall Encoding).FromCache s := ⟨rfl, hcompleted⟩
    have hsame := hagrees _ hcall d hd
    rw [hserved _ hcall d hd] at hsame
    have hbytes : bufferFrom d.data = d.buf := by
      simpa [present] using hsame
    rw [hinv.decoded d (List.mem_of_getLast? hd)] at hbytes
    exact (bufferFrom_eq_fromBase64_iff d.data).mp hbytes
  · intro hempty call hcall d hd
    have hdata := hempty hcall.2 d hd
    rw [hserved call hcall d hd, hinv.decoded d (List.mem_of_getLast? hd),
      (bufferFrom_eq_fromBase64_iff d.data).mpr hdata]

/-! ## A chunk with the text `hi` -/

/-- The hexadecimal and the UTF-8 encoding. -/
def LocalEnv.small : LocalEnv Bool where
  hashFn := .firstBytes
  toText hex b := if hex then toHex b else bufferToString b

/-- A call that downloads the chunk. -/
def downloadHi : LocalCall Bool := ⟨none, true, some [some (.text (js "aGk="))]⟩

/-- The state after a file of two bytes has been downloaded. -/
def afterHi : LocalState where
  row := some ⟨.completed, some 2⟩
  file := some (bufferFrom (js "aGk="))
  downloads := [⟨js "aGk=", bufferFrom (js "hi")⟩]

/-- The id of the chunk. -/
def hiId : JsString := LocalEnv.small.hashFn.id (bufferFrom (js "hi"))

lemma reach_afterHi : Machine.Reach (LocalState.step .small hiId) Machine.Any (.start none none)
    afterHi :=
  .of_run [downloadHi] (by decide +kernel)

theorem cacheAgrees_iff_hi :
    CacheAgrees .small hiId afterHi ↔
      ((afterHi.row.getD {}).dl_status = .completed → ∀ d, afterHi.downloads.getLast? = some d →
        d.data = []) :=
  cacheAgrees_iff reach_afterHi

/-- The chunk `hi` is downloaded, and read from the file as the text `aGk=`. -/
theorem cache_not_agrees :
    ¬ ∀ (Encoding : Type) (env : LocalEnv Encoding) (chunkId : JsString) (s : LocalState),
      Machine.Reach (LocalState.step env chunkId) Machine.Any (.start none none) s →
        CacheAgrees env chunkId s := by
  intro h
  have hbad := h Bool .small hiId afterHi reach_afterHi ⟨none, true, none⟩ ⟨rfl, rfl⟩
    ⟨js "aGk=", bufferFrom (js "hi")⟩ rfl
  exact absurd hbad (by decide +kernel)

end PointNetwork.Storage
