import PointNetwork.Uploader.DownloadTheorems

/-!
# Calls of `getChunk` for one chunk

Any number of calls for the same chunk, whose reads and writes of its row interleave. A call reads
the row and saves its copy of it with the status IN_PROGRESS in two statements, and saves the copy
again when it ends. As long as the row has not been claimed or fetched by another call in between
(`Claims`), one call downloads at a time and the last status says whether any has obtained the
chunk (`downloads_exclusive`).
-/

namespace PointNetwork.Uploader

open Js Storage Machine

/-- The calls, and whether one of them has returned the chunk. -/
structure ChunkCalls where
  state : State
  returned : Bool

/-- A new call for the chunk, or a step of one. -/
inductive CallEvent
  | getChunk (useCache : Bool)
  | download (i : ℕ) (bytes : Option Bytes) (ok : Bool)
  deriving DecidableEq

/-- The event of the process. -/
def CallEvent.event (chunkId : JsString) : CallEvent → Event
  | .getChunk useCache => .getChunk chunkId useCache
  | .download i bytes ok => .download i bytes ok

/-- The step ends a call with the chunk, read from its file or obtained from a source. -/
def Download.returns (d : Download) (db : Database) (ok : Bool) : Bool :=
  match d.phase with
  | .find useCache => useCache && (instanceOf d.chunkId db).dl_status = .completed && ok
  | .saveCompleted _ _ => ok
  | _ => false

/-- The call saves the row next. -/
def DownloadPhase.saves : DownloadPhase → Bool
  | .saveInProgress _ => true
  | .saveCompleted _ _ => true
  | .saveFailed _ => true
  | _ => false

/-- The call saves the status IN_PROGRESS next. -/
def DownloadPhase.claims : DownloadPhase → Bool
  | .saveInProgress _ => true
  | _ => false

namespace ChunkCalls

/-- No call yet, whatever the tables say of the chunk. -/
def start (db : Database) : ChunkCalls :=
  ⟨{ State.init with store := { Store.init with db } }, false⟩

/-- The event makes a call return the chunk. -/
def returns (s : State) : CallEvent → Bool
  | .getChunk _ => false
  | .download i _ ok => (s.downloads[i]?).any fun d => d.returns s.store.db ok

/-- A step of the process that belongs to the chunk. -/
def step (cfg : Config) (chunkId : JsString) (s : ChunkCalls) (e : CallEvent) :
    Option ChunkCalls :=
  (Uploader.step cfg s.state (e.event chunkId)).map fun state =>
    ⟨state, s.returned || returns s.state e⟩

/-- The row is written, and a call that writes its claim does not claim what another call is
downloading or has obtained since the row was read. -/
def Claims (chunkId : JsString) (s : ChunkCalls) : CallEvent → Prop
  | .getChunk _ => True
  | .download i _ ok => ∀ d ∈ s.state.downloads[i]?, (d.phase.saves = true → ok = true) ∧
      (d.phase.claims = true →
        s.state.store.db.dlStatus chunkId ≠ some .inProgress ∧ s.returned = false)

instance (chunkId : JsString) (s : ChunkCalls) (e : CallEvent) :
    Decidable (s.Claims chunkId e) := by
  unfold Claims
  split <;> infer_instance

/-- One call at most is between the save of IN_PROGRESS and the save of the outcome. -/
def Exclusive (downloads : List Download) : Prop :=
  ∀ (i j : ℕ) (d d' : Download), downloads[i]? = some d → downloads[j]? = some d' →
    d.phase.busy = true → d'.phase.busy = true → i = j

/-- When all calls have ended, the status says whether any has obtained the chunk. -/
def Settled (chunkId : JsString) (s : ChunkCalls) : Prop :=
  s.state.downloads ≠ [] → (∀ d ∈ s.state.downloads, d.phase = .done) →
    s.state.store.db.dlStatus chunkId = some (if s.returned then .completed else .failed)

end ChunkCalls

/-! ## One step of a call -/

/-- What a call that has read its row knows: the row exists, and a claim is a change of its copy. -/
def Download.Knows (c : JsString) (status : Option DownloadStatus) (d : Download) : Prop :=
  d.chunkId = c ∧ d.Keeps ∧
    match d.phase with
    | .find _ => True
    | .saveInProgress m => status ≠ none ∧ m.dlChanged = true
    | _ => status ≠ none

/-- A call goes on knowing what it knows as long as the row is there. -/
lemma Download.Knows.mono {c : JsString} {status status' : Option DownloadStatus} {d : Download}
    (h : d.Knows c status) (hstatus : status ≠ none → status' ≠ none) : d.Knows c status' := by
  obtain ⟨hid, hkeeps, hknows⟩ := h
  refine ⟨hid, hkeeps, ?_⟩
  split at hknows
  · trivial
  · exact ⟨hstatus hknows.1, hknows.2⟩
  · exact hstatus hknows

/-- What a step of a call does to the status of its chunk. -/
inductive Download.Moves (before after : Option DownloadStatus) (d d' : Download)
    (returns : Bool) : Prop
  | quiet (hbusy : d'.phase.busy = d.phase.busy) (hdone : d'.phase ≠ .done)
      (hreturns : returns = false) (hafter : ∀ status, before = some status → after = before)
  | cached (hbusy : d.phase.busy = false) (hdone : d'.phase = .done) (hreturns : returns = true)
      (hbefore : before = some .completed) (hafter : after = before)
  | claims (hclaims : d.phase.claims = true) (hbusy : d'.phase.busy = true)
      (hreturns : returns = false) (hafter : after = some .inProgress)
  | ends (hbusy : d.phase.busy = true) (hdone : d'.phase = .done)
      (hafter : after = some (if returns then .completed else .failed))

/-- No move takes the row of the chunk away. -/
lemma Download.Moves.row {before after : Option DownloadStatus} {d d' : Download} {returns : Bool}
    (h : d.Moves before after d' returns) (hbefore : before ≠ none) : after ≠ none := by
  rcases Option.ne_none_iff_exists'.mp hbefore with ⟨status, hstatus⟩
  cases h with
  | quiet _ _ _ hafter =>
    rw [hafter status hstatus]
    exact hbefore
  | cached _ _ _ _ hafter =>
    rw [hafter]
    exact hbefore
  | claims _ _ _ hafter => simp [hafter]
  | ends _ _ hafter => simp [hafter]

/-- The row is there after `createChunk`, with the status it had. -/
lemma Database.dlStatus_createChunk (db : Database) (id : JsString) :
    (db.createChunk id).dlStatus id = some ((db.dlStatus id).getD .notStarted) := by
  unfold dlStatus findChunk createChunk
  rw [Table.find_insertIgnore, Option.map_or]
  cases Table.find Chunk.id id db.chunks with
  | none => simp [Table.find]
  | some chunk => rfl

/-- A copy of the row has its status. -/
lemma instanceOf_dl_status (db : Database) (c : JsString) :
    (instanceOf c db).dl_status = (db.dlStatus c).getD .notStarted ∧ (instanceOf c db).id = c := by
  unfold instanceOf Database.dlStatus
  cases db.findChunk c <;> exact ⟨rfl, rfl⟩

/-- The save of a changed status. -/
lemma Database.dlStatus_saveChunk_self {db : Database} {m : Instance} {c : JsString}
    {status : DownloadStatus} (hid : m.id = c) (hrow : db.dlStatus c ≠ none)
    (hchanged : m.dlChanged = true) (hstatus : m.dl_status = status) :
    (db.saveChunk m).dlStatus c = some status := by
  rw [dlStatus_saveChunk]
  cases h : db.dlStatus c with
  | none => exact absurd h hrow
  | some old => rw [Option.map_some, if_pos ⟨hid.symm, hchanged⟩, hstatus]

/-- The step that reads the row, from the cache or not. -/
lemma Download.find_moves {cfg : Config} {useCache : Bool} {s : Store} {c : JsString}
    {bytes obtained : Option Bytes} {ok : Bool} {st : Statement} {phase : DownloadPhase}
    (hkeeps : Download.Keeps ⟨c, phase⟩)
    (h : (⟨c, .find useCache⟩ : Download).next cfg s.db bytes ok = some (st, phase, obtained)) :
    Download.Knows c ((s.dbAfter st).dlStatus c) ⟨c, phase⟩ ∧
      Download.Moves (s.db.dlStatus c) ((s.dbAfter st).dlStatus c) ⟨c, .find useCache⟩ ⟨c, phase⟩
        ((⟨c, .find useCache⟩ : Download).returns s.db ok) := by
  cases h
  obtain ⟨hstatus, hid⟩ := instanceOf_dl_status s.db c
  have hafter : (s.dbAfter (.createChunk c)).dlStatus c =
      some ((s.db.dlStatus c).getD .notStarted) := s.db.dlStatus_createChunk c
  have hrow : (s.dbAfter (.createChunk c)).dlStatus c ≠ none := by simp [hafter]
  have hkept : ∀ status, s.db.dlStatus c = some status →
      (s.dbAfter (.createChunk c)).dlStatus c = s.db.dlStatus c := by
    intro status hs
    rw [hafter, hs]
    rfl
  by_cases hcache : useCache ∧ (instanceOf c s.db).dl_status = .completed ∧ ok
  · have hcompleted : s.db.dlStatus c = some .completed := by
      have := hstatus ▸ hcache.2.1
      cases hs : s.db.dlStatus c with
      | none => simp [hs] at this
      | some status => simpa [hs] using this
    simp only [if_pos hcache] at hkeeps ⊢
    exact ⟨⟨rfl, hkeeps, hrow⟩, .cached rfl rfl (by simpa [returns, and_assoc] using hcache) hcompleted
      (hkept _ hcompleted)⟩
  · have hreturns : (⟨c, .find useCache⟩ : Download).returns s.db ok = false := by
      simpa [returns] using hcache
    simp only [if_neg hcache] at hkeeps ⊢
    by_cases hprogress : (instanceOf c s.db).dl_status = .inProgress
    · simp only [if_pos hprogress] at hkeeps ⊢
      exact ⟨⟨rfl, hkeeps, hrow⟩, .quiet rfl (by simp) hreturns hkept⟩
    · simp only [if_neg hprogress] at hkeeps ⊢
      refine ⟨⟨rfl, hkeeps, hrow, ?_⟩, .quiet rfl (by simp) hreturns hkept⟩
      simp [Database.Instance.setDl, hprogress]

/-- What a step of a call does: it knows more and more, and the statuses it saves are these. -/
lemma Download.next_moves {cfg : Config} {d : Download} {s : Store} {c : JsString}
    {bytes obtained : Option Bytes} {ok : Bool} {st : Statement} {phase : DownloadPhase}
    (hd : d.Knows c (s.db.dlStatus c)) (hok : d.phase.saves = true → ok = true)
    (h : d.next cfg s.db bytes ok = some (st, phase, obtained)) :
    Download.Knows c ((s.dbAfter st).dlStatus c) { d with phase } ∧
      Download.Moves (s.db.dlStatus c) ((s.dbAfter st).dlStatus c) d { d with phase }
        (d.returns s.db ok) := by
  obtain ⟨chunkId, dphase⟩ := d
  obtain ⟨rfl, hkeeps, hknows⟩ := hd
  have hfails : dphase.fails ok = false := by
    cases dphase with
    | saveFailed m => simp [DownloadPhase.fails, hok rfl]
    | _ => rfl
  have hkeeps' := (Download.next_keeps hkeeps hfails h).1
  cases dphase with
  | find useCache => exact find_moves hkeeps' h
  | waiting =>
    cases h
    exact ⟨⟨rfl, hkeeps', trivial⟩, .quiet rfl (by simp) rfl fun _ _ => rfl⟩
  | saveInProgress m =>
    have hok := hok rfl
    subst hok
    cases h
    have hafter := Database.dlStatus_saveChunk_self hkeeps.1 hknows.1 hknows.2 hkeeps.2
    exact ⟨⟨rfl, hkeeps', Option.ne_none_iff_exists'.mpr ⟨_, hafter⟩⟩, .claims rfl rfl rfl hafter⟩
  | source m remaining =>
    -- whatever the source answers, no row changes
    cases remaining with
    | zero =>
      cases h
      exact ⟨⟨rfl, hkeeps', hknows⟩, .quiet rfl (by simp) rfl fun _ _ => rfl⟩
    | succ remaining =>
      dsimp only [Download.next] at h
      split at h
      · cases h
        exact ⟨⟨rfl, hkeeps', hknows⟩, .quiet rfl (by simp) rfl fun _ _ => rfl⟩
      · split_ifs at h
        · cases h
          exact ⟨⟨rfl, hkeeps', hknows⟩, .quiet rfl (by simp) rfl fun _ _ => rfl⟩
        · cases h
          exact ⟨⟨rfl, hkeeps', hknows⟩, .quiet rfl (by simp) rfl fun _ _ => rfl⟩
  | saveCompleted m remaining =>
    have hok := hok rfl
    subst hok
    cases h
    obtain ⟨hid, hchanged, hcompleted⟩ := hkeeps
    have hafter := Database.dlStatus_saveChunk_self hid hknows hchanged hcompleted
    exact ⟨⟨rfl, hkeeps', Option.ne_none_iff_exists'.mpr ⟨_, hafter⟩⟩, .ends rfl rfl hafter⟩
  | saveFailed m =>
    have hok := hok rfl
    subst hok
    cases h
    obtain ⟨hid, hchanged, hfailed⟩ := hkeeps
    have hafter := Database.dlStatus_saveChunk_self hid hknows hchanged hfailed
    exact ⟨⟨rfl, hkeeps', Option.ne_none_iff_exists'.mpr ⟨_, hafter⟩⟩, .ends rfl rfl hafter⟩
  | done => cases h

/-! ## The calls side by side -/

namespace ChunkCalls

/-- A call that was not busy is not after its step, or it is the only one. -/
lemma Exclusive.set {downloads : List Download} {i : ℕ} {d d' : Download}
    (h : Exclusive downloads) (hd : downloads[i]? = some d)
    (hbusy : d'.phase.busy = true → d.phase.busy = true ∨ ∀ d ∈ downloads, d.phase.busy = false) :
    Exclusive (downloads.set i d') := by
  have hlt := (List.getElem?_eq_some_iff.mp hd).1
  -- a busy call elsewhere, beside the one that has taken the step
  have hother : ∀ (j : ℕ) (e : Download), i ≠ j → (downloads.set i d')[j]? = some e →
      e.phase.busy = true → d'.phase.busy = true → False := by
    intro j e hij he hebusy hdbusy
    rw [List.getElem?_set_ne hij] at he
    rcases hbusy hdbusy with hold | hnone
    · exact hij (h i j d e hd he hold hebusy)
    · rw [hnone e (List.mem_of_getElem? he)] at hebusy
      cases hebusy
  intro j k e e' he he' hebusy hebusy'
  by_cases hij : i = j
  · subst hij
    rw [List.getElem?_set_self hlt, Option.some.injEq] at he
    subst he
    by_contra hik
    exact hother k e' hik he' hebusy' hebusy
  · by_cases hik : i = k
    · subst hik
      rw [List.getElem?_set_self hlt, Option.some.injEq] at he'
      subst he'
      exact (hother j e hij he hebusy hebusy').elim
    · rw [List.getElem?_set_ne hij] at he
      rw [List.getElem?_set_ne hik] at he'
      exact h j k e e' he he' hebusy hebusy'

/-- What holds of the calls for a chunk in runs whose claims are not stale. -/
structure Inv (c : JsString) (s : ChunkCalls) : Prop where
  knows : ∀ d ∈ s.state.downloads, d.Knows c (s.state.store.db.dlStatus c)
  exclusive : Exclusive s.state.downloads
  busy : ∀ d ∈ s.state.downloads, d.phase.busy = true →
    s.state.store.db.dlStatus c = some .inProgress ∧ s.returned = false
  returned : s.returned = true → s.state.store.db.dlStatus c = some .completed
  ended : s.returned = false → (∃ d ∈ s.state.downloads, d.phase = .done) →
    (∃ d ∈ s.state.downloads, d.phase.busy = true) ∨
      s.state.store.db.dlStatus c = some .failed

variable {cfg : Config} {c : JsString} {s s' : ChunkCalls}

/-- A step of a call, and what it does to the state. -/
lemma step_download {i : ℕ} {bytes : Option Bytes} {ok : Bool}
    (hs : s.step cfg c (.download i bytes ok) = some s') :
    ∃ d st phase obtained, s.state.downloads[i]? = some d ∧
      d.next cfg s.state.store.db bytes ok = some (st, phase, obtained) ∧
      s'.state.downloads = s.state.downloads.set i { d with phase } ∧
      s'.state.store.db = s.state.store.dbAfter st ∧
      s'.returned = (s.returned || d.returns s.state.store.db ok) := by
  obtain ⟨state, hstep, rfl⟩ := Option.map_eq_some_iff.mp hs
  obtain ⟨⟨st, t⟩, hissue, rfl⟩ := Option.map_eq_some_iff.mp hstep
  have hstore : t.store = s.state.store := issue_store hissue
  obtain ⟨d, hd, hissue⟩ := Option.bind_eq_some_iff.mp hissue
  obtain ⟨⟨st', phase, obtained⟩, hnext, hissue⟩ := Option.map_eq_some_iff.mp hissue
  obtain ⟨rfl, rfl⟩ := Prod.mk.inj hissue
  refine ⟨d, st', phase, obtained, hd, hnext, rfl, rfl, ?_⟩
  simp only [returns, hd, Option.any_some]

/-- A new call is not busy. -/
lemma Inv.getChunk {useCache : Bool} (h : s.Inv c) (hs : s.step cfg c (.getChunk useCache) = some s') :
    s'.Inv c := by
  obtain ⟨state, hstep, rfl⟩ := Option.map_eq_some_iff.mp hs
  obtain ⟨⟨st, t⟩, hissue, rfl⟩ := Option.map_eq_some_iff.mp hstep
  cases hissue
  have hnew : ∀ {P : Download → Prop}, P ⟨c, .find useCache⟩ → (∀ d ∈ s.state.downloads, P d) →
      ∀ d ∈ s.state.downloads ++ [⟨c, .find useCache⟩], P d := by
    intro P hp hall d hd
    rcases List.mem_append.mp hd with hd | hd
    · exact hall d hd
    · rw [List.mem_singleton.mp hd]
      exact hp
  have hret : (s.returned || returns s.state (.getChunk useCache)) = s.returned := Bool.or_false _
  constructor
  · exact hnew ⟨rfl, trivial, trivial⟩ h.knows
  · intro i j d d' hd hd' hbusy hbusy'
    -- the new call is not busy
    have hold : ∀ {k : ℕ} {d : Download},
        (s.state.downloads ++ [⟨c, .find useCache⟩])[k]? = some d → d.phase.busy = true →
          s.state.downloads[k]? = some d := by
      intro k d hd hbusy
      rw [List.getElem?_append] at hd
      split at hd
      · exact hd
      · rw [List.mem_singleton.mp (List.mem_of_getElem? hd)] at hbusy
        cases hbusy
    exact h.exclusive i j d d' (hold hd hbusy) (hold hd' hbusy') hbusy hbusy'
  · rw [hret]
    exact hnew (fun hbusy => by cases hbusy) h.busy
  · rw [hret]
    exact h.returned
  · rw [hret]
    rintro hfalse ⟨d, hd, hdone⟩
    have hold : d ∈ s.state.downloads := by
      rcases List.mem_append.mp hd with hd | hd
      · exact hd
      · rw [List.mem_singleton.mp hd] at hdone
        cases hdone
    rcases h.ended hfalse ⟨d, hold, hdone⟩ with ⟨d', hd', hbusy⟩ | hfailed
    · exact .inl ⟨d', List.mem_append_left _ hd', hbusy⟩
    · exact .inr hfailed

section Moves

variable {i : ℕ} {d : Download} {phase : DownloadPhase} (h : s.Inv c)
  (hd : s.state.downloads[i]? = some d)
  (hdownloads : s'.state.downloads = s.state.downloads.set i { d with phase })
  (hknows : ∀ x ∈ s'.state.downloads, x.Knows c (s'.state.store.db.dlStatus c))

include h hd hdownloads

/-- When the call that takes the step is not busy after it or has been before, the busy calls are
old. -/
lemma Inv.busy_old (hphase : phase.busy = true → d.phase.busy = true) :
    ∀ x ∈ s'.state.downloads, x.phase.busy = true →
      s.state.store.db.dlStatus c = some .inProgress ∧ s.returned = false := by
  rw [hdownloads]
  exact List.forall_mem_set h.busy fun hbusy => h.busy d (List.mem_of_getElem? hd) (hphase hbusy)

include hknows

/-- The call goes on, and nothing is saved that others can see. -/
lemma Inv.quiet (hphase : phase.busy = d.phase.busy) (hdone : phase ≠ .done)
    (hreturned : s'.returned = s.returned)
    (hafter : ∀ status, s.state.store.db.dlStatus c = some status →
      s'.state.store.db.dlStatus c = s.state.store.db.dlStatus c) : s'.Inv c := by
  refine ⟨hknows, ?_, ?_, ?_, ?_⟩
  · rw [hdownloads]
    exact h.exclusive.set hd fun hb => .inl (hphase ▸ hb)
  · intro x hx hxbusy
    have hold := h.busy_old hd hdownloads (fun hb => hphase ▸ hb) x hx hxbusy
    rw [hreturned, hafter _ hold.1]
    exact hold
  · rw [hreturned]
    intro hret
    rw [hafter _ (h.returned hret)]
    exact h.returned hret
  · rw [hreturned, hdownloads]
    rintro hret ⟨x, hx, hxdone⟩
    rcases List.mem_or_eq_of_mem_set hx with hx | rfl
    · rcases h.ended hret ⟨x, hx, hxdone⟩ with hexists | hfailed
      · exact .inl (List.exists_mem_set hd hexists fun hb => hphase.trans hb)
      · rw [hafter _ hfailed]
        exact .inr hfailed
    · exact absurd hxdone hdone

/-- The call returns what an earlier one has left in the cache. -/
lemma Inv.cached (hdone : phase = .done) (hreturned : s'.returned = true)
    (hbefore : s.state.store.db.dlStatus c = some .completed)
    (hafter : s'.state.store.db.dlStatus c = s.state.store.db.dlStatus c) : s'.Inv c := by
  have hidle : phase.busy = true → d.phase.busy = true := by simp [hdone, DownloadPhase.busy]
  refine ⟨hknows, ?_, ?_, ?_, ?_⟩
  · rw [hdownloads]
    exact h.exclusive.set hd fun hb => .inl (hidle hb)
  · intro x hx hxbusy
    have hold := (h.busy_old hd hdownloads hidle x hx hxbusy).1
    rw [hbefore] at hold
    cases hold
  · intro _
    rw [hafter]
    exact hbefore
  · rw [hreturned]
    intro hfalse
    cases hfalse

/-- A claim that is not stale: no other call is busy, so this one is alone. -/
lemma Inv.claims (hbusy : phase.busy = true)
    (hfree : s.state.store.db.dlStatus c ≠ some .inProgress) (hreturned : s'.returned = false)
    (hafter : s'.state.store.db.dlStatus c = some .inProgress) : s'.Inv c := by
  have hnone : ∀ x ∈ s.state.downloads, x.phase.busy = false := by
    intro x hx
    by_contra hxbusy
    exact hfree (h.busy x hx (by simpa using hxbusy)).1
  refine ⟨hknows, ?_, ?_, ?_, ?_⟩
  · rw [hdownloads]
    exact h.exclusive.set hd fun _ => .inr hnone
  · exact fun _ _ _ => ⟨hafter, hreturned⟩
  · rw [hreturned]
    intro hfalse
    cases hfalse
  · intro _ _
    refine .inl ⟨{ d with phase }, ?_, hbusy⟩
    rw [hdownloads]
    exact List.mem_iff_getElem?.mpr
      ⟨i, List.getElem?_set_self (List.getElem?_eq_some_iff.mp hd).1⟩

/-- The busy call ends. It was the only one, so no call is busy after it. -/
lemma Inv.ends (hbusy : d.phase.busy = true) (hdone : phase = .done)
    (hafter : s'.state.store.db.dlStatus c = some (if s'.returned then .completed else .failed)) :
    s'.Inv c := by
  have hnone : ∀ x ∈ s'.state.downloads, x.phase.busy = false := by
    intro x hx
    by_contra hxbusy
    rw [hdownloads] at hx
    rcases List.mem_iff_getElem?.mp hx with ⟨j, hj⟩
    by_cases hij : i = j
    · subst hij
      rw [List.getElem?_set_self (List.getElem?_eq_some_iff.mp hd).1, Option.some.injEq] at hj
      rw [← hj, hdone] at hxbusy
      exact hxbusy rfl
    · rw [List.getElem?_set_ne hij] at hj
      exact hij (h.exclusive i j d x hd hj hbusy (by simpa using hxbusy))
  refine ⟨hknows, ?_, ?_, ?_, ?_⟩
  · intro j k x y hx _ hxbusy _
    rw [hnone x (List.mem_of_getElem? hx)] at hxbusy
    cases hxbusy
  · intro x hx hxbusy
    rw [hnone x hx] at hxbusy
    cases hxbusy
  · intro hret
    rw [hafter, if_pos hret]
  · intro hret _
    rw [hafter, hret]
    exact .inr rfl

end Moves

/-- A step of a call keeps the invariant, whichever of the moves it is. -/
lemma Inv.download {i : ℕ} {bytes : Option Bytes} {ok : Bool} (h : s.Inv c)
    (hok : s.Claims c (.download i bytes ok))
    (hs : s.step cfg c (.download i bytes ok) = some s') : s'.Inv c := by
  rcases step_download hs with ⟨d, st, phase, obtained, hd, hnext, hdownloads, hdb, hreturned⟩
  have hmem := List.mem_of_getElem? hd
  have hok := hok d hd
  rcases Download.next_moves (h.knows d hmem) hok.1 hnext with ⟨hknows, hmoves⟩
  rw [← hdb] at hknows hmoves
  have hknows' : ∀ x ∈ s'.state.downloads, x.Knows c (s'.state.store.db.dlStatus c) := by
    rw [hdownloads]
    exact List.forall_mem_set (fun x hx => (h.knows x hx).mono hmoves.row) hknows
  cases hmoves with
  | quiet hbusy hdone hreturns hafter =>
    rw [hreturns, Bool.or_false] at hreturned
    exact h.quiet hd hdownloads hknows' hbusy hdone hreturned hafter
  | cached hbusy hdone hreturns hbefore hafter =>
    rw [hreturns, Bool.or_true] at hreturned
    exact h.cached hd hdownloads hknows' hdone hreturned hbefore hafter
  | claims hclaims hbusy hreturns hafter =>
    rcases hok.2 hclaims with ⟨hfree, hret⟩
    rw [hreturns, hret, Bool.or_false] at hreturned
    exact h.claims hd hdownloads hknows' hbusy hfree hreturned hafter
  | ends hbusy hdone hafter =>
    rw [(h.busy d hmem hbusy).2, Bool.false_or] at hreturned
    rw [← hreturned] at hafter
    exact h.ends hd hdownloads hknows' hbusy hdone hafter

/-- Each step whose claim is not stale keeps the invariant. -/
lemma Inv.step {e : CallEvent} (h : s.Inv c) (hok : s.Claims c e)
    (hs : s.step cfg c e = some s') : s'.Inv c := by
  cases e with
  | getChunk useCache => exact h.getChunk hs
  | download i bytes ok => exact h.download hok hs

lemma inv_start (c : JsString) (db : Database) : (start db).Inv c where
  knows d hd := by cases hd
  exclusive i j d d' hd := by cases hd
  busy d hd := by cases hd
  returned h := by cases h
  ended := by
    rintro - ⟨d, hd, -⟩
    cases hd

/-- In a run in which no call claims the chunk on the strength of a stale row, one call at a time
downloads it, and when all have ended the status is COMPLETED if one of them has obtained it, and
FAILED if none has. -/
theorem downloads_exclusive {db : Database}
    (h : Reach (ChunkCalls.step cfg c) (Claims c) (start db) s) :
    Exclusive s.state.downloads ∧ s.Settled c := by
  have hinv : s.Inv c := h.invariant (inv_start c db) fun _ _ _ hinv hok hs => hinv.step hok hs
  refine ⟨hinv.exclusive, ?_⟩
  intro hne hdone
  cases hret : s.returned with
  | true => exact hinv.returned hret
  | false =>
    rcases List.exists_mem_of_ne_nil _ hne with ⟨d, hd⟩
    rcases hinv.ended hret ⟨d, hd, hdone d hd⟩ with ⟨d', hd', hbusy⟩ | hfailed
    · rw [hdone d' hd'] at hbusy
      cases hbusy
    · exact hfailed

/-! ## Two calls -/

/-- Two calls, one after the other: the second waits, and reads the file. -/
def turnRun : List CallEvent :=
  [.getChunk true, .download 0 none true, .getChunk true, .download 0 none true,
    .download 1 none true, .download 0 (some [1]) true, .download 0 none true,
    .download 1 none true, .download 1 none true]

/-- Where this run ends. -/
def turnState : ChunkCalls :=
  after (guarded (ChunkCalls.step .small (chunkId 1)) (Claims (chunkId 1))) (start .init) turnRun

theorem downloads_exclusive_turn :
    Exclusive turnState.state.downloads ∧ turnState.Settled (chunkId 1) :=
  downloads_exclusive (.of_after turnRun (by decide +kernel))

/-- Two calls that both read the row before either claims it: both download, and the one that
fails is the last to save the row. -/
def raceRun : List CallEvent :=
  [.getChunk true, .getChunk true, .download 0 none true, .download 1 none true,
    .download 0 none true, .download 1 none true]

/-- Where this run ends. -/
def raceState : ChunkCalls :=
  after (guarded (ChunkCalls.step .small (chunkId 1)) Any) (start .init) raceRun

/-- The state after the chunk has been obtained by one call and marked as failed by another. -/
def lostState : ChunkCalls :=
  after (guarded (ChunkCalls.step .small (chunkId 1)) Any) raceState
    [.download 0 (some [1]) true, .download 0 none true, .download 1 none true,
      .download 1 none true, .download 1 none true]

/-- Both parts of the statement fail without the condition. -/
theorem downloads_not_exclusive :
    (Reach (ChunkCalls.step .small (chunkId 1)) Any (start .init) raceState ∧
      ¬ Exclusive raceState.state.downloads) ∧
    Reach (ChunkCalls.step .small (chunkId 1)) Any (start .init) lostState ∧
      ¬ lostState.Settled (chunkId 1) := by
  have hrace : Reach (ChunkCalls.step .small (chunkId 1)) Any (start .init) raceState :=
    .of_after raceRun (by decide +kernel)
  refine ⟨⟨hrace, ?_⟩, hrace.trans (.of_after _ (by decide +kernel)), ?_⟩
  · intro hexclusive
    let d : Download :=
      ⟨chunkId 1, .source { id := chunkId 1, dl_status := .inProgress, ul_status := .notStarted } 1⟩
    have hdownloads : raceState.state.downloads = [d, d] := by decide +kernel
    rw [hdownloads] at hexclusive
    exact absurd (hexclusive 0 1 d d rfl rfl rfl rfl) (by decide)
  · intro hsettled
    have hstatus := hsettled (by decide +kernel) (by decide +kernel)
    exact absurd hstatus (by decide +kernel)

end ChunkCalls

end PointNetwork.Uploader
