import Mathlib.Data.Nat.Basic
import PointNetwork.Machine

/-!
# The publishing scheduler of the host storage

`syncHostStorage` of `client/hostStorage.ts`: which modification of the host storage is
published by which round. A round is the part of `syncHostStorage` after its two early
returns; it reads the local root file when it starts (`_getRoot` begins with `readFileSync`)
and ends after the registry has answered. Local roots are told apart by the number of local
writes before them, starting from 1.

A round that throws sets `syncing` back but skips the last lines of the function, which honour
`syncAgain`: a modification that came in during the round then waits for nobody.

* `Inv`, `step_inv`: a modification that no round has read is waited for by a timer or by the
  `syncAgain` of a running round, as long as no round throws while it is the only one to do so;
* `publish_not_lost`: so no modification is left without a round after it;
* `failure_loses_publish`: each throw outside this condition leaves one.
-/

namespace PointNetwork.HostStorage.Sync

/-- The flags of `syncHostStorage`, its timers and its rounds. -/
structure State where
  syncing : Bool
  syncAgain : Bool
  /-- In milliseconds, as `Date.now()`. -/
  lastSync : ℕ
  /-- The number of pending `setTimeout(syncHostStorage, …)`. -/
  timers : ℕ
  /-- The rounds that run, each with the local root it has read. -/
  running : List ℕ
  /-- The number of writes of the local root file so far. -/
  writes : ℕ
  /-- The local roots read by the rounds so far, in the order of their start. -/
  rounds : List ℕ
  deriving DecidableEq

/-- Ten seconds. -/
def SYNC_INTERVAL : ℕ := 1000 * 10

/-- Nothing has been written. -/
def init : State := ⟨false, false, 0, 0, [], 0, []⟩

/-- `syncHostStorage` up to its first `await` or its end, at the time `now`. -/
def syncHostStorage (now : ℕ) (s : State) : State :=
  if s.syncing then { s with syncAgain := true }
  -- reschedule
  else if s.lastSync + SYNC_INTERVAL > now then { s with timers := s.timers + 1 }
  else
    { s with
      syncing := true
      syncAgain := false
      lastSync := now
      running := s.running ++ [s.writes]
      rounds := s.rounds ++ [s.writes] }

/-- What can happen next. `i` is the place of a round in `running`. -/
inductive Event
  /-- A `hostStorageModify` writes the local root and calls `syncHostStorage`. -/
  | modify (now : ℕ)
  /-- A timer fires. -/
  | timer (now : ℕ)
  /-- The registry has taken the root of a round. -/
  | finish (i : ℕ)
  /-- Something a round waits for throws: the download, the identity or `putKeyValue`. -/
  | fail (i : ℕ)
  deriving DecidableEq

/-- A write of the root with the round it asks for, a timer, or the end of a round. -/
def step (s : State) : Event → Option State
  | .modify now => some (syncHostStorage now { s with writes := s.writes + 1 })
  | .timer now =>
    if s.timers = 0 then none
    else some (syncHostStorage now { s with timers := s.timers - 1 })
  | .finish i =>
    match s.running[i]? with
    | none => none
    | some _ =>
      some { s with
        syncing := false
        running := s.running.eraseIdx i
        timers := if s.syncAgain then s.timers + 1 else s.timers }
  | .fail i =>
    match s.running[i]? with
    | none => none
    -- `syncing = false; throw e;`
    | some _ => some { s with syncing := false, running := s.running.eraseIdx i }

/-- The last round that was started has read the last local root. -/
def LastRead (s : State) : Prop := s.rounds.getLast? = some s.writes

instance (s : State) : Decidable (LastRead s) :=
  inferInstanceAs (Decidable (_ = _))

/-- Where nothing runs and no timer is pending, the last round has read the last local root. -/
def NotLost (s : State) : Prop :=
  s.running = [] → s.timers = 0 → s.writes = 0 ∨ LastRead s

instance (s : State) : Decidable (NotLost s) :=
  inferInstanceAs (Decidable (_ → _))

/-- A round throws only while a timer is pending or where nothing was written since it has
started. -/
def Harmless (s : State) : Event → Prop
  | .fail _ => 0 < s.timers ∨ LastRead s
  | _ => True

instance (s : State) (e : Event) : Decidable (Harmless s e) :=
  match e with
  | .fail _ => inferInstanceAs (Decidable (_ ∨ _))
  | .modify _ | .timer _ | .finish _ => isTrue trivial

/-! ## One round at a time -/

/-- The flag says whether a round runs, and a round that runs is the last one started. -/
def Base (s : State) : Prop :=
  s.running = [] ∧ s.syncing = false ∨
    ∃ v, s.running = [v] ∧ s.syncing = true ∧ s.rounds.getLast? = some v ∧ v ≤ s.writes

/-- A local root that no round has read has a timer or a running round that will see to it. -/
def Awaited (s : State) : Prop :=
  s.writes = 0 ∨ LastRead s ∨ 0 < s.timers ∨ s.running ≠ [] ∧ s.syncAgain = true

/-- What holds in each reachable state. -/
structure Inv (s : State) : Prop where
  base : Base s
  awaited : Awaited s

theorem inv_init : Inv init where
  base := .inl ⟨rfl, rfl⟩
  awaited := .inl rfl

/-- A call of `syncHostStorage` sees to the last local root, whatever was true before. -/
theorem syncHostStorage_inv {s : State} (now : ℕ) (h : Base s) :
    Inv (syncHostStorage now s) := by
  unfold syncHostStorage
  obtain ⟨hnone, hflag⟩ | ⟨v, hone, hflag, hlast, hle⟩ := h
  · rw [if_neg (by simp [hflag])]
    split
    · exact ⟨.inl ⟨hnone, hflag⟩, .inr (.inr (.inl (Nat.succ_pos _)))⟩
    · -- the new round reads the local root at once
      have hlast : (s.rounds ++ [s.writes]).getLast? = some s.writes := by simp
      refine ⟨.inr ⟨s.writes, ?_, rfl, hlast, le_refl _⟩, .inr (.inl hlast)⟩
      show s.running ++ [s.writes] = [s.writes]
      rw [hnone, List.nil_append]
  · rw [if_pos hflag]
    refine ⟨.inr ⟨v, hone, hflag, hlast, hle⟩, .inr (.inr (.inr ⟨?_, rfl⟩))⟩
    show s.running ≠ []
    rw [hone]
    exact List.cons_ne_nil _ _

/-- A write keeps the flags and timers consistent. -/
theorem Base.write {s : State} (h : Base s) : Base { s with writes := s.writes + 1 } := by
  obtain h | ⟨v, hone, hflag, hlast, hle⟩ := h
  · exact .inl h
  · exact .inr ⟨v, hone, hflag, hlast, Nat.le_succ_of_le hle⟩

/-- The round that an event names is the only one. -/
theorem Base.only_round {s : State} (h : Base s) {i v : ℕ} (hi : s.running[i]? = some v) :
    s.running.eraseIdx i = [] := by
  obtain ⟨hnone, -⟩ | ⟨w, hone, -⟩ := h
  · simp [hnone] at hi
  · rw [hone] at hi ⊢
    have hi0 : i = 0 := by
      have := (List.getElem?_eq_some_iff.mp hi).1
      simp at this
      omega
    rw [hi0]
    rfl

/-- What the steps do. -/
theorem step_cases {s s' : State} {e : Event} (h : Base s) (hs : step s e = some s') :
    (∃ now, e = .modify now ∧ s' = syncHostStorage now { s with writes := s.writes + 1 }) ∨
    (∃ now, e = .timer now ∧ s' = syncHostStorage now { s with timers := s.timers - 1 }) ∨
    (∃ i, e = .finish i ∧ s' = { s with
        syncing := false
        running := []
        timers := if s.syncAgain then s.timers + 1 else s.timers }) ∨
    (∃ i, e = .fail i ∧ s.running ≠ [] ∧ s' = { s with syncing := false, running := [] }) := by
  cases e with
  | modify now => exact .inl ⟨now, rfl, (Option.some.inj hs).symm⟩
  | timer now =>
    simp only [step] at hs
    split at hs
    · cases hs
    · exact .inr (.inl ⟨now, rfl, (Option.some.inj hs).symm⟩)
  | finish i =>
    simp only [step] at hs
    split at hs
    · cases hs
    · rename_i v hv
      rw [h.only_round hv] at hs
      exact .inr (.inr (.inl ⟨i, rfl, (Option.some.inj hs).symm⟩))
  | fail i =>
    simp only [step] at hs
    split at hs
    · cases hs
    · rename_i v hv
      rw [h.only_round hv] at hs
      refine .inr (.inr (.inr ⟨i, rfl, ?_, (Option.some.inj hs).symm⟩))
      intro hnil
      simp [hnil] at hv

/-- `syncing` and the running rounds agree after every step, harmless or not. -/
theorem step_base {s s' : State} {e : Event} (h : Base s) (hs : step s e = some s') :
    Base s' := by
  obtain ⟨now, -, rfl⟩ | ⟨now, -, rfl⟩ | ⟨i, -, rfl⟩ | ⟨i, -, -, rfl⟩ := step_cases h hs
  · exact (syncHostStorage_inv now h.write).base
  · exact (syncHostStorage_inv now (s := { s with timers := s.timers - 1 }) h).base
  · exact .inl ⟨rfl, rfl⟩
  · exact .inl ⟨rfl, rfl⟩

/-- A harmless event keeps the invariant. -/
theorem step_inv {s s' : State} {e : Event} (h : Inv s) (hok : Harmless s e)
    (hs : step s e = some s') : Inv s' := by
  refine ⟨step_base h.base hs, ?_⟩
  obtain ⟨now, -, rfl⟩ | ⟨now, -, rfl⟩ | ⟨i, -, rfl⟩ | ⟨i, rfl, -, rfl⟩ := step_cases h.base hs
  · exact (syncHostStorage_inv now h.base.write).awaited
  · exact (syncHostStorage_inv now (s := { s with timers := s.timers - 1 }) h.base).awaited
  · obtain hw | hlast | htimers | ⟨-, hagain⟩ := h.awaited
    · exact .inl hw
    · exact .inr (.inl hlast)
    · refine .inr (.inr (.inl ?_))
      show 0 < if s.syncAgain then s.timers + 1 else s.timers
      split <;> omega
    · -- `if (syncAgain) setTimeout(syncHostStorage, 0)`
      refine .inr (.inr (.inl ?_))
      show 0 < if s.syncAgain then s.timers + 1 else s.timers
      rw [if_pos hagain]
      exact Nat.succ_pos _
  · obtain htimers | hlast := hok
    · exact .inr (.inr (.inl htimers))
    · exact .inr (.inl hlast)

/-- A write that a round waits for is not lost. -/
theorem Awaited.notLost {s : State} (h : Awaited s) : NotLost s := by
  intro hrunning htimers
  obtain hw | hlast | hpos | ⟨hne, -⟩ := h
  · exact .inl hw
  · exact .inr hlast
  · omega
  · exact absurd hrunning hne

/-! ## No modification is left without a round after it -/

/-- As long as no round throws while it alone stands between a modification and its
publication, every modification has a round after it. -/
theorem publish_not_lost {s : State} (h : Machine.Reach step Harmless init s) : NotLost s := by
  have hinv : Inv s := h.invariant inv_init fun _ _ _ hi hok hs => step_inv hi hok hs
  exact hinv.awaited.notLost

/-- A modification, its round, and another modification, published by a second round. -/
theorem publish_not_lost_two :
    NotLost ⟨false, false, 30000, 0, [], 2, [1, 2]⟩ :=
  publish_not_lost (Machine.Reach.of_guarded
    [.modify 10000, .modify 15000, .finish 0, .timer 30000, .finish 0] (by decide))

/-- A modification during a round that then throws: nothing runs, no timer is pending, and the
last round has read the root before. -/
theorem failed_round_loses_publish :
    ∃ s, Machine.Reach step Machine.Any init s ∧ ¬ NotLost s := by
  have hrun : Machine.Reach step Machine.Any init ⟨false, true, 10000, 0, [], 2, [1]⟩ :=
    Machine.Reach.of_run [.modify 10000, .modify 15000, .fail 0] (by decide)
  exact ⟨_, hrun, by decide⟩

/-- The condition is exact: a throw outside it leaves a modification without a round, in any
run. -/
theorem failure_loses_publish {s s' : State} {i : ℕ}
    (h : Machine.Reach step Machine.Any init s) (hbad : ¬ Harmless s (.fail i))
    (hs : step s (.fail i) = some s') : ¬ NotLost s' := by
  have hbase : Base s := h.invariant (.inl ⟨rfl, rfl⟩) fun _ _ _ hb _ hst => step_base hb hst
  obtain ⟨htimers, hunread⟩ := not_or.mp hbad
  obtain ⟨now, he, -⟩ | ⟨now, he, -⟩ | ⟨j, he, -⟩ | ⟨j, -, hne, rfl⟩ := step_cases hbase hs
  · cases he
  · cases he
  · cases he
  · intro hnot
    obtain hw | hlast := hnot rfl (by simpa using htimers)
    · -- the round that throws has read a root, which is not the last one
      obtain ⟨hnone, -⟩ | ⟨v, -, -, hlast, hle⟩ := hbase
      · exact hne hnone
      · apply hunread
        have hv : v = s.writes := by
          have hw' : s.writes = 0 := hw
          omega
        rw [LastRead, hlast, hv]
    · exact hunread hlast

end PointNetwork.HostStorage.Sync
