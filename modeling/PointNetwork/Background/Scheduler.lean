import Mathlib.Data.List.Count
import Mathlib.Logic.Function.Basic
import PointNetwork.Machine

/-!
# The scheduler of background jobs

`BackgroundJobScheduler` of `background/scheduler.ts`. The table `isRunning` is to keep two runs of
a job from overlapping. Its key is `typeof job`, which is the same for all jobs, and it is reset
behind the `await`, which a rejected run never comes to: a job then waits for the runs of the
others, and after a rejection none is run again.
-/

namespace PointNetwork.Background

open Machine

/-- How the run of a job stands. -/
inductive Outcome
  | inProgress
  | resolved
  | rejected
  deriving DecidableEq

/-- A call of `job.run()`. -/
structure Run where
  job : ℕ
  outcome : Outcome
  deriving DecidableEq

/-- `isRunning` (a key that is not there reads as `false`), and the calls of `job.run()` so far. -/
structure State where
  isRunning : String → Bool
  runs : List Run

/-- `typeof job`, of an instance of a class. -/
def typeofJob (_job : ℕ) : String := "object"

namespace State

/-- No job has run. -/
def init : State := ⟨fun _ => false, []⟩

/-- `runJob` up to its `await`. -/
def runJob (s : State) (job : ℕ) : State :=
  if s.isRunning (typeofJob job) then s
  else
    { isRunning := Function.update s.isRunning (typeofJob job) true
      runs := s.runs ++ [⟨job, .inProgress⟩] }

/-- The rest of `runJob` when its run has resolved. -/
def resolved (s : State) (r : ℕ) (job : ℕ) : State :=
  { isRunning := Function.update s.isRunning (typeofJob job) false
    runs := s.runs.set r ⟨job, .resolved⟩ }

/-- The rejection leaves `runJob` at the `await`. -/
def rejected (s : State) (r : ℕ) (job : ℕ) : State :=
  { s with runs := s.runs.set r ⟨job, .rejected⟩ }

/-- `run`, with as many jobs as are registered. -/
def run (jobs : ℕ) : State := (List.range jobs).foldl runJob init

end State

/-- The timer of a job, or the outcome of a run. -/
inductive Event
  /-- The timer of a job. -/
  | tick (job : ℕ)
  | resolve (r : ℕ)
  | reject (r : ℕ)
  deriving DecidableEq

/-- One event; a run that is over has no further outcome. -/
def step (jobs : ℕ) (s : State) : Event → Option State
  | .tick job => if job < jobs then some (s.runJob job) else none
  | .resolve r =>
    match s.runs[r]? with
    | some ⟨job, .inProgress⟩ => some (s.resolved r job)
    | _ => none
  | .reject r =>
    match s.runs[r]? with
    | some ⟨job, .inProgress⟩ => some (s.rejected r job)
    | _ => none

/-! ## The flag -/

/-- What keeps the flag set: a run in progress, and one that was rejected. -/
def Run.holds (r : Run) : Bool := r.outcome != .resolved

/-- The flag is set by one run, and only the resolution of this run resets it. -/
def Inv (s : State) : Prop := s.runs.countP Run.holds = (s.isRunning "object").toNat

lemma inv_init : Inv .init := rfl

/-- The timer of a job keeps the invariant. -/
lemma Inv.runJob {s : State} (inv : Inv s) (job : ℕ) : Inv (s.runJob job) := by
  unfold State.runJob
  split
  · exact inv
  · rename_i hfree
    show (s.runs ++ [(⟨job, .inProgress⟩ : Run)]).countP Run.holds = _
    rw [List.countP_append, show s.runs.countP Run.holds = _ from inv]
    rw [show s.isRunning "object" = false from Bool.eq_false_iff.mpr hfree]
    rfl

lemma Inv.runJobs {s : State} (inv : Inv s) (jobs : List ℕ) : Inv (jobs.foldl State.runJob s) := by
  induction jobs generalizing s with
  | nil => exact inv
  | cons job jobs ih => exact ih (inv.runJob job)

/-- A run that is settled counts as its outcome says. -/
lemma countP_set {runs : List Run} {r job : ℕ} (hr : runs[r]? = some ⟨job, .inProgress⟩)
    (outcome : Outcome) :
    (runs.set r ⟨job, outcome⟩).countP Run.holds + 1 =
      runs.countP Run.holds + (outcome != .resolved).toNat := by
  obtain ⟨hlt, hget⟩ := List.getElem?_eq_some_iff.mp hr
  have hpos : 0 < runs.countP Run.holds := by
    apply List.countP_pos_iff.mpr
    exact ⟨_, List.mem_of_getElem? hr, rfl⟩
  rw [List.countP_set hlt, hget]
  cases outcome with
  | inProgress =>
    show runs.countP Run.holds - 1 + 1 + 1 = runs.countP Run.holds + 1
    omega
  | resolved =>
    show runs.countP Run.holds - 1 + 0 + 1 = runs.countP Run.holds + 0
    omega
  | rejected =>
    show runs.countP Run.holds - 1 + 1 + 1 = runs.countP Run.holds + 1
    omega

/-- While a run is in progress, the flag is set. -/
lemma Inv.isRunning {s : State} (inv : Inv s) {job : ℕ} (hmem : ⟨job, .inProgress⟩ ∈ s.runs) :
    s.isRunning "object" = true := by
  have hpos : 0 < s.runs.countP Run.holds := List.countP_pos_iff.mpr ⟨_, hmem, rfl⟩
  rw [show s.runs.countP Run.holds = _ from inv] at hpos
  by_contra hfree
  rw [Bool.not_eq_true] at hfree
  rw [hfree] at hpos
  exact absurd hpos (Nat.lt_irrefl 0)

/-- A run that resolves keeps the invariant. -/
lemma Inv.resolved {s : State} (inv : Inv s) {r job : ℕ}
    (hr : s.runs[r]? = some ⟨job, .inProgress⟩) : Inv (s.resolved r job) := by
  have hset := countP_set hr .resolved
  rw [show s.runs.countP Run.holds = _ from inv,
    inv.isRunning (List.mem_of_getElem? hr)] at hset
  show (s.runs.set r ⟨job, .resolved⟩).countP Run.holds = 0
  exact Nat.succ.inj hset

/-- A run that is rejected keeps the invariant. -/
lemma Inv.rejected {s : State} (inv : Inv s) {r job : ℕ}
    (hr : s.runs[r]? = some ⟨job, .inProgress⟩) : Inv (s.rejected r job) := by
  have hset := countP_set hr .rejected
  show (s.runs.set r ⟨job, .rejected⟩).countP Run.holds = (s.isRunning "object").toNat
  rw [← show s.runs.countP Run.holds = _ from inv]
  exact Nat.succ.inj hset

lemma Inv.step {jobs : ℕ} {s s' : State} {e : Event} (inv : Inv s)
    (hstep : step jobs s e = some s') : Inv s' := by
  cases e with
  | tick job =>
    obtain ⟨_, hs'⟩ := Option.ite_none_right_eq_some.mp hstep
    cases hs'
    exact inv.runJob job
  | resolve r =>
    simp only [Background.step] at hstep
    split at hstep
    · rename_i job hr
      cases hstep
      exact inv.resolved hr
    · cases hstep
  | reject r =>
    simp only [Background.step] at hstep
    split at hstep
    · rename_i job hr
      cases hstep
      exact inv.rejected hr
    · cases hstep

/-- The flag is free just if every run so far has resolved. -/
lemma Inv.free_iff {s : State} (inv : Inv s) :
    s.isRunning "object" = false ↔ ∀ r ∈ s.runs, r.outcome = .resolved := by
  have hcount : s.isRunning "object" = false ↔ s.runs.countP Run.holds = 0 := by
    rw [show s.runs.countP Run.holds = _ from inv, Bool.toNat_eq_zero]
  rw [hcount, List.countP_eq_zero]
  simp [Run.holds]

/-! ## Ticks -/

/-- Two runs of a job do not overlap. -/
def NoOverlap (s : State) : Prop := ∀ job, s.runs.count ⟨job, .inProgress⟩ ≤ 1

/-- A tick of the job starts a run, unless one is in progress. -/
def Starts (s : State) (job : ℕ) : Prop :=
  ⟨job, .inProgress⟩ ∉ s.runs → (s.runJob job).runs = s.runs ++ [⟨job, .inProgress⟩]

/-- If the job has no run in progress, no run was rejected and no other job has one in progress. -/
def Unhindered (s : State) (job : ℕ) : Prop :=
  ⟨job, .inProgress⟩ ∉ s.runs →
    ∀ r ∈ s.runs, r.outcome ≠ .rejected ∧ (r.outcome = .inProgress → r.job = job)

/-- Two runs of a job do not overlap. -/
lemma Inv.noOverlap {s : State} (inv : Inv s) : NoOverlap s := by
  intro job
  calc s.runs.count ⟨job, .inProgress⟩ ≤ s.runs.countP Run.holds := by
        apply List.countP_mono_left
        intro r _ hr
        rw [beq_iff_eq] at hr
        rw [hr]
        rfl
    _ = (s.isRunning "object").toNat := inv
    _ ≤ 1 := Bool.toNat_le _

/-- A timer starts a run unless the flag under `object` is set. -/
lemma runJob_starts_iff (s : State) (job : ℕ) :
    (s.runJob job).runs = s.runs ++ [⟨job, .inProgress⟩] ↔ s.isRunning "object" = false := by
  unfold State.runJob
  split
  · rename_i hset
    rw [show s.isRunning "object" = true from hset]
    simp
  · rename_i hfree
    rw [show s.isRunning "object" = false from Bool.eq_false_iff.mpr hfree]
    simp

/-- In every run the runs of a job do not overlap, and a tick of a job without a run in progress
starts one just if no run was rejected before it and no other job has a run in progress. -/
theorem starts_iff (jobs : ℕ) :
    ∀ s, Reach (step jobs) Any (.run jobs) s →
      NoOverlap s ∧ ∀ job < jobs, Starts s job ↔ Unhindered s job := by
  intro s h
  have inv : Inv s := h.invariant (inv_init.runJobs _) fun _ _ _ inv _ => inv.step
  refine ⟨inv.noOverlap, ?_⟩
  intro job _
  unfold Starts Unhindered
  apply imp_congr_right
  intro hnone
  rw [runJob_starts_iff, inv.free_iff]
  constructor
  · intro hall r hr
    rw [hall r hr]
    simp
  · intro hall r hr
    obtain ⟨hrejected, hother⟩ := hall r hr
    obtain ⟨job', outcome⟩ := r
    cases outcome with
    | inProgress =>
      rw [show job' = job from hother rfl] at hr
      exact absurd hr hnone
    | resolved => rfl
    | rejected => exact absurd rfl hrejected

/-- The third run of a single job. -/
theorem starts_iff_single :
    Starts (after (guarded (step 1) Any) (.run 1) [.tick 0, .resolve 0, .tick 0, .resolve 1])
      0 := by
  apply ((starts_iff 1 _ (.of_after _ (by decide))).2 0 Nat.one_pos).mpr
  intro _
  decide

/-- A single job whose first run is rejected, and two jobs of which the second waits for the
first. -/
theorem tick_ignored :
    (∃ s, Reach (step 1) Any (.run 1) s ∧ ¬ Starts s 0) ∧
      ∃ s, Reach (step 2) Any (.run 2) s ∧ ¬ Starts s 1 := by
  constructor
  · refine ⟨after (guarded (step 1) Any) (.run 1) [.reject 0], .of_after _ (by decide), ?_⟩
    intro h
    exact absurd (h (by decide)) (by decide)
  · refine ⟨.run 2, .init, ?_⟩
    intro h
    exact absurd (h (by decide)) (by decide)

end PointNetwork.Background
