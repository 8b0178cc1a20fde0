import PointNetwork.Machine
import PointNetwork.Core

/-!
# The queue of host storage operations

`ensureSequential` and `_processSequential` of `client/hostStorage.ts` over the `Queue` of
`util/queue.ts`, which run the operations on the host storage one at a time.

A step is what the engine runs without interruption: the code up to the next `await`, or a
callback of `setImmediate`. Nothing in the state rules out that two calls of
`_processSequential` wait for a job at the same time; that they do not is a theorem.

* `one_job` to `awake`: the parts of the invariant `Inv`, kept by every step;
* `work_step`: what is left to do decreases when no new call comes in;
* `operations_serialised`: the operations are serialised and none is forgotten.
-/

namespace PointNetwork.HostStorage.Sequential

/-! ## `Queue` -/

section

variable {α : Type*}

/-- Adds at the end of the queue. -/
def enqueue (queue : List α) (val : α) : List α := queue ++ [val]

/-- `dequeue`: `shift` takes the first element out. -/
def dequeue (queue : List α) : Option (α × List α) :=
  match queue with
  | [] => none
  | fn :: rest => some (fn, rest)

end

/-! ## The state -/

/-- A callback that `ensureSequential` puts into the queue: it awaits `fn` and settles the
promise of the caller with what comes of it. Promises are numbered in the order of the calls. -/
structure Callback (F : Type*) where
  fn : F
  promise : ℕ

/-- A call of `_processSequential` that has taken a callback and waits in `await fn()`. -/
inductive Activation (F : Type*)
  /-- The callback waits for its job. -/
  | running (callback : Callback F)
  /-- The callback has settled its caller; the code after the `await` comes next. -/
  | returned

/-- The callback whose job an activation waits for. -/
def Activation.callback? {F : Type*} : Activation F → Option (Callback F)
  | running callback => some callback
  | returned => none

/-- What becomes of a promise. -/
abbrev Outcome (R : Type*) := Except Exception R

/-- The queue, the runs of `_processSequential` and what has been called and started. -/
structure State (F R : Type*) where
  sequentialInProgress : Bool
  sequentialCallbacks : List (Callback F)
  activations : List (Activation F)
  /-- The number of pending `setImmediate(_processSequential)`. -/
  immediates : ℕ
  /-- The jobs passed to `ensureSequential` so far, in the order of the calls. -/
  called : List F
  /-- The callbacks started so far, in the order of their start. -/
  started : List (Callback F)
  /-- The jobs that have ended, with what they ended with. -/
  finished : List (F × Outcome R)
  /-- The callers' promises that are settled, with what they are settled with. -/
  settled : List (ℕ × Outcome R)

section

variable {F R : Type*}

/-- Nothing has been called. -/
def init : State F R := ⟨false, [], [], 0, [], [], [], []⟩

/-- `_processSequential` up to its first `await` or its end. -/
def processSequential (s : State F R) : State F R :=
  if s.sequentialInProgress then s
  else
    match dequeue s.sequentialCallbacks with
    -- the flag is set and reset without an `await` in between
    | none => { s with sequentialInProgress := false }
    | some (fn, rest) =>
      { s with
        sequentialInProgress := true
        sequentialCallbacks := rest
        activations := s.activations ++ [.running fn]
        started := s.started ++ [fn] }

/-- `ensureSequential`, which returns the promise of this number. -/
def ensureSequential (fn : F) (promise : ℕ) (s : State F R) : State F R :=
  processSequential
    { s with sequentialCallbacks := enqueue s.sequentialCallbacks ⟨fn, promise⟩ }

/-- What can happen next; a call is written down with its job. `i` is the place of an activation in `activations`. -/
inductive Event (F R : Type*)
  /-- Somebody calls `ensureSequential`. -/
  | call (fn : F)
  /-- The job that an activation waits for ends, and its callback settles the caller. -/
  | finish (i : ℕ) (outcome : Outcome R)
  /-- `_processSequential` goes on after its `await`. -/
  | resume (i : ℕ)
  /-- A callback of `setImmediate` runs. -/
  | immediate

/-- A call of `ensureSequential`, the end of a callback, or a turn of the loop. -/
def step (s : State F R) : Event F R → Option (State F R)
  | .call fn => some { ensureSequential fn s.called.length s with called := s.called ++ [fn] }
  | .finish i outcome =>
    match s.activations[i]? with
    | some (.running callback) =>
      some { s with
        activations := s.activations.set i .returned
        finished := s.finished ++ [(callback.fn, outcome)]
        -- `resolve(result)` or `reject(e)`
        settled := s.settled ++ [(callback.promise, outcome)] }
    | _ => none
  | .resume i =>
    match s.activations[i]? with
    | some .returned =>
      some { s with
        activations := s.activations.eraseIdx i
        immediates := s.immediates + 1
        sequentialInProgress := false }
    | _ => none
  | .immediate =>
    if s.immediates = 0 then none
    else some (processSequential { s with immediates := s.immediates - 1 })

/-- The events other than new calls. -/
def Event.Internal : Event F R → Prop
  | .call _ => False
  | _ => True

/-- The callbacks of the calls so far, in their order. -/
def callbacks (called : List F) : List (Callback F) :=
  called.zipIdx.map fun (fn, promise) => ⟨fn, promise⟩

/-- The callbacks whose jobs run. -/
def State.running (s : State F R) : List (Callback F) := s.activations.filterMap Activation.callback?

/-! ## The invariant -/

/-- What the flag, the activations and the books of the queue have to do with each other. -/
structure Base (s : State F R) : Prop where
  flag : s.activations = [] ∧ s.sequentialInProgress = false ∨
    ∃ a, s.activations = [a] ∧ s.sequentialInProgress = true
  starts : s.started ++ s.sequentialCallbacks = callbacks s.called
  ends : s.finished.map Prod.fst ++ s.running.map Callback.fn = s.started.map Callback.fn
  settles : s.settled.map Prod.fst ++ s.running.map Callback.promise =
    s.started.map Callback.promise
  outcomes : s.settled.map Prod.snd = s.finished.map Prod.snd

/-- A callback that waits has somebody to start it. -/
def Awake (s : State F R) : Prop :=
  s.sequentialCallbacks ≠ [] → s.activations ≠ [] ∨ 0 < s.immediates

/-- What holds in each reachable state. -/
structure Inv (s : State F R) : Prop extends Base s where
  awake : Awake s

/-- A call adds its callback at the end. -/
theorem callbacks_append (called : List F) (fn : F) :
    callbacks (called ++ [fn]) = callbacks called ++ [⟨fn, called.length⟩] := by
  simp [callbacks, List.zipIdx_append]

theorem running_none {s : State F R} (h : s.activations = []) : s.running = [] := by
  rw [State.running, h]
  rfl

theorem running_one {s : State F R} (cb : Callback F) (h : s.activations = [.running cb]) :
    s.running = [cb] := by
  rw [State.running, h]
  rfl

theorem running_returned {s : State F R} (h : s.activations = [.returned]) :
    s.running = [] := by
  rw [State.running, h]
  rfl

theorem inv_init : Inv (init : State F R) where
  flag := .inl ⟨rfl, rfl⟩
  starts := rfl
  ends := rfl
  settles := rfl
  outcomes := rfl
  awake := fun h => absurd rfl h

/-- While a job runs, `_processSequential` does nothing. -/
theorem processSequential_busy {s : State F R} (h : s.sequentialInProgress = true) :
    processSequential s = s := by
  unfold processSequential
  rw [if_pos h]

/-- Nothing starts when the queue is empty. -/
theorem processSequential_empty {s : State F R} (h : s.sequentialInProgress = false)
    (hq : s.sequentialCallbacks = []) : processSequential s = s := by
  unfold processSequential
  rw [if_neg (by simp [h])]
  simp only [hq, dequeue]
  rw [← h, ← hq]

/-- The first callback of the queue starts. -/
theorem processSequential_start {s : State F R} {cb : Callback F} {rest : List (Callback F)}
    (h : s.sequentialInProgress = false) (hq : s.sequentialCallbacks = cb :: rest) :
    processSequential s =
      { s with
        sequentialInProgress := true
        sequentialCallbacks := rest
        activations := s.activations ++ [.running cb]
        started := s.started ++ [cb] } := by
  unfold processSequential
  rw [if_neg (by simp [h])]
  simp only [hq, dequeue]

/-- `_processSequential` keeps the books, and makes sure that a waiting callback has a job in
front of it. -/
theorem processSequential_inv {s : State F R} (h : Base s) : Inv (processSequential s) := by
  rcases h.flag with ⟨hnone, hflag⟩ | ⟨a, hone, hflag⟩
  · cases hq : s.sequentialCallbacks with
    | nil =>
      rw [processSequential_empty hflag hq]
      exact { h with awake := fun hne => absurd hq hne }
    | cons cb rest =>
      rw [processSequential_start hflag hq]
      have hstarts := h.starts
      have hends := h.ends
      have hsettles := h.settles
      rw [hq] at hstarts
      rw [running_none hnone, List.map_nil, List.append_nil] at hends hsettles
      have hone : s.activations ++ [.running cb] = [.running cb] := by rw [hnone]; rfl
      exact {
        flag := .inr ⟨.running cb, hone, rfl⟩
        starts := by
          show (s.started ++ [cb]) ++ rest = callbacks s.called
          rw [List.append_assoc]
          exact hstarts
        ends := by
          rw [running_one cb hone]
          simp [hends]
        settles := by
          rw [running_one cb hone]
          simp [hsettles]
        outcomes := h.outcomes
        awake := fun _ => .inl (by simp) }
  · rw [processSequential_busy hflag]
    exact { h with awake := fun _ => .inl (by simp [hone]) }

/-- `_processSequential` does not look at the calls that were written down. -/
theorem processSequential_record (s : State F R) (called : List F) :
    { processSequential s with called := called } = processSequential { s with called := called } := by
  unfold processSequential
  split
  · rfl
  · dsimp only
    split <;> rfl

/-- A call keeps the invariant. -/
theorem call_inv {s : State F R} (fn : F) (h : Inv s) :
    Inv { ensureSequential fn s.called.length s with called := s.called ++ [fn] } := by
  unfold ensureSequential
  rw [processSequential_record]
  apply processSequential_inv
  exact {
    flag := h.flag
    starts := by
      show s.started ++ (s.sequentialCallbacks ++ _) = _
      rw [callbacks_append, ← h.starts, List.append_assoc]
    ends := h.ends
    settles := h.settles
    outcomes := h.outcomes }

/-- The activation that an event names is the only one. -/
theorem Base.only_activation {s : State F R} (h : Base s) {i : ℕ} {a : Activation F}
    (ha : s.activations[i]? = some a) :
    i = 0 ∧ s.activations = [a] ∧ s.sequentialInProgress = true := by
  rcases h.flag with ⟨hnone, -⟩ | ⟨b, hone, hflag⟩
  · simp [hnone] at ha
  · rw [hone] at ha
    obtain ⟨hi, hb⟩ := List.getElem?_eq_some_iff.mp ha
    have hi0 : i = 0 := by
      simp at hi
      omega
    subst hi0
    exact ⟨rfl, by rw [hone, ← hb]; rfl, hflag⟩

/-- What a job's end, the code after the `await` and a callback of `setImmediate` do. -/
theorem step_internal {s s' : State F R} {e : Event F R} (h : Base s) (he : e.Internal)
    (hs : step s e = some s') :
    (∃ cb outcome, s.activations = [.running cb] ∧
      s' = { s with
        activations := [.returned]
        finished := s.finished ++ [(cb.fn, outcome)]
        settled := s.settled ++ [(cb.promise, outcome)] }) ∨
    (s.activations = [.returned] ∧
      s' = { s with
        activations := []
        immediates := s.immediates + 1
        sequentialInProgress := false }) ∨
    (0 < s.immediates ∧ s' = processSequential { s with immediates := s.immediates - 1 }) := by
  cases e with
  | call fn => exact absurd he id
  | finish i outcome =>
    left
    simp only [step] at hs
    split at hs
    · rename_i cb ha
      obtain ⟨rfl, hone, -⟩ := h.only_activation ha
      rw [hone] at hs
      exact ⟨cb, outcome, hone, (Option.some.inj hs).symm⟩
    · cases hs
  | resume i =>
    right; left
    simp only [step] at hs
    split at hs
    · rename_i ha
      obtain ⟨rfl, hone, -⟩ := h.only_activation ha
      rw [hone] at hs
      exact ⟨hone, (Option.some.inj hs).symm⟩
    · cases hs
  | immediate =>
    right; right
    simp only [step] at hs
    split at hs
    · cases hs
    · rename_i hpos
      exact ⟨by omega, (Option.some.inj hs).symm⟩

/-- Each event keeps the invariant. -/
theorem step_inv {s s' : State F R} {e : Event F R} (h : Inv s) (hs : step s e = some s') :
    Inv s' := by
  by_cases he : e.Internal
  · obtain ⟨cb, outcome, hone, rfl⟩ | ⟨hone, rfl⟩ | ⟨-, rfl⟩ := step_internal h.toBase he hs
    · have hends := h.ends
      have hsettles := h.settles
      rw [running_one _ hone] at hends hsettles
      exact {
        flag := .inr ⟨.returned, rfl, (h.only_activation (i := 0) (by rw [hone]; rfl)).2.2⟩
        starts := h.starts
        ends := by
          rw [running_returned rfl]
          simpa using hends
        settles := by
          rw [running_returned rfl]
          simpa using hsettles
        outcomes := by simp [h.outcomes]
        awake := fun _ => .inl (by simp) }
    · have hends := h.ends
      have hsettles := h.settles
      rw [running_returned hone] at hends hsettles
      exact {
        flag := .inl ⟨rfl, rfl⟩
        starts := h.starts
        ends := by rw [running_none rfl]; exact hends
        settles := by rw [running_none rfl]; exact hsettles
        outcomes := h.outcomes
        -- the callback of `setImmediate` looks at the queue again
        awake := fun _ => .inr (Nat.succ_pos _) }
    · apply processSequential_inv
      exact { h.toBase with }
  · cases e with
    | call fn =>
      obtain rfl := Option.some.inj hs
      exact call_inv fn h
    | finish i outcome => exact absurd trivial he
    | resume i => exact absurd trivial he
    | immediate => exact absurd trivial he

/-- The invariant holds in every reachable state. -/
theorem inv_of_reach {s : State F R} (h : Machine.Reach step Machine.Any init s) : Inv s :=
  h.invariant inv_init fun _ _ _ hi _ hs => step_inv hi hs

/-! ## No operation is forgotten -/

/-- The steps that an activation still takes. -/
def Activation.work : Activation F → ℕ
  | running _ => 3
  | returned => 2

/-- A bound on the number of steps the queue takes without new calls. -/
def work (s : State F R) : ℕ :=
  4 * s.sequentialCallbacks.length + (s.activations.map Activation.work).sum + s.immediates

/-- Starting a callback makes the work no more. -/
theorem processSequential_work {s : State F R} (h : Base s) :
    work (processSequential s) ≤ work s := by
  rcases h.flag with ⟨hnone, hflag⟩ | ⟨a, hone, hflag⟩
  · cases hq : s.sequentialCallbacks with
    | nil => rw [processSequential_empty hflag hq]
    | cons cb rest =>
      rw [processSequential_start hflag hq]
      simp only [work, hnone, hq, List.nil_append, List.map_cons, List.map_nil, List.sum_cons,
        List.sum_nil, List.length_cons, Activation.work]
      omega
  · rw [processSequential_busy hflag]

/-- Each internal event makes the work less. -/
theorem work_step {s s' : State F R} {e : Event F R} (h : Base s) (he : e.Internal)
    (hs : step s e = some s') : work s' < work s := by
  obtain ⟨cb, outcome, hone, rfl⟩ | ⟨hone, rfl⟩ | ⟨hpos, rfl⟩ := step_internal h he hs
  · simp [work, hone, Activation.work]
  · simp only [work, hone, List.map_cons, List.map_nil, List.sum_cons, List.sum_nil,
      Activation.work]
    omega
  · have hbase : Base { s with immediates := s.immediates - 1 } := { h with }
    apply lt_of_le_of_lt (processSequential_work hbase)
    simp only [work]
    omega

theorem processSequential_called (s : State F R) : (processSequential s).called = s.called := by
  unfold processSequential
  split
  · rfl
  · split <;> rfl

/-- An internal event adds no call. -/
theorem step_called {s s' : State F R} {e : Event F R} (h : Base s) (he : e.Internal)
    (hs : step s e = some s') : s'.called = s.called := by
  obtain ⟨cb, outcome, -, rfl⟩ | ⟨-, rfl⟩ | ⟨-, rfl⟩ := step_internal h he hs
  · rfl
  · rfl
  · apply processSequential_called

/-- Without new calls a run ends after at most `work s` steps. -/
theorem run_internal {s s' : State F R} {es : List (Event F R)} (h : Inv s)
    (he : ∀ e ∈ es, e.Internal) (hr : Machine.run step s es = some s') :
    es.length ≤ work s ∧ s'.called = s.called ∧ Inv s' := by
  induction es generalizing s with
  | nil =>
    obtain rfl := Option.some.inj hr
    exact ⟨Nat.zero_le _, rfl, h⟩
  | cons e es ih =>
    obtain ⟨t, ht, hrest⟩ := Option.bind_eq_some_iff.mp hr
    have heI : e.Internal := he e List.mem_cons_self
    have hlt : work t < work s := work_step h.toBase heI ht
    obtain ⟨hlen, hcalled, hinv⟩ :=
      ih (step_inv h ht) (fun e' he' => he e' (List.mem_cons_of_mem _ he')) hrest
    refine ⟨?_, hcalled.trans (step_called h.toBase heI ht), hinv⟩
    rw [List.length_cons]
    omega

/-- Nothing can happen any more without a new call. -/
def Stuck (s : State F R) : Prop := ∀ e, Event.Internal e → step s e = none

/-- Where nothing can happen any more, nothing is left to do. -/
theorem stuck_done {s : State F R} (h : Inv s) (hs : Stuck s) :
    s.activations = [] ∧ s.sequentialCallbacks = [] := by
  have hnone : s.activations = [] := by
    rcases h.flag with ⟨hnone, -⟩ | ⟨a, hone, -⟩
    · exact hnone
    · cases a with
      | running cb =>
        have hfin := hs (.finish 0 (.error .rejected)) trivial
        simp [step, hone] at hfin
      | returned =>
        have hres := hs (.resume 0) trivial
        simp [step, hone] at hres
  refine ⟨hnone, ?_⟩
  by_contra hq
  have himm : 0 < s.immediates := (h.awake hq).resolve_left (absurd hnone)
  have hnext := hs .immediate trivial
  simp only [step] at hnext
  rw [if_neg (by omega)] at hnext
  cases hnext

/-! ## The operations are serialised -/

/-- The promises of the calls are their numbers. -/
theorem callbacks_promise (called : List F) :
    (callbacks called).map Callback.promise = List.range called.length := by
  rw [List.range_eq_range', ← List.zipIdx_map_snd 0 called, callbacks, List.map_map]
  rfl

/-- The callbacks are those of the calls. -/
theorem callbacks_fn (called : List F) : (callbacks called).map Callback.fn = called := by
  rw [callbacks, List.map_map]
  exact List.zipIdx_map_fst 0 called

/-- What serialising the operations means, in a state of a run. -/
structure Serialised (s : State F R) : Prop where
  /-- At most one job runs, or is being waited for. -/
  one_job : s.activations.length ≤ 1
  /-- The callbacks started and those that wait are those of the calls, in their order. -/
  in_order : s.started ++ s.sequentialCallbacks = callbacks s.called
  /-- The jobs that have started are those that have ended and the one that runs. -/
  each_once : s.finished.map Prod.fst ++ s.running.map Callback.fn = s.started.map Callback.fn
  /-- Each job that ended has settled the promise of its call, and with its own outcome. -/
  own_outcome : s.settled.length = s.finished.length ∧
    ∀ (i : ℕ) (fn : F) (outcome : Outcome R), s.finished[i]? = some (fn, outcome) →
      s.called[i]? = some fn ∧ s.settled[i]? = some (i, outcome)
  /-- No callback waits without a job in front of it or a call of `_processSequential`. -/
  awake : s.sequentialCallbacks ≠ [] → s.activations ≠ [] ∨ 0 < s.immediates

/-- Each promise is settled with the outcome of its own callback. -/
theorem Inv.own_outcome {s : State F R} (h : Inv s) {i : ℕ} {fn : F} {outcome : Outcome R}
    (hi : s.finished[i]? = some (fn, outcome)) :
    s.called[i]? = some fn ∧ s.settled[i]? = some (i, outcome) := by
  have hlt : i < s.finished.length := (List.getElem?_eq_some_iff.mp hi).1
  have hlen : s.settled.length = s.finished.length := by
    simpa using congrArg List.length h.outcomes
  -- the functions and the promises of the jobs that ended head those of the calls
  have hfns : s.finished.map Prod.fst ++
      (s.running.map Callback.fn ++ s.sequentialCallbacks.map Callback.fn) = s.called := by
    rw [← List.append_assoc, h.ends, ← List.map_append, h.starts, callbacks_fn]
  have hpromises : s.settled.map Prod.fst ++
      (s.running.map Callback.promise ++ s.sequentialCallbacks.map Callback.promise) =
        List.range s.called.length := by
    rw [← List.append_assoc, h.settles, ← List.map_append, h.starts, callbacks_promise]
  have hcalled : s.called[i]? = some fn := by
    rw [← hfns, List.getElem?_append_left (by simpa using hlt), List.getElem?_map, hi]
    rfl
  have hfst : (s.settled.map Prod.fst)[i]? = some i := by
    have hrange : (List.range s.called.length)[i]? = some i :=
      List.getElem?_range (List.getElem?_eq_some_iff.mp hcalled).1
    rw [← hpromises, List.getElem?_append_left (by simpa [hlen] using hlt)] at hrange
    exact hrange
  have hsnd : (s.settled.map Prod.snd)[i]? = some outcome := by
    rw [h.outcomes, List.getElem?_map, hi]
    rfl
  refine ⟨hcalled, ?_⟩
  have hget : s.settled[i]? = some s.settled[i] := List.getElem?_eq_getElem (by omega)
  rw [List.getElem?_map, hget] at hfst hsnd
  rw [hget]
  exact congrArg some (Prod.ext (Option.some.inj hfst) (Option.some.inj hsnd))

/-- What the invariant says of the calls. -/
theorem Inv.serialised {s : State F R} (h : Inv s) : Serialised s where
  one_job := by
    rcases h.flag with ⟨hnone, -⟩ | ⟨a, hone, -⟩
    · rw [hnone]
      exact Nat.zero_le _
    · rw [hone]
      exact le_refl 1
  in_order := h.starts
  each_once := h.ends
  own_outcome := ⟨by simpa using congrArg List.length h.outcomes, fun _ _ _ => h.own_outcome⟩
  awake := h.awake

/-- However calls and the ends of jobs interleave, the jobs are serialised, and when no new
calls come in, the queue comes to rest after finitely many steps with every job started and
every caller settled. -/
theorem operations_serialised {s : State F R} (h : Machine.Reach step Machine.Any init s) :
    Serialised s ∧
      ∀ es s', (∀ e ∈ es, Event.Internal e) → Machine.run step s es = some s' →
        es.length ≤ work s ∧
          (Stuck s' → s'.started = callbacks s.called ∧
            s'.settled.map Prod.fst = List.range s.called.length) := by
  have hinv : Inv s := inv_of_reach h
  refine ⟨hinv.serialised, ?_⟩
  intro es s' he hr
  obtain ⟨hlen, hcalled, hinv'⟩ := run_internal hinv he hr
  refine ⟨hlen, ?_⟩
  intro hstuck
  obtain ⟨hnone, hq⟩ := stuck_done hinv' hstuck
  have hstarted : s'.started = callbacks s.called := by
    rw [← hcalled, ← hinv'.starts, hq, List.append_nil]
  refine ⟨hstarted, ?_⟩
  have hsettles := hinv'.settles
  rw [running_none hnone, List.map_nil, List.append_nil] at hsettles
  rw [hsettles, hstarted, callbacks_promise]

/-- Two calls, the first of which has ended: the second one runs after it, and nothing is left. -/
theorem operations_serialised_two : ∃ s s' : State Char ℕ, Serialised s ∧ s.running = [] ∧
    s'.started = callbacks ['a', 'b'] ∧ s'.settled.map Prod.fst = [0, 1] := by
  let s : State Char ℕ :=
    { sequentialInProgress := true
      sequentialCallbacks := [⟨'b', 1⟩]
      activations := [.returned]
      immediates := 0
      called := ['a', 'b']
      started := [⟨'a', 0⟩]
      finished := [('a', .ok 7)]
      settled := [(0, .ok 7)] }
  let s' : State Char ℕ :=
    { s with
      sequentialInProgress := false
      sequentialCallbacks := []
      activations := []
      started := [⟨'a', 0⟩, ⟨'b', 1⟩]
      finished := [('a', .ok 7), ('b', .error .rejected)]
      settled := [(0, .ok 7), (1, .error .rejected)] }
  have hreach : Machine.Reach step Machine.Any init s :=
    Machine.Reach.of_run [.call 'a', .call 'b', .finish 0 (.ok 7)] rfl
  have hrun : Machine.run step s [.resume 0, .immediate, .finish 0 (.error .rejected), .resume 0,
      .immediate] = some s' := rfl
  have hstuck : Stuck s' := by
    rintro (fn | ⟨i, outcome⟩ | i | -) he
    · exact absurd he id
    all_goals rfl
  obtain ⟨hserialised, hends⟩ := operations_serialised hreach
  obtain ⟨-, hdone⟩ := hends _ s' (by simp [Event.Internal]) hrun
  exact ⟨s, s', hserialised, rfl, hdone hstuck⟩

end

end PointNetwork.HostStorage.Sequential
