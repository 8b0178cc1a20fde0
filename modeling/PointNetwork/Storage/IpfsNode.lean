import Mathlib.Data.List.Nodup
import Mathlib.Data.List.Perm.Basic
import PointNetwork.Machine

/-!
# Waiting for the IPFS node

`getIPFSNodeInstance` of `client/storage/ipfs.ts`. The first call creates the node; those that come
while it is being created leave their `resolve` in a list. When the node is there, each of the list
is scheduled by `setSoon`.

A failed creation goes to the first caller only: the others stay in the list, and nothing is
scheduled for them before a later call creates the node.
-/

namespace PointNetwork.Storage.IpfsNode

open Machine

/-- What has become of the promise of a call. -/
inductive Call (Node : Type)
  /-- The call creates the node. -/
  | creating
  /-- Its `resolve` is in the list. -/
  | waiting
  | resolved (node : Node)
  | rejected
  deriving DecidableEq

/-- The variables of the module, the calls by their places, and the functions given to `setSoon`
that are to run (`scheduled`) and have run (`delivered`), by the calls whose `resolve` they are
for. -/
structure State (Node : Type) where
  _node : Option Node
  _creatingNode : Bool
  _callbacksWaitingForNodeCreation : List ℕ
  calls : List (Call Node)
  scheduled : List ℕ
  delivered : List ℕ

/-- The node has not been asked for. -/
def State.init (Node : Type) : State Node := ⟨none, false, [], [], [], []⟩

/-- What the calls and the event loop do. -/
inductive Event (Node : Type)
  /-- A call. Where it creates the node, it may fail before it awaits (`fs.rmSync`). -/
  | getIPFSNodeInstance (throws : Bool)
  /-- What `create` returns to the call. -/
  | created (i : ℕ) (node : Node)
  | failed (i : ℕ)
  /-- A function given to `setSoon` runs. -/
  | soon (k : ℕ)
  deriving DecidableEq

variable {Node : Type}

namespace State

/-- A call: the node is there, is being created, or is created by this call. -/
def getIPFSNodeInstance (s : State Node) (throws : Bool) : State Node :=
  match s._node with
  | some node => { s with calls := s.calls ++ [.resolved node] }
  | none =>
    if s._creatingNode then
      { s with
        calls := s.calls ++ [.waiting]
        _callbacksWaitingForNodeCreation :=
          s._callbacksWaitingForNodeCreation ++ [s.calls.length] }
    else if throws then { s with calls := s.calls ++ [.rejected] }
    else { s with calls := s.calls ++ [.creating], _creatingNode := true }

/-- What follows `create` in the call `i`. -/
def created (s : State Node) (i : ℕ) (node : Node) : State Node :=
  { s with
    _node := some node
    _creatingNode := false
    calls := s.calls.set i (.resolved node)
    scheduled := s.scheduled ++ s._callbacksWaitingForNodeCreation }

/-- The creation of the node has failed. The calls that wait are not told. -/
def failed (s : State Node) (i : ℕ) : State Node :=
  { s with
    _creatingNode := false
    calls := s.calls.set i .rejected }

/-- `cb(_node)`. Only the first call of a `resolve` has an effect. -/
def soon (s : State Node) (k : ℕ) : Option (State Node) :=
  (s.scheduled[k]?).bind fun i =>
    s._node.map fun node =>
      { s with
        calls := if s.calls[i]?.any (fun call => call matches .waiting) then
          s.calls.set i (.resolved node) else s.calls
        scheduled := s.scheduled.eraseIdx k
        delivered := s.delivered ++ [i] }

end State

/-- One event of the process. -/
def step (s : State Node) : Event Node → Option (State Node)
  | .getIPFSNodeInstance throws => some (s.getIPFSNodeInstance throws)
  | .created i node =>
    if s.calls[i]?.any (fun call => call matches .creating) then some (s.created i node) else none
  | .failed i =>
    if s.calls[i]?.any (fun call => call matches .creating) then some (s.failed i) else none
  | .soon k => s.soon k

/-- How often a waiting call is settled, by functions that have run or are to run. -/
def State.settlements (s : State Node) (i : ℕ) : ℕ := (s.delivered ++ s.scheduled).count i

/-- No call is settled twice. When no node is being created, a function is scheduled for each call
that waits, and each that has waited is settled once, with the node. -/
structure State.Settled (s : State Node) : Prop where
  once : ∀ i : ℕ, s.settlements i ≤ 1
  waiting : s._creatingNode = false → ∀ i : ℕ, s.calls[i]? = some .waiting → i ∈ s.scheduled
  listed : s._creatingNode = false → ∀ i ∈ s._callbacksWaitingForNodeCreation,
    s.settlements i = 1 ∧
      (i ∈ s.delivered → ∃ node, s._node = some node ∧ s.calls[i]? = some (.resolved node))

/-- No creation fails while calls wait. -/
def Undisturbed (s : State Node) : Event Node → Prop
  | .failed _ => s._callbacksWaitingForNodeCreation = []
  | _ => True

instance (s : State Node) (e : Event Node) : Decidable (Undisturbed s e) := by
  unfold Undisturbed
  split
  · exact decidable_of_iff (s._callbacksWaitingForNodeCreation.isEmpty = true) List.isEmpty_iff
  · infer_instance

/-! ## The list -/

/-- Every call of the list waits until a node is there; from then on each is settled once. It holds
in every run: the list is scheduled as a whole when a node is created, however many creations have
failed. -/
structure Inv (s : State Node) : Prop where
  distinct : s._callbacksWaitingForNodeCreation.Nodup
  creating : ∀ i : ℕ, s.calls[i]? = some .creating → s._creatingNode = true
  single : ∀ i j : ℕ, s.calls[i]? = some .creating → s.calls[j]? = some .creating → i = j
  noNode : s._creatingNode = true → s._node = none
  waiting : s._node = none → s.scheduled = [] ∧ s.delivered = []
  queued : ∀ i : ℕ, s.calls[i]? = some .waiting → i ∈ s._callbacksWaitingForNodeCreation
  listed : ∀ i ∈ s._callbacksWaitingForNodeCreation,
    s.calls[i]? = some .waiting ∨ ∃ node, s._node = some node ∧ s.calls[i]? = some (.resolved node)
  done : ∀ i ∈ s.delivered, ∃ node, s._node = some node ∧ s.calls[i]? = some (.resolved node)
  settled : s._node ≠ none → ∀ i : ℕ,
    s.settlements i = s._callbacksWaitingForNodeCreation.count i

lemma any_iff {call : Option (Call Node)} :
    call.any (fun call => call matches .creating) = true ↔ call = some .creating := by
  cases call with
  | none => simp
  | some call => cases call <;> simp

lemma any_waiting_iff {call : Option (Call Node)} :
    call.any (fun call => call matches .waiting) = true ↔ call = some .waiting := by
  cases call with
  | none => simp
  | some call => cases call <;> simp

lemma inv_init : Inv (State.init Node) where
  distinct := List.nodup_nil
  creating i h := by cases h
  single i j h := by cases h
  noNode h := by cases h
  waiting _ := ⟨rfl, rfl⟩
  queued i h := by cases h
  listed i h := by cases h
  done i h := by cases h
  settled h := absurd rfl h

/-- A call is an old one or the new one. -/
lemma getElem?_append_call {calls : List (Call Node)} {call c : Call Node} {i : ℕ} :
    (calls ++ [call])[i]? = some c ↔ calls[i]? = some c ∨ i = calls.length ∧ call = c := by
  by_cases hi : i < calls.length
  · rw [List.getElem?_append_left hi]
    simp only [Nat.ne_of_lt hi, false_and, or_false]
  · have hnone : calls[i]? = none := List.getElem?_eq_none (by omega)
    rw [List.getElem?_append_right (by omega), hnone]
    by_cases hlen : i = calls.length
    · simp [hlen]
    · rw [List.getElem?_eq_none (by simp only [List.length_singleton]; omega)]
      simp [hlen]

/-- The other calls stay. -/
lemma getElem?_set_call {calls : List (Call Node)} {call c : Call Node} {i j : ℕ} (hne : j ≠ i) :
    (calls.set i call)[j]? = some c ↔ calls[j]? = some c := by
  rw [List.getElem?_set_ne (Ne.symm hne)]

/-- The calls that wait are those that waited before the creating call was settled. -/
lemma set_waiting_iff {s : State Node} {i : ℕ} {call : Call Node}
    (hi : s.calls[i]? = some .creating) (hcall : call ≠ .waiting) (j : ℕ) :
    (s.calls.set i call)[j]? = some .waiting ↔ s.calls[j]? = some .waiting := by
  by_cases hji : j = i
  · subst hji
    rw [List.getElem?_set_self (List.getElem?_eq_some_iff.mp hi).1, hi]
    simp [hcall]
  · exact getElem?_set_call hji

section Steps

variable {s : State Node} (inv : Inv s)

include inv

/-- What a call adds to the list is its own place, which no call has had before it. -/
lemma Inv.fresh : s.calls.length ∉ s._callbacksWaitingForNodeCreation := by
  intro hmem
  rcases inv.listed _ hmem with h | ⟨_, _, h⟩
  · simp at h
  · simp at h

/-- A new call that neither waits nor creates. -/
lemma Inv.append {call : Call Node} (hcreating : call ≠ .creating) (hwaiting : call ≠ .waiting) :
    Inv { s with calls := s.calls ++ [call] } where
  distinct := inv.distinct
  creating i h := by
    rcases getElem?_append_call.mp h with h | ⟨_, h⟩
    · exact inv.creating i h
    · exact absurd h hcreating
  single i j hi hj := by
    rcases getElem?_append_call.mp hi with hi | ⟨_, hi⟩
    · rcases getElem?_append_call.mp hj with hj | ⟨_, hj⟩
      · exact inv.single i j hi hj
      · exact absurd hj hcreating
    · exact absurd hi hcreating
  noNode := inv.noNode
  waiting := inv.waiting
  queued i h := by
    rcases getElem?_append_call.mp h with h | ⟨_, h⟩
    · exact inv.queued i h
    · exact absurd h hwaiting
  listed i hi := by
    rcases inv.listed i hi with h | ⟨node, hnode, h⟩
    · exact .inl (getElem?_append_call.mpr (.inl h))
    · exact .inr ⟨node, hnode, getElem?_append_call.mpr (.inl h)⟩
  done i hi := by
    obtain ⟨node, hnode, h⟩ := inv.done i hi
    exact ⟨node, hnode, getElem?_append_call.mpr (.inl h)⟩
  settled := inv.settled

/-- A call that comes while the node is being created. -/
lemma Inv.wait (hcreating : s._creatingNode = true) :
    Inv { s with
      calls := s.calls ++ [.waiting]
      _callbacksWaitingForNodeCreation :=
        s._callbacksWaitingForNodeCreation ++ [s.calls.length] } where
  distinct := by
    show (s._callbacksWaitingForNodeCreation ++ [s.calls.length]).Nodup
    rw [List.nodup_append]
    refine ⟨inv.distinct, List.pairwise_singleton _ _, ?_⟩
    intro i hi j hj hij
    rw [List.mem_singleton] at hj
    apply inv.fresh
    rw [← hj, ← hij]
    exact hi
  creating _ _ := hcreating
  -- a call that waits is not the one that creates the node
  single i j hi hj := by
    rcases getElem?_append_call.mp hi with hi | ⟨_, hi⟩
    · rcases getElem?_append_call.mp hj with hj | ⟨_, hj⟩
      · exact inv.single i j hi hj
      · cases hj
    · cases hi
  noNode := inv.noNode
  waiting := inv.waiting
  queued i h := by
    rcases getElem?_append_call.mp h with h | ⟨h, _⟩
    · exact List.mem_append_left _ (inv.queued i h)
    · exact List.mem_append_right _ (List.mem_singleton.mpr h)
  listed i hi := by
    rcases List.mem_append.mp hi with hi | hi
    · rcases inv.listed i hi with h | ⟨node, hnode, h⟩
      · exact .inl (getElem?_append_call.mpr (.inl h))
      · exact .inr ⟨node, hnode, getElem?_append_call.mpr (.inl h)⟩
    · exact .inl (getElem?_append_call.mpr (.inr ⟨List.mem_singleton.mp hi, rfl⟩))
  done i hi := by
    obtain ⟨node, hnode, h⟩ := inv.done i hi
    exact ⟨node, hnode, getElem?_append_call.mpr (.inl h)⟩
  settled hnode := absurd (inv.noNode hcreating) hnode

/-- The call that creates the node. -/
lemma Inv.create (hnode : s._node = none) (hidle : s._creatingNode = false) :
    Inv { s with calls := s.calls ++ [.creating], _creatingNode := true } where
  distinct := inv.distinct
  creating _ _ := rfl
  single i j hi hj := by
    have hnone : ∀ k : ℕ, s.calls[k]? ≠ some .creating := by
      intro k hk
      have htrue := inv.creating k hk
      rw [hidle] at htrue
      cases htrue
    rcases getElem?_append_call.mp hi with hi | ⟨hi, _⟩
    · exact absurd hi (hnone i)
    · rcases getElem?_append_call.mp hj with hj | ⟨hj, _⟩
      · exact absurd hj (hnone j)
      · omega
  noNode _ := hnode
  waiting := inv.waiting
  queued i h := by
    rcases getElem?_append_call.mp h with h | ⟨_, h⟩
    · exact inv.queued i h
    · cases h
  listed i hi := by
    rcases inv.listed i hi with h | ⟨node, hsome, _⟩
    · exact .inl (getElem?_append_call.mpr (.inl h))
    · rw [hnode] at hsome
      cases hsome
  done i hi := by
    obtain ⟨node, hsome, _⟩ := inv.done i hi
    rw [hnode] at hsome
    cases hsome
  settled h := absurd hnode h

/-- A call keeps the invariant. -/
lemma Inv.getIPFSNodeInstance (throws : Bool) : Inv (s.getIPFSNodeInstance throws) := by
  unfold State.getIPFSNodeInstance
  split
  · exact inv.append (by simp) (by simp)
  · rename_i hnode
    split
    · rename_i hcreating
      exact inv.wait hcreating
    · rename_i hidle
      split
      · exact inv.append (by simp) (by simp)
      · exact inv.create hnode (Bool.eq_false_iff.mpr hidle)

/-- When the creating call is settled, no call creates the node. -/
lemma Inv.set_ne_creating {i : ℕ} {call : Call Node} (hi : s.calls[i]? = some .creating)
    (hcall : call ≠ .creating) (j : ℕ) : (s.calls.set i call)[j]? ≠ some .creating := by
  intro hj
  by_cases hji : j = i
  · rw [hji, List.getElem?_set_self (List.getElem?_eq_some_iff.mp hi).1] at hj
    exact hcall (Option.some.inj hj)
  · apply hji
    exact inv.single j i ((getElem?_set_call hji).mp hj) hi

/-- The node is there: the whole list is scheduled, each of it once. -/
lemma Inv.created {i : ℕ} (node : Node) (hi : s.calls[i]? = some .creating) :
    Inv (s.created i node) where
  distinct := inv.distinct
  creating j hj := absurd hj (inv.set_ne_creating hi (by simp) j)
  single j _ hj := absurd hj (inv.set_ne_creating hi (by simp) j)
  noNode h := by cases h
  waiting h := by cases h
  queued j hj := inv.queued j ((set_waiting_iff hi (by simp) j).mp hj)
  listed j hj := by
    rcases inv.listed j hj with h | ⟨_, hsome, _⟩
    · exact .inl ((set_waiting_iff hi (by simp) j).mpr h)
    · rw [inv.noNode (inv.creating i hi)] at hsome
      cases hsome
  done j hj := by
    obtain ⟨_, hsome, _⟩ := inv.done j hj
    rw [inv.noNode (inv.creating i hi)] at hsome
    cases hsome
  settled _ j := by
    obtain ⟨hscheduled, hdelivered⟩ := inv.waiting (inv.noNode (inv.creating i hi))
    show (s.delivered ++ (s.scheduled ++ s._callbacksWaitingForNodeCreation)).count j = _
    rw [hscheduled, hdelivered, List.nil_append, List.nil_append]
    rfl

/-- A creation fails: the list stays as it is. -/
lemma Inv.failed {i : ℕ} (hi : s.calls[i]? = some .creating) : Inv (s.failed i) where
  distinct := inv.distinct
  creating j hj := absurd hj (inv.set_ne_creating hi (by simp) j)
  single j _ hj := absurd hj (inv.set_ne_creating hi (by simp) j)
  noNode h := by cases h
  waiting := inv.waiting
  queued j hj := inv.queued j ((set_waiting_iff hi (by simp) j).mp hj)
  listed j hj := by
    rcases inv.listed j hj with h | ⟨_, hsome, _⟩
    · exact .inl ((set_waiting_iff hi (by simp) j).mpr h)
    · rw [inv.noNode (inv.creating i hi)] at hsome
      cases hsome
  done j hj := by
    obtain ⟨_, hsome, _⟩ := inv.done j hj
    rw [inv.noNode (inv.creating i hi)] at hsome
    cases hsome
  settled hsome := absurd (inv.noNode (inv.creating i hi)) hsome

/-- A scheduled function is for a call of the list. -/
lemma Inv.mem_of_scheduled {i : ℕ} (hnode : s._node ≠ none) (hi : i ∈ s.scheduled) :
    i ∈ s._callbacksWaitingForNodeCreation := by
  apply List.count_pos_iff.mp
  rw [← inv.settled hnode i, State.settlements, List.count_append]
  have hpos := List.count_pos_iff.mpr hi
  omega

/-- A function given to `setSoon` resolves its call, or finds it resolved, and changes no other. -/
lemma Inv.soon_cases {k : ℕ} {s' : State Node} (h : s.soon k = some s') :
    ∃ i node calls, s.scheduled[k]? = some i ∧ s._node = some node ∧
      calls[i]? = some (.resolved node) ∧ (∀ j ≠ i, calls[j]? = s.calls[j]?) ∧
      s' = { s with
        calls := calls
        scheduled := s.scheduled.eraseIdx k
        delivered := s.delivered ++ [i] } := by
  unfold State.soon at h
  obtain ⟨i, hi, h⟩ := Option.bind_eq_some_iff.mp h
  obtain ⟨node, hnode, rfl⟩ := Option.map_eq_some_iff.mp h
  refine ⟨i, node, _, hi, hnode, ?_, ?_, rfl⟩
  · have hmem := inv.mem_of_scheduled (by simp [hnode]) (List.mem_of_getElem? hi)
    rcases inv.listed i hmem with hwaits | ⟨node', hnode', hresolved⟩
    · rw [if_pos (any_waiting_iff.mpr hwaits)]
      exact List.getElem?_set_self (List.getElem?_eq_some_iff.mp hwaits).1
    · rw [hnode] at hnode'
      cases hnode'
      rw [if_neg, hresolved]
      rw [any_waiting_iff, hresolved]
      simp
  · intro j hji
    split
    · exact List.getElem?_set_ne (Ne.symm hji)
    · rfl

/-- A scheduled function runs: what was to run once has run once. -/
lemma Inv.soon {k : ℕ} {s' : State Node} (h : s.soon k = some s') : Inv s' := by
  obtain ⟨i, node, calls, hi, hnode, hself, hother, rfl⟩ := inv.soon_cases h
  -- Only the call of the function may have changed, and it is resolved.
  have hold : ∀ (j : ℕ) (call : Call Node), call ≠ .resolved node → calls[j]? = some call →
      s.calls[j]? = some call := by
    intro j call hcall hj
    by_cases hji : j = i
    · rw [hji, hself] at hj
      exact absurd (Option.some.inj hj).symm hcall
    · rw [← hother j hji]
      exact hj
  have hresolved : ∀ j : ℕ, (∃ node, s._node = some node ∧ s.calls[j]? = some (.resolved node)) →
      ∃ node, s._node = some node ∧ calls[j]? = some (.resolved node) := by
    intro j hj
    by_cases hji : j = i
    · exact ⟨node, hnode, hji ▸ hself⟩
    · rw [hother j hji]
      exact hj
  refine ⟨inv.distinct, ?_, ?_, inv.noNode, ?_, ?_, ?_, ?_, ?_⟩
  · intro j hj
    exact inv.creating j (hold j _ (by simp) hj)
  · intro j l hj hl
    exact inv.single j l (hold j _ (by simp) hj) (hold l _ (by simp) hl)
  · intro hnone
    rw [show s._node = none from hnone] at hnode
    cases hnode
  · intro j hj
    exact inv.queued j (hold j _ (by simp) hj)
  · intro j hj
    by_cases hji : j = i
    · exact .inr ⟨node, hnode, hji ▸ hself⟩
    · rcases inv.listed j hj with hwaits | hj
      · exact .inl (by rw [← hwaits]; exact hother j hji)
      · exact .inr (hresolved j hj)
  · intro j hj
    rcases List.mem_append.mp hj with hj | hj
    · exact hresolved j (inv.done j hj)
    · rw [List.mem_singleton.mp hj]
      exact ⟨node, hnode, hself⟩
  · intro hsome j
    rw [← inv.settled hsome j]
    -- The function has left the one list for the other.
    show (s.delivered ++ [i] ++ s.scheduled.eraseIdx k).count j = s.settlements j
    obtain ⟨hk, rfl⟩ := List.getElem?_eq_some_iff.mp hi
    have hmoved : (s.delivered ++ [s.scheduled[k]] ++ s.scheduled.eraseIdx k).Perm
        (s.delivered ++ s.scheduled) := by
      rw [List.append_assoc, List.singleton_append]
      exact (List.getElem_cons_eraseIdx_perm hk).append_left s.delivered
    exact hmoved.count_eq j

/-- Each event keeps the invariant. -/
lemma Inv.step {e : Event Node} {s' : State Node} (hstep : step s e = some s') : Inv s' := by
  cases e with
  | getIPFSNodeInstance throws =>
    cases hstep
    exact inv.getIPFSNodeInstance throws
  | created i node =>
    obtain ⟨hi, hs'⟩ := Option.ite_none_right_eq_some.mp hstep
    cases hs'
    exact inv.created node (any_iff.mp hi)
  | failed i =>
    obtain ⟨hi, hs'⟩ := Option.ite_none_right_eq_some.mp hstep
    cases hs'
    exact inv.failed (any_iff.mp hi)
  | soon k => exact inv.soon hstep

/-! ## The calls that wait are settled -/

/-- When no node is being created, the calls that have waited are settled just if the node is there
or none has waited. -/
lemma Inv.settled_iff : s.Settled ↔
    (s._node = none → s._creatingNode = false → s._callbacksWaitingForNodeCreation = []) := by
  constructor
  · intro h hnone hidle
    apply List.eq_nil_iff_forall_not_mem.mpr
    intro i hi
    have hone := (h.listed hidle i hi).1
    obtain ⟨hscheduled, hdelivered⟩ := inv.waiting hnone
    simp [State.settlements, hscheduled, hdelivered] at hone
  · intro hempty
    by_cases hnone : s._node = none
    · obtain ⟨hscheduled, hdelivered⟩ := inv.waiting hnone
      refine ⟨?_, ?_, ?_⟩
      · intro i
        simp [State.settlements, hscheduled, hdelivered]
      · intro hidle i hi
        have hmem := inv.queued i hi
        rw [hempty hnone hidle] at hmem
        cases hmem
      · intro hidle i hi
        rw [hempty hnone hidle] at hi
        cases hi
    · have hone : ∀ i ∈ s._callbacksWaitingForNodeCreation, s.settlements i = 1 := by
        intro i hi
        rw [inv.settled hnone i]
        exact List.count_eq_one_of_mem inv.distinct hi
      refine ⟨?_, ?_, ?_⟩
      · intro i
        rw [inv.settled hnone i]
        exact List.nodup_iff_count_le_one.mp inv.distinct i
      · intro _ i hi
        have hpos : 0 < (s.delivered ++ s.scheduled).count i := by
          rw [show (s.delivered ++ s.scheduled).count i = 1 from hone i (inv.queued i hi)]
          exact Nat.one_pos
        rcases List.mem_append.mp (List.count_pos_iff.mp hpos) with hmem | hmem
        · obtain ⟨_, _, hresolved⟩ := inv.done i hmem
          rw [hi] at hresolved
          cases hresolved
        · exact hmem
      · intro _ i hi
        exact ⟨hone i hi, inv.done i⟩

end Steps

/-- The list is empty while there is neither a node nor a creation of one. -/
def Idle (s : State Node) : Prop :=
  s._node = none → s._creatingNode = false → s._callbacksWaitingForNodeCreation = []

/-- The invariant holds in every reachable state. -/
lemma inv_of_reach {s : State Node} {ok : State Node → Event Node → Prop}
    (h : Reach step ok (State.init Node) s) : Inv s :=
  h.invariant inv_init fun _ _ _ inv _ hstep => inv.step hstep

/-- Only a creation that fails leaves an idle state whose list is not empty. -/
lemma Idle.step {s s' : State Node} {e : Event Node} (hidle : Idle s) (hok : Undisturbed s e)
    (hstep : step s e = some s') : Idle s' := by
  cases e with
  | getIPFSNodeInstance throws =>
    cases hstep
    unfold Idle State.getIPFSNodeInstance
    split
    · exact hidle
    · split
      · rename_i hcreating
        intro _ h
        rw [show s._creatingNode = false from h] at hcreating
        cases hcreating
      · split
        · exact hidle
        · intro _ h
          cases h
  | created i node =>
    obtain ⟨_, hs'⟩ := Option.ite_none_right_eq_some.mp hstep
    cases hs'
    intro h
    cases h
  | failed i =>
    obtain ⟨_, hs'⟩ := Option.ite_none_right_eq_some.mp hstep
    cases hs'
    intro _ _
    exact hok
  | soon k =>
    obtain ⟨i, _, h⟩ := Option.bind_eq_some_iff.mp hstep
    obtain ⟨node, hnode, rfl⟩ := Option.map_eq_some_iff.mp h
    exact hidle

/-- While no creation fails with calls waiting, those that have waited are settled whenever no node
is being created. After a creation that does, they are not. -/
theorem settled_of_undisturbed :
    (∀ s, Reach step Undisturbed (State.init Node) s → s.Settled) ∧
      ∀ s s' i, Reach step Any (State.init Node) s → step s (.failed i) = some s' →
        (s'.Settled ↔ Undisturbed s (.failed i)) := by
  constructor
  · intro s h
    have hidle : Idle s := h.invariant (P := Idle) (fun _ _ => rfl) fun _ _ _ => Idle.step
    exact (inv_of_reach h).settled_iff.mpr hidle
  · intro s s' i h hstep
    have hnone : s._node = none := by
      have inv := inv_of_reach h
      obtain ⟨hi, _⟩ := Option.ite_none_right_eq_some.mp hstep
      exact inv.noNode (inv.creating i (any_iff.mp hi))
    rw [((inv_of_reach h).step hstep).settled_iff]
    obtain ⟨_, hs'⟩ := Option.ite_none_right_eq_some.mp hstep
    cases hs'
    constructor
    · intro hidle
      exact hidle hnone rfl
    · intro hok _ _
      exact hok

/-- The node is there after the first of three calls; of the other two, one has got it. -/
theorem settled_of_undisturbed_three :
    (after (guarded step Undisturbed) (State.init Unit)
      [.getIPFSNodeInstance false, .getIPFSNodeInstance false, .getIPFSNodeInstance false,
        .created 0 (), .soon 1]).Settled :=
  settled_of_undisturbed.1 _ (.of_after _ (by decide))

/-- Of two calls, the first fails to create the node: the second waits, and nothing is scheduled. -/
theorem failed_strands :
    let s := after (guarded step Any) (State.init Unit)
      [.getIPFSNodeInstance false, .getIPFSNodeInstance false, .failed 0]
    Reach step Any (State.init Unit) s ∧ ¬ s.Settled := by
  refine ⟨.of_after _ (by decide), ?_⟩
  intro h
  have hmem := h.waiting (by decide) 1 (by decide)
  revert hmem
  decide

/-- A later call finds no creation under way and creates the node, for the call that waits as
well. -/
example :
    let s := after step (State.init Unit)
      [.getIPFSNodeInstance false, .getIPFSNodeInstance false, .failed 0,
        .getIPFSNodeInstance false, .created 2 (), .soon 0]
    s.calls = [.rejected, .resolved (), .resolved ()] := by
  decide

end PointNetwork.Storage.IpfsNode
