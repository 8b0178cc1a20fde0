import Mathlib.Data.List.Perm.Basic
import PointNetwork.Js.Text
import PointNetwork.Machine
import PointNetwork.Tables

/-!
# Permissions of dApps

`PermissionStore` of `permissions/PermissionStore.ts` over `MemoryStorer`. `upsert` looks for the
record of a pair and, in a later step, inserts one or adds to the one that is there.

Two things go wrong. Calls that run at the same time both find no record and insert two, of which
the first is the only one that `get` shows. And the id of a record is the hash of two texts put
together, which other texts may be, too, when put together.
-/

namespace PointNetwork.Permissions

open Js Machine

/-- A dApp and an address. -/
structure Pair where
  dappDomain : JsString
  address : JsString
  deriving DecidableEq

/-- The methods that a page may call for an account. -/
structure PermissionRecord where
  id : JsString
  invoker : JsString
  account : JsString
  parentCapabilities : List JsString
  deriving DecidableEq

/-! ## The storer -/

namespace MemoryStorer

/-- The first record with the id. -/
def find (db : List PermissionRecord) (id : JsString) : Option PermissionRecord :=
  Table.find PermissionRecord.id id db

/-- A record is added. -/
def insert (db : List PermissionRecord) (record : PermissionRecord) : List PermissionRecord :=
  db ++ [record]

/-- `Array.from(new Set([...old, ...new]))` -/
def union (old new : List JsString) : List JsString := Table.insertIgnore id (old ++ new) []

/-- The record with further methods. -/
def addCapabilities (r : PermissionRecord) (new : List JsString) : PermissionRecord :=
  { r with parentCapabilities := union r.parentCapabilities new }

/-- Every record with the id gets the new capabilities. -/
def update (db : List PermissionRecord) (record : PermissionRecord) : List PermissionRecord :=
  Table.update (fun r => r.id = record.id) (fun r => addCapabilities r record.parentCapabilities) db

/-- The records without those of this id. -/
def remove (db : List PermissionRecord) (id : JsString) : List PermissionRecord :=
  db.filter fun r => r.id ≠ id

end MemoryStorer

/-! ## The store -/

/-- An `upsert` that waits for `find`, with what was found. -/
structure Upsert where
  pair : Pair
  allowedMethods : List JsString
  existingRecord : Option PermissionRecord
  deriving DecidableEq

/-- What was granted and revoked, the latest first. -/
inductive Entry
  | granted (pair : Pair) (methods : List JsString)
  | revoked (pair : Pair)
  deriving DecidableEq

/-- The store, and the calls that have not ended. -/
structure State where
  db : List PermissionRecord
  upserts : List Upsert
  log : List Entry

/-- The empty store. -/
def State.init : State := ⟨[], [], []⟩

/-- The calls, and their steps. -/
inductive Event
  | upsert (pair : Pair) (allowedMethods : List JsString)
  /-- The call goes on behind its first `await`. -/
  | resume (i : ℕ)
  | get (pair : Pair)
  /-- A revocation is a phase of its own. -/
  | revoke (pair : Pair)
  deriving DecidableEq

variable (md5 : Bytes → JsString)

/-- What the id is the hash of, as `update` of the hash encodes it. -/
def hashed (pair : Pair) : Bytes := bufferFrom (pair.dappDomain ++ pair.address)

/-- The id of a pair. -/
def getId (pair : Pair) : JsString := md5 (hashed pair)

namespace State

variable (s : State)

/-- The record of a pair. -/
def get (pair : Pair) : Option PermissionRecord := MemoryStorer.find s.db (getId md5 pair)

/-- `upsert` up to its first `await`. -/
def upsert (pair : Pair) (allowedMethods : List JsString) : State :=
  { s with
    upserts := s.upserts ++ [⟨pair, allowedMethods, MemoryStorer.find s.db (getId md5 pair)⟩]
    log := .granted pair allowedMethods :: s.log }

/-- The rest of a call. -/
def resume (i : ℕ) (call : Upsert) : State :=
  let recordToUpsert : PermissionRecord :=
    ⟨getId md5 call.pair, call.pair.dappDomain, call.pair.address, call.allowedMethods⟩
  { s with
    db :=
      match call.existingRecord with
      | none => MemoryStorer.insert s.db recordToUpsert
      | some _ => MemoryStorer.update s.db recordToUpsert
    upserts := s.upserts.eraseIdx i }

/-- The record of a pair is removed. -/
def revoke (pair : Pair) : State :=
  { s with
    db := MemoryStorer.remove s.db (getId md5 pair)
    log := .revoked pair :: s.log }

end State

/-- One event; a revocation comes when no upsert is under way. -/
def step (s : State) : Event → Option State
  | .upsert pair allowedMethods => some (s.upsert md5 pair allowedMethods)
  | .resume i => s.upserts[i]?.map (s.resume md5 i)
  | .get _ => some s
  | .revoke pair => if s.upserts.isEmpty then some (s.revoke md5 pair) else none

/-! ## What is to be found -/

/-- The methods granted to a pair since its last revocation; `none` if nothing was granted. -/
def granted (pair : Pair) : List Entry → Option (List JsString)
  | [] => none
  | .granted pair' methods :: log =>
    if pair' = pair then some (methods ++ (granted pair log).getD []) else granted pair log
  | .revoked pair' :: log => if pair' = pair then none else granted pair log

/-- The record is that of the pair, and has the methods and no others. -/
def Holds (pair : Pair) : Option PermissionRecord → Option (List JsString) → Prop
  | none, none => True
  | some record, some methods =>
    record.invoker = pair.dappDomain ∧ record.account = pair.address ∧
      ∀ method, method ∈ record.parentCapabilities ↔ method ∈ methods
  | _, _ => False

/-- The pair whose call makes the step. -/
def State.pairOf (s : State) : Event → Option Pair
  | .upsert pair _ | .get pair | .revoke pair => some pair
  | .resume i => s.upserts[i]?.map Upsert.pair

/-- The call inserts a record behind one with the same id that lacks some of its methods. -/
def State.hides (s : State) (i : ℕ) : Bool :=
  s.upserts[i]?.any fun call =>
    call.existingRecord.isNone &&
      (s.get md5 call.pair).any fun record =>
        !call.allowedMethods.all record.parentCapabilities.contains

/-- The calls are for the given pairs, and none inserts a record that cannot be seen. -/
def Seen (pairs : List Pair) (s : State) : Event → Prop
  | .upsert pair _ | .get pair | .revoke pair => pair ∈ pairs
  | .resume i => s.hides md5 i = false

instance (pairs : List Pair) (s : State) (e : Event) : Decidable (Seen md5 pairs s e) :=
  match e with
  | .upsert _ _ | .get _ | .revoke _ => inferInstanceAs (Decidable (_ ∈ pairs))
  | .resume _ => inferInstanceAs (Decidable (_ = false))

/-! ## The first record of an id -/

section Storer

variable {db : List PermissionRecord} {record : PermissionRecord} {id id' : JsString}

/-- An insertion is found where nothing was. -/
lemma find_insert : MemoryStorer.find (MemoryStorer.insert db record) id =
    (MemoryStorer.find db id).or (if record.id = id then some record else none) := by
  unfold MemoryStorer.find MemoryStorer.insert Table.find
  rw [List.find?_append, List.find?_singleton]
  simp only [decide_eq_true_eq]

/-- An update adds to the record of its id only. -/
lemma find_update : MemoryStorer.find (MemoryStorer.update db record) id =
    (MemoryStorer.find db id).map fun r =>
      if r.id = record.id then MemoryStorer.addCapabilities r record.parentCapabilities else r := by
  have hid : ∀ r, (MemoryStorer.addCapabilities r record.parentCapabilities).id = r.id :=
    fun _ => rfl
  unfold MemoryStorer.find MemoryStorer.update
  rw [Table.find_update hid]
  simp only [decide_eq_true_eq]

lemma find_remove_self : MemoryStorer.find (MemoryStorer.remove db id) id = none := by
  unfold MemoryStorer.find MemoryStorer.remove
  rw [Table.find_eq_none]
  intro hmem
  obtain ⟨r, hr, hid⟩ := List.mem_map.mp hmem
  exact of_decide_eq_true (List.mem_filter.mp hr).2 hid

/-- The records of other ids are found as before. -/
lemma find_remove_of_ne (hne : id' ≠ id) :
    MemoryStorer.find (MemoryStorer.remove db id) id' = MemoryStorer.find db id' := by
  unfold MemoryStorer.find MemoryStorer.remove Table.find
  rw [List.find?_filter]
  congr 1
  funext r
  by_cases hr : r.id = id'
  · simp [hr, hne]
  · simp [hr]

lemma mem_union {old new : List JsString} {method : JsString} :
    method ∈ MemoryStorer.union old new ↔ method ∈ old ∨ method ∈ new := by
  unfold MemoryStorer.union
  rw [Table.mem_insertIgnore_id, List.mem_append]
  simp

end Storer

/-! ## Records and calls that wait -/

/-- The methods that are found. -/
def capabilities (record : Option PermissionRecord) : List JsString :=
  record.elim [] PermissionRecord.parentCapabilities

/-- What was granted to a pair is in its record, or is brought by a call that waits. -/
structure Inv (pairs : List Pair) (s : State) : Prop where
  known : ∀ call ∈ s.upserts, call.pair ∈ pairs
  existing : ∀ call ∈ s.upserts, call.existingRecord ≠ none → s.get md5 call.pair ≠ none
  account : ∀ pair ∈ pairs, ∀ record, s.get md5 pair = some record →
    record.invoker = pair.dappDomain ∧ record.account = pair.address
  isSome : ∀ pair ∈ pairs, granted pair s.log ≠ none ↔
    s.get md5 pair ≠ none ∨ ∃ call ∈ s.upserts, call.pair = pair
  methods : ∀ pair ∈ pairs, ∀ method, method ∈ (granted pair s.log).getD [] ↔
    method ∈ capabilities (s.get md5 pair) ∨
      ∃ call ∈ s.upserts, call.pair = pair ∧ method ∈ call.allowedMethods

variable {md5}

lemma inv_init (pairs : List Pair) : Inv md5 pairs State.init where
  known _ h := by cases h
  existing _ h := by cases h
  account _ _ _ h := by cases h
  isSome pair _ := by simp [State.init, granted, State.get, MemoryStorer.find, Table.find]
  methods pair _ method := by
    simp [State.init, granted, State.get, MemoryStorer.find, Table.find, capabilities]

lemma exists_mem_concat {α : Type*} {xs : List α} {x : α} {P : α → Prop} :
    (∃ y ∈ xs ++ [x], P y) ↔ (∃ y ∈ xs, P y) ∨ P x := by
  simp only [List.mem_append, List.mem_singleton, or_and_right, exists_or, exists_eq_left]

/-- The calls that wait are the one that goes on and the others. -/
lemma exists_mem_iff_of_getElem? {α : Type*} {xs : List α} {i : ℕ} {x : α} (hx : xs[i]? = some x)
    {P : α → Prop} : (∃ y ∈ xs, P y) ↔ P x ∨ ∃ y ∈ xs.eraseIdx i, P y := by
  obtain ⟨hi, rfl⟩ := List.getElem?_eq_some_iff.mp hx
  have hmem : ∀ y, y ∈ xs ↔ y = xs[i] ∨ y ∈ xs.eraseIdx i := by
    intro y
    rw [← List.mem_cons, (List.getElem_cons_eraseIdx_perm hi).mem_iff]
  simp only [hmem, or_and_right, exists_or, exists_eq_left]

section Find

variable {s : State} {i : ℕ} {call : Upsert} {pair : Pair}

/-- What is inserted is found only where nothing was. -/
lemma get_resume_insert (hexisting : call.existingRecord = none) :
    (s.resume md5 i call).get md5 pair =
      (s.get md5 pair).or (if getId md5 call.pair = getId md5 pair then
        some ⟨getId md5 call.pair, call.pair.dappDomain, call.pair.address, call.allowedMethods⟩
      else none) := by
  unfold State.resume State.get
  rw [hexisting]
  exact find_insert

/-- An update is seen under the ids that it shares. -/
lemma get_resume_update {found : PermissionRecord} (hexisting : call.existingRecord = some found) :
    (s.resume md5 i call).get md5 pair =
      if getId md5 call.pair = getId md5 pair then
        (s.get md5 pair).map fun r => MemoryStorer.addCapabilities r call.allowedMethods
      else s.get md5 pair := by
  have hupdate : (s.resume md5 i call).get md5 pair = (s.get md5 pair).map fun r =>
      if r.id = getId md5 call.pair then MemoryStorer.addCapabilities r call.allowedMethods
      else r := by
    unfold State.resume State.get
    rw [hexisting]
    exact find_update
  rw [hupdate]
  cases hget : s.get md5 pair with
  | none => simp
  | some record =>
    rw [Option.map_some, Option.map_some, Table.key_of_find hget]
    by_cases hid : getId md5 call.pair = getId md5 pair
    · rw [if_pos hid, if_pos hid.symm]
    · rw [if_neg hid, if_neg (Ne.symm hid)]

end Find

section Steps

variable {pairs : List Pair} {s : State} (inv : Inv md5 pairs s)

include inv

/-- A new call keeps the invariant. -/
lemma Inv.upsert {pair : Pair} (hpair : pair ∈ pairs) (allowedMethods : List JsString) :
    Inv md5 pairs (s.upsert md5 pair allowedMethods) where
  known call hcall := by
    rcases List.mem_append.mp hcall with hcall | hcall
    · exact inv.known call hcall
    · rw [List.mem_singleton.mp hcall]
      exact hpair
  existing call hcall hsome := by
    rcases List.mem_append.mp hcall with hcall | hcall
    · exact inv.existing call hcall hsome
    · rw [List.mem_singleton.mp hcall] at hsome ⊢
      exact hsome
  account := inv.account
  isSome pair' hpair' := by
    show granted pair' (.granted pair allowedMethods :: s.log) ≠ none ↔
      s.get md5 pair' ≠ none ∨ ∃ call ∈ s.upserts ++ [_], call.pair = pair'
    rw [exists_mem_concat, granted]
    by_cases heq : pair = pair'
    · rw [if_pos heq]
      exact iff_of_true (by simp) (.inr (.inr heq))
    · rw [if_neg heq, inv.isSome pair' hpair']
      simp only [heq, or_false]
  methods pair' hpair' method := by
    show method ∈ (granted pair' (.granted pair allowedMethods :: s.log)).getD [] ↔
      method ∈ capabilities (s.get md5 pair') ∨
        ∃ call ∈ s.upserts ++ [_], call.pair = pair' ∧ method ∈ call.allowedMethods
    have hold := inv.methods pair' hpair' method
    rw [exists_mem_concat, granted]
    by_cases heq : pair = pair'
    · rw [if_pos heq, Option.getD_some, List.mem_append, hold]
      simp only [heq, true_and]
      rw [or_comm, or_assoc]
    · rw [if_neg heq, hold]
      simp only [heq, false_and, or_false]

/-- A call goes on after which its pair has a record that has the methods of the call and of the
record before, and no others; the records of the other pairs are the same. -/
lemma Inv.resume_of_get {i : ℕ} {call : Upsert} (hcall : s.upserts[i]? = some call)
    {record : PermissionRecord} (hself : (s.resume md5 i call).get md5 call.pair = some record)
    (haccount : record.invoker = call.pair.dappDomain ∧ record.account = call.pair.address)
    (hmethods : ∀ method, method ∈ record.parentCapabilities ↔
      method ∈ capabilities (s.get md5 call.pair) ∨ method ∈ call.allowedMethods)
    (hother : ∀ pair ∈ pairs, pair ≠ call.pair →
      (s.resume md5 i call).get md5 pair = s.get md5 pair) :
    Inv md5 pairs (s.resume md5 i call) where
  known call' hcall' := inv.known call' (List.mem_of_mem_eraseIdx hcall')
  existing call' hcall' hsome := by
    have hmem := List.mem_of_mem_eraseIdx hcall'
    by_cases heq : call'.pair = call.pair
    · rw [heq, hself]
      exact Option.some_ne_none record
    · rw [hother _ (inv.known call' hmem) heq]
      exact inv.existing call' hmem hsome
  account pair hpair record' hrecord' := by
    by_cases heq : pair = call.pair
    · rw [heq, hself] at hrecord'
      cases hrecord'
      rw [heq]
      exact haccount
    · rw [hother pair hpair heq] at hrecord'
      exact inv.account pair hpair record' hrecord'
  isSome pair hpair := by
    show granted pair s.log ≠ none ↔ _ ∨ ∃ call' ∈ s.upserts.eraseIdx i, call'.pair = pair
    have hold := inv.isSome pair hpair
    -- the call that ends is one of those that ran
    rw [exists_mem_iff_of_getElem? hcall] at hold
    by_cases heq : pair = call.pair
    · rw [hold, heq, hself]
      exact iff_of_true (.inr (.inl rfl)) (.inl (Option.some_ne_none record))
    · rw [hold, hother pair hpair heq]
      simp only [Ne.symm heq, false_or]
  methods pair hpair method := by
    show method ∈ (granted pair s.log).getD [] ↔ _ ∨
      ∃ call' ∈ s.upserts.eraseIdx i, call'.pair = pair ∧ method ∈ call'.allowedMethods
    have hold := inv.methods pair hpair method
    rw [exists_mem_iff_of_getElem? hcall] at hold
    by_cases heq : pair = call.pair
    · rw [hold, heq, hself]
      show _ ↔ method ∈ record.parentCapabilities ∨ _
      rw [hmethods]
      simp only [true_and]
      rw [or_assoc]
    · rw [hold, hother pair hpair heq]
      simp only [Ne.symm heq, false_and, false_or]

/-- The ids of the pairs are different. -/
lemma Inv.resume (hids : ∀ p ∈ pairs, ∀ q ∈ pairs, getId md5 p = getId md5 q → p = q) {i : ℕ}
    {call : Upsert} (hcall : s.upserts[i]? = some call) (hhides : s.hides md5 i = false) :
    Inv md5 pairs (s.resume md5 i call) := by
  have hmem := List.mem_of_getElem? hcall
  have hknown := inv.known call hmem
  have hne : ∀ pair ∈ pairs, pair ≠ call.pair → getId md5 call.pair ≠ getId md5 pair := by
    intro pair hpair hpairs hid
    exact hpairs (hids call.pair hknown pair hpair hid).symm
  cases hexisting : call.existingRecord with
  | none =>
    have hother : ∀ pair ∈ pairs, pair ≠ call.pair →
        (s.resume md5 i call).get md5 pair = s.get md5 pair := by
      intro pair hpair hpairs
      rw [get_resume_insert hexisting, if_neg (hne pair hpair hpairs), Option.or_none]
    have hself := @get_resume_insert md5 s i call call.pair hexisting
    rw [if_pos rfl] at hself
    cases hget : s.get md5 call.pair with
    | none =>
      rw [hget, Option.none_or] at hself
      refine inv.resume_of_get hcall hself ⟨rfl, rfl⟩ ?_ hother
      intro method
      rw [hget]
      simp [capabilities]
    | some record =>
      rw [hget, Option.some_or] at hself
      refine inv.resume_of_get hcall hself (inv.account _ hknown _ hget) ?_ hother
      -- The record that stays in front has the methods of the call.
      intro method
      rw [hget]
      refine ⟨.inl, ?_⟩
      rintro (h | h)
      · exact h
      · unfold State.hides at hhides
        rw [hcall, Option.any_some, hexisting, hget, Option.any_some, Option.isNone_none,
          Bool.true_and, Bool.not_eq_false', List.all_eq_true] at hhides
        exact List.contains_iff_mem.mp (hhides method h)
  | some found =>
    have hother : ∀ pair ∈ pairs, pair ≠ call.pair →
        (s.resume md5 i call).get md5 pair = s.get md5 pair := by
      intro pair hpair hpairs
      rw [get_resume_update hexisting, if_neg (hne pair hpair hpairs)]
    have hsome := inv.existing call hmem (by rw [hexisting]; simp)
    obtain ⟨record, hget⟩ := Option.ne_none_iff_exists'.mp hsome
    have hself := @get_resume_update md5 s i call call.pair found hexisting
    have haccount := inv.account _ hknown _ hget
    rw [if_pos rfl, hget, Option.map_some] at hself
    refine inv.resume_of_get hcall hself haccount ?_ hother
    intro method
    rw [hget]
    exact mem_union

/-- A pair loses its record, when no call waits. -/
lemma Inv.revoke (hids : ∀ p ∈ pairs, ∀ q ∈ pairs, getId md5 p = getId md5 q → p = q) {pair : Pair}
    (hpair : pair ∈ pairs) (hidle : s.upserts = []) : Inv md5 pairs (s.revoke md5 pair) := by
  have hself : (s.revoke md5 pair).get md5 pair = none := find_remove_self
  have hother : ∀ p ∈ pairs, p ≠ pair → (s.revoke md5 pair).get md5 p = s.get md5 p := by
    intro p hp hne
    exact find_remove_of_ne fun hid => hne (hids p hp pair hpair hid)
  -- no upsert runs that could grant something afterwards
  have hnone : ∀ call ∈ (s.revoke md5 pair).upserts, False := by
    intro call hcall
    rw [show (s.revoke md5 pair).upserts = [] from hidle] at hcall
    cases hcall
  refine ⟨?_, ?_, ?_, ?_, ?_⟩
  · intro call hcall
    exact (hnone call hcall).elim
  · intro call hcall
    exact (hnone call hcall).elim
  · intro p hp record hrecord
    by_cases heq : p = pair
    · rw [heq, hself] at hrecord
      cases hrecord
    · rw [hother p hp heq] at hrecord
      exact inv.account p hp record hrecord
  · intro p hp
    show granted p (.revoked pair :: s.log) ≠ none ↔ _
    have hold := inv.isSome p hp
    rw [granted]
    by_cases heq : pair = p
    · rw [if_pos heq, ← heq, hself]
      simp only [ne_eq, not_true_eq_false, false_or, false_iff]
      rintro ⟨call, hcall, _⟩
      exact hnone call hcall
    · rw [if_neg heq, hother p hp (Ne.symm heq), hold]
      rfl
  · intro p hp method
    show method ∈ (granted p (.revoked pair :: s.log)).getD [] ↔ _
    have hold := inv.methods p hp method
    rw [granted]
    by_cases heq : pair = p
    · rw [if_pos heq, ← heq, hself]
      simp only [Option.getD_none, List.not_mem_nil, capabilities, Option.elim_none, false_or,
        false_iff]
      rintro ⟨call, hcall, _⟩
      exact hnone call hcall
    · rw [if_neg heq, hother p hp (Ne.symm heq), hold]
      rfl

/-- Each event keeps the invariant. -/
lemma Inv.step (hids : ∀ p ∈ pairs, ∀ q ∈ pairs, getId md5 p = getId md5 q → p = q) {e : Event}
    {s' : State} (hok : Seen md5 pairs s e) (hstep : step md5 s e = some s') :
    Inv md5 pairs s' := by
  cases e with
  | upsert pair allowedMethods =>
    cases hstep
    exact inv.upsert hok allowedMethods
  | resume i =>
    obtain ⟨call, hcall, rfl⟩ := Option.map_eq_some_iff.mp hstep
    exact inv.resume hids hcall hok
  | get pair =>
    cases hstep
    exact inv
  | revoke pair =>
    obtain ⟨hidle, hs'⟩ := Option.ite_none_right_eq_some.mp hstep
    cases hs'
    exact inv.revoke hids hok (List.isEmpty_iff.mp hidle)

/-- When no call waits, each pair has what it was granted. -/
lemma Inv.holds (hidle : s.upserts = []) {pair : Pair} (hpair : pair ∈ pairs) :
    Holds pair (s.get md5 pair) (granted pair s.log) := by
  have hsome := inv.isSome pair hpair
  have hmethods := inv.methods pair hpair
  simp only [hidle, List.not_mem_nil, false_and, exists_false, or_false] at hsome hmethods
  cases hget : s.get md5 pair with
  | none =>
    rw [hget, ne_eq, ne_eq, not_iff_not] at hsome
    rw [hsome.mpr rfl]
    trivial
  | some record =>
    rw [hget] at hsome hmethods
    obtain ⟨methods, hgranted⟩ :=
      Option.ne_none_iff_exists'.mp (hsome.mpr (Option.some_ne_none record))
    obtain ⟨hinvoker, haccount⟩ := inv.account pair hpair record hget
    rw [hgranted] at hmethods ⊢
    exact ⟨hinvoker, haccount, fun method => (hmethods method).symm⟩

/-- A step of a call for one pair leaves the records of the others as they are. -/
lemma Inv.get_step_of_ne (hids : ∀ p ∈ pairs, ∀ q ∈ pairs, getId md5 p = getId md5 q → p = q)
    {e : Event} {s' : State} (hok : Seen md5 pairs s e) (hstep : Permissions.step md5 s e = some s')
    {pair : Pair} (hpair : pair ∈ pairs) (hne : s.pairOf e ≠ some pair) :
    s'.get md5 pair = s.get md5 pair := by
  cases e with
  | upsert pair' allowedMethods =>
    cases hstep
    rfl
  | get pair' =>
    cases hstep
    rfl
  | revoke pair' =>
    obtain ⟨_, hs'⟩ := Option.ite_none_right_eq_some.mp hstep
    cases hs'
    apply find_remove_of_ne
    intro hid
    exact hne (congrArg some (hids pair hpair pair' hok hid).symm)
  | resume i =>
    obtain ⟨call, hcall, rfl⟩ := Option.map_eq_some_iff.mp hstep
    have hknown := inv.known call (List.mem_of_getElem? hcall)
    have hid : getId md5 call.pair ≠ getId md5 pair := by
      intro hid
      apply hne
      show s.upserts[i]?.map Upsert.pair = some pair
      rw [hcall, ← hids call.pair hknown pair hpair hid]
      rfl
    cases hexisting : call.existingRecord with
    | none => rw [get_resume_insert hexisting, if_neg hid, Option.or_none]
    | some found => rw [get_resume_update hexisting, if_neg hid]

/-- After a step that does not meet the condition, a method that was granted is not found. -/
lemma Inv.hidden {i : ℕ} {call : Upsert} (hcall : s.upserts[i]? = some call)
    (hhides : s.hides md5 i = true) :
    ∃ method, method ∈ (granted call.pair s.log).getD [] ∧
      method ∉ capabilities ((s.resume md5 i call).get md5 call.pair) := by
  have hmem := List.mem_of_getElem? hcall
  unfold State.hides at hhides
  rw [hcall, Option.any_some, Bool.and_eq_true, Option.isNone_iff_eq_none] at hhides
  obtain ⟨hexisting, hrecord⟩ := hhides
  cases hget : s.get md5 call.pair with
  | none =>
    rw [hget] at hrecord
    cases hrecord
  | some record =>
    rw [hget, Option.any_some, Bool.not_eq_true', List.all_eq_false] at hrecord
    obtain ⟨method, hmethod, hlacks⟩ := hrecord
    refine ⟨method, ?_, ?_⟩
    · exact (inv.methods _ (inv.known call hmem) method).mpr (.inr ⟨call, hmem, rfl, hmethod⟩)
    · rw [get_resume_insert hexisting, hget, Option.some_or]
      rwa [List.contains_iff_mem] at hlacks

end Steps

/-! ## Phases -/

/-- Let the pairs have different texts, and let no call insert a record behind one that lacks some
of its methods. Then each pair has, when no call waits, a record of what it was granted since it was
last revoked, and no call changes the record of another pair. A record that is inserted against the
condition hides a method that was granted. -/
theorem holds_of_seen {pairs : List Pair}
    (hmd5 : ∀ p ∈ pairs, ∀ q ∈ pairs, md5 (hashed p) = md5 (hashed q) → hashed p = hashed q)
    (htexts : ∀ p ∈ pairs, ∀ q ∈ pairs, hashed p = hashed q → p = q) {s : State}
    (h : Reach (step md5) (Seen md5 pairs) .init s) :
    (s.upserts = [] → ∀ pair ∈ pairs, Holds pair (s.get md5 pair) (granted pair s.log)) ∧
      (∀ e s', Seen md5 pairs s e → step md5 s e = some s' →
        ∀ pair ∈ pairs, s.pairOf e ≠ some pair → s'.get md5 pair = s.get md5 pair) ∧
      ∀ i call, s.upserts[i]? = some call → s.hides md5 i = true →
        ∃ method, method ∈ (granted call.pair s.log).getD [] ∧
          method ∉ capabilities ((s.resume md5 i call).get md5 call.pair) := by
  have hids : ∀ p ∈ pairs, ∀ q ∈ pairs, getId md5 p = getId md5 q → p = q := by
    intro p hp q hq hid
    exact htexts p hp q hq (hmd5 p hp q hq hid)
  have inv : Inv md5 pairs s := h.invariant (inv_init pairs) fun _ _ _ inv => inv.step hids
  refine ⟨?_, ?_, ?_⟩
  · intro hidle pair hpair
    exact inv.holds hidle hpair
  · intro e s' hok hstep pair hpair hne
    exact inv.get_step_of_ne hids hok hstep hpair hne
  · intro i call hcall hhides
    exact inv.hidden hcall hhides

/-- A site and an account. -/
def siteA : Pair := ⟨js "a.point", js "0x01"⟩

/-- Another site with the same account. -/
def siteB : Pair := ⟨js "b.point", js "0x01"⟩

/-- The hash on the texts of the two pairs. -/
def sampleMd5 (bytes : Bytes) : JsString :=
  if bytes = hashed siteA then js "5162c4051c13d6ddf95081fcc1fd13e4"
  else if bytes = hashed siteB then js "6f12d03aecb92f7f8cc9b3eac72c6c09"
  else []

/-- Two calls for one pair at the same time, after its first, and one for another pair. -/
def samplePhases : List Event :=
  [.upsert siteA [js "eth_call"], .resume 0, .upsert siteA [js "eth_sign"],
    .upsert siteB [js "eth_call"], .upsert siteA [js "eth_accounts"], .resume 2, .resume 0,
    .resume 0, .revoke siteB]

theorem holds_of_seen_two :
    let s := after (guarded (step sampleMd5) (Seen sampleMd5 [siteA, siteB])) .init samplePhases
    Holds siteA (s.get sampleMd5 siteA) (granted siteA s.log) ∧
      Holds siteB (s.get sampleMd5 siteB) (granted siteB s.log) := by
  have hholds := (@holds_of_seen sampleMd5 [siteA, siteB] (by decide +kernel) (by decide +kernel) _
    (.of_after samplePhases (by decide +kernel))).1 (by decide +kernel)
  exact ⟨hholds siteA (by decide +kernel), hholds siteB (by decide +kernel)⟩

/-- Two pairs with one text: what is granted to one is found for the other. -/
theorem get_of_hashed_eq {p q : Pair} (htext : hashed p = hashed q) (methods : List JsString) :
    ((State.init.upsert md5 p methods).resume md5 0 ⟨p, methods, none⟩).get md5 q =
      some ⟨getId md5 p, p.dappDomain, p.address, methods⟩ := by
  rw [get_resume_insert rfl, if_pos (by rw [getId, htext]; rfl)]
  rfl

/-- What is granted is found. -/
lemma Holds.mem_capabilities {pair : Pair} {record : Option PermissionRecord}
    {methods : Option (List JsString)} (h : Holds pair record methods) {method : JsString}
    (hmem : method ∈ methods.getD []) : method ∈ capabilities record := by
  cases methods with
  | none => cases hmem
  | some methods =>
    cases record with
    | none => exact h.elim
    | some record => exact (h.2.2 method).mpr hmem

/-- Of two calls that run at the same time for a pair without a record, one grants in vain; and what
is granted to `a.point` is found for another pair, to which nothing was granted. -/
theorem granted_in_vain :
    ∃ md5 : Bytes → JsString, Function.Injective md5 ∧
      (∃ s, Reach (step md5) Any .init s ∧ s.upserts = [] ∧
        ¬ Holds siteA (s.get md5 siteA) (granted siteA s.log)) ∧
      ∃ s, Reach (step md5) Any .init s ∧ s.upserts = [] ∧
        ∃ pair, granted pair s.log = none ∧ s.get md5 pair ≠ none := by
  refine ⟨List.map UInt8.toUInt16, ?_, ?_, ?_⟩
  · rw [List.map_injective_iff]
    intro a b h
    exact UInt8.toUInt16_inj.mp h
  · refine ⟨after (guarded (step _) Any) .init
      [.upsert siteA [js "eth_call"], .upsert siteA [js "eth_sign"], .resume 0, .resume 0],
      .of_after _ (by decide +kernel), by decide +kernel, ?_⟩
    intro h
    have hmem : js "eth_sign" ∈ capabilities _ := h.mem_capabilities (by decide +kernel)
    revert hmem
    decide +kernel
  · refine ⟨after (guarded (step _) Any) .init [.upsert siteA [js "eth_call"], .resume 0],
      .of_after _ (by decide +kernel), by decide +kernel, ⟨js "a.point0", js "x01"⟩, ?_, ?_⟩
    · decide +kernel
    · decide +kernel

end PointNetwork.Permissions
