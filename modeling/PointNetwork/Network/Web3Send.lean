import PointNetwork.Core
import PointNetwork.Retry

/-!
# Sending a transaction

`web3send` of `network/providers/ethereum.js`: ask for the gas price, estimate the gas, send the
transaction of a contract method, and do all this again when it fails with an error that counts as
retryable. What the node does comes with each attempt. A transaction can be mined although `send`
rejects, when the response is lost.

* `mined_eq`: the transactions mined are those of the attempts that are made;
* `mined_once_iff`: when at most one is mined.
-/

namespace PointNetwork.Network

open Js Retry

/-- An error, as far as `isRetryableError` reads it. -/
structure NodeError where
  message : JsString
  deriving DecidableEq

/-- The errors after which a transaction is sent again. -/
def retryableErrors : List JsString := [js "ESOCKETTIMEDOUT"]

/-- `RegExp(code).test(message)` for one of the codes, which have no special characters. -/
def isRetryableError (error : NodeError) : Bool :=
  retryableErrors.any fun code => code <:+: error.message

/-- A transaction of the method; `sender` is its `from`. -/
structure Transaction where
  sender : JsString
  gasPrice : ℕ
  gas : ℕ
  value : Option ℕ
  deriving DecidableEq

/-- How `method.send` ends. -/
inductive Sent
  /-- An error before the transaction is broadcast. -/
  | refused (error : NodeError)
  /-- The transaction is mined, and the receipt arrives. -/
  | acknowledged (receipt : JsString)
  /-- The transaction is mined, and the response is lost. -/
  | lost (error : NodeError)

/-- What the node answers in an attempt. -/
structure Attempt where
  defaultAccount : JsString
  gasPrice : Except NodeError ℕ
  estimateGas : Except NodeError ℕ
  send : Sent

/-- The transactions mined, and what the caller gets. -/
structure Outcome where
  mined : List Transaction
  result : Except NodeError JsString

/-- The body of the loop, up to its catch branch. -/
def Attempt.run (amountInWei : Option ℕ) (a : Attempt) : Outcome :=
  match a.gasPrice with
  | .error error => ⟨[], .error error⟩
  | .ok gasPrice =>
    match a.estimateGas with
    | .error error => ⟨[], .error error⟩
    | .ok gas =>
      let transaction := ⟨a.defaultAccount, gasPrice, gas, amountInWei⟩
      match a.send with
      | .refused error => ⟨[], .error error⟩
      | .acknowledged receipt => ⟨[transaction], .ok receipt⟩
      | .lost error => ⟨[transaction], .error error⟩

/-- The loop, of whose attempts `remaining` are left of `web3CallRetryLimit`. -/
def web3sendFrom (amountInWei : Option ℕ) : ℕ → (ℕ → Attempt) → Outcome
  | 0, node => (node 0).run amountInWei
  | remaining + 1, node =>
    let outcome := (node 0).run amountInWei
    match outcome.result with
    | .ok _ => outcome
    | .error error =>
      -- `web3CallRetryLimit - ++attempt > 0`
      if isRetryableError error ∧ 0 < remaining then
        let rest := web3sendFrom amountInWei remaining fun n => node (n + 1)
        ⟨outcome.mined ++ rest.mined, rest.result⟩
      else outcome

/-- `web3send`, where the node answers attempt `n` as `node n` says. -/
def web3send (web3CallRetryLimit : ℕ) (amountInWei : Option ℕ) (node : ℕ → Attempt) : Outcome :=
  web3sendFrom amountInWei web3CallRetryLimit node

/-! ## What the node's answers say -/

namespace Attempt

/-- The error in which an attempt ends. -/
def error (a : Attempt) : Option NodeError :=
  match a.gasPrice, a.estimateGas, a.send with
  | .error e, _, _ => some e
  | .ok _, .error e, _ => some e
  | .ok _, .ok _, .refused e => some e
  | .ok _, .ok _, .acknowledged _ => none
  | .ok _, .ok _, .lost e => some e

/-- The attempt is followed by another one, if one is left. -/
def asksAgain (a : Attempt) : Bool := a.error.any isRetryableError

/-- The transaction is mined. -/
def mines (a : Attempt) : Bool :=
  match a.gasPrice, a.estimateGas, a.send with
  | .ok _, .ok _, .acknowledged _ => true
  | .ok _, .ok _, .lost _ => true
  | _, _, _ => false

/-- The transaction is mined, but the response is lost. -/
def losesResponse (a : Attempt) : Bool :=
  match a.gasPrice, a.estimateGas, a.send with
  | .ok _, .ok _, .lost _ => true
  | _, _, _ => false

variable {amountInWei : Option ℕ} {a : Attempt}

/-- An attempt mines one transaction or none. -/
theorem length_mined_run : (a.run amountInWei).mined.length = if a.mines then 1 else 0 := by
  obtain ⟨_, gasPrice, gas, send⟩ := a
  cases gasPrice <;> cases gas <;> cases send <;> rfl

/-- An error of the node is the result. -/
theorem result_of_error {error : NodeError} (h : a.error = some error) :
    (a.run amountInWei).result = .error error := by
  obtain ⟨_, gasPrice, gas, send⟩ := a
  cases gasPrice <;> cases gas <;> cases send <;> cases h <;> rfl

/-- Without an error there is a receipt. -/
theorem ok_of_error_eq_none (h : a.error = none) :
    ∃ receipt, (a.run amountInWei).result = .ok receipt := by
  obtain ⟨_, gasPrice, gas, send⟩ := a
  cases gasPrice <;> cases gas <;> cases send <;> first | exact ⟨_, rfl⟩ | cases h

/-- What is mined by an attempt that is followed by another one has lost its response. -/
theorem losesResponse_iff (h : a.asksAgain = true) : a.losesResponse = a.mines := by
  obtain ⟨_, gasPrice, gas, send⟩ := a
  cases gasPrice <;> cases gas <;> cases send <;> first | rfl | cases h

end Attempt

/-! ## The transactions mined -/

variable {amountInWei : Option ℕ} {node : ℕ → Attempt}

/-- One step of the loop. -/
theorem web3sendFrom_succ (remaining : ℕ) :
    web3sendFrom amountInWei (remaining + 1) node =
      if (node 0).asksAgain ∧ 0 < remaining then
        let rest := web3sendFrom amountInWei remaining fun n => node (n + 1)
        ⟨((node 0).run amountInWei).mined ++ rest.mined, rest.result⟩
      else (node 0).run amountInWei := by
  rw [web3sendFrom]
  unfold Attempt.asksAgain
  cases herror : (node 0).error with
  | none =>
    obtain ⟨receipt, hreceipt⟩ : ∃ receipt, ((node 0).run amountInWei).result = .ok receipt :=
      Attempt.ok_of_error_eq_none herror
    rw [hreceipt]
    simp
  | some error =>
    have hresult : ((node 0).run amountInWei).result = .error error :=
      Attempt.result_of_error herror
    rw [hresult]
    rfl

/-- The transactions mined are those of the attempts that are made. -/
theorem mined_eq (limit : ℕ) : (web3send limit amountInWei node).mined =
    (attempts Attempt.asksAgain limit node).flatMap fun a => (a.run amountInWei).mined := by
  unfold web3send
  induction limit generalizing node with
  | zero => simp [web3sendFrom, attempts]
  | succ limit ih =>
    rw [web3sendFrom_succ, attempts, List.flatMap_cons]
    split
    · dsimp only
      rw [ih]
    · simp

/-- The number of transactions mined is the number of attempts made whose transaction is mined. -/
theorem length_mined (limit : ℕ) : (web3send limit amountInWei node).mined.length =
    (attempts Attempt.asksAgain limit node).countP Attempt.mines := by
  rw [mined_eq]
  generalize attempts Attempt.asksAgain limit node = made
  induction made with
  | nil => rfl
  | cons a made ih =>
    rw [List.flatMap_cons, List.length_append, Attempt.length_mined_run, ih, List.countP_cons,
      Nat.add_comm]

/-- At most one transaction is mined if and only if no attempt whose response is lost is followed,
after errors that ask for another attempt and within the limit, by one whose transaction is mined. -/
theorem mined_once_iff (web3CallRetryLimit : ℕ) (amountInWei : Option ℕ) (node : ℕ → Attempt) :
    (web3send web3CallRetryLimit amountInWei node).mined.length ≤ 1 ↔
      ∀ i j, i < j → Made Attempt.asksAgain node web3CallRetryLimit j →
        (node i).losesResponse → ¬(node j).mines := by
  rw [length_mined, countP_attempts_le_one]
  apply forall₄_congr
  intro i j hij hmade
  have hagain : (node i).asksAgain = true := by
    obtain rfl | ⟨-, hall⟩ := hmade
    · exact (Nat.not_lt_zero i hij).elim
    · exact hall i hij
  rw [Attempt.losesResponse_iff hagain]

/-- The response to the first transaction is lost in a timeout, and a second one is mined. -/
theorem mined_twice :
    ¬ ∀ (web3CallRetryLimit : ℕ) (amountInWei : Option ℕ) (node : ℕ → Attempt),
      (web3send web3CallRetryLimit amountInWei node).mined.length ≤ 1 := by
  intro h
  have hmined := h 4 none fun n =>
    ⟨js "0x01", .ok 1, .ok 21000, if n = 0 then .lost ⟨js "Error: ESOCKETTIMEDOUT"⟩
      else .acknowledged (js "0x02")⟩
  revert hmined
  decide +kernel

end PointNetwork.Network
