import PointNetwork.Js.Buffer

/-!
# What the modules share: errors, identifiers and the hash function
-/

namespace PointNetwork

open Js

/-- What a function of the node throws. The messages of `Error`, `DisplayableError` and
`HttpNotFoundError` are the source's; the engine's own errors carry none here. -/
inductive Exception
  | error (message : String)
  | displayable (message : String)
  | httpNotFound (message : String)
  | typeError
  | syntaxError
  /-- A promise of code outside the model was rejected. -/
  | rejected
  /-- The evaluation of the model was cut short by its fuel; no source error. -/
  | outOfFuel
  deriving DecidableEq, Repr

/-- Both halves of a sequence that succeeds do. -/
lemma bind_ok {α β : Type} {x : Except Exception α} {f : α → Except Exception β} {b : β}
    (h : x >>= f = .ok b) : ∃ a, x = .ok a ∧ f a = .ok b := by
  cases x with
  | error e => cases h
  | ok a => exact ⟨a, rfl, h⟩

/-- A sequence whose first half succeeds. -/
lemma ok_bind {ε α β : Type} (a : α) (f : α → Except ε β) : (.ok a >>= f) = f a := rfl

/-- `hashFn`: a digest of 32 bytes. The code uses keccak256. -/
structure HashFn where
  digest : Bytes → Bytes
  length_digest : ∀ b, (digest b).length = 32

/-- A hash function for small concrete runs: the first bytes of the data. -/
def HashFn.firstBytes : HashFn where
  digest b := (b ++ List.replicate 32 1).take 32
  length_digest b := by simp

/-- The id of a chunk or a file: the digest of its bytes in hexadecimal. -/
def HashFn.id (H : HashFn) (b : Bytes) : JsString := toHex (H.digest b)

/-- A hexadecimal digit, of either case. -/
def isHexDigit (u : UInt16) : Bool := (radixDigit 16 u).isSome

/-- The digits of an id, without an optional `0x` in front. -/
def stripPrefix (id : JsString) : JsString :=
  match id with
  | 0x30 :: u :: rest => if u = 0x78 ∨ u = 0x58 then rest else id
  | _ => id

/-- `isValidStorageId`: `/^(0x|)[0-9a-f]{64}$/i`. -/
def isValidStorageId (id : JsString) : Bool :=
  (id.length = 64 && id.all isHexDigit) ||
    (id.length = 66 && (stripPrefix id).length = 64 && (stripPrefix id).all isHexDigit)

/-- `isZeroStorageId`: `/^(0x|)[0]{1,64}$/i`. -/
def isZeroStorageId (id : JsString) : Bool :=
  (id != [] && id.length ≤ 64 && id.all (· = 0x30)) ||
    (id.length ≠ (stripPrefix id).length && stripPrefix id != [] &&
      (stripPrefix id).length ≤ 64 && (stripPrefix id).all (· = 0x30))

lemma isHexDigit_hexDigitUnit {d : ℕ} (hd : d < 16) : isHexDigit (hexDigitUnit d) = true := by
  simp [isHexDigit, radixDigit_hexDigitUnit hd]

/-- Hexadecimal text has hexadecimal digits only. -/
lemma all_isHexDigit_toHex (b : Bytes) : (toHex b).all isHexDigit = true := by
  rw [List.all_eq_true]
  intro u hu
  obtain ⟨x, -, hx⟩ := List.mem_flatMap.mp hu
  have hlt := x.toNat_lt
  simp only [List.mem_cons, List.not_mem_nil, or_false] at hx
  rcases hx with rfl | rfl
  · exact isHexDigit_hexDigitUnit (by omega)
  · exact isHexDigit_hexDigitUnit (by omega)

@[simp] lemma HashFn.length_id (H : HashFn) (b : Bytes) : (H.id b).length = 64 := by
  rw [HashFn.id, length_toHex, H.length_digest]

/-- Every digest is a valid storage id. -/
theorem HashFn.isValidStorageId_id (H : HashFn) (b : Bytes) :
    isValidStorageId (H.id b) = true := by
  simp only [isValidStorageId, H.length_id, decide_true, Bool.true_and, Bool.or_eq_true]
  exact Or.inl (all_isHexDigit_toHex _)

end PointNetwork
