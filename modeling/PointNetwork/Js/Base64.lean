import PointNetwork.Js.Text

/-!
# The base64 encoding of Node buffers

`fromBase64` is `Buffer.from(s, 'base64')`: both alphabets are read, the text ends at the padding,
and what is in no alphabet, such as blanks, is skipped.
-/

namespace Js

/-- The number that a character of one of the two alphabets stands for. -/
def sextet (u : UInt16) : Option ℕ :=
  let c := u.toNat
  if 0x41 ≤ c ∧ c ≤ 0x5A then some (c - 0x41)
  else if 0x61 ≤ c ∧ c ≤ 0x7A then some (c - 0x61 + 26)
  else if 0x30 ≤ c ∧ c ≤ 0x39 then some (c - 0x30 + 52)
  -- '+' and '-', '/' and '_'
  else if c = 0x2B ∨ c = 0x2D then some 62
  else if c = 0x2F ∨ c = 0x5F then some 63
  else none

/-- Four numbers make three bytes; of a shorter group at the end, one number makes none. -/
def bytesOfSextets : List ℕ → Bytes
  | a :: b :: c :: d :: rest =>
    UInt8.ofNat (a * 4 + b / 16) :: UInt8.ofNat (b % 16 * 16 + c / 4) ::
      UInt8.ofNat (c % 4 * 64 + d) :: bytesOfSextets rest
  | [a, b, c] => [UInt8.ofNat (a * 4 + b / 16), UInt8.ofNat (b % 16 * 16 + c / 4)]
  | [a, b] => [UInt8.ofNat (a * 4 + b / 16)]
  | [_] => []
  | [] => []

/-- `Buffer.from(s, 'base64')`. -/
def fromBase64 (s : JsString) : Bytes := bytesOfSextets ((s.takeWhile (· ≠ 0x3D)).filterMap sextet)

example : fromBase64 (js "aGVs\nbG8_=ignored") = bufferFrom (js "hello?") := by decide +kernel

/-- Four sextets give three bytes at most. -/
lemma length_bytesOfSextets (ns : List ℕ) :
    4 * (bytesOfSextets ns).length ≤ 3 * ns.length := by
  fun_induction bytesOfSextets ns with
  | case1 a b c d rest ih =>
    simp only [List.length_cons]
    omega
  | _ => simp

/-- Decoding makes a text shorter. -/
theorem length_fromBase64 (s : JsString) : 4 * (fromBase64 s).length ≤ 3 * s.length := by
  have hbytes := length_bytesOfSextets ((s.takeWhile (· ≠ 0x3D)).filterMap sextet)
  have hfilter := List.length_filterMap_le sextet (s.takeWhile (· ≠ 0x3D))
  have htake := (List.takeWhile_prefix (l := s) (· ≠ 0x3D)).length_le
  unfold fromBase64
  omega

end Js
