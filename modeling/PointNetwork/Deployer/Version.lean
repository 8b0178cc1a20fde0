import PointNetwork.Core
import PointNetwork.Js.Double

/-!
# The version of a deployment

`getVersion` of `client/zweb/deployer/index.js` with the functions it calls: the version of the
configuration is brought into the form MAJOR.MINOR, compared with the last deployed version, and
gets a patch number.

A number of the configuration comes with the text that its `toString` gives. The named groups of
the regular expressions are read from the front of a text, at the first place where this is
possible: the digits are taken greedily, and what follows them is not a digit.
-/

namespace PointNetwork.Deployer

open Js

/-- `deployConfig.version`. -/
inductive CfgVersion
  | string (s : JsString)
  | number (text : JsString)

/-- What the functions throw. -/
inductive VersionError
  | incorrectFormat (version : JsString)
  | wrongFormat
  | tooOld (baseVersion lastVersion : JsString)
  /-- `blockchain.getikVersion` rejects. -/
  | blockchain
  deriving DecidableEq

/-- The messages of the source. -/
def VersionError.message : VersionError → JsString
  | incorrectFormat version =>
    js "Incorrect format of Version number " ++ version ++ js ". Should be MAJOR.MINOR."
  | wrongFormat => js "Version in wrong format "
  | tooOld baseVersion lastVersion =>
    js "'Base version " ++ baseVersion ++
      js " should be greater or equal to MAJOR.MINOR of lastVersion " ++ lastVersion ++ js ".'"
  | blockchain => []

/-- The code unit of a point. -/
def point : UInt16 := 0x2E

/-- The digits at the front of a text, if there are any, and the rest. -/
def matchDigits (s : JsString) : Option (JsString × JsString) :=
  if s.takeWhile isDigit = [] then none else some (s.takeWhile isDigit, s.dropWhile isDigit)

/-- `\d+\.\d+` at the front of a text, and the rest. -/
def matchBase (s : JsString) : Option (JsString × JsString × JsString) :=
  match matchDigits s with
  | some (major, u :: rest) =>
    if u = point then (matchDigits rest).map fun (minor, rest) => (major, minor, rest) else none
  | _ => none

/-- The first match in a text. -/
def findMatch {α : Type} (f : JsString → Option α) : JsString → Option α
  | [] => f []
  | u :: s => (f (u :: s)).or (findMatch f s)

/-- `/^\d+\.\d+$/.test(baseVersion)`. -/
def isVersionFormated (baseVersion : JsString) : Bool :=
  match matchBase baseVersion with
  | some (_, _, []) => true
  | _ => false

/-- MAJOR.MINOR of the configuration; a whole number is MAJOR.0. -/
def getBaseVersion (version : CfgVersion) : Except VersionError JsString :=
  let baseVersion := match version with
    | .number text => if point ∈ text then text else text ++ js ".0"
    | .string s => s
  if isVersionFormated baseVersion then .ok baseVersion else .error (.incorrectFormat baseVersion)

/-- The parts of a version; the patch may be missing. -/
structure VersionParts where
  major : JsString
  minor : JsString
  patch : Option JsString
  deriving DecidableEq

/-- `/(?<major>\d+)\.(?<minor>\d+)\.(?<patch>\d+)/`, at the front of a text. -/
def matchWithPatch (s : JsString) : Option VersionParts :=
  match matchBase s with
  | some (major, minor, u :: rest) =>
    if u = point then (matchDigits rest).map fun (patch, _) => ⟨major, minor, some patch⟩ else none
  | _ => none

/-- `/(?<major>\d+)\.(?<minor>\d+)/`, at the front of a text. -/
def matchWithoutPatch (s : JsString) : Option VersionParts :=
  (matchBase s).map fun (major, minor, _) => ⟨major, minor, none⟩

/-- The parts of the first version that is found in the text. -/
def getVersionParts (version : JsString) : Except VersionError VersionParts :=
  match findMatch matchWithPatch version with
  | some parts => .ok parts
  | none =>
    match findMatch matchWithoutPatch version with
    | some parts => .ok parts
    | none => .error .wrongFormat

/-- The number that a text of digits denotes. -/
def digitsValue (s : JsString) : ℕ := ofDigits (s.map fun u => u.toNat - 0x30)

/-- `new Number(text)`, for a text of digits with a point among them. -/
def decimalNumber (text : JsString) : WithTop ℚ :=
  let whole := text.takeWhile isDigit
  let fraction := (text.dropWhile isDigit).drop 1
  toDouble (digitsValue (whole ++ fraction) / 10 ^ fraction.length)

/-- The last deployed version; `null`, `undefined` and the empty text count as none. -/
def known (oldVersion : Option JsString) : Option JsString := oldVersion.filter (· ≠ [])

/-- The base of the old version, as a decimal number, is not above the new one. -/
def isNewBaseVersionValid (oldVersion : Option JsString) (newBaseVersion : JsString) :
    Except VersionError Bool :=
  match known oldVersion with
  | none => .ok true
  | some oldVersion => do
    let oldP ← getVersionParts oldVersion
    let oldBaseVersion := decimalNumber (oldP.major ++ point :: oldP.minor)
    pure (decide (oldBaseVersion ≤ decimalNumber newBaseVersion))

/-- The text of a natural number that is a double, or of infinity. -/
def doubleText : WithTop ℚ → JsString
  | ⊤ => js "Infinity"
  | some x => numberText ⌊x⌋.toNat

/-- The text of `new Number(patch) + 1`. Without a patch number this is `NaN`. -/
def nextPatchText : Option JsString → JsString
  | none => js "NaN"
  | some patch =>
    match toDouble (digitsValue patch) with
    | ⊤ => doubleText ⊤
    | some x => doubleText (toDouble (x + 1))

/-- The next patch of the old version when the base is the same, else patch 0. -/
def getNewPatchedVersion (oldVersion : Option JsString) (newBaseVersion : JsString) :
    Except VersionError JsString :=
  match known oldVersion with
  | none => .ok (newBaseVersion ++ js ".0")
  | some oldVersion => do
    let oldP ← getVersionParts oldVersion
    let oldBaseVersion := oldP.major ++ point :: oldP.minor
    if oldBaseVersion = newBaseVersion then pure (oldBaseVersion ++ point :: nextPatchText oldP.patch)
    else pure (newBaseVersion ++ js ".0")

/-- `getVersion`; `lastVersion` is what `blockchain.getikVersion` gives. -/
def getVersion (cfgVersion : CfgVersion) (lastVersion : Except VersionError (Option JsString))
    (isPointTarget isAlias : Bool) : Except VersionError (Option JsString) :=
  if !isPointTarget && !isAlias then .ok none
  else do
    let baseVersion ← getBaseVersion cfgVersion
    let lastVersion ← lastVersion
    if ← isNewBaseVersionValid lastVersion baseVersion then
      pure (some (← getNewPatchedVersion lastVersion baseVersion))
    else .error (.tooOld baseVersion (lastVersion.getD []))

example : getVersion (.number (js "2")) (.ok (some (js "1.7.4"))) true false =
    .ok (some (js "2.0.0")) := by decide +kernel

end PointNetwork.Deployer
