import PointNetwork.Deployer.Version

/-!
# The law of versions

The versions that a deployment and its predecessor may have are texts of digits and points, and
are ordered by their numbers, lexicographically. `getVersion` compares the decimal numbers
MAJOR.MINOR as doubles, and then the texts.

* `getVersionParts_text`, `decimalNumber_text`, `getVersion_eq`: what the functions give on such
  texts;
* `version_law`: when a deployment is accepted as the order says, with a greater version;
* `patchable_of_lt`: a patch number of at most 53 bits can be incremented.
-/

namespace PointNetwork.Deployer

open Js

/-! ## Texts of digits -/

/-- `\d+`. -/
structure Digits where
  text : JsString
  ne_nil : text ≠ []
  digits : ∀ u ∈ text, isDigit u = true

namespace Digits

/-- The number of the digits, or those of the two components. -/
def value (d : Digits) : ℕ := digitsValue d.text

/-- The digit 0. -/
def zero : Digits := ⟨[0x30], by simp, by simp [isDigit]⟩

/-- Digits are determined by their text. -/
theorem ext_text {d e : Digits} (h : d.text = e.text) : d = e := by
  cases d
  cases e
  cases h
  rfl

variable (d : Digits) {rest : JsString}

theorem point_notMem : point ∉ d.text := by
  intro h
  have hdigit := d.digits point h
  revert hdigit
  decide

/-- The digits end where no digit follows. -/
theorem takeWhile_append (h : NoDigit rest) : (d.text ++ rest).takeWhile isDigit = d.text := by
  have hrest : rest.takeWhile isDigit = [] := by
    cases rest with
    | nil => rfl
    | cons u rest => simp [h u rest rfl]
  rw [List.takeWhile_append_of_pos d.digits, hrest, List.append_nil]

/-- What follows the digits is left. -/
theorem dropWhile_append (h : NoDigit rest) : (d.text ++ rest).dropWhile isDigit = rest := by
  rw [List.dropWhile_append_of_pos d.digits]
  cases rest with
  | nil => rfl
  | cons u rest => simp [h u rest rfl]

/-- Digits before what is no digit are matched whole. -/
theorem matchDigits_append (h : NoDigit rest) :
    matchDigits (d.text ++ rest) = some (d.text, rest) := by
  unfold matchDigits
  rw [d.takeWhile_append h, d.dropWhile_append h, if_neg d.ne_nil]

end Digits

theorem noDigit_cons_point (s : JsString) : NoDigit (point :: s) := by
  intro u rest h
  cases h
  rfl

theorem noDigit_nil : NoDigit [] := by
  intro u rest h
  cases h

/-- The value of two groups of digits. -/
theorem digitsValue_append (s t : JsString) :
    digitsValue (s ++ t) = digitsValue s * 10 ^ t.length + digitsValue t := by
  unfold digitsValue
  rw [List.map_append, ofDigits_append, List.length_map]

/-- The value is bounded by the number of the digits. -/
theorem digitsValue_lt {s : JsString} (h : ∀ u ∈ s, isDigit u = true) :
    digitsValue s < 10 ^ s.length := by
  induction s with
  | nil => decide
  | cons u s ih =>
    have hu : u.toNat - 0x30 < 10 := by
      have hdigit := h u List.mem_cons_self
      simp only [isDigit, Bool.and_eq_true, decide_eq_true_eq] at hdigit
      omega
    have hs := ih fun v hv => h v (List.mem_cons_of_mem _ hv)
    have hcons : digitsValue (u :: s) = (u.toNat - 0x30) * 10 ^ s.length + digitsValue s := by
      rw [← List.singleton_append, digitsValue_append]
      simp [digitsValue, ofDigits]
    rw [hcons, List.length_cons, pow_succ']
    calc (u.toNat - 0x30) * 10 ^ s.length + digitsValue s
        < (u.toNat - 0x30) * 10 ^ s.length + 1 * 10 ^ s.length := by omega
      _ = (u.toNat - 0x30 + 1) * 10 ^ s.length := by ring
      _ ≤ 10 * 10 ^ s.length := Nat.mul_le_mul_right _ (by omega)

/-- A text of digits is read as the number of which it is the text. -/
theorem digitsValue_natText (n : ℕ) : digitsValue (natText n) = n := by
  unfold digitsValue natText
  rw [List.map_map]
  have hdigits : (natDigits n).map ((fun u : UInt16 => u.toNat - 0x30) ∘ digitUnit) =
      natDigits n := by
    refine (List.map_congr_left fun d hd => ?_).trans (List.map_id _)
    show (digitUnit d).toNat - 0x30 = d
    rw [toNat_digitUnit (natDigits_lt hd)]
    omega
  rw [hdigits, ofDigits_natDigits]

/-- The text of a natural number. -/
def Digits.ofNat (n : ℕ) : Digits where
  text := natText n
  ne_nil := natText_ne_nil n
  digits := by
    intro u hu
    obtain ⟨d, hd, rfl⟩ := List.mem_map.mp hu
    exact isDigit_digitUnit (natDigits_lt hd)

theorem Digits.value_ofNat (n : ℕ) : (Digits.ofNat n).value = n := digitsValue_natText n

/-! ## Versions -/

/-- MAJOR.MINOR. -/
structure Base where
  major : Digits
  minor : Digits

namespace Base

/-- The text of the base, or of the last version. -/
def text (b : Base) : JsString := b.major.text ++ point :: b.minor.text

/-- The numbers of the two components. -/
def value (b : Base) : List ℕ := [b.major.value, b.minor.value]

/-- The decimal number MAJOR.MINOR. -/
def decimal (b : Base) : ℚ := b.major.value + b.minor.value / 10 ^ b.minor.text.length

/-- MAJOR.MINOR.PATCH. -/
def withPatch (b : Base) (patch : Digits) : JsString := b.text ++ point :: patch.text

variable (b : Base) {rest : JsString}

/-- A base before what is no digit is matched whole. -/
theorem matchBase_append (h : NoDigit rest) :
    matchBase (b.text ++ rest) = some (b.major.text, b.minor.text, rest) := by
  unfold matchBase text
  rw [List.append_assoc, List.cons_append, b.major.matchDigits_append (noDigit_cons_point _)]
  dsimp only
  rw [if_pos rfl, b.minor.matchDigits_append h]
  rfl

theorem matchBase_text : matchBase b.text = some (b.major.text, b.minor.text, []) := by
  have h := b.matchBase_append noDigit_nil
  rwa [List.append_nil] at h

/-- A text is in one way only a base version and what follows it. -/
theorem append_inj {b' : Base} {rest' : JsString} (h : NoDigit rest) (h' : NoDigit rest')
    (heq : b.text ++ rest = b'.text ++ rest') : b = b' ∧ rest = rest' := by
  have hmatch := b.matchBase_append h
  rw [heq, b'.matchBase_append h'] at hmatch
  simp only [Option.some_inj, Prod.mk.injEq] at hmatch
  obtain ⟨hmajor, hminor, hrest⟩ := hmatch
  obtain ⟨major, minor⟩ := b
  obtain ⟨major', minor'⟩ := b'
  cases Digits.ext_text hmajor
  cases Digits.ext_text hminor
  exact ⟨rfl, hrest.symm⟩

/-- A base is determined by its text. -/
theorem text_inj {b' : Base} (h : b.text = b'.text) : b = b' := by
  have happend : b.text ++ [] = b'.text ++ [] := by rw [h]
  exact (b.append_inj noDigit_nil noDigit_nil happend).1

/-- The text of a base has the format. -/
theorem isVersionFormated_text : isVersionFormated b.text = true := by
  unfold isVersionFormated
  rw [b.matchBase_text]

/-- The text of a base is read as its decimal number, rounded. -/
theorem decimalNumber_text : decimalNumber b.text = toDouble b.decimal := by
  have hpoint := noDigit_cons_point b.minor.text
  unfold decimalNumber text decimal
  dsimp only
  rw [b.major.takeWhile_append hpoint, b.major.dropWhile_append hpoint, List.drop_succ_cons,
    List.drop_zero, digitsValue_append]
  congr 1
  push_cast
  rw [add_div, mul_div_cancel_right₀ _ (by positivity)]
  rfl

theorem decimal_nonneg : 0 ≤ b.decimal := by
  unfold decimal
  positivity

/-- A greater major version is a greater decimal number. -/
theorem decimal_le {b' : Base} (h : b.major.value < b'.major.value) : b.decimal ≤ b'.decimal := by
  have hminor : (b.minor.value : ℚ) / 10 ^ b.minor.text.length ≤ 1 := by
    rw [div_le_one (by positivity)]
    exact_mod_cast (digitsValue_lt b.minor.digits).le
  have hmajor : (b.major.value : ℚ) + 1 ≤ b'.major.value := by exact_mod_cast h
  have hfraction : (0 : ℚ) ≤ b'.minor.value / 10 ^ b'.minor.text.length := by positivity
  unfold decimal
  linarith

end Base

/-- What `getikVersion` may give. -/
inductive Last
  | null
  | empty
  | version (base : Base) (patch : Option Digits)

namespace Last

/-- The text of the last version, `null` when there is none. -/
def text : Last → Option JsString
  | null => none
  | empty => some []
  | version base none => some base.text
  | version base (some patch) => some (base.withPatch patch)

/-- The numbers of the version; of no version there are none. -/
def value : Last → List ℕ
  | null => []
  | empty => []
  | version base patch => base.value ++ (patch.map Digits.value).toList

/-- The numbers MAJOR and MINOR. -/
def base (last : Last) : List ℕ := last.value.take 2

end Last

/-- What the configuration may contain. -/
inductive Cfg
  | string (base : Base)
  | integer (n : Digits)
  | decimal (base : Base)

namespace Cfg

/-- The version of the configuration as the deployer gets it. -/
def version : Cfg → CfgVersion
  | string base => .string base.text
  | integer n => .number n.text
  | decimal base => .number base.text

/-- An integer N is read as N.0. -/
def base : Cfg → Base
  | string base => base
  | integer n => ⟨n, .zero⟩
  | decimal base => base

/-- The base of a version of the configuration. -/
theorem getBaseVersion_version (cfg : Cfg) : getBaseVersion cfg.version = .ok cfg.base.text := by
  unfold getBaseVersion
  cases cfg with
  | string base =>
    show (if isVersionFormated base.text then _ else _) = _
    rw [if_pos base.isVersionFormated_text]
    rfl
  | integer n =>
    show (if isVersionFormated (if point ∈ n.text then n.text else n.text ++ js ".0") then
      Except.ok (if point ∈ n.text then n.text else n.text ++ js ".0") else _) = _
    rw [if_neg n.point_notMem]
    exact if_pos (Base.mk n .zero).isVersionFormated_text
  | decimal base =>
    have hpoint : point ∈ base.text := List.mem_append_right _ List.mem_cons_self
    show (if isVersionFormated (if point ∈ base.text then base.text else _) then
      Except.ok (if point ∈ base.text then base.text else _) else _) = _
    rw [if_pos hpoint]
    exact if_pos base.isVersionFormated_text

end Cfg

/-! ## The groups of the regular expressions -/

/-- What is matched is the beginning of the text. -/
theorem of_matchDigits {s d rest : JsString} (h : matchDigits s = some (d, rest)) :
    s = d ++ rest := by
  unfold matchDigits at h
  split_ifs at h
  cases h
  exact (List.takeWhile_append_dropWhile).symm

/-- What is matched is the beginning of the text, with a point between. -/
theorem of_matchBase {s major minor rest : JsString}
    (h : matchBase s = some (major, minor, rest)) : s = major ++ point :: (minor ++ rest) := by
  unfold matchBase at h
  split at h
  · rename_i major' u rest' hmajor
    split_ifs at h with hu
    obtain ⟨⟨minor', rest''⟩, hminor, heq⟩ := Option.map_eq_some_iff.mp h
    cases heq
    rw [of_matchDigits hmajor, of_matchDigits hminor, hu]
  · cases h

/-- A version with a patch number has two points. -/
theorem two_le_count_of_matchWithPatch {s : JsString} {parts : VersionParts}
    (h : matchWithPatch s = some parts) : 2 ≤ s.count point := by
  unfold matchWithPatch at h
  split at h
  · rename_i major minor u rest hbase
    split_ifs at h with hu
    rw [of_matchBase hbase, hu]
    simp only [List.count_append, List.count_cons_self]
    omega
  · cases h

theorem findMatch_of_eq_some {α : Type} {f : JsString → Option α} {s : JsString} {a : α}
    (h : f s = some a) : findMatch f s = some a := by
  cases s with
  | nil => exact h
  | cons u s =>
    rw [findMatch, h]
    rfl

theorem findMatch_eq_none {α : Type} {f : JsString → Option α} {s : JsString}
    (h : ∀ t, t <:+ s → f t = none) : findMatch f s = none := by
  induction s with
  | nil => exact h [] List.suffix_rfl
  | cons u s ih =>
    rw [findMatch, h _ List.suffix_rfl, ih fun t ht => h t (ht.trans (List.suffix_cons u s))]
    rfl

theorem Base.count_text (b : Base) : b.text.count point = 1 := by
  unfold Base.text
  rw [List.count_append, List.count_cons_self, List.count_eq_zero.mpr b.major.point_notMem,
    List.count_eq_zero.mpr b.minor.point_notMem]

/-- A base without patch has two parts. -/
theorem getVersionParts_text (b : Base) :
    getVersionParts b.text = .ok ⟨b.major.text, b.minor.text, none⟩ := by
  have hpatch : findMatch matchWithPatch b.text = none := by
    apply findMatch_eq_none
    intro t ht
    cases hmatch : matchWithPatch t with
    | none => rfl
    | some parts =>
      have htwo := two_le_count_of_matchWithPatch hmatch
      have hone := ht.sublist.count_le point
      rw [b.count_text] at hone
      omega
  have hbase : findMatch matchWithoutPatch b.text = some ⟨b.major.text, b.minor.text, none⟩ := by
    apply findMatch_of_eq_some
    unfold matchWithoutPatch
    rw [b.matchBase_text]
    rfl
  unfold getVersionParts
  rw [hpatch, hbase]

/-- A version has its three parts. -/
theorem getVersionParts_withPatch (b : Base) (patch : Digits) :
    getVersionParts (b.withPatch patch) =
      .ok ⟨b.major.text, b.minor.text, some patch.text⟩ := by
  have hpatch : findMatch matchWithPatch (b.withPatch patch) =
      some ⟨b.major.text, b.minor.text, some patch.text⟩ := by
    apply findMatch_of_eq_some
    have hdigits : matchDigits patch.text = some (patch.text, []) := by
      have h := patch.matchDigits_append noDigit_nil
      rwa [List.append_nil] at h
    unfold matchWithPatch Base.withPatch
    rw [b.matchBase_append (noDigit_cons_point _)]
    dsimp only
    rw [if_pos rfl, hdigits]
    rfl
  unfold getVersionParts
  rw [hpatch]

/-! ## What is returned -/

theorem Last.known_version (base : Base) (patch : Option Digits) :
    known (Last.version base patch).text = (Last.version base patch).text := by
  have hne : ∀ s : JsString, base.text ++ s ≠ [] := by
    intro s h
    exact base.major.ne_nil (List.append_eq_nil_iff.mp (List.append_eq_nil_iff.mp h).1).1
  unfold known
  cases patch with
  | none =>
    have hnil := hne []
    rw [List.append_nil] at hnil
    exact Option.filter_some_pos (decide_eq_true hnil)
  | some patch => exact Option.filter_some_pos (decide_eq_true (hne _))

/-- The parts of a last version. -/
theorem Last.getVersionParts_text {base : Base} {patch : Option Digits} {s : JsString}
    (h : (Last.version base patch).text = some s) :
    getVersionParts s = .ok ⟨base.major.text, base.minor.text, patch.map Digits.text⟩ := by
  cases patch with
  | none =>
    cases h
    exact Deployer.getVersionParts_text base
  | some patch =>
    cases h
    exact getVersionParts_withPatch base patch

theorem Last.exists_text (base : Base) (patch : Option Digits) :
    ∃ s, (Last.version base patch).text = some s := by
  cases patch with
  | none => exact ⟨_, rfl⟩
  | some patch => exact ⟨_, rfl⟩

/-- The new version over a last one with the same base text, or with another one. -/
def newVersion (base : Base) (patch : Option Digits) (new : Base) : JsString :=
  if base.text = new.text then base.text ++ point :: nextPatchText (patch.map Digits.text)
  else new.text ++ js ".0"

variable {isPointTarget isAlias : Bool}

/-- The comparison and the patch number over a last version. -/
theorem isNewBaseVersionValid_version (base : Base) (patch : Option Digits) (new : Base) :
    isNewBaseVersionValid (Last.version base patch).text new.text =
      .ok (decide (toDouble base.decimal ≤ toDouble new.decimal)) := by
  obtain ⟨s, hs⟩ := Last.exists_text base patch
  unfold isNewBaseVersionValid
  rw [Last.known_version, hs]
  dsimp only
  rw [Last.getVersionParts_text hs, ok_bind, ← base.decimalNumber_text, ← new.decimalNumber_text]
  rfl

/-- The new version after a last one. -/
theorem getNewPatchedVersion_version (base : Base) (patch : Option Digits) (new : Base) :
    getNewPatchedVersion (Last.version base patch).text new.text =
      .ok (newVersion base patch new) := by
  obtain ⟨s, hs⟩ := Last.exists_text base patch
  unfold getNewPatchedVersion newVersion
  rw [Last.known_version, hs]
  dsimp only
  rw [Last.getVersionParts_text hs, ok_bind]
  show (if base.text = new.text then _ else _) = Except.ok (if base.text = new.text then _ else _)
  split <;> rfl

lemma targeted (h : (isPointTarget || isAlias) = true) : (!isPointTarget && !isAlias) ≠ true := by
  rw [← Bool.not_or, h]
  decide

/-- Over a last version, a deployment is accepted by the decimal numbers. -/
theorem getVersion_version (h : (isPointTarget || isAlias) = true) (cfg : Cfg) (base : Base)
    (patch : Option Digits) :
    getVersion cfg.version (.ok (Last.version base patch).text) isPointTarget isAlias =
      if toDouble base.decimal ≤ toDouble cfg.base.decimal then
        .ok (some (newVersion base patch cfg.base))
      else .error (.tooOld cfg.base.text ((Last.version base patch).text.getD [])) := by
  unfold getVersion
  rw [if_neg (targeted h), cfg.getBaseVersion_version, ok_bind, ok_bind,
    isNewBaseVersionValid_version, ok_bind]
  by_cases hle : toDouble base.decimal ≤ toDouble cfg.base.decimal
  · rw [if_pos hle, if_pos (decide_eq_true hle), getNewPatchedVersion_version]
    rfl
  · rw [if_neg hle, if_neg (by simpa using hle)]

/-- Without a last version, every deployment is accepted. -/
theorem getVersion_of_value_eq_nil (h : (isPointTarget || isAlias) = true) (cfg : Cfg)
    {last : Last} (hlast : last.value = []) :
    getVersion cfg.version (.ok last.text) isPointTarget isAlias =
      .ok (some (cfg.base.withPatch .zero)) := by
  unfold getVersion
  rw [if_neg (targeted h), cfg.getBaseVersion_version, ok_bind, ok_bind]
  cases last with
  | null => rfl
  | empty => rfl
  | version base patch => cases hlast

/-! ## The patch number -/

/-- The double `new Number(patch) + 1`. -/
def successor (patch : ℕ) : WithTop ℚ :=
  match toDouble patch with
  | ⊤ => ⊤
  | some x => toDouble (x + 1)

/-- The patch number can be incremented: in doubles, and as it is printed, the next one is greater,
and it is printed without an exponent. -/
def Patchable (patch : ℕ) : Prop :=
  ∃ s : ℚ, successor patch = s ∧ shortest ⌊s⌋.toNat < 10 ^ 21 ∧ patch < shortest ⌊s⌋.toNat

/-- Every patch number of at most 53 bits can be incremented, the two greatest perhaps not. -/
theorem patchable_of_lt {patch : ℕ} (h : patch + 2 < 2 ^ 53) : Patchable patch := by
  have hsuccessor : successor patch = ((patch + 1 : ℕ) : ℚ) := by
    have hround : toDouble ((patch : ℚ) + 1) = ((patch + 1 : ℕ) : ℚ) := by
      have hcast : (patch : ℚ) + 1 = ((patch + 1 : ℕ) : ℚ) := by push_cast; rfl
      rw [hcast, toDouble_natCast (by omega)]
    unfold successor
    rw [toDouble_natCast (by omega)]
    exact hround
  have hfloor : ⌊((patch + 1 : ℕ) : ℚ)⌋.toNat = patch + 1 := by
    rw [Int.floor_natCast, Int.toNat_natCast]
  refine ⟨_, hsuccessor, ?_⟩
  rw [hfloor, shortest_of_lt h]
  omega

/-- The next patch is the text of a double. -/
theorem nextPatchText_some (patch : Digits) :
    nextPatchText (some patch.text) = doubleText (successor patch.value) := by
  unfold nextPatchText successor Digits.value
  dsimp only
  cases toDouble (digitsValue patch.text) with
  | top => rfl
  | coe x => rfl

theorem text_ne_of_mem {d : Digits} {s : JsString} {u : UInt16} (hu : u ∈ s)
    (hdigit : isDigit u = false) : d.text ≠ s := by
  rintro rfl
  rw [d.digits u hu] at hdigit
  cases hdigit

theorem mem_numberText {n : ℕ} (h : ¬shortest n < 10 ^ 21) : (0x65 : UInt16) ∈ numberText n := by
  unfold numberText
  exact mem_print_ofInt h

/-- A double whose text consists of digits is printed without an exponent. -/
theorem eq_doubleText {d : Digits} {x : WithTop ℚ} (h : d.text = doubleText x) :
    ∃ s : ℚ, x = s ∧ shortest ⌊s⌋.toNat < 10 ^ 21 ∧ d.value = shortest ⌊s⌋.toNat := by
  cases x with
  | top =>
    have hmem : (0x49 : UInt16) ∈ js "Infinity" := by decide
    exact (text_ne_of_mem hmem rfl h).elim
  | coe s =>
    have htext : d.text = numberText ⌊s⌋.toNat := h
    by_cases hlt : shortest ⌊s⌋.toNat < 10 ^ 21
    · refine ⟨s, rfl, hlt, ?_⟩
      unfold numberText at htext
      rw [print_ofInt hlt] at htext
      unfold Digits.value
      rw [htext, digitsValue_natText]
    · exact (text_ne_of_mem (mem_numberText hlt) rfl htext).elim

/-- The text of a small whole double has digits only. -/
theorem exists_doubleText {s : ℚ} (h : shortest ⌊s⌋.toNat < 10 ^ 21) :
    ∃ d : Digits, d.text = doubleText s ∧ d.value = shortest ⌊s⌋.toNat := by
  have htext : doubleText s = natText (shortest ⌊s⌋.toNat) := by
    show numberText ⌊s⌋.toNat = _
    unfold numberText
    exact print_ofInt h
  exact ⟨.ofNat _, htext.symm, Digits.value_ofNat _⟩

/-- With a patch number that can be incremented, and only then, the text after it is that of a
greater one. -/
theorem patchable_iff {patch : Digits} :
    (∃ d : Digits, d.text = nextPatchText (some patch.text) ∧ patch.value < d.value) ↔
      Patchable patch.value := by
  rw [nextPatchText_some]
  constructor
  · rintro ⟨d, hd, hlt⟩
    obtain ⟨s, hs, hexponent, hvalue⟩ := eq_doubleText hd
    exact ⟨s, hs, hexponent, hvalue ▸ hlt⟩
  · rintro ⟨s, hs, hexponent, hlt⟩
    obtain ⟨d, hd, hvalue⟩ := exists_doubleText hexponent
    refine ⟨d, ?_, hvalue ▸ hlt⟩
    rw [hs, hd]

/-! ## The law -/

/-- A deployment is accepted if and only if MAJOR.MINOR of the configuration is not less than the
last one, and its version is then a greater MAJOR.MINOR.PATCH. -/
def VersionLaw (last : Last) (cfg : Cfg) (result : Except VersionError (Option JsString)) : Prop :=
  ((∃ r, result = .ok (some r)) ↔ last.base ≤ cfg.base.value) ∧
    ∀ r, result = .ok (some r) → ∃ (base : Base) (patch : Digits),
      r = base.withPatch patch ∧ last.value < base.value ++ [patch.value]

/-- Where the order of the decimal numbers and that of the texts do what the order of versions
says. -/
def Lawful (new : Base) : Last → Prop
  | .null => True
  | .empty => True
  | .version base patch =>
    if base.text = new.text then ∃ p, patch = some p ∧ Patchable p.value
    else if base.value < new.value then
      base.major.value < new.major.value ∨ toDouble base.decimal ≤ toDouble new.decimal
    else if base.value = new.value then
      patch = none ∧ toDouble base.decimal ≤ toDouble new.decimal
    else toDouble new.decimal < toDouble base.decimal

theorem versionLaw_of_value_eq_nil {cfg : Cfg} {last : Last} (hlast : last.value = []) :
    VersionLaw last cfg (.ok (some (cfg.base.withPatch .zero))) := by
  have hbase : last.base = [] := by
    unfold Last.base
    rw [hlast]
    rfl
  refine ⟨iff_of_true ⟨_, rfl⟩ ?_, ?_⟩
  · rw [hbase]
    exact not_lt.mp (List.not_lt_nil _)
  · intro r hr
    cases hr
    refine ⟨_, _, rfl, ?_⟩
    rw [hlast]
    show ([] : List ℕ) < cfg.base.major.value :: [cfg.base.minor.value, Digits.zero.value]
    exact List.nil_lt_cons _ _

/-- Versions with one base are ordered by their patches. -/
theorem Base.append_lt_append (b : Base) {l l' : List ℕ} :
    b.value ++ l < b.value ++ l' ↔ l < l' := by
  unfold Base.value
  simp

/-- Versions with different bases are ordered by them. -/
theorem Base.append_lt_of_lt {b b' : Base} (l l' : List ℕ) (h : b.value < b'.value) :
    b.value ++ l < b'.value ++ l' := by
  unfold Base.value at h ⊢
  simp only [List.cons_lt_cons_iff, List.cons_append, List.nil_append] at h ⊢
  obtain h | ⟨h, h' | ⟨-, h'⟩⟩ := h
  · exact .inl h
  · exact .inr ⟨h, .inl h'⟩
  · exact (List.not_lt_nil _ h').elim

theorem Last.base_version (base : Base) (patch : Option Digits) :
    (Last.version base patch).base = base.value := rfl

/-- The same base text: only the patch number counts. -/
theorem versionLaw_same {cfg : Cfg} {patch : Option Digits} :
    VersionLaw (.version cfg.base patch) cfg
        (.ok (some (cfg.base.text ++ point :: nextPatchText (patch.map Digits.text)))) ↔
      ∃ p, patch = some p ∧ Patchable p.value := by
  -- the new version has the old base, so only the patches are compared
  have hinj : ∀ (base : Base) (d : Digits),
      cfg.base.text ++ point :: nextPatchText (patch.map Digits.text) = base.withPatch d →
        base = cfg.base ∧ d.text = nextPatchText (patch.map Digits.text) := by
    intro base d heq
    obtain ⟨hbase, hrest⟩ :=
      cfg.base.append_inj (noDigit_cons_point _) (noDigit_cons_point _) heq
    exact ⟨hbase.symm, (List.cons.inj hrest).2.symm⟩
  constructor
  · intro h
    obtain ⟨base, d, heq, hlt⟩ := h.2 _ rfl
    obtain ⟨rfl, hd⟩ := hinj base d heq
    cases patch with
    -- the code writes `NaN` for a patch that is not there
    | none =>
      have hmem : (0x4E : UInt16) ∈ js "NaN" := by decide
      exact (text_ne_of_mem hmem rfl hd).elim
    | some patch =>
      have hpatch : [patch.value] < [d.value] := cfg.base.append_lt_append.mp hlt
      refine ⟨patch, rfl, patchable_iff.mp ⟨d, hd, ?_⟩⟩
      simpa [List.cons_lt_cons_iff] using hpatch
  · rintro ⟨patch, rfl, hpatch⟩
    obtain ⟨d, hd, hlt⟩ := patchable_iff.mpr hpatch
    refine ⟨iff_of_true ⟨_, rfl⟩ le_rfl, ?_⟩
    intro r hr
    cases hr
    refine ⟨cfg.base, d, ?_, cfg.base.append_lt_append.mpr ?_⟩
    · unfold Base.withPatch
      rw [hd]
      rfl
    · simpa [List.cons_lt_cons_iff] using hlt

/-- Another base text: the patch number is zero. -/
theorem versionLaw_other {cfg : Cfg} {base : Base} {patch : Option Digits} :
    VersionLaw (.version base patch) cfg (.ok (some (cfg.base.withPatch .zero))) ↔
      base.value < cfg.base.value ∨ base.value = cfg.base.value ∧ patch = none := by
  constructor
  · intro h
    have hle : base.value ≤ cfg.base.value := h.1.mp ⟨_, rfl⟩
    obtain hlt | heq := hle.lt_or_eq
    · exact .inl hlt
    · refine .inr ⟨heq, ?_⟩
      obtain ⟨base', d, htext, hlt⟩ := h.2 _ rfl
      obtain ⟨rfl, hd⟩ :=
        cfg.base.append_inj (noDigit_cons_point _) (noDigit_cons_point _) htext
      obtain rfl : Digits.zero = d := Digits.ext_text (List.cons.inj hd).2
      cases patch with
      | none => rfl
      | some patch =>
        -- no patch number is less than zero
        have hpatch : [patch.value] < [Digits.zero.value] := by
          apply base.append_lt_append.mp
          rw [heq]
          exact heq ▸ hlt
        have hzero : Digits.zero.value = 0 := by decide
        simp [List.cons_lt_cons_iff, hzero] at hpatch
  · intro h
    refine ⟨iff_of_true ⟨_, rfl⟩ ?_, ?_⟩
    · obtain hlt | ⟨heq, -⟩ := h
      · exact hlt.le
      · exact heq.le
    · intro r hr
      cases hr
      refine ⟨_, _, rfl, ?_⟩
      obtain hlt | ⟨heq, rfl⟩ := h
      · exact Base.append_lt_of_lt _ _ hlt
      · show base.value ++ [] < _
        rw [heq, cfg.base.append_lt_append]
        exact List.nil_lt_cons _ _

/-- A version is refused by right exactly when its base is below the last one. -/
theorem versionLaw_error {cfg : Cfg} {base : Base} {patch : Option Digits} {e : VersionError} :
    VersionLaw (.version base patch) cfg (.error e) ↔ cfg.base.value < base.value := by
  unfold VersionLaw
  rw [Last.base_version]
  constructor
  · intro h
    by_contra hlt
    obtain ⟨r, hr⟩ := h.1.mpr (not_lt.mp hlt)
    cases hr
  · intro h
    refine ⟨iff_of_false ?_ (not_le.mpr h), ?_⟩
    · rintro ⟨r, hr⟩
      cases hr
    · intro r hr
      cases hr

/-- `getVersion` follows the law if and only if the decimal numbers and the texts of the two
versions do what the order says. -/
theorem version_law (cfg : Cfg) (last : Last) (isPointTarget isAlias : Bool)
    (h : (isPointTarget || isAlias) = true) :
    VersionLaw last cfg (getVersion cfg.version (.ok last.text) isPointTarget isAlias) ↔
      Lawful cfg.base last := by
  cases last with
  | null =>
    rw [getVersion_of_value_eq_nil h cfg rfl]
    exact iff_of_true (versionLaw_of_value_eq_nil rfl) trivial
  | empty =>
    rw [getVersion_of_value_eq_nil h cfg rfl]
    exact iff_of_true (versionLaw_of_value_eq_nil rfl) trivial
  | version base patch =>
    rw [getVersion_version h]
    unfold Lawful newVersion
    dsimp only
    by_cases hsame : base.text = cfg.base.text
    · obtain rfl := base.text_inj hsame
      rw [if_pos le_rfl, if_pos rfl, if_pos rfl]
      exact versionLaw_same
    rw [if_neg hsame, if_neg hsame]
    by_cases hle : toDouble base.decimal ≤ toDouble cfg.base.decimal
    · -- accepted, and the patch number is zero
      rw [if_pos hle]
      refine versionLaw_other.trans ?_
      split_ifs with hlt heq
      · exact iff_of_true (.inl hlt) (.inr hle)
      · simp [heq, hle]
      · exact iff_of_false (by simp [hlt, heq]) (not_lt.mpr hle)
    · rw [if_neg hle]
      refine versionLaw_error.trans ?_
      split_ifs with hlt heq
      · have hmajor : ¬base.major.value < cfg.base.major.value := fun hmajor =>
          hle (toDouble_mono base.decimal_nonneg (base.decimal_le hmajor))
        exact iff_of_false (not_lt.mpr hlt.le) (by simp [hmajor, hle])
      · rw [heq]
        simp [hle]
      · have hgt : cfg.base.value < base.value := lt_of_le_of_ne (not_lt.mp hlt) (Ne.symm heq)
        exact iff_of_true hgt (not_le.mp hle)

theorem version_law_next :
    VersionLaw (.version ⟨.ofNat 1, .ofNat 7⟩ (some (.ofNat 4))) (.string ⟨.ofNat 1, .ofNat 7⟩)
      (getVersion (.string (js "1.7")) (.ok (some (js "1.7.4"))) true false) :=
  (version_law (.string ⟨.ofNat 1, .ofNat 7⟩) (.version ⟨.ofNat 1, .ofNat 7⟩ (some (.ofNat 4)))
    true false rfl).mpr ⟨.ofNat 4, rfl, patchable_of_lt (by decide +kernel)⟩

/-- After 1.9.0 the version 1.10 is rejected. -/
theorem ten_after_nine :
    ¬ ∀ (cfg : Cfg) (last : Last) (isPointTarget isAlias : Bool),
      (isPointTarget || isAlias) = true →
        VersionLaw last cfg (getVersion cfg.version (.ok last.text) isPointTarget isAlias) := by
  intro h
  have hlaw := h (.string ⟨.ofNat 1, .ofNat 10⟩)
    (.version ⟨.ofNat 1, .ofNat 9⟩ (some (.ofNat 0))) true false rfl
  have hrejected : getVersion (.string (js "1.10")) (.ok (some (js "1.9.0"))) true false =
      .error (.tooOld (js "1.10") (js "1.9.0")) := by decide +kernel
  obtain ⟨r, hr⟩ := hlaw.1.mpr (by decide +kernel)
  cases hrejected.symm.trans hr

end PointNetwork.Deployer
