import PointNetwork.Network.KeyValue

/-!
# Storage ids among the parameters of a contract call

`sendToContract` of `network/providers/ethereum.js`: ids of the storage are texts of 64 digits, and
those that the method takes as `bytes32` get a `0x`. The types are read from the texts of the
signatures, of all methods with the name, and only up to the first tuple
(`mem_argTypes_signature`). So an entry is altered, or left, as another method or an earlier tuple
has it (`sendToContract_iff`).

The methods of a contract of `web3` stand under their names, their signatures and their selectors.
-/

namespace PointNetwork.Network.SendToContract

open Js
open Ikv (replaceFirst latest)

/-! ## The interface of a contract -/

/-- Stands between the name and the types. -/
def openParen : UInt16 := 0x28

/-- Stands behind the types. -/
def closeParen : UInt16 := 0x29

/-- Stands between two types. -/
def comma : UInt16 := 0x2C

/-- The text of a type that is no tuple, such as `bytes32` or `uint256[3][]`. -/
structure TypeName where
  text : JsString
  plain : ∀ u ∈ text, u ≠ openParen ∧ u ≠ closeParen ∧ u ≠ comma

/-- The type of an input. -/
inductive AbiType
  | elementary (type : TypeName)
  /-- A tuple, or an array of tuples with the text of its dimensions. -/
  | tuple (components : List AbiType) (arrays : JsString)

mutual

/-- A type as it stands in a signature. -/
def AbiType.text : AbiType → JsString
  | .elementary type => type.text
  | .tuple components arrays => openParen :: (typesText components ++ closeParen :: arrays)

/-- The types, with commas between them. -/
def typesText : List AbiType → JsString
  | [] => []
  | [type] => type.text
  | type :: types => type.text ++ comma :: typesText types

end

/-- A method of an ABI. -/
structure Method where
  name : JsString
  inputs : List AbiType
  name_plain : openParen ∉ name

/-- The name with the types of the inputs. -/
def Method.signature (method : Method) : JsString :=
  method.name ++ openParen :: (typesText method.inputs ++ [closeParen])

/-- The selectors of a contract's methods: hexadecimal texts. -/
structure Selectors where
  of : JsString → JsString
  plain : ∀ signature, openParen ∉ of signature

variable {α : Type}

/-- A parameter: a string, or any other value. -/
inductive Param (α : Type)
  | string (text : JsString)
  | other (value : α)
  deriving DecidableEq

/-- What is passed as `params`. -/
inductive Params (α : Type)
  | array (entries : List (Param α))
  | other (value : α)

/-! ## The conversion -/

/-- The type whose params are converted. -/
def bytes32 : JsString := js "bytes32"

/-- The start of a hexadecimal text. -/
def hexMark : JsString := js "0x"

/-- What becomes of a parameter that is a candidate for conversion. -/
def convertParam : Param α → Param α
  | .string text =>
    if (replaceFirst hexMark [] text).length = 32 * 2 then
      -- turns out, you only need to add 0x
      if !hexMark.isPrefixOf text then .string (hexMark ++ text) else .string text
    else .string text
  | .other value => .other value

/-- `kArgTypes`. -/
def argTypes (k : JsString) : List JsString :=
  (replaceFirst [closeParen] [] ((k.splitOn openParen).getD 1 [])).splitOn comma

/-- The loop over `kArgTypes`; there is no parameter to convert behind the last one. -/
def convertArgs : List JsString → List (Param α) → List (Param α)
  | kArgType :: types, param :: params =>
    (if kArgType = bytes32 then convertParam param else param) :: convertArgs types params
  | _, params => params

/-- The keys of `contract.methods`. -/
def methodKeys (selectors : Selectors) (abi : List Method) : List JsString :=
  (abi.flatMap fun method =>
    [method.name, method.signature, selectors.of method.signature]).eraseDups

/-- The loop over the keys of `contract.methods`. -/
def convertParams (methodName : JsString) (keys : List JsString) (params : List (Param α)) :
    List (Param α) :=
  keys.foldl (fun params k =>
    if (k.splitOn openParen).headD [] = methodName ∧ openParen ∈ k then
      convertArgs (argTypes k) params
    else params) params

/-- What `sendToContract` throws. -/
inductive Failure
  /-- `Forbidden, contract send does not allowed for versions different than latest.` -/
  | forbidden
  /-- `Params sent to callContract is not an array` -/
  | notAnArray
  /-- There is no such method. -/
  | typeError
  deriving DecidableEq

/-- The call `contract.methods[methodName](...params)` that `sendToContract` makes. -/
structure Call (α : Type) where
  methodName : JsString
  params : List (Param α)
  deriving DecidableEq

/-- The call that is made of the contract. -/
def sendToContract (selectors : Selectors) (abi : List Method) (methodName : JsString)
    (params : Params α) (version : JsString) : Except Failure (Call α) :=
  -- block send call from versions that are not the latest one
  if version ≠ latest then .error .forbidden
  else
    match params with
    | .other _ => .error .notAnArray
    | .array entries =>
      if (methodKeys selectors abi).contains methodName then
        .ok ⟨methodName, convertParams methodName (methodKeys selectors abi) entries⟩
      else .error .typeError

/-! ## What is read from a signature -/

/-- The type is one of tuples. -/
def AbiType.isTuple : AbiType → Bool
  | .elementary _ => false
  | .tuple _ _ => true

/-- The type is `bytes32`. -/
def AbiType.isBytes32 : AbiType → Bool
  | .elementary type => type.text = bytes32
  | .tuple _ _ => false

/-- The parameter is of type `bytes32` and stands in front of all tuples. -/
def ReadAt (inputs : List AbiType) (i : ℕ) : Prop :=
  (∃ type, inputs[i]? = some type ∧ type.isBytes32 = true) ∧
    ∀ type ∈ inputs.take i, type.isTuple = false

/-- The first part of a text that begins without the separator. -/
lemma headD_splitOn_append {s : JsString} {u : UInt16} (hs : u ∉ s) (t : JsString) :
    ((s ++ t).splitOn u).headD [] = s ++ (t.splitOn u).headD [] := by
  induction s with
  | nil => rfl
  | cons v s ih =>
    have hv : v ≠ u := fun h => hs (by rw [h]; exact List.mem_cons_self)
    have ih' := ih fun h => hs (List.mem_cons_of_mem _ h)
    obtain ⟨first, others, hsplit⟩ :=
      List.exists_cons_of_ne_nil (List.splitOn_ne_nil u (s ++ t))
    rw [List.cons_append, List.splitOn_cons_eq_if_modifyHead, if_neg (by simpa using hv), hsplit,
      List.modifyHead_cons, List.headD_cons, List.cons_append, ← ih', hsplit, List.headD_cons]

/-- The first match comes behind what does not contain it. -/
lemma replaceFirst_append {s : JsString} {u : UInt16} (hs : u ∉ s) (t : JsString) :
    replaceFirst [u] [] (s ++ t) = s ++ replaceFirst [u] [] t := by
  induction s with
  | nil => rfl
  | cons v s ih =>
    have hv : u ≠ v := fun h => hs (by rw [h]; exact List.mem_cons_self)
    have hpre : ¬ ([u].isPrefixOf (v :: (s ++ t)) = true) := by simpa using hv
    rw [List.cons_append, replaceFirst, if_neg hpre, ih fun h => hs (List.mem_cons_of_mem _ h)]
    rfl

/-- The types read from what follows the first parenthesis. -/
def typesOf (rest : JsString) : List JsString :=
  (replaceFirst [closeParen] [] ((rest.splitOn openParen).headD [])).splitOn comma

/-- The types that the code takes out of a signature. -/
lemma argTypes_signature (method : Method) :
    argTypes method.signature = typesOf (typesText method.inputs ++ [closeParen]) := by
  have hne := List.splitOn_ne_nil openParen (typesText method.inputs ++ [closeParen])
  obtain ⟨first, others, hsplit⟩ := List.exists_cons_of_ne_nil hne
  unfold argTypes typesOf Method.signature
  rw [List.splitOn_append_cons_self_of_not_mem method.name_plain, hsplit]
  rfl

/-- The first type ends at the comma. -/
lemma typesOf_elementary (type : TypeName) (rest : JsString) :
    typesOf (type.text ++ comma :: rest) = type.text :: typesOf rest := by
  have hopen : openParen ∉ type.text ++ [comma] := by
    intro h
    rcases List.mem_append.mp h with h | h
    · exact (type.plain _ h).1 rfl
    · exact absurd h (by decide)
  have hclose : closeParen ∉ type.text ++ [comma] := by
    intro h
    rcases List.mem_append.mp h with h | h
    · exact (type.plain _ h).2.1 rfl
    · exact absurd h (by decide)
  have hcomma : comma ∉ type.text := fun h => (type.plain _ h).2.2 rfl
  unfold typesOf
  rw [List.append_cons, headD_splitOn_append hopen, replaceFirst_append hclose, List.append_assoc,
    List.singleton_append, List.splitOn_append_cons_self_of_not_mem hcomma]

lemma typesOf_last (type : TypeName) : typesOf (type.text ++ [closeParen]) = [type.text] := by
  have hopen : openParen ∉ type.text ++ [closeParen] := by
    intro h
    rcases List.mem_append.mp h with h | h
    · exact (type.plain _ h).1 rfl
    · exact absurd h (by decide)
  have hclose : closeParen ∉ type.text := fun h => (type.plain _ h).2.1 rfl
  have hcomma : comma ∉ type.text := fun h => (type.plain _ h).2.2 rfl
  unfold typesOf
  rw [List.splitOn_eq_singleton hopen, List.headD_cons, replaceFirst_append hclose]
  show (type.text ++ []).splitOn comma = _
  rw [List.append_nil, List.splitOn_eq_singleton hcomma]

/-- A tuple ends what is read. -/
lemma typesOf_tuple (rest : JsString) : typesOf (openParen :: rest) = [[]] := by
  have hsplit : ([] ++ openParen :: rest).splitOn openParen = [] :: rest.splitOn openParen :=
    List.splitOn_append_cons_self_of_not_mem List.not_mem_nil rest
  rw [List.nil_append] at hsplit
  unfold typesOf
  rw [hsplit]
  rfl

lemma bytes32_ne_nil : bytes32 ≠ [] := by decide +kernel

lemma not_read_nil (i : ℕ) : ([[]] : List JsString)[i]? ≠ some bytes32 := by
  cases i with
  | zero => exact fun h => bytes32_ne_nil (Option.some.inj h).symm
  | succ i => exact fun h => (by cases h)

lemma readAt_cons_zero {type : AbiType} {types : List AbiType} :
    ReadAt (type :: types) 0 ↔ type.isBytes32 = true := by
  simp [ReadAt]

/-- A later type is read unless a tuple stands before it. -/
lemma readAt_cons_succ {type : AbiType} {types : List AbiType} {i : ℕ} :
    ReadAt (type :: types) (i + 1) ↔ type.isTuple = false ∧ ReadAt types i := by
  simp only [ReadAt, List.getElem?_cons_succ, List.take_succ_cons, List.forall_mem_cons]
  exact and_left_comm

/-- The types read from a signature are those of its parameters, up to the first tuple. -/
lemma read_typesText (inputs : List AbiType) (i : ℕ) :
    (typesOf (typesText inputs ++ [closeParen]))[i]? = some bytes32 ↔ ReadAt inputs i := by
  induction inputs generalizing i with
  | nil =>
    have hnil : typesOf (typesText [] ++ [closeParen]) = [[]] := by decide
    rw [hnil]
    simp [not_read_nil, ReadAt]
  | cons type types ih =>
    cases type with
    | tuple components arrays =>
      -- a tuple begins with a parenthesis, and its text is no name of a type
      have htext : ∃ rest, typesText (.tuple components arrays :: types) ++ [closeParen] =
          openParen :: rest := by
        cases types with
        | nil => exact ⟨_, rfl⟩
        | cons type' types => exact ⟨_, rfl⟩
      rcases htext with ⟨rest, htext⟩
      rw [htext, typesOf_tuple]
      cases i with
      | zero => simp [bytes32_ne_nil, readAt_cons_zero, AbiType.isBytes32]
      | succ i => simp [readAt_cons_succ, AbiType.isTuple]
    | elementary type =>
      -- the name of an elementary type ends at the comma or at the parenthesis
      have htypes : ∃ rest, typesOf (typesText (.elementary type :: types) ++ [closeParen]) =
          type.text :: rest ∧ ∀ i, rest[i]? = some bytes32 ↔ ReadAt types i := by
        cases types with
        | nil =>
          refine ⟨[], typesOf_last type, ?_⟩
          intro i
          simp [ReadAt]
        | cons type' types =>
          refine ⟨_, ?_, ih⟩
          show typesOf ((type.text ++ comma :: typesText (type' :: types)) ++ _) = _
          rw [List.append_assoc, List.cons_append, typesOf_elementary]
      rcases htypes with ⟨rest, hrest, hread⟩
      rw [hrest]
      cases i with
      | zero =>
        rw [readAt_cons_zero]
        simp [AbiType.isBytes32]
      | succ i =>
        rw [readAt_cons_succ, List.getElem?_cons_succ, hread]
        simp [AbiType.isTuple]

/-! ## Which entries are converted -/

/-- The value is converted where a `bytes32` is read. -/
def Converts (text : JsString) : Prop :=
  (replaceFirst hexMark [] text).length = 32 * 2 ∧ ¬ hexMark <+: text

instance (text : JsString) : Decidable (Converts text) := inferInstanceAs (Decidable (_ ∧ _))

lemma convertParam_string (text : JsString) : (convertParam (.string text) : Param α) =
    .string (if Converts text then hexMark ++ text else text) := by
  unfold convertParam Converts
  by_cases hlength : (replaceFirst hexMark [] text).length = 32 * 2
  · by_cases hpre : hexMark <+: text
    · have hbool := List.isPrefixOf_iff_prefix.mpr hpre
      simp [hlength, hpre, hbool]
    · have hbool : hexMark.isPrefixOf text = false := by
        rw [← Bool.not_eq_true, List.isPrefixOf_iff_prefix]
        exact hpre
      simp [hlength, hpre, hbool]
  · simp [hlength]

/-- What begins with `0x` is not converted again. -/
lemma convertParam_idem (param : Param α) :
    convertParam (convertParam param) = convertParam param := by
  cases param with
  | other value => rfl
  | string text =>
    rw [convertParam_string, convertParam_string]
    by_cases hconverts : Converts text
    · rw [if_pos hconverts, if_neg fun h => h.2 (List.prefix_append _ _)]
    · rw [if_neg hconverts, if_neg hconverts]

/-- A param is converted where `bytes32` is read. -/
lemma getElem?_convertArgs (types : List JsString) (params : List (Param α)) (i : ℕ) :
    (convertArgs types params)[i]? = params[i]?.map fun param =>
      if types[i]? = some bytes32 then convertParam param else param := by
  induction types generalizing params i with
  | nil => simp [convertArgs]
  | cons kArgType types ih =>
    cases params with
    | nil => simp [convertArgs]
    | cons param params =>
      rw [convertArgs]
      cases i with
      | zero => simp
      | succ i =>
        rw [List.getElem?_cons_succ, ih, List.getElem?_cons_succ, List.getElem?_cons_succ]

/-- The signature is one of a method with the name, and `bytes32` is read from it at the place. -/
def Reads (methodName : JsString) (i : ℕ) (k : JsString) : Prop :=
  ((k.splitOn openParen).headD [] = methodName ∧ openParen ∈ k) ∧ (argTypes k)[i]? = some bytes32

instance (methodName : JsString) (i : ℕ) (k : JsString) : Decidable (Reads methodName i k) :=
  inferInstanceAs (Decidable (_ ∧ _))

/-- An entry is converted if one of the keys says so, however many do. -/
lemma getElem?_convertParams (methodName : JsString) (keys : List JsString)
    (params : List (Param α)) (i : ℕ) :
    (convertParams methodName keys params)[i]? = params[i]?.map fun param =>
      if ∃ k ∈ keys, Reads methodName i k then convertParam param else param := by
  induction keys generalizing params with
  | nil => simp [convertParams]
  | cons k keys ih =>
    have hstep : convertParams methodName (k :: keys) params = convertParams methodName keys
        (if (k.splitOn openParen).headD [] = methodName ∧ openParen ∈ k then
          convertArgs (argTypes k) params else params) := rfl
    have hfirst : (if (k.splitOn openParen).headD [] = methodName ∧ openParen ∈ k then
        convertArgs (argTypes k) params else params)[i]? = params[i]?.map fun param =>
          if Reads methodName i k then convertParam param else param := by
      unfold Reads
      split
      · rename_i hname
        rw [getElem?_convertArgs]
        simp only [hname, true_and, and_self]
      · rename_i hname
        simp only [hname, false_and, if_false]
        exact Option.map_id'.symm
    rw [hstep, ih, hfirst, Option.map_map]
    congr 1
    funext param
    simp only [Function.comp_apply, List.mem_cons, exists_eq_or_imp]
    by_cases hk : Reads methodName i k
    · by_cases hkeys : ∃ k ∈ keys, Reads methodName i k
      · simp [hk, hkeys, convertParam_idem]
      · simp [hk, hkeys]
    · simp [hk]

/-- Which keys say so. -/
lemma exists_reads_iff {selectors : Selectors} {abi : List Method} {methodName : JsString}
    {i : ℕ} : (∃ k ∈ methodKeys selectors abi, Reads methodName i k) ↔
      ∃ method ∈ abi, method.name = methodName ∧ ReadAt method.inputs i := by
  have hsignature : ∀ method : Method, Reads methodName i method.signature ↔
      method.name = methodName ∧ ReadAt method.inputs i := by
    intro method
    have hsplit : (method.signature.splitOn openParen).headD [] = method.name := by
      unfold Method.signature
      rw [List.splitOn_append_cons_self_of_not_mem method.name_plain]
      rfl
    have hmem : openParen ∈ method.signature :=
      List.mem_append_right _ List.mem_cons_self
    unfold Reads
    rw [hsplit, argTypes_signature, read_typesText]
    simp only [hmem, and_true]
  constructor
  · intro h
    rcases h with ⟨k, hk, hreads⟩
    rw [methodKeys, List.mem_eraseDups, List.mem_flatMap] at hk
    rcases hk with ⟨method, hmethod, hk⟩
    rcases List.mem_cons.mp hk with rfl | hk
    · exact absurd hreads.1.2 method.name_plain
    · rcases List.mem_cons.mp hk with rfl | hk
      · exact ⟨method, hmethod, (hsignature method).mp hreads⟩
      · rw [List.mem_singleton.mp hk] at hreads
        exact absurd hreads.1.2 (selectors.plain _)
  · intro h
    rcases h with ⟨method, hmethod, hreads⟩
    refine ⟨method.signature, ?_, (hsignature method).mpr hreads⟩
    rw [methodKeys, List.mem_eraseDups, List.mem_flatMap]
    exact ⟨method, hmethod, List.mem_cons_of_mem _ List.mem_cons_self⟩

/-! ## What is meant -/

/-- A text gets shorter by the match. -/
lemma length_replaceFirst (old text : JsString) : (replaceFirst old [] text).length =
    if old <:+: text then text.length - old.length else text.length := by
  induction text with
  | nil =>
    rw [replaceFirst]
    split
    · exact (Nat.zero_sub _).symm
    · rfl
  | cons u rest ih =>
    rw [replaceFirst]
    by_cases hpre : old <+: u :: rest
    · rw [if_pos (List.isPrefixOf_iff_prefix.mpr hpre), if_pos hpre.isInfix, List.nil_append,
        List.length_drop]
    · have hinside : old <:+: u :: rest ↔ old <:+: rest :=
        List.infix_cons_iff.trans ⟨fun h => h.resolve_left hpre, .inr⟩
      rw [if_neg (mt List.isPrefixOf_iff_prefix.mp hpre), List.length_cons, ih]
      simp only [hinside]
      split
      · rename_i hold
        have hne : old ≠ [] := fun h => hpre (h ▸ List.nil_prefix)
        have hpos := List.length_pos_iff.mpr hne
        have hle := hold.length_le
        rw [List.length_cons]
        omega
      · rfl

/-- 64 units without `0x`. -/
def IsStorageId (text : JsString) : Prop := text.length = 64 ∧ ¬ hexMark <:+: text

/-- 66 units with a `0x` that does not stand at the front. -/
def HasInnerMark (text : JsString) : Prop :=
  text.length = 66 ∧ hexMark <:+: text ∧ ¬ hexMark <+: text

instance (text : JsString) : Decidable (IsStorageId text) := inferInstanceAs (Decidable (_ ∧ _))

/-- A text gets a prefix when it has the length of an id, or a mark inside that is taken away. -/
lemma converts_iff (text : JsString) : Converts text ↔ IsStorageId text ∨ HasInnerMark text := by
  have hlength := length_replaceFirst hexMark text
  have htwo : hexMark.length = 2 := by decide +kernel
  unfold Converts IsStorageId HasInnerMark
  by_cases hinside : hexMark <:+: text
  · rw [if_pos hinside, htwo] at hlength
    simp only [hinside, not_true_eq_false, and_false, false_or, true_and]
    constructor
    · exact fun h => ⟨by omega, h.2⟩
    · exact fun h => ⟨by omega, h.2⟩
  · rw [if_neg hinside] at hlength
    have hpre : ¬ hexMark <+: text := fun h => hinside h.isInfix
    simp only [hinside, hpre, not_false_eq_true, and_true, and_false, or_false]
    omega

/-- The parameter is of type `bytes32`. -/
def TakesBytes32 (inputs : List AbiType) (i : ℕ) : Prop :=
  ∃ type, inputs[i]? = some type ∧ type.isBytes32 = true

/-- The entries that the method called takes as `bytes32` and that are storage ids get a `0x`, and
nothing else changes. -/
def Meant (inputs : List AbiType) (params sent : List (Param α)) : Prop :=
  sent.length = params.length ∧ ∀ i,
    (∀ value, params[i]? = some (.other value) → sent[i]? = some (.other value)) ∧
    ∀ text, params[i]? = some (.string text) →
      (TakesBytes32 inputs i ∧ IsStorageId text → sent[i]? = some (.string (hexMark ++ text))) ∧
      (¬ (TakesBytes32 inputs i ∧ IsStorageId text) → sent[i]? = some (.string text))

/-- The method that `contract.methods[methodName](...params)` calls: `web3` takes one of the name,
the signature or the selector given with as many parameters. -/
structure Calls (selectors : Selectors) (abi : List Method) (methodName : JsString)
    (params : List (Param α)) (method : Method) : Prop where
  mem : method ∈ abi
  key : methodName = method.name ∨ methodName = method.signature ∨
    methodName = selectors.of method.signature
  arity : method.inputs.length = params.length

/-- Some method with the name has `bytes32` at the place, with no tuple before it. -/
def SomeReads (abi : List Method) (methodName : JsString) (i : ℕ) : Prop :=
  ∃ method ∈ abi, method.name = methodName ∧ ReadAt method.inputs i

variable {selectors : Selectors} {abi : List Method} {methodName : JsString}
  {params : List (Param α)} {method : Method}

/-- No param is lost. -/
lemma length_convertParams (methodName : JsString) (keys : List JsString)
    (params : List (Param α)) :
    (convertParams methodName keys params).length = params.length := by
  apply le_antisymm
  · apply List.getElem?_eq_none_iff.mp
    rw [getElem?_convertParams, List.getElem?_eq_none (le_refl _), Option.map_none]
  · have hnone : (convertParams methodName keys params)[(convertParams methodName keys
        params).length]? = none := List.getElem?_eq_none (le_refl _)
    rw [getElem?_convertParams, Option.map_eq_none_iff] at hnone
    exact List.getElem?_eq_none_iff.mp hnone

/-- A text among the parameters, as it is sent. -/
lemma sent_string {i : ℕ} {text : JsString} (h : params[i]? = some (.string text)) :
    let sent := (convertParams methodName (methodKeys selectors abi) params)[i]?
    (SomeReads abi methodName i ∧ Converts text → sent = some (.string (hexMark ++ text))) ∧
      (¬ (SomeReads abi methodName i ∧ Converts text) → sent = some (.string text)) := by
  intro sent
  have hsent : sent = some (if ∃ k ∈ methodKeys selectors abi, Reads methodName i k then
      convertParam (.string text) else .string text) := by
    show (convertParams methodName (methodKeys selectors abi) params)[i]? = _
    rw [getElem?_convertParams, h, Option.map_some]
  rw [hsent]
  by_cases hreads : SomeReads abi methodName i
  · rw [if_pos (exists_reads_iff.mpr hreads), convertParam_string]
    by_cases hconverts : Converts text
    · rw [if_pos hconverts]
      exact ⟨fun _ => rfl, fun hnot => absurd ⟨hreads, hconverts⟩ hnot⟩
    · rw [if_neg hconverts]
      exact ⟨fun hyes => absurd hyes.2 hconverts, fun _ => rfl⟩
  · rw [if_neg (mt exists_reads_iff.mp hreads)]
    exact ⟨fun hyes => absurd hyes.1 hreads, fun _ => rfl⟩

lemma hexMark_append_ne (text : JsString) : hexMark ++ text ≠ text := by
  intro h
  have hlength := congrArg List.length h
  have htwo : hexMark.length = 2 := by decide +kernel
  rw [List.length_append, htwo] at hlength
  omega

/-- The parameters are sent as they are meant if and only if, for every storage id among them, the
signatures with the name agree with the method that is called, and no signature converts a longer
text with a `0x` inside. -/
theorem sendToContract_iff (hcalls : Calls selectors abi methodName params method) :
    (∃ sent, sendToContract selectors abi methodName (.array params) latest =
        .ok ⟨methodName, sent⟩ ∧ Meant method.inputs params sent) ↔
      ∀ i text, params[i]? = some (.string text) →
        (IsStorageId text →
          (SomeReads abi methodName i ↔ TakesBytes32 method.inputs i)) ∧
        (HasInnerMark text → ¬ SomeReads abi methodName i) := by
  have hkey : methodName ∈ methodKeys selectors abi := by
    rw [methodKeys, List.mem_eraseDups, List.mem_flatMap]
    refine ⟨method, hcalls.mem, ?_⟩
    simp only [List.mem_cons, List.not_mem_nil, or_false]
    exact hcalls.key
  have hsend : sendToContract selectors abi methodName (.array params) latest =
      .ok ⟨methodName, convertParams methodName (methodKeys selectors abi) params⟩ := by
    unfold sendToContract
    rw [if_neg (not_not.mpr rfl)]
    exact if_pos (List.contains_iff_mem.mpr hkey)
  have hmeant : (∃ sent, sendToContract selectors abi methodName (.array params) latest =
      .ok ⟨methodName, sent⟩ ∧ Meant method.inputs params sent) ↔
      Meant method.inputs params (convertParams methodName (methodKeys selectors abi) params) := by
    constructor
    · intro h
      rcases h with ⟨sent, hsent, hmeant⟩
      rw [hsend] at hsent
      cases hsent
      exact hmeant
    · exact fun h => ⟨_, hsend, h⟩
  rw [hmeant]
  constructor
  · intro h i text htext
    rcases (h.2 i).2 text htext with ⟨hyes, hno⟩
    rcases @sent_string _ selectors abi methodName params i text htext with ⟨hconverted, hkept⟩
    -- an entry cannot be sent both with the mark and without it
    have hne : (some (.string (hexMark ++ text)) : Option (Param α)) ≠ some (.string text) := by
      intro heq
      simp only [Option.some.injEq, Param.string.injEq] at heq
      exact hexMark_append_ne text heq
    refine ⟨?_, ?_⟩
    · intro hid
      have hconverts : Converts text := (converts_iff text).mpr (.inl hid)
      constructor
      · intro hreads
        by_contra hnot
        exact hne ((hconverted ⟨hreads, hconverts⟩).symm.trans (hno fun h => hnot h.1))
      · intro htakes
        by_contra hnot
        exact hne ((hyes ⟨htakes, hid⟩).symm.trans (hkept fun h => hnot h.1))
    · intro hinner hreads
      have hnot : ¬ IsStorageId text := fun hid => hid.2 hinner.2.1
      have hconverts : Converts text := (converts_iff text).mpr (.inr hinner)
      exact hne ((hconverted ⟨hreads, hconverts⟩).symm.trans (hno fun h => hnot h.2))
  · intro h
    refine ⟨length_convertParams _ _ _, ?_⟩
    intro i
    refine ⟨?_, ?_⟩
    · intro value hvalue
      rw [getElem?_convertParams, hvalue, Option.map_some]
      split
      · rfl
      · rfl
    · intro text htext
      rcases @sent_string _ selectors abi methodName params i text htext with ⟨hconverted, hkept⟩
      rcases h i text htext with ⟨hid, hinner⟩
      refine ⟨?_, ?_⟩
      · intro htakes
        exact hconverted ⟨(hid htakes.2).mpr htakes.1, (converts_iff text).mpr (.inl htakes.2)⟩
      · intro hnot
        apply hkept
        intro hboth
        rcases (converts_iff text).mp hboth.2 with hid' | hinner'
        · exact hnot ⟨(hid hid').mp hboth.1, hid'⟩
        · exact hinner hinner' hboth.1

/-! ## Contracts -/

lemma plain_of_all {text : JsString}
    (h : (text.all fun u => u != openParen && u != closeParen && u != comma) = true) :
    ∀ u ∈ text, u ≠ openParen ∧ u ≠ closeParen ∧ u ≠ comma := by
  intro u hu
  have hall := List.all_eq_true.mp h u hu
  simp only [Bool.and_eq_true, bne_iff_ne, ne_eq] at hall
  exact ⟨hall.1.1, hall.1.2, hall.2⟩

lemma notMem_of_all {text : JsString} (h : (text.all fun u => u != openParen) = true) :
    openParen ∉ text := by
  intro hmem
  exact absurd (List.all_eq_true.mp h openParen hmem) (by decide)

/-- `bytes32` as a type. -/
def bytes32Type : AbiType := .elementary ⟨bytes32, plain_of_all (by decide +kernel)⟩

/-- `string` as a type. -/
def stringType : AbiType := .elementary ⟨js "string", plain_of_all (by decide +kernel)⟩

/-- `note(string)`. -/
def note : Method := ⟨js "note", [stringType], notMem_of_all (by decide +kernel)⟩

/-- `note(string)` and `note(bytes32,string)`. -/
def notes : List Method :=
  [note, ⟨js "note", [bytes32Type, stringType], notMem_of_all (by decide +kernel)⟩]

/-- `put((string),bytes32)`. -/
def put : Method :=
  ⟨js "put", [.tuple [stringType] [], bytes32Type], notMem_of_all (by decide +kernel)⟩

/-- Selectors that are hexadecimal. -/
def someSelectors : Selectors where
  of _ := js "0x12345678"
  plain _ := notMem_of_all (by decide +kernel)

/-- A text of 64 digits. -/
def someId : JsString := List.replicate 64 0x61

/-- The text as the only parameter. -/
def oneId : List (Param ℕ) := [.string someId]

/-- The text after a tuple. -/
def tupleAndId : List (Param ℕ) := [.other 0, .string someId]

theorem sendToContract_iff_note :
    (∃ sent, sendToContract someSelectors notes (js "note") (.array oneId) latest =
        .ok ⟨js "note", sent⟩ ∧ Meant [stringType] oneId sent) ↔
      ∀ i text, oneId[i]? = some (.string text) →
        (IsStorageId text →
          (SomeReads notes (js "note") i ↔ TakesBytes32 [stringType] i)) ∧
        (HasInnerMark text → ¬ SomeReads notes (js "note") i) :=
  @sendToContract_iff _ someSelectors notes _ oneId note ⟨List.mem_cons_self, .inl rfl, rfl⟩

/-- A text for `note(string)` is altered, since the other `note` takes an id; and an id after a
tuple is sent as it is. -/
theorem other_types_read :
    (sendToContract someSelectors notes (js "note") (.array oneId) latest =
        .ok ⟨js "note", [.string (js "0x" ++ someId)]⟩ ∧
      ¬ Meant note.inputs oneId [.string (js "0x" ++ someId)]) ∧
    sendToContract someSelectors [put] (js "put") (.array tupleAndId) latest =
        .ok ⟨js "put", tupleAndId⟩ ∧
      ¬ Meant put.inputs tupleAndId tupleAndId := by
  have hsends : sendToContract someSelectors notes (js "note") (.array oneId) latest =
        .ok ⟨js "note", [.string (js "0x" ++ someId)]⟩ ∧
      sendToContract someSelectors [put] (js "put") (.array tupleAndId) latest =
        .ok ⟨js "put", tupleAndId⟩ := by
    decide +kernel
  have hid : IsStorageId someId := by decide +kernel
  refine ⟨⟨hsends.1, ?_⟩, hsends.2, ?_⟩
  · intro hmeant
    have hnot : ¬ (TakesBytes32 note.inputs 0 ∧ IsStorageId someId) := by
      intro h
      rcases h.1 with ⟨type, htype, hbytes32⟩
      rw [← Option.some.inj htype] at hbytes32
      exact absurd hbytes32 (by decide +kernel)
    have hsent := ((hmeant.2 0).2 someId rfl).2 hnot
    exact absurd hsent (by decide +kernel)
  · intro hmeant
    have htakes : TakesBytes32 put.inputs 1 := ⟨bytes32Type, rfl, by decide +kernel⟩
    have hsent := ((hmeant.2 1).2 someId rfl).1 ⟨htakes, hid⟩
    exact absurd hsent (by decide +kernel)

end PointNetwork.Network.SendToContract
