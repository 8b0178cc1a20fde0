import PointNetwork.Rpc.Decode

/-!
# Whose method a preview shows

The table of methods is shared by the contracts of all sites, and a method of one takes the place
of another's with the same selector. A preview shows what the ABI of its own contract says exactly
when this ABI has just been added or the table still has the same method: `preview_own_iff`.

* `get_addABI`: the methods of the ABI that was added last;
* `decodeMethod_eq_iff`: two tables that make the same of data.
-/

namespace PointNetwork.Rpc

open Js

variable {κ V : Type} {sites : Sites κ V} {decoder : AbiDecoder κ V}

/-! ## The table -/

/-- The methods of an ABI, and under the other selectors those of before. -/
theorem get_addABI (table : MethodTable κ) (abi : Abi κ) (selector : JsString) :
    (addABI decoder table abi).get selector =
      ((addABI decoder .empty abi).get selector).or (table.get selector) := by
  induction abi using List.reverseRecOn with
  | nil => rfl
  | append_singleton abi method ih =>
    unfold addABI at ih ⊢
    rw [List.foldl_concat, List.foldl_concat]
    by_cases hselector : selector = decoder.selector method
    · subst hselector
      rw [Map.get_set_self, Map.get_set_self]
      rfl
    · rw [Map.get_set_of_ne hselector, Map.get_set_of_ne hselector, ih]

/-! ## Two methods for the same data -/

/-- What two tables have under the selector of the data decodes these alike: both have no method,
or methods for which the data are wrong, or methods that differ in what a preview does not show. -/
def SameFor (decoder : AbiDecoder κ V) (data : JsString) :
    Option (AbiMethod κ) → Option (AbiMethod κ) → Prop
  | none, none => True
  | some m, some m' =>
    decoder.decodeParameters m.inputs (dataArguments data) =
        decoder.decodeParameters m'.inputs (dataArguments data) ∧
      (decoder.decodeParameters m.inputs (dataArguments data) = none ∨
        m.name = m'.name ∧
          m.inputs.map (fun input => (input.name, input.type)) =
            m'.inputs.map (fun input => (input.name, input.type)))
  | _, _ => False

instance [DecidableEq V] (data : JsString) :
    ∀ m m' : Option (AbiMethod κ), Decidable (SameFor decoder data m m')
  | none, none => isTrue trivial
  | some _, some _ => inferInstanceAs (Decidable (_ ∧ (_ ∨ _ ∧ _)))
  | none, some _ => isFalse id
  | some _, none => isFalse id

/-- The parameters of one value for each input. -/
lemma map_zipWith_param {inputs : List (AbiInput κ)} {values : List V}
    (h : values.length = inputs.length) :
    let params := List.zipWith (fun input value => Param.mk input.name value input.type) inputs values
    params.map (fun param => (param.name, param.type)) =
        inputs.map (fun input => (input.name, input.type)) ∧
      params.map Param.value = values := by
  intro params
  induction inputs generalizing values with
  | nil =>
    rw [List.length_eq_zero_iff.mp h]
    exact ⟨rfl, rfl⟩
  | cons input inputs ih =>
    cases values with
    | nil => simp at h
    | cons value values =>
      rcases ih (by simpa using h) with ⟨hinputs, hvalues⟩
      refine ⟨?_, ?_⟩
      · exact congrArg (_ :: ·) hinputs
      · exact congrArg (_ :: ·) hvalues

/-- Inputs with the same names and types give parameters the same names and types. -/
lemma zipWith_param_congr {inputs inputs' : List (AbiInput κ)} (values : List V)
    (h : inputs.map (fun input => (input.name, input.type)) =
      inputs'.map (fun input => (input.name, input.type))) :
    List.zipWith (fun input value => Param.mk input.name value input.type) inputs values =
      List.zipWith (fun input value => Param.mk input.name value input.type) inputs' values := by
  have hsplit : ∀ inputs : List (AbiInput κ),
      List.zipWith (fun input value => Param.mk input.name value input.type) inputs values =
        List.zipWith (fun nameType value => Param.mk nameType.1 value nameType.2)
          (inputs.map fun input => (input.name, input.type)) values := by
    intro inputs
    rw [List.zipWith_map_left]
  rw [hsplit inputs, h, ← hsplit inputs']

/-- Data that are not those of the method are refused. -/
lemma decodeAs_none {m : AbiMethod κ} {data : JsString}
    (h : decoder.decodeParameters m.inputs (dataArguments data) = none) :
    decodeAs decoder m data = .error .rejected := by
  unfold decodeAs
  rw [h]
  rfl

/-- Each input gets its value. -/
lemma decodeAs_some {m : AbiMethod κ} {data : JsString} {values : List V}
    (h : decoder.decodeParameters m.inputs (dataArguments data) = some values) :
    decodeAs decoder m data = .ok (some ⟨m.name,
      List.zipWith (fun input value => ⟨input.name, value, input.type⟩) m.inputs values⟩) := by
  unfold decodeAs
  rw [h]
  rfl

/-- Two methods make the same of data exactly when a preview shows the same of both. -/
lemma decodeAs_eq_iff (m m' : AbiMethod κ) (data : JsString) :
    decodeAs decoder m data = decodeAs decoder m' data ↔ SameFor decoder data (some m) (some m') := by
  simp only [SameFor]
  rcases hm : decoder.decodeParameters m.inputs (dataArguments data) with _ | values <;>
    rcases hm' : decoder.decodeParameters m'.inputs (dataArguments data) with _ | values'
  · simp [decodeAs_none hm, decodeAs_none hm']
  · simp [decodeAs_none hm, decodeAs_some hm']
  · simp [decodeAs_some hm, decodeAs_none hm']
  · rw [decodeAs_some hm, decodeAs_some hm']
    rcases map_zipWith_param (decoder.length_decodeParameters _ _ _ hm) with ⟨hinputs, hvalues⟩
    rcases map_zipWith_param (decoder.length_decodeParameters _ _ _ hm') with ⟨hinputs', hvalues'⟩
    constructor
    · intro h
      simp only [Except.ok.injEq, Option.some.injEq, DecodedTxInput.mk.injEq] at h
      rcases h with ⟨hname, hparams⟩
      -- the parameters tell the names and the types of the inputs, and the values
      refine ⟨?_, Or.inr ⟨hname, ?_⟩⟩
      · rw [← hvalues, ← hvalues', hparams]
      · rw [← hinputs, ← hinputs', hparams]
    · rintro ⟨hsame, h | ⟨hname, hshown⟩⟩
      · simp at h
      · rw [Option.some.inj hsame, hname, zipWith_param_congr values' hshown]

/-- Two tables make the same of data exactly when what they have under the selector does. -/
lemma decodeMethod_eq_iff (table table' : MethodTable κ) (data : JsString) :
    decodeMethod decoder table data = decodeMethod decoder table' data ↔
      SameFor decoder data (table.get (dataSelector data)) (table'.get (dataSelector data)) := by
  -- a method decodes data to something, or refuses them
  have hne : ∀ m : AbiMethod κ, decodeAs decoder m data ≠ .ok none := by
    intro m
    unfold decodeAs
    split <;> simp [throw, throwThe, MonadExceptOf.throw, pure, Except.pure]
  unfold decodeMethod
  rcases table.get (dataSelector data) with _ | m <;>
    rcases table'.get (dataSelector data) with _ | m'
  · simp [SameFor]
  · simpa [SameFor, pure, Except.pure] using (hne m').symm
  · simpa [SameFor, pure, Except.pure] using hne m
  · exact decodeAs_eq_iff m m' data

/-! ## The preview -/

/-- A call that has its arguments and finds or loads its contract decodes the data. -/
lemma decodeTxInputData_of_prepare {call : DecodeCall} {s : DecoderState κ}
    {target contract data : JsString}
    (hargs : call.arguments = .ok (some (target, contract, .str data)))
    (hprepare : (prepare sites call target contract s).1 = .ok true) :
    (decodeTxInputData sites call s).1 =
      decodeMethod sites.decoder (prepare sites call target contract s).2.table data := by
  unfold decodeTxInputData
  rw [hargs]
  dsimp only
  split
  · simp_all
  · simp_all
  · rename_i s' hs'
    rw [hs']
    rfl

lemma SameFor.refl (data : JsString) (m : Option (AbiMethod κ)) : SameFor decoder data m m := by
  cases m with
  | none => trivial
  | some m => exact ⟨rfl, Or.inr ⟨rfl, rfl⟩⟩

/-- The table after the contract was found or loaded has what it had, or first the methods of the
contract when these have just been added. -/
lemma prepare_table {call : DecodeCall} {s : DecoderState κ} {target contract : JsString}
    (hprepare : (prepare sites call target contract s).1 = .ok true) :
    (prepare sites call target contract s).2.table =
      if (s.tracker.has call.checked (cacheKey target contract)).1 then s.table
      else addABI sites.decoder s.table ((sites.ownAbi target contract).getD []) := by
  unfold prepare at hprepare ⊢
  dsimp only at hprepare ⊢
  generalize s.tracker.has call.checked (cacheKey target contract) = looked at hprepare ⊢
  rcases looked with ⟨tracked, tracker⟩
  cases tracked with
  | true =>
    simp only [if_true]
    split <;> rfl
  | false =>
    rcases hown : sites.ownAbi target contract with _ | abi
    · rw [hown] at hprepare
      cases hprepare
    · rcases hloads : call.loads
      · rw [hown, hloads] at hprepare
        cases hprepare
      · rfl

/-- After any calls, for any contracts and with any times in between: what is returned for data is
what the contract's own ABI makes of them exactly when this ABI is about to be added and has a
method for them, or the table, which all contracts share, has the same for them as this ABI. -/
theorem preview_own_iff {calls : List DecodeCall} {call : DecodeCall}
    {target contract data : JsString}
    (hargs : call.arguments = .ok (some (target, contract, .str data)))
    (hprepare : (prepare sites call target contract (.after sites calls)).1 = .ok true) :
    (decodeTxInputData sites call (.after sites calls)).1 = ownPreview sites call ↔
      let s := DecoderState.after sites calls
      let own := (sites.ownTable target contract).get (dataSelector data)
      (s.tracker.has call.checked (cacheKey target contract)).1 = false ∧ own.isSome ∨
        SameFor sites.decoder data (s.table.get (dataSelector data)) own := by
  have hown : ownPreview sites call =
      decodeMethod sites.decoder (sites.ownTable target contract) data := by
    unfold ownPreview
    rw [hargs]
    rfl
  rw [decodeTxInputData_of_prepare hargs hprepare, hown, decodeMethod_eq_iff,
    prepare_table hprepare]
  dsimp only
  by_cases htracked : ((DecoderState.after sites calls).tracker.has call.checked
      (cacheKey target contract)).1 = true
  · simp [htracked]
  · rw [if_neg htracked, get_addABI]
    have hload : (addABI sites.decoder .empty ((sites.ownAbi target contract).getD [])) =
        sites.ownTable target contract := by
      unfold Sites.ownTable
      cases sites.ownAbi target contract with
      | none => rfl
      | some abi => rfl
    rw [hload]
    rcases (sites.ownTable target contract).get (dataSelector data) with _ | m
    · simp
    · simp [htracked, SameFor.refl]

/-- Contracts whose only method is `setOwner(address)`, the input of which has the name that the
contract has. -/
def setOwnerSites : Sites Unit JsString where
  decoder :=
    { selector := fun _ => js "13af4035"
      decodeParameters := fun inputs data =>
        if data.length = 64 * inputs.length then
          some ((List.range inputs.length).map fun i =>
            js "0x" ++ ((data.drop (64 * i)).take 64).drop 24)
        else none
      length_decodeParameters := by
        intro inputs data values h
        split at h
        · cases h
          simp
        · cases h }
  -- after `https://`
  urlHost := fun target => some (target.drop 8)
  abiOf := fun _ contract => [⟨js "setOwner", [⟨contract, js "address", ()⟩]⟩]

/-- A transaction that sets the owner of a contract of a site. -/
def setOwner (site contract : String) (now : ℕ) : DecodeCall where
  target := some (js site)
  contract := some (js contract)
  params := some [.obj [(js "data",
    .str (js "0x13af4035" ++ List.replicate 24 0x30 ++ List.replicate 40 0x61))]]
  checked := now
  later := now
  loads := true

/-- After another call for its contract a transaction is shown as its own ABI says; after one for a
contract of another site, with a method of the same selector, it is not. -/
theorem preview_own_iff_after :
    let bank := setOwner "https://bank.point" "newOwner"
    let game := setOwner "https://game.point" "friend"
    (decodeTxInputData setOwnerSites (bank 2000) (.after setOwnerSites [bank 0, bank 1000])).1 =
        ownPreview setOwnerSites (bank 2000) ∧
      (decodeTxInputData setOwnerSites (bank 2000) (.after setOwnerSites [bank 0, game 1000])).1 ≠
        ownPreview setOwnerSites (bank 2000) := by
  intro bank game
  have hargs : (bank 2000).arguments =
      .ok (some (js "https://bank.point", js "newOwner", .str (js "0x13af4035" ++
        List.replicate 24 0x30 ++ List.replicate 40 0x61))) := by decide +kernel
  have hprepare : ∀ call ∈ [bank 1000, game 1000],
      (prepare setOwnerSites (bank 2000) (js "https://bank.point") (js "newOwner")
        (.after setOwnerSites [bank 0, call])).1 = .ok true := by decide +kernel
  refine ⟨(preview_own_iff hargs (hprepare _ (by simp))).mpr (Or.inr (by decide +kernel)), fun h => ?_⟩
  have hseen := (preview_own_iff hargs (hprepare _ (by simp))).mp h
  exact absurd hseen (by decide +kernel)

/-- Between two confirmations of transactions with one contract, the user is shown a transaction
with the contract of another site, whose method names its input otherwise; then the second preview
says `friend` of what the contract's own ABI calls `newOwner`. -/
theorem preview_not_own :
    let bank := setOwner "https://bank.point" "newOwner"
    let calls := [bank 0, setOwner "https://game.point" "friend" 1000]
    (decodeTxInputData setOwnerSites (bank 2000) (.after setOwnerSites calls)).1 =
        .ok (some ⟨js "setOwner",
          [⟨js "friend", js "0x" ++ List.replicate 40 0x61, js "address"⟩]⟩) ∧
      ownPreview setOwnerSites (bank 2000) =
        .ok (some ⟨js "setOwner",
          [⟨js "newOwner", js "0x" ++ List.replicate 40 0x61, js "address"⟩]⟩) := by
  decide +kernel

end PointNetwork.Rpc
