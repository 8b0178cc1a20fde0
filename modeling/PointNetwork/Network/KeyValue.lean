import PointNetwork.Deployer.KeyValue

/-!
# Looking up a key of an identity

`getKeyValue` of `network/providers/ethereum.js`. A lookup is what `keyValueCache.get` is called for;
its answer, from the cache or from the chain, comes from a world.

A value `@@copy_from_ikv=<identity>:<key>` is meant to be followed. But the branch for it declares a
constant `value` of its own after it has read `value`, which is an error: nothing is ever followed
(`getKeyValue_follow`), so each call ends after one lookup at most (`getKeyValue_terminates`).
-/

namespace PointNetwork.Network.Ikv

open Js Logged
open Deployer (stripPoint)

/-! ## Texts -/

/-- `text.replace(old, new)` for an `old` that is not empty: the first occurrence. -/
def replaceFirst (old new : JsString) : JsString → JsString
  | [] => []
  | u :: rest =>
    if old.isPrefixOf (u :: rest) then new ++ (u :: rest).drop old.length
    else u :: replaceFirst old new rest

/-- What is replaced is taken away and what replaces it is added. -/
theorem count_replaceFirst {old new text : JsString} (hold : old ≠ []) (h : old <:+: text)
    (u : UInt16) :
    (replaceFirst old new text).count u + old.count u = text.count u + new.count u := by
  induction text with
  | nil => exact absurd (List.infix_nil.mp h) hold
  | cons c rest ih =>
    rw [replaceFirst]
    split
    · rename_i hpre
      obtain ⟨more, hmore⟩ := List.isPrefixOf_iff_prefix.mp hpre
      rw [← hmore, List.drop_left, List.count_append, List.count_append]
      omega
    · rename_i hpre
      rw [List.isPrefixOf_iff_prefix] at hpre
      have hrest : old <:+: rest := (List.infix_cons_iff.mp h).resolve_left hpre
      rw [List.count_cons, List.count_cons]
      have hih := ih hrest
      omega

/-! ## The function -/

/-- What `getKeyValue` throws. -/
inductive Failure
  | typeError
  /-- A constant is read before its declaration. -/
  | referenceError
  /-- `Failed to obtain ikv value following @@copy_from_ikv= instruction` -/
  | nothingCopied
  /-- The lookup failed. -/
  | rejected
  /-- The evaluation of the model was cut short by its fuel; no source error. -/
  | outOfFuel
  deriving DecidableEq

/-- What `keyValueCache.get` is called for; the strategy plays no role for the version `latest`. -/
structure Lookup where
  identity : JsString
  key : JsString
  version : JsString
  versionSearchStrategy : JsString
  deriving DecidableEq

/-- The version that is not looked up among the events. -/
def latest : JsString := js "latest"

/-- The key of the cache: `baseKey` or `cacheKey`. -/
def Lookup.cacheKey (lookup : Lookup) : JsString :=
  let baseKey := lookup.identity ++ js "-" ++ lookup.key
  if lookup.version = latest then baseKey else baseKey ++ js "-" ++ lookup.version

/-- What lookups find, `none` for `null`, or that they fail. -/
abbrev World (σ : Type) := Lookup → σ → Option (Option JsString) × σ

variable {σ : Type}

/-- The lookups that a call makes, and its outcome. -/
abbrev M (σ : Type) := Logged σ Lookup Failure

/-- Looks a value up on the chain. -/
def find (world : World σ) (lookup : Lookup) : M σ (Option JsString) := do
  tell lookup
  match ← draw (world lookup) with
  | some value => pure value
  | none => fail .rejected

/-- The part of `getKeyValue` below `// Get the value`. -/
def getValue (world : World σ) (identity key version versionSearchStrategy : JsString) :
    M σ (Option JsString) :=
  if version = latest ∨ versionSearchStrategy = js "exact" ∨
      versionSearchStrategy = js "equalOrBefore" then
    find world ⟨stripPoint identity, key, version, versionSearchStrategy⟩
  else pure none

/-- The suffix that stands for .point. -/
def localSuffix : JsString := js ".local"

/-- The start of a value that names another key. -/
def copyFromIkv_prolog : JsString := js "@@copy_from_ikv="

/-- A value on which a method of strings is called. -/
def nonNull : Option JsString → Except Failure JsString
  | some value => .ok value
  | none => .error .typeError

/-- `getKeyValue`, with fuel for the redirections. -/
def getKeyValue (world : World σ) : ℕ → (identity key version versionSearchStrategy : JsString) →
    (followCopyFromIkv : Bool) → M σ (Option JsString)
  | 0, _, _, _, _, _ => fail .outOfFuel
  | fuel + 1, identity, key, version, versionSearchStrategy, followCopyFromIkv =>
    if localSuffix.isSuffixOf identity then
      getKeyValue world fuel (replaceFirst localSuffix (js ".point") identity) key version
        versionSearchStrategy false
    else if followCopyFromIkv then do
      let found ← getKeyValue world fuel identity key version versionSearchStrategy false
      let value ← ofExcept (nonNull found)
      if !copyFromIkv_prolog.isPrefixOf value then pure (some value)
      else do
        -- `value.substring(..)` reads the `const value` that this branch declares below it
        let value : JsString ← fail .referenceError
        let withoutPrefix := value.drop copyFromIkv_prolog.length
        let parts := withoutPrefix.splitOn 0x3A
        let copied ← getKeyValue world fuel (parts.headD []) ([0x3A].intercalate parts.tail) latest
          (js "exact") true
        match copied with
        | some (u :: text) => pure (some (u :: text))
        | _ => fail .nothingCopied
    else getValue world identity key version versionSearchStrategy

/-! ## What it computes -/

/-- The identity whose key is looked up for one that ends with `.local`. -/
def withoutLocal : ℕ → JsString → JsString
  | 0, identity => identity
  | n + 1, identity =>
    if localSuffix.isSuffixOf identity then
      withoutLocal n (replaceFirst localSuffix (js ".point") identity)
    else identity

/-- What becomes of a value that was looked up with `followCopyFromIkv`. -/
def followed : Option JsString → Except Failure (Option JsString)
  | none => .error .typeError
  | some value =>
    if copyFromIkv_prolog.isPrefixOf value then .error .referenceError else .ok (some value)

variable {world : World σ} {identity key version versionSearchStrategy : JsString}
  {followCopyFromIkv : Bool} {fuel n : ℕ}

/-- Each replacement of `.local` takes two letters `l` away. -/
lemma count_replaceLocal (h : localSuffix.isSuffixOf identity = true) :
    (replaceFirst localSuffix (js ".point") identity).count 0x6C + 2 = identity.count 0x6C := by
  have hpart := (List.isSuffixOf_iff_suffix.mp h).isInfix
  have hcount := @count_replaceFirst _ (js ".point") _ (by decide) hpart 0x6C
  have hold : localSuffix.count 0x6C = 2 := by decide
  have hnew : (js ".point").count 0x6C = 0 := by decide
  omega

/-- The identity that is looked up: each round takes away two of its units. -/
def resolved (identity : JsString) : JsString := withoutLocal identity.length identity

lemma withoutLocal_of_not_local (h : ¬ localSuffix.isSuffixOf identity = true) :
    withoutLocal n identity = identity := by
  cases n with
  | zero => rfl
  | succ n => exact if_neg h

/-- Without redirections the fuel is enough for the .local parts of the identity. -/
lemma getKeyValue_of_not_follow (hfuel : identity.count 0x6C < fuel)
    (hn : identity.count 0x6C ≤ n) :
    getKeyValue world fuel identity key version versionSearchStrategy false =
      getValue world (withoutLocal n identity) key version versionSearchStrategy := by
  induction fuel generalizing identity n with
  | zero => omega
  | succ fuel ih =>
    rw [getKeyValue]
    by_cases hlocal : localSuffix.isSuffixOf identity = true
    · have hcount := count_replaceLocal hlocal
      obtain ⟨m, rfl⟩ : ∃ m, n = m + 1 := ⟨n - 1, by omega⟩
      rw [if_pos hlocal, withoutLocal, if_pos hlocal]
      exact ih (by omega) (by omega)
    · rw [if_neg hlocal, withoutLocal_of_not_local hlocal]
      rfl

/-- Without a redirection: the lookup for the identity without its `.local`. -/
theorem getKeyValue_eq (hfuel : identity.count 0x6C < fuel)
    (hplain : followCopyFromIkv = true → localSuffix.isSuffixOf identity = true) :
    getKeyValue world fuel identity key version versionSearchStrategy followCopyFromIkv =
      getValue world (resolved identity) key version versionSearchStrategy := by
  have hlength : identity.count 0x6C ≤ identity.length := List.count_le_length
  cases followCopyFromIkv with
  | false => exact getKeyValue_of_not_follow hfuel hlength
  | true =>
    have hlocal := hplain rfl
    have hcount := count_replaceLocal hlocal
    obtain ⟨m, rfl⟩ : ∃ m, fuel = m + 1 := ⟨fuel - 1, by omega⟩
    obtain ⟨n, hn⟩ : ∃ n, identity.length = n + 1 := ⟨identity.length - 1, by omega⟩
    rw [getKeyValue, if_pos hlocal, resolved, hn, withoutLocal, if_pos hlocal]
    exact getKeyValue_of_not_follow (by omega) (by omega)

/-- With `followCopyFromIkv`: one lookup, whose value is not followed. -/
theorem getKeyValue_follow (hfuel : identity.count 0x6C + 1 < fuel)
    (hlocal : ¬ localSuffix.isSuffixOf identity = true) :
    getKeyValue world fuel identity key version versionSearchStrategy true =
      getValue world identity key version versionSearchStrategy >>= fun found =>
        ofExcept (followed found) := by
  obtain ⟨m, rfl⟩ : ∃ m, fuel = m + 1 := ⟨fuel - 1, by omega⟩
  rw [getKeyValue, if_neg hlocal, if_pos rfl, getKeyValue_of_not_follow (by omega) (le_refl _),
    withoutLocal_of_not_local hlocal]
  congr 1
  funext found
  cases found with
  | none => rfl
  | some value =>
    show (if !copyFromIkv_prolog.isPrefixOf value then _ else _) = ofExcept (followed (some value))
    rw [followed]
    cases copyFromIkv_prolog.isPrefixOf value with
    | false => rfl
    | true => rfl

/-- The end of a call: no lack of fuel, and one lookup at most. -/
def Ends {α : Type} (m : M σ α) (s : σ) : Prop :=
  (m s).1 ≠ .error .outOfFuel ∧ (m.log s).length ≤ 1

lemma find_eq (lookup : Lookup) (s : σ) : find world lookup s =
    (match (world lookup s).1 with
      | some value => .ok value
      | none => .error .rejected, [lookup], (world lookup s).2) := by
  show (tell lookup >>= fun _ => _) s = _
  rw [bind_of_ok (show (tell lookup : M σ Unit) s = (.ok (), [lookup], s) from rfl)]
  unfold draw log
  simp only [Bind.bind]
  cases (world lookup s).1 with
  | none => rfl
  | some value => rfl

/-- A lookup ends. -/
lemma ends_getValue (s : σ) :
    Ends (getValue world identity key version versionSearchStrategy) s := by
  unfold getValue
  split
  · unfold Ends log
    rw [find_eq]
    refine ⟨?_, le_refl _⟩
    split
    · exact fun h => (by cases h)
    · exact fun h => (by cases h)
  · exact ⟨fun h => (by cases h), Nat.zero_le _⟩

lemma ofExcept_eq {α : Type} (x : Except Failure α) (s : σ) :
    (Logged.ofExcept x : M σ α) s = (x, [], s) := by
  cases x with
  | error e => rfl
  | ok a => rfl

/-- A redirection is no lack of fuel. -/
lemma followed_ne_outOfFuel (found : Option JsString) : followed found ≠ .error .outOfFuel := by
  cases found with
  | none => exact fun h => (by cases h)
  | some value =>
    rw [followed]
    split
    · exact fun h => (by cases h)
    · exact fun h => (by cases h)

/-- A redirection ends when the lookup before it does. -/
lemma ends_followed {m : M σ (Option JsString)} {s : σ} (h : Ends m s) :
    Ends (m >>= fun found => ofExcept (followed found)) s := by
  unfold Ends log at h ⊢
  rcases hrun : m s with ⟨e | found, w, s'⟩
  · rw [hrun] at h
    rw [bind_of_error hrun]
    exact ⟨fun heq => h.1 (by cases heq; rfl), h.2⟩
  · rw [hrun] at h
    rw [bind_of_ok hrun, log, ofExcept_eq]
    refine ⟨followed_ne_outOfFuel found, ?_⟩
    rw [List.append_nil]
    exact h.2

/-- Whatever the lookups find, a call ends with a value or an error after one of them at most. -/
theorem getKeyValue_terminates (world : World σ)
    (identity key version versionSearchStrategy : JsString) (followCopyFromIkv : Bool) (s : σ) :
    ∃ n, ∀ fuel, n ≤ fuel →
      getKeyValue world fuel identity key version versionSearchStrategy followCopyFromIkv s =
        getKeyValue world n identity key version versionSearchStrategy followCopyFromIkv s ∧
      (getKeyValue world n identity key version versionSearchStrategy followCopyFromIkv s).1 ≠
        .error .outOfFuel ∧
      ((getKeyValue world n identity key version versionSearchStrategy followCopyFromIkv).log
        s).length ≤ 1 := by
  refine ⟨identity.count 0x6C + 2, ?_⟩
  intro fuel hfuel
  by_cases hplain : followCopyFromIkv = true → localSuffix.isSuffixOf identity = true
  · rw [getKeyValue_eq (by omega) hplain, getKeyValue_eq (by omega) hplain]
    exact ⟨rfl, ends_getValue s⟩
  · obtain ⟨rfl, hlocal⟩ := Classical.not_imp.mp hplain
    rw [getKeyValue_follow (by omega) hlocal, getKeyValue_follow (by omega) hlocal]
    exact ⟨rfl, ends_followed (ends_getValue s)⟩

end PointNetwork.Network.Ikv
