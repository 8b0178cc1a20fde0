import PointNetwork.Js.JsonTheorems

/-!
# JSON texts with white space between the tokens

`Layout v t` says that the text `t` writes the value `v`, with any white space between its
tokens; `parse_layout` reads every such text back. `JSON.stringify(v, null, 2)` is one
(`layout_stringifyIndent`), so a file that is written with it and read with `JSON.parse` holds
the value (`decode_stringifyIndent`).
-/

namespace Js

/-! ## White space -/

/-- White space only. -/
def Blank (w : JsString) : Prop := ∀ u ∈ w, isWs u = true

lemma blank_nil : Blank [] := by simp [Blank]

/-- White space before a text is skipped. -/
lemma skipWs_append {w : JsString} (hw : Blank w) (s : JsString) :
    skipWs (w ++ s) = skipWs s := List.dropWhile_append_of_pos hw

lemma skipWs_blank {w : JsString} (hw : Blank w) : skipWs w = [] := by
  have h := skipWs_append hw []
  rwa [List.append_nil] at h

lemma skipWs_skipWs (s : JsString) : skipWs (skipWs s) = skipWs s := by
  induction s with
  | nil => rfl
  | cons u s ih =>
    cases hu : isWs u with
    | true =>
      have hskip : skipWs (u :: s) = skipWs s := by simp [skipWs, hu]
      rw [hskip, ih]
    | false =>
      rw [skipWs_cons hu, skipWs_cons hu]

/-- What a reader does depends on the text behind the white space only. -/
lemma parseValue_skipWs (n : ℕ) (s : JsString) : parseValue n (skipWs s) = parseValue n s := by
  cases n with
  | zero => rfl
  | succ n => rw [parseValue, parseValue, skipWs_skipWs]

/-- White space before an element is skipped. -/
lemma parseElements_skipWs (n : ℕ) (s : JsString) :
    parseElements n (skipWs s) = parseElements n s := by
  cases n with
  | zero => rfl
  | succ n => rw [parseElements, parseElements, parseValue_skipWs]

/-- White space before a member is skipped. -/
lemma parseMembers_skipWs (n : ℕ) (s : JsString) :
    parseMembers n (skipWs s) = parseMembers n s := by
  cases n with
  | zero => rfl
  | succ n => rw [parseMembers, parseMembers, skipWs_skipWs]

/-- White space before a value is skipped. -/
lemma parseValue_blank {w : JsString} (hw : Blank w) (n : ℕ) (s : JsString) :
    parseValue n (w ++ s) = parseValue n s := by
  rw [← parseValue_skipWs, skipWs_append hw, parseValue_skipWs]

/-- White space or punctuation ends a number. -/
lemma numberEnds_blank {w t : JsString} (hw : Blank w) (ht : NumberEnds t) :
    NumberEnds (w ++ t) := by
  cases w with
  | nil => exact ht
  | cons u w =>
    have hu := hw u (by simp)
    simp only [isWs, Bool.or_eq_true, decide_eq_true_eq] at hu
    rcases hu with ((rfl | rfl) | rfl) | rfl
    · exact numberEnds_cons (by decide) (by decide) (by decide) (by decide) _
    · exact numberEnds_cons (by decide) (by decide) (by decide) (by decide) _
    · exact numberEnds_cons (by decide) (by decide) (by decide) (by decide) _
    · exact numberEnds_cons (by decide) (by decide) (by decide) (by decide) _

lemma numberEnds_close {w : JsString} (hw : Blank w) {u : UInt16}
    (hu : u = 0x2C ∨ u = 0x5D ∨ u = 0x7D) (t : JsString) : NumberEnds (w ++ u :: t) := by
  refine numberEnds_blank hw ?_
  rcases hu with rfl | rfl | rfl
  · exact numberEnds_cons (by decide) (by decide) (by decide) (by decide) t
  · exact numberEnds_cons (by decide) (by decide) (by decide) (by decide) t
  · exact numberEnds_cons (by decide) (by decide) (by decide) (by decide) t

/-! ## Layouts -/

/-- Values that are one token, or an empty pair of brackets. -/
def Json.isAtom : Json → Bool
  | .arr (_ :: _) | .obj (_ :: _) => false
  | _ => true

mutual
/-- The text writes the value, from its first token to its last. -/
inductive Layout : Json → JsString → Prop
  | atom {v : Json} (h : v.isAtom = true) : Layout v v.stringify
  | arr {xs : List Json} {t : JsString} (h : ElementsLayout xs t) :
      Layout (.arr xs) (0x5B :: (t ++ [0x5D]))
  | obj {kvs : List (JsString × Json)} {t : JsString} (h : MembersLayout kvs t) :
      Layout (.obj kvs) (0x7B :: (t ++ [0x7D]))

/-- What stands between the brackets of a nonempty array. -/
inductive ElementsLayout : List Json → JsString → Prop
  | last {w w' t : JsString} {x : Json} (hw : Blank w) (ht : Layout x t) (hw' : Blank w') :
      ElementsLayout [x] (w ++ (t ++ w'))
  | cons {w w' t ts : JsString} {x : Json} {xs : List Json} (hw : Blank w) (ht : Layout x t)
      (hw' : Blank w') (hts : ElementsLayout xs ts) :
      ElementsLayout (x :: xs) (w ++ (t ++ (w' ++ 0x2C :: ts)))

/-- What stands between the braces of a nonempty object. -/
inductive MembersLayout : List (JsString × Json) → JsString → Prop
  | last {w w₁ w₂ w' t : JsString} {k : JsString} {v : Json} (hw : Blank w) (hw₁ : Blank w₁)
      (hw₂ : Blank w₂) (ht : Layout v t) (hw' : Blank w') :
      MembersLayout [(k, v)] (w ++ (quote k ++ (w₁ ++ 0x3A :: (w₂ ++ (t ++ w')))))
  | cons {w w₁ w₂ w' t ts : JsString} {k : JsString} {v : Json}
      {kvs : List (JsString × Json)} (hw : Blank w) (hw₁ : Blank w₁) (hw₂ : Blank w₂)
      (ht : Layout v t) (hw' : Blank w') (hts : MembersLayout kvs ts) :
      MembersLayout ((k, v) :: kvs)
        (w ++ (quote k ++ (w₁ ++ 0x3A :: (w₂ ++ (t ++ (w' ++ 0x2C :: ts))))))
end

/-- A value begins with what is neither white space nor a closing bracket. -/
lemma Layout.head {v : Json} {t : JsString} (h : Layout v t) :
    ∃ u r, t = u :: r ∧ isWs u = false ∧ u ≠ 0x5D ∧ u ≠ 0x7D := by
  cases h with
  | atom _ => exact stringify_head v
  | arr _ => exact ⟨_, _, rfl, by decide, by decide, by decide⟩
  | obj _ => exact ⟨_, _, rfl, by decide, by decide, by decide⟩

/-- The first token of an array's inside is not its closing bracket. -/
lemma ElementsLayout.head {xs : List Json} {t : JsString} (h : ElementsLayout xs t)
    (s r : JsString) : skipWs (t ++ s) ≠ 0x5D :: r := by
  have key : ∀ {w t' s' : JsString} {x : Json}, Blank w → Layout x t' →
      skipWs (w ++ (t' ++ s')) ≠ 0x5D :: r := by
    intro w t' s' x hw ht
    obtain ⟨u, r', rfl, hu, hne, -⟩ := ht.head
    rw [skipWs_append hw, List.cons_append, skipWs_cons hu]
    intro heq
    exact hne (List.cons.inj heq).1
  cases h with
  | last hw ht _ =>
    rw [List.append_assoc, List.append_assoc]
    exact key hw ht
  | cons hw ht _ _ =>
    rw [List.append_assoc, List.append_assoc]
    exact key hw ht

lemma MembersLayout.head {kvs : List (JsString × Json)} {t : JsString} (h : MembersLayout kvs t)
    (s r : JsString) : skipWs (t ++ s) ≠ 0x7D :: r := by
  have key : ∀ {w s' : JsString} {k : JsString}, Blank w →
      skipWs (w ++ (quote k ++ s')) ≠ 0x7D :: r := by
    intro w s' k hw
    rw [skipWs_append hw, quote, List.cons_append, skipWs_cons (by decide)]
    intro heq
    exact absurd (List.cons.inj heq).1 (by decide)
  cases h with
  | last hw _ _ _ _ =>
    rw [List.append_assoc, List.append_assoc]
    exact key hw
  | cons hw _ _ _ _ _ =>
    rw [List.append_assoc, List.append_assoc]
    exact key hw

/-! ## Reading a layout -/

mutual
/-- A text that writes a value is read back as the value, whatever follows that cannot be part
of a number. -/
theorem parseValue_layout : ∀ {v : Json} {t : JsString}, Layout v t → ∀ (n : ℕ)
    (rest : JsString), v.canonical = true → NumberEnds rest → t.length < n →
    parseValue n (t ++ rest) = some (v, rest)
  | v, _, .atom _, n, rest, hc, hrest, hn => parseValue_stringify v n rest hc hrest hn
  | _, _, .arr _, 0, _, _, _, hn => by omega
  | .arr xs, _, @Layout.arr _ t h, n + 1, rest, hc, _, hn => by
    have hlen : t.length + 1 < n := by
      simp at hn
      omega
    rw [List.cons_append, List.append_assoc, List.singleton_append,
      parseValue_bracket n (h.head _), parseElements_skipWs,
      parseElements_layout h n rest hc hlen]
    rfl
  | _, _, .obj _, 0, _, _, _, hn => by omega
  | .obj kvs, _, @Layout.obj _ t h, n + 1, rest, hc, _, hn => by
    have hlen : t.length + 1 < n := by
      simp at hn
      omega
    rw [Json.canonical, Bool.and_eq_true] at hc
    rw [List.cons_append, List.append_assoc, List.singleton_append,
      parseValue_brace n (h.head _), parseMembers_skipWs,
      parseMembers_layout h n rest hc.2 hlen, Option.map_some, ofEntries_of_ordered hc.1]

/-- The elements are read from any layout; the induction is on the layout. -/
theorem parseElements_layout : ∀ {xs : List Json} {t : JsString}, ElementsLayout xs t →
    ∀ (n : ℕ) (rest : JsString), canonicalList xs = true → t.length + 1 < n →
    parseElements n (t ++ 0x5D :: rest) = some (xs, rest)
  | _, _, _, 0, _, _, hn => by omega
  | _, _, .last hw ht hw', n + 1, rest, hc, hn => by
    simp only [canonicalList, Bool.and_true] at hc
    simp only [List.length_append] at hn
    have hends := numberEnds_close hw' (Or.inr (Or.inl rfl)) rest
    rw [List.append_assoc, List.append_assoc, parseElements, parseValue_blank hw,
      parseValue_layout ht n _ hc hends (by omega)]
    simp [skipWs_append hw', skipWs_cons (show isWs 0x5D = false by decide)]
  | _, _, @ElementsLayout.cons _ _ _ ts _ _ hw ht hw' hts, n + 1, rest, hc, hn => by
    rw [canonicalList, Bool.and_eq_true] at hc
    simp only [List.length_append, List.length_cons] at hn
    have hends := numberEnds_close hw' (Or.inl rfl) (ts ++ 0x5D :: rest)
    rw [List.append_assoc, List.append_assoc, List.append_assoc, List.cons_append, parseElements,
      parseValue_blank hw, parseValue_layout ht n _ hc.1 hends (by omega)]
    simp [skipWs_append hw', skipWs_cons (show isWs 0x2C = false by decide),
      parseElements_layout hts n rest hc.2 (by omega)]

/-- The members are read from any layout; the induction is on the layout. -/
theorem parseMembers_layout : ∀ {kvs : List (JsString × Json)} {t : JsString},
    MembersLayout kvs t → ∀ (n : ℕ) (rest : JsString), canonicalProps kvs = true →
    t.length + 1 < n → parseMembers n (t ++ 0x7D :: rest) = some (kvs, rest)
  | _, _, _, 0, _, _, hn => by omega
  | _, _, .last hw hw₁ hw₂ ht hw', n + 1, rest, hc, hn => by
    simp only [canonicalProps, Bool.and_true] at hc
    simp only [List.length_append, List.length_cons] at hn
    have hends := numberEnds_close hw' (Or.inr (Or.inr rfl)) rest
    rw [List.append_assoc, List.append_assoc, parseMembers, skipWs_append hw, quote,
      List.cons_append, skipWs_cons (by decide)]
    simp only [List.append_assoc, parseChars_escape, List.cons_append]
    simp [skipWs_append hw₁, skipWs_cons (show isWs 0x3A = false by decide),
      parseValue_blank hw₂, parseValue_layout ht n _ hc hends (by omega),
      skipWs_append hw', skipWs_cons (show isWs 0x7D = false by decide)]
  | _, _, @MembersLayout.cons _ _ _ _ _ ts _ _ _ hw hw₁ hw₂ ht hw' hts, n + 1, rest, hc, hn => by
    rw [canonicalProps, Bool.and_eq_true] at hc
    simp only [List.length_append, List.length_cons] at hn
    have hends := numberEnds_close hw' (Or.inl rfl) (ts ++ 0x7D :: rest)
    rw [List.append_assoc, List.append_assoc, parseMembers, skipWs_append hw, quote,
      List.cons_append, skipWs_cons (by decide)]
    simp only [List.append_assoc, parseChars_escape, List.cons_append]
    simp [skipWs_append hw₁, skipWs_cons (show isWs 0x3A = false by decide),
      parseValue_blank hw₂, parseValue_layout ht n _ hc.1 hends (by omega),
      skipWs_append hw', skipWs_cons (show isWs 0x2C = false by decide),
      parseMembers_layout hts n rest hc.2 (by omega)]
end

/-- `JSON.parse` reads every layout of a value back, also between white space. -/
theorem parse_layout {v : Json} {t w w' : JsString} (hv : v.canonical = true) (h : Layout v t)
    (hw : Blank w) (hw' : Blank w') : Json.parse (w ++ (t ++ w')) = some v := by
  have hends : NumberEnds w' := by
    have := numberEnds_blank hw' numberEnds_nil
    rwa [List.append_nil] at this
  have hlen : t.length < (w ++ (t ++ w')).length + 1 := by simp; omega
  rw [Json.parse, parseValue_blank hw, parseValue_layout h _ w' hv hends hlen]
  simp [skipWs_blank hw']

/-! ## `JSON.stringify(v, null, 2)` -/

/-- A line break and the indentation of the next line. -/
def newline (indent : ℕ) : JsString := 0x0A :: List.replicate indent 0x20

mutual
/-- The text of a value whose first line is indented by `indent`. -/
def Json.indented (indent : ℕ) : Json → JsString
  | .arr (x :: xs) =>
    0x5B :: (elementsIndented (indent + 2) (x :: xs) ++ newline indent ++ [0x5D])
  | .obj (kv :: kvs) =>
    0x7B :: (membersIndented (indent + 2) (kv :: kvs) ++ newline indent ++ [0x7D])
  | .arr [] => [0x5B, 0x5D]
  | .obj [] => [0x7B, 0x7D]
  | .null => Json.null.stringify
  | .bool b => (Json.bool b).stringify
  | .num n => n.print
  | .str s => quote s

/-- The elements of an array, each on its own lines. -/
def elementsIndented (indent : ℕ) : List Json → JsString
  | [] => []
  | [x] => newline indent ++ x.indented indent
  | x :: y :: xs =>
    newline indent ++ (x.indented indent ++ 0x2C :: elementsIndented indent (y :: xs))

/-- The members of an object, each on its own lines. -/
def membersIndented (indent : ℕ) : List (JsString × Json) → JsString
  | [] => []
  | [(k, v)] => newline indent ++ (quote k ++ 0x3A :: 0x20 :: v.indented indent)
  | (k, v) :: kv :: kvs =>
    newline indent ++ (quote k ++ 0x3A :: 0x20 :: (v.indented indent ++
      0x2C :: membersIndented indent (kv :: kvs)))
end

/-- `JSON.stringify(v, null, 2)`. -/
def Json.stringifyIndent (v : Json) : JsString := v.indented 0

lemma blank_newline (indent : ℕ) : Blank (newline indent) := by
  intro u hu
  rcases List.mem_cons.mp hu with rfl | hu
  · decide
  · rw [List.eq_of_mem_replicate hu]
    decide

lemma blank_space : Blank [0x20] := by
  intro u hu
  rw [List.mem_singleton.mp hu]
  decide

mutual
/-- The indented text is a layout; the induction is on the value. -/
theorem layout_indented : ∀ (v : Json) (indent : ℕ), Layout v (v.indented indent)
  | .arr (x :: xs), indent =>
    .arr (elementsLayout_indented (x :: xs) (by simp) (indent + 2) (blank_newline indent))
  | .obj (kv :: kvs), indent =>
    .obj (membersLayout_indented (kv :: kvs) (by simp) (indent + 2) (blank_newline indent))
  | .arr [], _ => .atom rfl
  | .obj [], _ => .atom rfl
  | .null, _ => .atom rfl
  | .bool _, _ => .atom rfl
  | .num _, _ => .atom rfl
  | .str _, _ => .atom rfl

theorem elementsLayout_indented : ∀ xs : List Json, xs ≠ [] → ∀ (indent : ℕ) {w : JsString},
    Blank w → ElementsLayout xs (elementsIndented indent xs ++ w)
  | [], hne, _, _, _ => absurd rfl hne
  | [x], _, indent, w, hw => by
    rw [elementsIndented, List.append_assoc]
    exact .last (blank_newline indent) (layout_indented x indent) hw
  | x :: y :: ys, _, indent, w, hw => by
    rw [elementsIndented, List.append_assoc, List.append_assoc, List.cons_append]
    exact .cons (blank_newline indent) (layout_indented x indent) blank_nil
      (elementsLayout_indented (y :: ys) (by simp) indent hw)

theorem membersLayout_indented : ∀ kvs : List (JsString × Json), kvs ≠ [] →
    ∀ (indent : ℕ) {w : JsString}, Blank w → MembersLayout kvs (membersIndented indent kvs ++ w)
  | [], hne, _, _, _ => absurd rfl hne
  | [(k, v)], _, indent, w, hw => by
    rw [membersIndented, List.append_assoc, List.append_assoc, List.cons_append,
      List.cons_append]
    exact .last (blank_newline indent) blank_nil blank_space (layout_indented v indent) hw
  | (k, v) :: kv :: kvs, _, indent, w, hw => by
    rw [membersIndented, List.append_assoc, List.append_assoc, List.cons_append,
      List.cons_append, List.append_assoc, List.cons_append]
    exact .cons (blank_newline indent) blank_nil blank_space (layout_indented v indent)
      blank_nil (membersLayout_indented (kv :: kvs) (by simp) indent hw)
end

/-- `JSON.stringify` with an indentation lays the value out. -/
theorem layout_stringifyIndent (v : Json) : Layout v v.stringifyIndent := layout_indented v 0

/-! ## The text as bytes -/

lemma Blank.wellFormed {w : JsString} (hw : Blank w) : WellFormed w := by
  refine .of_ascii fun u hu => ?_
  have h := hw u hu
  simp only [isWs, Bool.or_eq_true, decide_eq_true_eq] at h
  rcases h with ((rfl | rfl) | rfl) | rfl
  · decide
  · decide
  · decide
  · decide

mutual
/-- A layout has no surrogate that stands alone. -/
theorem Layout.wellFormed : ∀ {v : Json} {t : JsString}, Layout v t → WellFormed t
  | v, _, .atom _ => wellFormed_stringify v
  | _, _, .arr h => .ascii_cons (by decide) (h.wellFormed.append (.ascii_cons (by decide) .nil))
  | _, _, .obj h => .ascii_cons (by decide) (h.wellFormed.append (.ascii_cons (by decide) .nil))

theorem ElementsLayout.wellFormed : ∀ {xs : List Json} {t : JsString}, ElementsLayout xs t →
    WellFormed t
  | _, _, .last hw ht hw' => hw.wellFormed.append (ht.wellFormed.append hw'.wellFormed)
  | _, _, .cons hw ht hw' hts => hw.wellFormed.append (ht.wellFormed.append
    (hw'.wellFormed.append (.ascii_cons (by decide) hts.wellFormed)))

theorem MembersLayout.wellFormed : ∀ {kvs : List (JsString × Json)} {t : JsString},
    MembersLayout kvs t → WellFormed t
  | _, _, .last hw hw₁ hw₂ ht hw' => hw.wellFormed.append ((wellFormed_quote _).append
    (hw₁.wellFormed.append (.ascii_cons (by decide) (hw₂.wellFormed.append
      (ht.wellFormed.append hw'.wellFormed)))))
  | _, _, .cons hw hw₁ hw₂ ht hw' hts => hw.wellFormed.append ((wellFormed_quote _).append
    (hw₁.wellFormed.append (.ascii_cons (by decide) (hw₂.wellFormed.append
      (ht.wellFormed.append (hw'.wellFormed.append (.ascii_cons (by decide)
        hts.wellFormed)))))))
end

/-- A file that holds `JSON.stringify(v, null, 2)` and white space is read back as `v`. -/
theorem decode_stringifyIndent {v : Json} (hv : v.canonical = true) {w : JsString}
    (hw : Blank w) : Json.decode (bufferFrom (v.stringifyIndent ++ w)) = some v := by
  have hwell : WellFormed (v.stringifyIndent ++ w) :=
    (layout_stringifyIndent v).wellFormed.append hw.wellFormed
  unfold Json.decode
  rw [hwell.bufferToString_eq]
  exact parse_layout hv (layout_stringifyIndent v) blank_nil hw

end Js
