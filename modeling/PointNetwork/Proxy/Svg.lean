import Mathlib.Data.List.Chain
import PointNetwork.Core

/-!
# Sanitizing SVG

`sanitizeSVG` parses a file as the markup of a `div`, changes the first `svg` element it finds there
and returns the markup of the `div`. The parser and the test of the package `is-svg` are parameters;
the markup that is returned is given by the nodes it shows.

Of the `svg` element, the `script` children are removed while the live list of the children is
walked by index: behind a child that was removed, one child is not looked at.
-/

namespace PointNetwork.Proxy

open Js

/-! ## The walk along a live list -/

section Live

variable {α : Type} (p : α → Bool)

/-- `list.forEach` with `n` indices to go: the items that meet `p` remove themselves. -/
def forEachRemove : ℕ → ℕ → List α → List α
  | 0, _, list => list
  | n + 1, index, list =>
    match list[index]? with
    | none => forEachRemove n (index + 1) list
    | some item =>
      if p item then forEachRemove n (index + 1) (list.eraseIdx index)
      else forEachRemove n (index + 1) list

/-- What such a walk leaves: behind an item that is removed, the next one is skipped. -/
def skipping : Bool → List α → List α
  | _, [] => []
  | true, item :: rest => item :: skipping false rest
  | false, item :: rest =>
    if p item then skipping true rest else item :: skipping false rest

variable {p}

/-- Behind the last node nothing is removed. -/
lemma forEachRemove_of_le {n index : ℕ} {list : List α} (h : list.length ≤ index) :
    forEachRemove p n index list = list := by
  induction n generalizing index with
  | zero => rfl
  | succ n ih =>
    rw [forEachRemove, List.getElem?_eq_none h]
    exact ih (by omega)

/-- The live list from an index on: the node behind a removed one is skipped. -/
lemma forEachRemove_append {n : ℕ} {front list : List α} {skip : Bool} (h : list.length ≤ n) :
    forEachRemove p n (front.length + if skip then 1 else 0) (front ++ list) =
      front ++ skipping p skip list := by
  induction list generalizing n front skip with
  | nil => rw [List.append_nil, forEachRemove_of_le (by omega), skipping, List.append_nil]
  | cons item rest ih =>
    rw [List.length_cons] at h
    have hmove : front ++ item :: rest = (front ++ [item]) ++ rest := by simp
    cases skip with
    | true =>
      have hrest := @ih n (front ++ [item]) false (by omega)
      rw [hmove, skipping]
      simpa using hrest
    | false =>
      obtain ⟨m, rfl⟩ : ∃ m, n = m + 1 := ⟨n - 1, by omega⟩
      have hget : (front ++ item :: rest)[front.length + 0]? = some item := by simp
      show forEachRemove p (m + 1) (front.length + 0) (front ++ item :: rest) = _
      rw [forEachRemove, hget, skipping]
      by_cases hitem : p item = true
      · have hrest := @ih m front true (by omega)
        have herase : (front ++ item :: rest).eraseIdx (front.length + 0) = front ++ rest := by
          rw [Nat.add_zero, List.eraseIdx_append_of_length_le le_rfl]
          simp
        simp only [hitem, if_true, herase]
        simpa using hrest
      · have hrest := @ih m (front ++ [item]) false (by omega)
        simp only [hitem]
        simpa using hrest

/-- The walk over the whole list. -/
theorem forEachRemove_eq (list : List α) :
    forEachRemove p list.length 0 list = skipping p false list := by
  have h := @forEachRemove_append _ p _ [] list false (le_refl list.length)
  simpa using h

/-- What is left is harmless if and only if no two items in a row are to be removed and all others
are harmless. -/
lemma forall_mem_skipping_aux {Q : α → Prop} (hQ : ∀ item, Q item → p item = false) (skip : Bool)
    (list : List α) : (∀ item ∈ skipping p skip list, Q item) ↔
      (skip = true → ∀ item ∈ list.head?, p item = false) ∧
        list.IsChain (fun a b => p a = true → p b = false) ∧
        ∀ item ∈ list, p item = false → Q item := by
  induction list generalizing skip with
  | nil => simp [skipping]
  | cons item rest ih =>
    rw [List.isChain_cons, List.forall_mem_cons]
    cases skip with
    | true =>
      rw [skipping, List.forall_mem_cons, ih]
      constructor
      · rintro ⟨hitem, -, hchain, hrest⟩
        exact ⟨fun _ x hx => Option.some.inj hx ▸ hQ item hitem,
          ⟨fun y _ hp => absurd (hQ item hitem) (by simp [hp]), hchain⟩, fun _ => hitem, hrest⟩
      · rintro ⟨hhead, ⟨-, hchain⟩, hitem, hrest⟩
        exact ⟨hitem (hhead rfl item rfl), fun h => (by cases h), hchain, hrest⟩
    | false =>
      rw [skipping]
      by_cases hitem : p item = true
      · rw [if_pos hitem, ih]
        constructor
        · rintro ⟨hhead, hchain, hrest⟩
          exact ⟨fun h => (by cases h), ⟨fun y hy _ => hhead rfl y hy, hchain⟩,
            fun hp => absurd hp (by simp [hitem]), hrest⟩
        · rintro ⟨-, ⟨hnext, hchain⟩, -, hrest⟩
          exact ⟨fun _ y hy => hnext y hy hitem, hchain, hrest⟩
      · have hitem : p item = false := by simpa using hitem
        rw [if_neg (by simp [hitem]), List.forall_mem_cons, ih]
        simp [hitem, and_left_comm]

/-- Nothing bad is left exactly when no two bad nodes are neighbours. -/
theorem forall_mem_skipping {Q : α → Prop} (hQ : ∀ item, Q item → p item = false)
    (list : List α) : (∀ item ∈ skipping p false list, Q item) ↔
      list.IsChain (fun a b => p a = true → p b = false) ∧
        ∀ item ∈ list, p item = false → Q item := by
  rw [forall_mem_skipping_aux hQ]
  simp

end Live

/-! ## The tree -/

/-- The namespaces of an HTML document. -/
inductive Namespace
  | html
  | svg
  | mathml
  deriving DecidableEq

/-- The name and the attributes of an element. -/
structure Element where
  namespaceURI : Namespace
  localName : JsString
  /-- Names and values. -/
  attributes : List (JsString × JsString)
  deriving DecidableEq

/-- A node. The content of a `template` is in its markup, but none of its children. -/
inductive Node
  | text (data : JsString)
  | comment (data : JsString)
  | element (element : Element) (childNodes : List Node)
  | template (element : Element) (content : List Node)

/-- `nodeName`: names of HTML elements are in capitals. -/
def Element.nodeName (e : Element) : JsString :=
  if e.namespaceURI = .html then
    e.localName.map fun u => if 0x61 ≤ u.toNat ∧ u.toNat ≤ 0x7A then u - 0x20 else u
  else e.localName

mutual

/-- The elements that the markup of a node shows, in their order. -/
def Node.elements : Node → List Element
  | .text _ | .comment _ => []
  | .element e childNodes => e :: elements childNodes
  | .template e content => e :: elements content

/-- The elements of the nodes, in the order of the document. -/
def elements : List Node → List Element
  | [] => []
  | node :: nodes => node.elements ++ elements nodes

end

/-- No script, and no attribute whose name starts with `on`. -/
def Element.Harmless (e : Element) : Prop :=
  e.localName ≠ js "script" ∧ ∀ attr ∈ e.attributes, ¬ js "on" <+: attr.1

/-- Markup without scripts. -/
def Sanitized (nodes : List Node) : Prop := ∀ e ∈ elements nodes, e.Harmless

/-! ## `sanitizeSVG` -/

/-- The node is a `script` element, whatever its namespace. -/
def Node.isScript : Node → Bool
  | .element e _ | .template e _ => e.nodeName = js "script"
  | .text _ | .comment _ => false

/-- `Array.from(svgEl.attributes).forEach(…)`. -/
def removeScriptAttributes (e : Element) : Element :=
  { e with attributes := e.attributes.filter fun attr => !(js "on").isPrefixOf attr.1 }

/-- `svgEl.childNodes.forEach(…)`. -/
def removeScripts (childNodes : List Node) : List Node :=
  forEachRemove Node.isScript childNodes.length 0 childNodes

mutual

/-- What becomes of a node when the element that `querySelector('svg')` finds in it is changed;
nothing if there is none. The content of a `template` is not searched. -/
def Node.updateSvg : Node → Option Node
  | .text _ | .comment _ | .template _ _ => none
  | .element e childNodes =>
    if e.localName = js "svg" then
      some (.element (removeScriptAttributes e) (removeScripts childNodes))
    else (updateSvg childNodes).map fun childNodes => .element e childNodes

/-- The nodes with the first svg element sanitized, if there is one. -/
def updateSvg : List Node → Option (List Node)
  | [] => none
  | node :: nodes =>
    match node.updateSvg with
    | some node => some (node :: nodes)
    | none => (updateSvg nodes).map fun nodes => node :: nodes

end

/-- What is sanitized. -/
inductive Content
  | buffer (data : Bytes)
  | string (data : JsString)

/-- `Buffer.isBuffer(content) ? content.toString('utf-8') : content`. -/
def Content.original : Content → JsString
  | .buffer data => bufferToString data
  | .string data => data

/-- `sanitizeSVG`; `parse` gives the nodes of a `div` with this markup. -/
def sanitizeSVG (isSVG : JsString → Bool) (parse : JsString → List Node) (content : Content) :
    Except Exception (List Node) :=
  if !isSVG content.original then .error (.error "Not a valid SVG.")
  else
    match updateSvg (parse content.original) with
    | none => .error (.error "Not a valid SVG.")
    | some nodes => .ok nodes

/-! ## What stays -/

/-- The first `svg` element of a tree, with the elements before and behind it. -/
structure Located where
  before : List Element
  svgEl : Element
  childNodes : List Node
  behind : List Element

mutual

/-- The first svg element of the node. -/
def Node.locate : Node → Option Located
  | .text _ | .comment _ | .template _ _ => none
  | .element e childNodes =>
    if e.localName = js "svg" then some ⟨[], e, childNodes, []⟩
    else (locate childNodes).map fun l => { l with before := e :: l.before }

/-- The first svg element of the nodes, with what is around it. -/
def locate : List Node → Option Located
  | [] => none
  | node :: nodes =>
    match node.locate with
    | some l => some { l with behind := l.behind ++ elements nodes }
    | none => (locate nodes).map fun l => { l with before := node.elements ++ l.before }

end

/-- The elements that the markup shows when the element has been changed. -/
def Located.elements (l : Located) : List Element :=
  l.before ++ removeScriptAttributes l.svgEl :: (Proxy.elements (removeScripts l.childNodes) ++
    l.behind)

mutual

/-- The elements of a sanitized node are those around the svg element; the induction is on the node.
-/
theorem Node.elements_updateSvg : ∀ node : Node,
    node.updateSvg.map Node.elements = node.locate.map Located.elements
  | .text _ | .comment _ | .template _ _ => rfl
  | .element e childNodes => by
    rw [Node.updateSvg, Node.locate]
    split
    · simp [Node.elements, Located.elements]
    · have h := PointNetwork.Proxy.elements_updateSvg childNodes
      rw [Option.map_map, Option.map_map]
      cases hupdate : updateSvg childNodes with
      | none =>
        rw [hupdate] at h
        simp [Option.map_eq_none_iff.mp h.symm]
      | some nodes =>
        rw [hupdate] at h
        obtain ⟨l, hl, hnodes⟩ := Option.map_eq_some_iff.mp h.symm
        simp [hl, Node.elements, ← hnodes, Located.elements]

/-- The same for a list of nodes. -/
theorem elements_updateSvg : ∀ nodes : List Node,
    (updateSvg nodes).map elements = (locate nodes).map Located.elements
  | [] => rfl
  | node :: nodes => by
    have hnode := node.elements_updateSvg
    have hnodes := elements_updateSvg nodes
    rw [updateSvg, locate]
    cases hupdate : node.updateSvg with
    | some node' =>
      rw [hupdate] at hnode
      obtain ⟨l, hl, hnodes⟩ := Option.map_eq_some_iff.mp hnode.symm
      simp [hl, elements, ← hnodes, Located.elements]
    | none =>
      rw [hupdate] at hnode
      rw [Option.map_eq_none_iff.mp hnode.symm]
      simp only [Option.map_map]
      cases hrest : updateSvg nodes with
      | none =>
        rw [hrest] at hnodes
        simp [Option.map_eq_none_iff.mp hnodes.symm]
      | some nodes' =>
        rw [hrest] at hnodes
        obtain ⟨l, hl, helements⟩ := Option.map_eq_some_iff.mp hnodes.symm
        simp [hl, elements, ← helements, Located.elements]

end

mutual

lemma Node.localName_of_locate : ∀ (node : Node) {l : Located}, node.locate = some l →
    l.svgEl.localName = js "svg"
  | .text _, _, h | .comment _, _, h | .template _ _, _, h => by cases h
  | .element e childNodes, l, h => by
    rw [Node.locate] at h
    split at h
    · rename_i hname
      cases h
      exact hname
    · obtain ⟨l', hl', rfl⟩ := Option.map_eq_some_iff.mp h
      exact PointNetwork.Proxy.localName_of_locate childNodes (l := l') hl'

lemma localName_of_locate : ∀ (nodes : List Node) {l : Located}, locate nodes = some l →
    l.svgEl.localName = js "svg"
  | [], _, h => by cases h
  | node :: nodes, l, h => by
    rw [locate] at h
    split at h
    · rename_i l' hl'
      cases h
      exact node.localName_of_locate (l := l') hl'
    · obtain ⟨l', hl', rfl⟩ := Option.map_eq_some_iff.mp h
      exact localName_of_locate nodes (l := l') hl'

end

/-- The elements node by node. -/
lemma forall_mem_elements {nodes : List Node} {P : Element → Prop} :
    (∀ e ∈ elements nodes, P e) ↔ ∀ node ∈ nodes, ∀ e ∈ node.elements, P e := by
  induction nodes with
  | nil => simp [elements]
  | cons node nodes ih => simp [elements, or_imp, forall_and, ih]

/-- Names of HTML elements are written in capitals. -/
lemma Element.localName_of_nodeName {e : Element} (h : e.nodeName = js "script") :
    e.localName = js "script" := by
  unfold Element.nodeName at h
  split at h
  · -- capitals are not the small letters of `script`
    have hhead := congrArg List.head? h
    have hscript : (js "script").head? = some 0x73 := by decide
    rw [List.head?_map, hscript] at hhead
    obtain ⟨u, -, hu⟩ := Option.map_eq_some_iff.mp hhead
    split at hu
    · rename_i hrange
      have hle : (0x20 : UInt16) ≤ u := UInt16.le_iff_toNat_le.mpr (by simp; omega)
      have hnat := congrArg UInt16.toNat hu
      rw [UInt16.toNat_sub_of_le u 0x20 hle] at hnat
      simp at hnat
      omega
    · rename_i hrange
      rw [hu] at hrange
      exact absurd (by decide) hrange
  · exact h

/-- A node that is not removed, and shows no script, is none. -/
lemma isScript_of_harmless (node : Node) (h : ∀ e ∈ node.elements, e.Harmless) :
    node.isScript = false := by
  cases node with
  | text data => rfl
  | comment data => rfl
  | element e childNodes =>
    have he : e.Harmless := h e List.mem_cons_self
    exact decide_eq_false fun hname => he.1 (Element.localName_of_nodeName hname)
  | template e content =>
    have he : e.Harmless := h e List.mem_cons_self
    exact decide_eq_false fun hname => he.1 (Element.localName_of_nodeName hname)

/-- The tree shows no script but in script elements directly below the first `svg` element, of which
no two are neighbours, and in the attributes of this element. -/
def OnlyRemoved (nodes : List Node) : Prop :=
  ∀ l, locate nodes = some l →
    (∀ e ∈ l.before, e.Harmless) ∧
      (l.childNodes.IsChain (fun a b => a.isScript = true → b.isScript = false) ∧
        ∀ child ∈ l.childNodes, child.isScript = false → ∀ e ∈ child.elements, e.Harmless) ∧
      ∀ e ∈ l.behind, e.Harmless

/-- An svg element without its script attributes is harmless. -/
lemma harmless_removeScriptAttributes {e : Element} (h : e.localName = js "svg") :
    (removeScriptAttributes e).Harmless := by
  refine ⟨?_, fun attr hattr => ?_⟩
  · show e.localName ≠ js "script"
    rw [h]
    decide
  · have hfilter := (List.mem_filter.mp hattr).2
    rw [Bool.not_eq_true'] at hfilter
    rw [← List.isPrefixOf_iff_prefix, hfilter]
    exact Bool.false_ne_true

/-- The markup that is returned shows no script if and only if the input is refused, or shows only
what is removed. -/
theorem sanitizeSVG_sanitized_iff (isSVG : JsString → Bool) (parse : JsString → List Node)
    (content : Content) :
    (∀ nodes, sanitizeSVG isSVG parse content = .ok nodes → Sanitized nodes) ↔
      isSVG content.original = false ∨ OnlyRemoved (parse content.original) := by
  have helements := elements_updateSvg (parse content.original)
  unfold sanitizeSVG
  by_cases hvalid : isSVG content.original = false
  · simp [hvalid]
  · have hvalid : isSVG content.original = true := by simpa using hvalid
    rw [if_neg (by simp [hvalid])]
    cases hupdate : updateSvg (parse content.original) with
    | none =>
      rw [hupdate] at helements
      have hlocate : locate (parse content.original) = none := Option.map_eq_none_iff.mp helements.symm
      simp [OnlyRemoved, hlocate]
    | some nodes =>
      rw [hupdate] at helements
      obtain ⟨l, hl, hnodes⟩ := Option.map_eq_some_iff.mp helements.symm
      have hsvg := harmless_removeScriptAttributes (localName_of_locate _ hl)
      have hchildren := forall_mem_skipping isScript_of_harmless l.childNodes
      rw [← forEachRemove_eq, ← forall_mem_elements] at hchildren
      have hsanitized : Sanitized nodes ↔ OnlyRemoved (parse content.original) := by
        unfold Sanitized OnlyRemoved
        rw [← hnodes, Located.elements]
        simp only [List.forall_mem_append, List.forall_mem_cons, hsvg, true_and, hl,
          Option.some.injEq, forall_eq', removeScripts, hchildren]
      simp [hvalid, hsanitized]

/-- A script inside a group stays. -/
theorem sanitizeSVG_not_sanitized : ¬ ∀ (isSVG : JsString → Bool) (parse : JsString → List Node)
    (content : Content) (nodes : List Node),
      sanitizeSVG isSVG parse content = .ok nodes → Sanitized nodes := by
  intro h
  let script : Node := .element ⟨.svg, js "script", []⟩ [.text (js "alert(1)")]
  let group : Node := .element ⟨.svg, js "g", []⟩ [script]
  let svg : Node := .element ⟨.svg, js "svg", []⟩ [group]
  have hsanitized := h (fun _ => true) (fun _ => [svg])
    (.string (js "<svg><g><script>alert(1)</script></g></svg>")) [svg] rfl
  have hscript : (⟨.svg, js "script", []⟩ : Element) ∈ elements [svg] := by
    simp [svg, group, script, elements, Node.elements]
  exact (hsanitized _ hscript).1 rfl

end PointNetwork.Proxy
