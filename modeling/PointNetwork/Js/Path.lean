import PointNetwork.Js.Text

/-!
# Paths

`path.normalize`, `path.join` and `path.resolve` of the module `path` of Node.js (the POSIX variant)
on strings of UTF-16 code units.

A path of plain names is `names` with slashes in between; `join_names` puts such a path together
and `splitOnP_names` takes it apart.
-/

namespace Js.Path

/-- The separator of a path. -/
def slash : UInt16 := 0x2F

/-- One segment of `normalizeString`: `.` and empty segments are dropped, `..` takes away the
segment before it unless this is `..` or missing. -/
def pushSegment (allowAboveRoot : Bool) (acc : List JsString) (segment : JsString) :
    List JsString :=
  if segment = [] ∨ segment = js "." then acc
  else if segment = js ".." then
    if acc = [] ∨ acc.getLast? = some (js "..") then
      if allowAboveRoot then acc ++ [js ".."] else acc
    else acc.dropLast
  else acc ++ [segment]

/-- `normalizeString`. -/
def normalizeString (path : JsString) (allowAboveRoot : Bool) : JsString :=
  [slash].intercalate ((path.splitOn slash).foldl (pushSegment allowAboveRoot) [])

/-- `path.normalize`. -/
def normalize (path : JsString) : JsString :=
  if path = [] then js "."
  else
    let isAbsolute := path.head? = some slash
    let trailingSeparator := path.getLast? = some slash
    let normal := normalizeString path (!isAbsolute)
    if normal = [] then
      if isAbsolute then js "/" else if trailingSeparator then js "./" else js "."
    else
      let normal := if trailingSeparator then normal ++ [slash] else normal
      if isAbsolute then slash :: normal else normal

/-- `path.join`. -/
def join (args : List JsString) : JsString :=
  normalize ([slash].intercalate (args.filter (· ≠ [])))

/-- The loop of `path.resolve` at one of its arguments, which it reads from the last one on: nothing
stands in front of an absolute path. -/
def prepend (path : JsString) (resolved : JsString × Bool) : JsString × Bool :=
  if resolved.2 = true ∨ path = [] then resolved
  else (path ++ slash :: resolved.1, decide (path.head? = some slash))

/-- `path.resolve` in the working directory `cwd`. -/
def resolve (cwd : JsString) (args : List JsString) : JsString :=
  let resolved := (cwd :: args).foldr prepend ([], false)
  let normal := normalizeString resolved.1 (!resolved.2)
  if resolved.2 then slash :: normal else if normal = [] then js "." else normal

example : resolve (js "/home") [js "zapps", js "../a.point/"] = js "/home/a.point" := by decide

/-! ## Plain names -/

/-- The name of an entry of a folder: what `pushSegment` adds as it is. -/
structure Segment (name : JsString) : Prop where
  ne_nil : name ≠ []
  no_slash : slash ∉ name
  ne_dot : name ≠ js "."
  ne_dots : name ≠ js ".."

/-- A name that stands for itself in a path: nonempty, without separators of either kind, and
not `.` or `..`. -/
structure Plain (name : JsString) : Prop where
  ne_nil : name ≠ []
  no_slash : slash ∉ name
  no_backslash : 0x5C ∉ name
  ne_dot : name ≠ js "."
  ne_dots : name ≠ js ".."

instance (name : JsString) : Decidable (Plain name) :=
  decidable_of_iff
    (name ≠ [] ∧ slash ∉ name ∧ 0x5C ∉ name ∧ name ≠ js "." ∧ name ≠ js "..")
    ⟨fun ⟨h1, h2, h3, h4, h5⟩ => ⟨h1, h2, h3, h4, h5⟩,
      fun h => ⟨h.ne_nil, h.no_slash, h.no_backslash, h.ne_dot, h.ne_dots⟩⟩

lemma Plain.segment {name : JsString} (h : Plain name) : Segment name :=
  ⟨h.ne_nil, h.no_slash, h.ne_dot, h.ne_dots⟩

/-- The path of plain names. -/
def ofNames (names : List JsString) : JsString := [slash].intercalate names

theorem ofNames_cons_cons (n m : JsString) (ns : List JsString) :
    ofNames (n :: m :: ns) = n ++ slash :: ofNames (m :: ns) := by
  unfold ofNames
  rw [List.intercalate_cons_cons, List.append_assoc]
  rfl

/-- A path of names is nonempty, and has no separator in front or at its end. -/
theorem ofNames_ends {names : List JsString} (hne : names ≠ [])
    (h : ∀ name ∈ names, Segment name) :
    ofNames names ≠ [] ∧ (ofNames names).head? ≠ some slash ∧
      (ofNames names).getLast? ≠ some slash := by
  induction names with
  | nil => exact absurd rfl hne
  | cons n ns ih =>
    have hn : Segment n := h n List.mem_cons_self
    have hhead : n.head? ≠ some slash := fun hs => hn.no_slash (List.mem_of_head? hs)
    cases ns with
    | nil =>
      have hone : ofNames [n] = n := List.intercalate_singleton
      rw [hone]
      exact ⟨hn.ne_nil, hhead, fun hs => hn.no_slash (List.mem_of_getLast? hs)⟩
    | cons m ns =>
      obtain ⟨hrest, -, hlast⟩ := ih (List.cons_ne_nil _ _)
        fun name hname => h name (List.mem_cons_of_mem _ hname)
      rw [ofNames_cons_cons]
      refine ⟨by simp, ?_, ?_⟩
      · rw [List.head?_append_of_ne_nil _ hn.ne_nil]
        exact hhead
      · rw [List.getLast?_append_cons, List.getLast?_cons_of_ne_nil hrest]
        exact hlast

/-- Splitting a path of plain names at separators gives the names. -/
theorem splitOnP_names {names : List JsString} {p : UInt16 → Bool} (hp : p slash = true)
    (hne : names ≠ []) (h : ∀ name ∈ names, ∀ u ∈ name, p u = false) :
    (ofNames names).splitOnP p = names := by
  induction names with
  | nil => exact absurd rfl hne
  | cons n ns ih =>
    have hn : ∀ u ∈ n, p u = false := h n List.mem_cons_self
    cases ns with
    | nil =>
      have hone : ofNames [n] = n := List.intercalate_singleton
      rw [hone]
      exact List.splitOnP_eq_singleton hn
    | cons m ns =>
      rw [ofNames_cons_cons, List.splitOnP_append_cons_of_forall_mem hn slash hp,
        ih (List.cons_ne_nil _ _) fun name hname => h name (List.mem_cons_of_mem _ hname)]

/-- A name is pushed behind the folder. -/
lemma pushSegment_of_segment {allowAboveRoot : Bool} {dir : List JsString} {name : JsString}
    (h : Segment name) : pushSegment allowAboveRoot dir name = dir ++ [name] := by
  unfold pushSegment
  rw [if_neg (not_or.mpr ⟨h.ne_nil, h.ne_dot⟩), if_neg h.ne_dots]

/-- Normalizing leaves names as they are. -/
theorem foldl_pushSegment {allowAboveRoot : Bool} {names acc : List JsString}
    (h : ∀ name ∈ names, Segment name) :
    names.foldl (pushSegment allowAboveRoot) acc = acc ++ names := by
  induction names generalizing acc with
  | nil => simp
  | cons n ns ih =>
    rw [List.foldl_cons, pushSegment_of_segment (h n List.mem_cons_self),
      ih fun name hname => h name (List.mem_cons_of_mem _ hname), List.append_assoc]
    rfl

/-- Joining plain names puts slashes in between. -/
theorem join_names {names : List JsString} (hne : names ≠ []) (h : ∀ name ∈ names, Plain name) :
    join names = ofNames names := by
  have hfilter : names.filter (· ≠ []) = names :=
    List.filter_eq_self.mpr fun name hname => by simpa using (h name hname).ne_nil
  have hnames : ∀ name ∈ names, Segment name := fun name hname => (h name hname).segment
  obtain ⟨hempty, habsolute, htrailing⟩ := ofNames_ends hne hnames
  have hnormal : normalizeString (ofNames names) true = ofNames names := by
    unfold normalizeString
    have hsplit : (ofNames names).splitOn slash = names :=
      List.splitOn_intercalate slash (fun name hname => (h name hname).no_slash) hne
    rw [hsplit, foldl_pushSegment hnames, List.nil_append]
    rfl
  unfold join
  rw [hfilter]
  show normalize (ofNames names) = ofNames names
  unfold normalize
  simp only [if_neg hempty, decide_eq_false habsolute, Bool.not_false, hnormal, if_neg habsolute,
    if_neg htrailing]

/-! ## Absolute paths -/

/-- The path of the folder that is reached from the root through the folders of these names. -/
def absolute (dir : List JsString) : JsString := slash :: ofNames dir

/-- Where the segments of a path lead from a folder: `..` is the folder above, and the root is above
itself. -/
def walk (dir segments : List JsString) : List JsString := segments.foldl (pushSegment false) dir

/-- The separator that `normalize` leaves at the end of a path. -/
def trailing (path : JsString) (dir : List JsString) : JsString :=
  if path.getLast? = some slash ∧ dir ≠ [] then [slash] else []

section Absolute

variable {dir : List JsString} {path : JsString}

/-- Names are walked into one after the other. -/
lemma walk_of_segments {names : List JsString} (h : ∀ name ∈ names, Segment name) :
    walk dir names = dir ++ names := foldl_pushSegment h

/-- A path is walked in parts. -/
lemma walk_append (dir xs ys : List JsString) : walk dir (xs ++ ys) = walk (walk dir xs) ys :=
  List.foldl_append

/-- A segment leads from folders to folders. -/
lemma segment_of_mem_pushSegment {segment : JsString} (hslash : slash ∉ segment)
    (h : ∀ name ∈ dir, Segment name) : ∀ name ∈ pushSegment false dir segment, Segment name := by
  intro name hname
  unfold pushSegment at hname
  split at hname
  · exact h name hname
  · rename_i hplain
    split at hname
    · split at hname
      · exact h name (by simpa using hname)
      · exact h name (List.dropLast_subset dir hname)
    · rename_i hdots
      rcases List.mem_append.mp hname with hmem | hmem
      · exact h name hmem
      · rw [List.mem_singleton.mp hmem]
        exact ⟨fun he => hplain (Or.inl he), hslash, fun he => hplain (Or.inr he), hdots⟩

/-- A walk along a path that starts in a folder ends in a folder. -/
theorem segment_of_mem_walk {segments : List JsString} (hslash : ∀ s ∈ segments, slash ∉ s)
    (h : ∀ name ∈ dir, Segment name) : ∀ name ∈ walk dir segments, Segment name := by
  induction segments generalizing dir with
  | nil => exact h
  | cons s ss ih =>
    exact ih (fun s hs => hslash s (List.mem_cons_of_mem _ hs))
      (segment_of_mem_pushSegment (hslash s List.mem_cons_self) h)

/-- The folder or file to which an absolute path leads. -/
def target (path : JsString) : List JsString := walk [] (path.splitOn slash)

/-- An absolute path has names only. -/
lemma segment_of_mem_target : ∀ name ∈ target path, Segment name :=
  segment_of_mem_walk (fun _ hs => not_mem_of_mem_splitOn hs) fun _ hname =>
    (List.not_mem_nil hname).elim

/-- An absolute path is normalized to the path of the folder or file to which it leads. -/
theorem normalize_absolute (habsolute : path.head? = some slash) :
    normalize path = absolute (target path) ++ trailing path (target path) := by
  have hne : path ≠ [] := fun he => by simp [he] at habsolute
  have hnormal : normalizeString path false = ofNames (target path) := rfl
  unfold normalize trailing
  simp only [if_neg hne, habsolute, decide_true, Bool.not_true, if_true, hnormal]
  by_cases hdir : target path = []
  · simp only [hdir, ne_eq, not_true_eq_false, and_false, if_false]
    rfl
  · have hnames : ofNames (target path) ≠ [] := (ofNames_ends hdir segment_of_mem_target).1
    simp only [if_neg hnames, hdir, ne_eq, not_false_eq_true, and_true]
    split <;> simp [absolute]

/-- A normalized absolute path without a separator at its end is the path of a folder other than the
root, or of a file. -/
theorem exists_absolute (hnormal : normalize path = path) (habsolute : path.head? = some slash)
    (htrailing : path.getLast? ≠ some slash) :
    target path ≠ [] ∧ path = absolute (target path) := by
  have hpath : path = absolute (target path) := by
    have h := normalize_absolute habsolute
    rwa [hnormal, trailing, if_neg fun hc => htrailing hc.1, List.append_nil] at h
  refine ⟨fun hdir => htrailing ?_, hpath⟩
  rw [hpath, hdir]
  rfl

/-- The parts of a path that begins with a folder. -/
lemma splitOn_absolute_append (hdir : dir ≠ []) (h : ∀ name ∈ dir, Segment name)
    (rest : JsString) :
    (absolute dir ++ slash :: rest).splitOn slash = [] :: dir ++ rest.splitOn slash := by
  have hnames : (ofNames dir).splitOn slash = dir :=
    List.splitOn_intercalate slash (fun name hname => (h name hname).no_slash) hdir
  rw [List.splitOn_append_cons_self]
  show (slash :: ofNames dir).splitOn slash ++ _ = _
  rw [List.splitOn_cons_eq_if_modifyHead, if_pos (beq_self_eq_true slash), hnames]

/-- Joining a path to that of a folder walks along the path from the folder. -/
theorem join_absolute (hdir : dir ≠ []) (h : ∀ name ∈ dir, Segment name) (path : JsString) :
    join [absolute dir, path] = absolute (walk dir (path.splitOn slash)) ++
      trailing path (walk dir (path.splitOn slash)) := by
  have hstart : walk [] ([] :: dir) = dir := walk_of_segments h
  by_cases hpath : path = []
  · subst hpath
    have htarget : target (absolute dir) = dir := by
      have hnames : (ofNames dir).splitOn slash = dir :=
        List.splitOn_intercalate slash (fun name hname => (h name hname).no_slash) hdir
      unfold target absolute
      rw [List.splitOn_cons_eq_if_modifyHead, if_pos (beq_self_eq_true slash), hnames, hstart]
    have hlast : (absolute dir).getLast? ≠ some slash := by
      unfold absolute
      obtain ⟨hne, -, hlast⟩ := ofNames_ends hdir h
      rwa [List.getLast?_cons_of_ne_nil hne]
    have hjoin : join [absolute dir, []] = normalize (absolute dir) := by
      simp [join, absolute]
    rw [hjoin, normalize_absolute rfl, htarget, trailing, if_neg fun hc => hlast hc.1]
    rfl
  · have hjoin : join [absolute dir, path] = normalize (absolute dir ++ slash :: path) := by
      simp [join, absolute, hpath]
    have htarget : target (absolute dir ++ slash :: path) = walk dir (path.splitOn slash) := by
      unfold target
      rw [splitOn_absolute_append hdir h, walk_append, hstart]
    have hlast : (absolute dir ++ slash :: path).getLast? = path.getLast? := by
      rw [List.getLast?_append_cons, List.getLast?_cons_of_ne_nil hpath]
    rw [hjoin, normalize_absolute rfl, htarget, trailing, hlast]
    rfl

end Absolute

end Js.Path
