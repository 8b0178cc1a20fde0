import Mathlib.Data.List.Nodup

/-!
# Keyed tables

A table of a database is the list of its rows; a row has a key, which no other row has.

* `upsert`: insert a row, or put it in the place of the row with its key;
* `update`: change the rows that meet a condition, as `UPDATE … WHERE …` does;
* `find`: the row with a key;
* `insertIgnore`: insert rows, but none with a key that is there, as `INSERT OR IGNORE` does.
-/

namespace Table

variable {α κ : Type*}

/-- No two rows have the same key. -/
def Keyed (key : α → κ) (rows : List α) : Prop := (rows.map key).Nodup

/-- Put a row in the place of the row with its key, or at the end. -/
def upsert [DecidableEq κ] (key : α → κ) (row : α) (rows : List α) : List α :=
  if key row ∈ rows.map key then rows.map fun r => if key r = key row then row else r
  else rows ++ [row]

/-- Change the rows that meet a condition. -/
def update (p : α → Bool) (f : α → α) (rows : List α) : List α :=
  rows.map fun r => if p r then f r else r

/-- The row with a key. -/
def find [DecidableEq κ] (key : α → κ) (k : κ) (rows : List α) : Option α :=
  rows.find? fun r => key r = k

/-- Insert the rows, one after the other, whose keys are not there. -/
def insertIgnore [DecidableEq κ] (key : α → κ) : List α → List α → List α
  | [], rows => rows
  | row :: new, rows =>
    insertIgnore key new (if key row ∈ rows.map key then rows else rows ++ [row])

section

variable {key : α → κ} {row r : α} {rows : List α}

/-- Two rows of a table with one key are the same row. -/
theorem Keyed.eq (h : Keyed key rows) {r r' : α} (hr : r ∈ rows) (hr' : r' ∈ rows)
    (hkey : key r = key r') : r = r' :=
  List.inj_on_of_nodup_map h hr hr' hkey

theorem Keyed.filter (p : α → Bool) (h : Keyed key rows) : Keyed key (rows.filter p) :=
  List.Nodup.sublist (List.Sublist.map key List.filter_sublist) h

variable [DecidableEq κ]

/-- The row is in the table. -/
theorem mem_upsert_self (key : α → κ) (row : α) (rows : List α) :
    row ∈ upsert key row rows := by
  unfold upsert
  split
  · rename_i hmem
    obtain ⟨r, hr, hkey⟩ := List.mem_map.mp hmem
    exact List.mem_map.mpr ⟨r, hr, if_pos hkey⟩
  · exact List.mem_append_right _ (List.mem_singleton_self row)

/-- A row of the new table is the new row or a row of the old table with another key. -/
theorem of_mem_upsert (h : r ∈ upsert key row rows) : r = row ∨ r ∈ rows ∧ key r ≠ key row := by
  unfold upsert at h
  split at h
  · obtain ⟨r', hr', hif⟩ := List.mem_map.mp h
    by_cases hkey : key r' = key row
    · rw [if_pos hkey] at hif
      exact .inl hif.symm
    · rw [if_neg hkey] at hif
      exact .inr ⟨hif ▸ hr', hif ▸ hkey⟩
  · rename_i hmem
    obtain hr | hr := List.mem_append.mp h
    · right
      refine ⟨hr, ?_⟩
      intro hkey
      exact hmem (List.mem_map.mpr ⟨r, hr, hkey⟩)
    · exact .inl (List.mem_singleton.mp hr)

/-- The rows of other keys stay. -/
theorem mem_upsert_of_ne (h : r ∈ rows) (hkey : key r ≠ key row) : r ∈ upsert key row rows := by
  unfold upsert
  split
  · exact List.mem_map.mpr ⟨r, h, if_neg hkey⟩
  · exact List.mem_append_left _ h

/-- Every place of the new table holds the new row or what it held before. -/
theorem getElem?_upsert {i : ℕ} (h : (upsert key row rows)[i]? = some r) :
    r = row ∨ rows[i]? = some r := by
  unfold upsert at h
  split at h
  · rw [List.getElem?_map] at h
    obtain ⟨r', hr', hif⟩ := Option.map_eq_some_iff.mp h
    by_cases hkey : key r' = key row
    · rw [if_pos hkey] at hif
      exact .inl hif.symm
    · rw [if_neg hkey] at hif
      exact .inr (hif ▸ hr')
  · obtain hlt | hge := Nat.lt_or_ge i rows.length
    · rw [List.getElem?_append_left hlt] at h
      exact .inr h
    · rw [List.getElem?_append_right hge] at h
      exact .inl (List.mem_singleton.mp (List.mem_of_getElem? h))

/-- The keys stay, and a new one comes last. -/
theorem map_key_upsert (key : α → κ) (row : α) (rows : List α) :
    (upsert key row rows).map key =
      if key row ∈ rows.map key then rows.map key else rows.map key ++ [key row] := by
  unfold upsert
  split
  · rw [List.map_map]
    apply List.map_congr_left
    intro r _
    show key (if key r = key row then row else r) = key r
    split
    · rename_i hkey
      exact hkey.symm
    · rfl
  · rw [List.map_append, List.map_singleton]

/-- An upsert keeps one row for each key. -/
theorem Keyed.upsert (h : Keyed key rows) : Keyed key (upsert key row rows) := by
  unfold Keyed
  rw [map_key_upsert]
  split
  · exact h
  · rename_i hmem
    exact List.Nodup.append h (List.nodup_singleton _) (by simpa using hmem)

end

section

variable {key : α → κ} {p : α → Bool} {f : α → α} {r : α} {rows : List α}

/-- An update that keeps the keys keeps one row for each key. -/
theorem Keyed.update (h : Keyed key rows) (hf : ∀ r, key (f r) = key r) :
    Keyed key (update p f rows) := by
  have hmap : (Table.update p f rows).map key = rows.map key := by
    unfold Table.update
    rw [List.map_map]
    apply List.map_congr_left
    intro r _
    show key (if p r then f r else r) = key r
    split
    · exact hf r
    · rfl
  unfold Keyed
  rw [hmap]
  exact h

/-- A row after an update was there, or was made of one that was. -/
theorem of_mem_update (h : r ∈ update p f rows) :
    (r ∈ rows ∧ p r = false) ∨ ∃ r' ∈ rows, p r' = true ∧ r = f r' := by
  obtain ⟨r', hr', hif⟩ := List.mem_map.mp h
  by_cases hp : p r' = true
  · rw [if_pos hp] at hif
    exact .inr ⟨r', hr', hp, hif.symm⟩
  · rw [if_neg hp] at hif
    rw [Bool.not_eq_true] at hp
    exact .inl ⟨hif ▸ hr', hif ▸ hp⟩

/-- Each row is there after an update, updated if it is meant. -/
theorem mem_update (h : r ∈ rows) : (if p r then f r else r) ∈ update p f rows :=
  List.mem_map.mpr ⟨r, h, rfl⟩

end

/-! ## Finding a row by its key -/

section

variable [DecidableEq κ] {key : α → κ} {k : κ} {r : α} {new rows : List α}

theorem mem_of_find (h : find key k rows = some r) : r ∈ rows := List.mem_of_find?_eq_some h

theorem key_of_find (h : find key k rows = some r) : key r = k := by
  have hkey := List.find?_some h
  exact of_decide_eq_true hkey

/-- No row is found exactly when the key is not in the table. -/
theorem find_eq_none : find key k rows = none ↔ k ∉ rows.map key := by
  unfold find
  simp

theorem find_isSome (h : r ∈ rows) : (find key (key r) rows).isSome := by
  unfold find
  rw [List.find?_isSome]
  exact ⟨r, h, decide_eq_true rfl⟩

/-- An update that keeps the keys changes the row found, if it meets the condition. -/
theorem find_update {p : α → Bool} {f : α → α} (hf : ∀ r, key (f r) = key r) :
    find key k (update p f rows) = (find key k rows).map fun r => if p r then f r else r := by
  unfold find update
  rw [List.find?_map]
  congr 2
  funext r
  show decide (key (if p r then f r else r) = k) = decide (key r = k)
  split
  · rw [hf]
  · rfl

/-- A row that was there stays; another key is found if it was inserted. -/
theorem find_insertIgnore :
    find key k (insertIgnore key new rows) = (find key k rows).or (find key k new) := by
  induction new generalizing rows with
  | nil =>
    rw [insertIgnore]
    exact (Option.or_none).symm
  | cons row new ih =>
    rw [insertIgnore, ih]
    split
    · rename_i hmem
      by_cases hkey : key row = k
      · rw [hkey] at hmem
        have hsome : find key k rows ≠ none := fun hnone => find_eq_none.mp hnone hmem
        obtain ⟨r, hr⟩ := Option.ne_none_iff_exists'.mp hsome
        rw [hr, Option.some_or, Option.some_or]
      · have hcons : find key k (row :: new) = find key k new := by
          unfold find
          rw [List.find?_cons_of_neg (by simpa using hkey)]
        rw [hcons]
    · have happend : find key k (rows ++ [row]) = (find key k rows).or (find key k [row]) := by
        unfold find
        rw [List.find?_append]
      rw [happend, Option.or_assoc]
      congr 1
      unfold find
      rw [← List.find?_append]
      rfl

/-- With the row as its own key, the table holds the old rows and the new ones. -/
theorem mem_insertIgnore_id [DecidableEq α] :
    r ∈ insertIgnore id new rows ↔ r ∈ rows ∨ r ∈ new := by
  induction new generalizing rows with
  | nil => simp [insertIgnore]
  | cons row new ih =>
    rw [insertIgnore, ih, List.mem_cons]
    split
    · rename_i hmem
      rw [List.map_id] at hmem
      constructor
      · rintro (h | h)
        · exact .inl h
        · exact .inr (.inr h)
      · rintro (h | rfl | h)
        · exact .inl h
        · exact .inl hmem
        · exact .inr h
    · rw [List.mem_append, List.mem_singleton, or_assoc]

end

end Table
