import PointNetwork.Network.ScanLoop

/-!
# Rows of `EventScan` that surround the query

`_renewContractEventsCache` selects the rows that it counts as scanned by a condition on their
ends. The case meant for a row that surrounds the query compares `from_block` twice, so that such
a row is found only when it begins at an end of the query. Blocks that only surrounding rows cover
are asked for again (`renewal_spares_iff`).
-/

namespace PointNetwork.Network

variable {pageSize : ℕ} {queryToBlock : ℤ}

/-- A block is asked for when a request covers it. -/
lemma timesAsked_pos {requests : List BlockRange} {x : ℤ} :
    0 < timesAsked requests x ↔ ∃ p ∈ requests, p.Covers x := by
  simp only [timesAsked, List.countP_pos_iff, decide_eq_true_eq]

/-- From a cursor on the loop asks for the uncovered blocks and for no others, whatever the ends
of the rows: a row that ends before it begins covers nothing, and takes the cursor nowhere. -/
lemma asked_scanLoop (hsize : 1 ≤ pageSize) {rows : List BlockRange}
    (hsorted : rows.Pairwise fun row row' => row.fromBlock ≤ row'.fromBlock) (cursor x : ℤ) :
    0 < timesAsked (scanLoop pageSize queryToBlock
      (rows ++ [⟨queryToBlock + 1, queryToBlock + 1⟩]) cursor) x ↔
      (cursor ≤ x ∧ x ≤ queryToBlock) ∧ Uncovered rows x := by
  induction rows generalizing cursor with
  | nil =>
    have hu : Uncovered [] x := by simp [Uncovered]
    rw [List.nil_append, timesAsked_scanLoop_nil hsize]
    simp only [hu, and_true]
    split <;> omega
  | cons row rows ih =>
    rw [List.pairwise_cons] at hsorted
    have hrest := ih hsorted.2 (max cursor (row.toBlock + 1))
    rw [List.cons_append, timesAsked_scanLoop_cons hsize, uncovered_cons]
    simp only [BlockRange.Covers]
    by_cases hx : x < row.fromBlock
    · have hu := uncovered_of_lt hsorted.1 hx
      simp only [hu, and_true] at hrest ⊢
      split <;> split <;> omega
    · have hbefore : ¬ (cursor ≤ x ∧ x ≤ queryToBlock ∧ x < row.fromBlock) := fun h => hx h.2.2
      rw [if_neg hbefore]
      by_cases hu : Uncovered rows x
      · simp only [hu, and_true] at hrest ⊢
        split <;> omega
      · simp only [hu, and_false, iff_false] at hrest ⊢
        split <;> omega

/-- One reply for each request is enough. -/
lemma scanPages_replicate (env : Env) (r : Renewal) (ps : List (ℕ × ℕ)) (db : Db)
    (rest : List (List EventLog)) :
    ∃ db', scanPages env r ps (List.replicate ps.length [] ++ rest) db = (db', some rest) := by
  induction ps generalizing db with
  | nil => exact ⟨db, rfl⟩
  | cons p ps ih => exact ih (performScanForContractEvents env r p.1 p.2 [] db)

/-- How many requests the loop over the ranges makes does not depend on the tables. -/
lemma scanRanges_replicate (env : Env) (r : Renewal) (ranges : List ScannedRange)
    (cursor m : ℕ) :
    ∃ n, ∀ db rest, ∃ db' m', scanRanges env r ranges cursor m (List.replicate n [] ++ rest) db =
      (db', some (m', rest)) := by
  induction ranges generalizing cursor m with
  | nil => exact ⟨0, fun db rest => ⟨db, m, rfl⟩⟩
  | cons range ranges ih =>
    rcases ih (max cursor (range.toBlock + 1))
      (if range.fake then m else max m range.toBlock) with ⟨n, hn⟩
    by_cases hdone : r.toBlock < max cursor (range.toBlock + 1)
    · refine ⟨(gap env r cursor range).length, ?_⟩
      intro db rest
      rcases scanPages_replicate env r (gap env r cursor range) db rest with ⟨db', hdb⟩
      rw [scanRanges_scanned hdb, if_pos hdone]
      exact ⟨_, _, rfl⟩
    · refine ⟨(gap env r cursor range).length + n, ?_⟩
      intro db rest
      rcases scanPages_replicate env r (gap env r cursor range) db (List.replicate n [] ++ rest)
        with ⟨db', hdb⟩
      rw [List.replicate_add, List.append_assoc, scanRanges_scanned hdb, if_neg hdone]
      exact hn db' rest

/-- A renewal that gets `n` replies with no events. -/
def Renewal.answered (r : Renewal) (n : ℕ) : Renewal :=
  { r with replies := List.replicate n [], fails := false, found := 0 }

/-- The replies of a renewal are no part of what the loop reads of it. -/
lemma scanRanges_answered (n : ℕ) {env : Env} {r : Renewal} (ranges : List ScannedRange)
    (cursor m : ℕ) (replies : List (List EventLog)) (db : Db) :
    scanRanges env (r.answered n) ranges cursor m replies db =
      scanRanges env r ranges cursor m replies db := by
  have hpages : ∀ ps replies db, scanPages env (r.answered n) ps replies db =
      scanPages env r ps replies db := by
    intro ps
    induction ps with
    | nil => exact fun _ _ => rfl
    | cons p ps ih =>
      intro replies db
      cases replies with
      | nil => rfl
      | cons events replies =>
        exact ih replies (performScanForContractEvents env r p.1 p.2 events db)
  induction ranges generalizing cursor m replies db with
  | nil => rfl
  | cons range ranges ih =>
    have hgap : gap env (r.answered n) cursor range = gap env r cursor range := rfl
    simp only [scanRanges, hgap, hpages, ih]
    rfl

/-- Enough replies make a renewal succeed. -/
lemma renewal_succeeds (env : Env) (r : Renewal) (db : Db) :
    ∃ n db', renewContractEventsCache env (r.answered n) db = some db' := by
  rcases scanRanges_replicate env r (scannedRanges r (rowsInReach r db.scans)) r.fromBlock 0
    with ⟨n, hn⟩
  rcases hn db [] with ⟨db₁, m, hscan⟩
  rw [List.append_nil, ← scanRanges_answered n] at hscan
  refine ⟨n, ?_⟩
  unfold renewContractEventsCache
  have hscan' : scanRanges env (r.answered n) (scannedRanges (r.answered n)
      (rowsInReach (r.answered n) db.scans)) (r.answered n).fromBlock 0 (r.answered n).replies db =
      (db₁, some (m, [])) := hscan
  rw [hscan']
  dsimp only [Renewal.answered]
  cases hscans : db₁.scans with
  | nil => exact ⟨db₁, rfl⟩
  | cons first scans => exact ⟨_, rfl⟩

/-! ## What a renewal asks for -/

section

variable (env : Env) (r : Renewal)

/-- The requests that a renewal issues from one state to another: those answered and, where it
fails, the next one of the scan. -/
def Issued (db db' : Db) (p : BlockRange) : Prop :=
  ∃ made, asked db' = asked db ++ made ∧
    (p ∈ made ∨ (r.fails = true ∧ (scanRequests env.pageSize (rangesInReach r db) r.queryFromBlock
      r.queryToBlock)[made.length]? = some p))

/-- The rows of the renewal's contract on its chain. -/
def Renewal.Owns (row : ScanRow) : Prop :=
  row.contractAddress = r.contractAddress ∧ row.chainId = r.chainId

/-- A row that reaches out of the query on both sides. -/
def Renewal.SurroundedBy (row : ScanRow) : Prop :=
  row.fromBlock < r.fromBlock ∧ r.toBlock < row.toBlock

/-- No run of the query asks for a block that a row of the contract covers. -/
def Spares (db : Db) : Prop :=
  ∀ replies fails found db',
    let run := { r with replies := replies, fails := fails, found := found }
    renewContractEventsCache env run db = some db' →
      ∀ p, Issued env run db db' p → ∀ row ∈ db.scans, r.Owns row →
        ∀ x, p.Covers x → ¬ row.range.Covers x

end

variable {env : Env} {r : Renewal}

/-- The condition of the query leaves out the rows of the contract that surround the query, and
of the others none that meets it. -/
lemma uncovered_rangesInReach {db : Db} {x : ℤ} (hx : (r.fromBlock : ℤ) ≤ x ∧ x ≤ r.toBlock) :
    Uncovered (rangesInReach r db) x ↔
      ∀ row ∈ db.scans, r.Owns row → ¬ r.SurroundedBy row → ¬ row.range.Covers x := by
  constructor
  · intro hu row hrow howns hsurrounded hcovers
    apply hu row.range _ hcovers
    apply List.mem_map_of_mem
    rw [rowsInReach, List.mem_insertionSort, List.mem_filter, inReach_iff]
    unfold Renewal.SurroundedBy at hsurrounded
    have hlow : (row.fromBlock : ℤ) ≤ x := hcovers.1
    have hhigh : x ≤ (row.toBlock : ℤ) := hcovers.2
    exact ⟨hrow, howns, by omega⟩
  · intro h range hrange
    rcases List.mem_map.mp hrange with ⟨row, hrow, rfl⟩
    rw [rowsInReach, List.mem_insertionSort, List.mem_filter, inReach_iff] at hrow
    rcases hrow with ⟨hrow, howns, hreach⟩
    apply h row hrow howns
    unfold Renewal.SurroundedBy
    omega

/-- Every request of a renewal is one of the scan. -/
lemma Issued.mem {db db' : Db} {p : BlockRange} (hs : renewContractEventsCache env r db = some db')
    (hp : Issued env r db db' p) :
    p ∈ scanRequests env.pageSize (rangesInReach r db) r.queryFromBlock r.queryToBlock := by
  rcases renewal_requests hs with ⟨made, hmade, hasked, -⟩
  rcases hp with ⟨made', hasked', hp | ⟨-, hp⟩⟩
  · rw [hasked, List.append_cancel_left_eq] at hasked'
    rw [hasked'] at hmade
    exact hmade.subset hp
  · exact List.mem_of_getElem? hp

/-- A scan asks for a block of the query if and only if no row that the condition finds covers
it. -/
lemma asked_scanRequests (env : Env) (r : Renewal) (db : Db) (x : ℤ) :
    (∃ p ∈ scanRequests env.pageSize (rangesInReach r db) r.queryFromBlock r.queryToBlock,
      p.Covers x) ↔
      ((r.fromBlock : ℤ) ≤ x ∧ x ≤ r.toBlock) ∧ Uncovered (rangesInReach r db) x := by
  rw [← timesAsked_pos, scanRequests_eq]
  exact asked_scanLoop env.pageSize_pos (rangesInReach_sorted db) r.fromBlock x

/-- The stored rows are used by every run of a query if and only if none of them surrounds the
query, or those that do not surround it cover all its blocks. -/
theorem renewal_spares_iff (env : Env) (r : Renewal) (db : Db) :
    Spares env r db ↔
      (∀ row ∈ db.scans, r.Owns row → ¬ r.SurroundedBy row) ∨
        ∀ x : ℤ, (r.fromBlock : ℤ) ≤ x ∧ x ≤ r.toBlock →
          ∃ row ∈ db.scans, r.Owns row ∧ ¬ r.SurroundedBy row ∧ row.range.Covers x := by
  constructor
  · intro hspares
    by_contra hnot
    push Not at hnot
    rcases hnot with ⟨⟨row, hrow, howns, hsurrounded⟩, x, hx, hfree⟩
    rcases renewal_succeeds env r db with ⟨n, db', hs⟩
    rcases renewal_requests hs with ⟨made, -, hasked, hall⟩
    -- a block that only rows around the query cover is asked for
    have hu : Uncovered (rangesInReach r db) x := (uncovered_rangesInReach hx).mpr hfree
    rcases (asked_scanRequests env r db x).mpr ⟨hx, hu⟩ with ⟨p, hp, hcovers⟩
    have hmade : p ∈ made := (hall rfl) ▸ hp
    apply hspares _ _ _ db' hs p ⟨made, hasked, .inl hmade⟩ row hrow howns x hcovers
    have hlow : (row.fromBlock : ℤ) < r.fromBlock := Nat.cast_lt.mpr hsurrounded.1
    have hhigh : (r.toBlock : ℤ) < row.toBlock := Nat.cast_lt.mpr hsurrounded.2
    show (row.fromBlock : ℤ) ≤ x ∧ x ≤ row.toBlock
    omega
  · intro h replies fails found db' run hs p hp row hrow howns x hpx hcovers
    have hmem : p ∈ scanRequests env.pageSize (rangesInReach r db) r.queryFromBlock
        r.queryToBlock := Issued.mem (r := run) hs hp
    rcases (asked_scanRequests env r db x).mp ⟨p, hmem, hpx⟩ with ⟨hx, hu⟩
    have hfree := (uncovered_rangesInReach hx).mp hu
    rcases h with h | h
    · exact hfree row hrow howns (h row hrow howns) hcovers
    · rcases h x hx with ⟨row', hrow', howns', hsurrounded', hcovers'⟩
      exact hfree row' hrow' howns' hsurrounded' hcovers'

/-- A row for the blocks up to 100, and a query for blocks 10 to 20. -/
def surrounded : Db := ⟨[], [scanRow (renewal 0 100 []) 0 100], []⟩

/-- The row surrounds the query, and all its blocks are asked for again. -/
theorem renewal_asks_again : ¬ Spares Env.small (renewal 10 20 [[]]) surrounded := by
  intro h
  have hfree := h [[]] false 0 _ rfl ⟨10, 20⟩ ⟨[⟨10, 20⟩], by decide, .inl (by decide)⟩
    (scanRow (renewal 0 100 []) 0 100) (by decide) ⟨rfl, rfl⟩ 10 (by decide)
  exact hfree (by decide)

end PointNetwork.Network
