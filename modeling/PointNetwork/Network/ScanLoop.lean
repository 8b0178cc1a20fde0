import PointNetwork.Network.EventCacheTheorems

/-!
# The blocks that a renewal of the event cache asks for

The loop over `scanned_ranges` in `_renewContractEventsCache` of `network/providers/ethereum.js`,
for any sorted rows of `EventScan` and any query, with block numbers that may be any integers.
It asks for the blocks of the query that are in no row, each of them once
(`scanRequests_exact`). A renewal that succeeds makes these requests and no others
(`renewal_requests`).
-/

namespace PointNetwork.Network

/-- A range of blocks, both ends included. -/
structure BlockRange where
  fromBlock : ℤ
  toBlock : ℤ
  deriving DecidableEq

/-- The block is in the range. -/
def BlockRange.Covers (range : BlockRange) (x : ℤ) : Prop :=
  range.fromBlock ≤ x ∧ x ≤ range.toBlock

instance (range : BlockRange) (x : ℤ) : Decidable (range.Covers x) :=
  inferInstanceAs (Decidable (_ ∧ _))

section Loop

variable (pageSize : ℕ) (queryToBlock : ℤ)

/-- The loop over `scan_from`. A page has a block at least, so that the number of blocks bounds
the number of pages. -/
def pagesFrom (cursorEnd : ℤ) : ℕ → ℤ → List BlockRange
  | 0, _ => []
  | fuel + 1, scanFrom =>
    if scanFrom ≤ cursorEnd then
      ⟨scanFrom, min (min queryToBlock (scanFrom + pageSize - 1)) cursorEnd⟩
        :: pagesFrom cursorEnd fuel (scanFrom + pageSize)
    else []

/-- The requests made for the blocks before a range. -/
def scanBefore (cursor : ℤ) (range : BlockRange) : List BlockRange :=
  if range.fromBlock ≤ cursor then []
  else
    let cursorEnd := range.fromBlock - 1
    let rangeLength := cursorEnd - cursor
    -- don't scan negative ranges
    if rangeLength ≥ 0 then pagesFrom pageSize queryToBlock cursorEnd (rangeLength + 1).toNat cursor
    else []

/-- The loop over `scanned_ranges`. -/
def scanLoop : List BlockRange → ℤ → List BlockRange
  | [], _ => []
  | range :: rest, cursor =>
    let requests := scanBefore pageSize queryToBlock cursor range
    let cursor := max cursor (range.toBlock + 1)
    requests ++ if cursor > queryToBlock then [] else scanLoop rest cursor

end Loop

/-- The requests for a query whose ends may come in any order. -/
def scanRequests (pageSize : ℕ) (rows : List BlockRange) (queryFromBlock queryToBlock : ℤ) :
    List BlockRange :=
  let fromBlock := min queryFromBlock queryToBlock
  let toBlock := max queryFromBlock queryToBlock
  scanLoop pageSize toBlock (rows ++ [⟨toBlock + 1, toBlock + 1⟩]) fromBlock

/-- One row inside another, and one that reaches out of a query up to block 12. -/
def overlappingRows : List BlockRange := [⟨3, 5⟩, ⟨4, 4⟩, ⟨11, 20⟩]

example : scanRequests 4 overlappingRows 0 12 = [⟨0, 2⟩, ⟨6, 9⟩, ⟨10, 10⟩] := by decide

/-! ## The blocks of a list of requests -/

/-- How many of the requests ask for a block. -/
def timesAsked (requests : List BlockRange) (x : ℤ) : ℕ :=
  requests.countP fun p => decide (p.Covers x)

@[simp] lemma timesAsked_nil (x : ℤ) : timesAsked [] x = 0 := rfl

lemma timesAsked_cons (p : BlockRange) (requests : List BlockRange) (x : ℤ) :
    timesAsked (p :: requests) x = timesAsked requests x + if p.Covers x then 1 else 0 := by
  simp [timesAsked, List.countP_cons]

/-- The requests of two lists are counted together. -/
lemma timesAsked_append (ps qs : List BlockRange) (x : ℤ) :
    timesAsked (ps ++ qs) x = timesAsked ps x + timesAsked qs x :=
  List.countP_append

section Exact

variable {pageSize : ℕ} {queryToBlock : ℤ}

/-- The pages up to the end of a gap: each of its blocks in the query once. -/
lemma timesAsked_pagesFrom (hsize : 1 ≤ pageSize) {cursorEnd : ℤ} {fuel : ℕ} {scanFrom : ℤ}
    (hfuel : cursorEnd + 1 - scanFrom ≤ fuel) (x : ℤ) :
    timesAsked (pagesFrom pageSize queryToBlock cursorEnd fuel scanFrom) x =
      if scanFrom ≤ x ∧ x ≤ queryToBlock ∧ x ≤ cursorEnd then 1 else 0 := by
  induction fuel generalizing scanFrom with
  | zero =>
    rw [pagesFrom, timesAsked_nil, if_neg (by omega)]
  | succ fuel ih =>
    rw [pagesFrom]
    split
    · rw [timesAsked_cons, ih (by omega)]
      simp only [BlockRange.Covers, le_min_iff]
      split <;> split <;> split <;> omega
    · rw [timesAsked_nil, if_neg (by omega)]

/-- Before a range each block is asked for once. -/
lemma timesAsked_scanBefore (hsize : 1 ≤ pageSize) (cursor : ℤ) (range : BlockRange) (x : ℤ) :
    timesAsked (scanBefore pageSize queryToBlock cursor range) x =
      if cursor ≤ x ∧ x ≤ queryToBlock ∧ x < range.fromBlock then 1 else 0 := by
  unfold scanBefore
  split
  · rw [timesAsked_nil, if_neg (by omega)]
  · dsimp only
    rw [if_pos (by omega), timesAsked_pagesFrom hsize (by omega)]
    congr 1
    rw [Int.le_sub_one_iff]

/-- A block that is in no row. -/
def Uncovered (rows : List BlockRange) (x : ℤ) : Prop := ∀ row ∈ rows, ¬ row.Covers x

@[simp] lemma uncovered_cons (row : BlockRange) (rows : List BlockRange) (x : ℤ) :
    Uncovered (row :: rows) x ↔ ¬ row.Covers x ∧ Uncovered rows x := by
  simp [Uncovered]

/-- Rows that begin later leave a block alone. -/
lemma uncovered_of_lt {row : BlockRange} {rows : List BlockRange} {x : ℤ}
    (hsorted : ∀ row' ∈ rows, row.fromBlock ≤ row'.fromBlock) (hx : x < row.fromBlock) :
    Uncovered rows x := by
  intro row' hrow' hcovers
  have hle := hsorted row' hrow'
  have hlow := hcovers.1
  omega

/-- The fake range ends the loop. -/
lemma timesAsked_scanLoop_nil (hsize : 1 ≤ pageSize) (cursor x : ℤ) :
    timesAsked (scanLoop pageSize queryToBlock [⟨queryToBlock + 1, queryToBlock + 1⟩] cursor) x =
      if cursor ≤ x ∧ x ≤ queryToBlock then 1 else 0 := by
  rw [scanLoop, timesAsked_append, timesAsked_scanBefore hsize]
  dsimp only
  rw [if_pos (by omega : max cursor (queryToBlock + 1 + 1) > queryToBlock), timesAsked_nil,
    Nat.add_zero]
  apply if_congr _ rfl rfl
  omega

/-- The loop asks for the blocks before the first row, and goes on behind it. -/
lemma timesAsked_scanLoop_cons (hsize : 1 ≤ pageSize) (row : BlockRange) (rows : List BlockRange)
    (cursor x : ℤ) : timesAsked (scanLoop pageSize queryToBlock (row :: rows) cursor) x =
      (if cursor ≤ x ∧ x ≤ queryToBlock ∧ x < row.fromBlock then 1 else 0) +
        if max cursor (row.toBlock + 1) > queryToBlock then 0 else
          timesAsked (scanLoop pageSize queryToBlock rows (max cursor (row.toBlock + 1))) x := by
  rw [scanLoop, timesAsked_append, timesAsked_scanBefore hsize]
  congr 1
  split <;> rfl

/-- From a cursor on: the uncovered blocks once, the others not at all. -/
lemma timesAsked_scanLoop (hsize : 1 ≤ pageSize) {rows : List BlockRange}
    (hsorted : rows.Pairwise fun row row' => row.fromBlock ≤ row'.fromBlock)
    (hrows : ∀ row ∈ rows, row.fromBlock ≤ row.toBlock) (cursor x : ℤ) :
    let asked := timesAsked (scanLoop pageSize queryToBlock
      (rows ++ [⟨queryToBlock + 1, queryToBlock + 1⟩]) cursor) x
    ((cursor ≤ x ∧ x ≤ queryToBlock) ∧ Uncovered rows x → asked = 1) ∧
      (¬ ((cursor ≤ x ∧ x ≤ queryToBlock) ∧ Uncovered rows x) → asked = 0) := by
  intro asked
  induction rows generalizing cursor with
  | nil =>
    have hasked : asked = if cursor ≤ x ∧ x ≤ queryToBlock then 1 else 0 :=
      timesAsked_scanLoop_nil hsize cursor x
    have hu : Uncovered [] x := by simp [Uncovered]
    simp only [hu, and_true]
    split at hasked <;> omega
  | cons row rows ih =>
    rw [List.pairwise_cons] at hsorted
    have hrow := hrows row List.mem_cons_self
    have hrest := ih hsorted.2 (fun row' hrow' => hrows row' (List.mem_cons_of_mem _ hrow'))
      (max cursor (row.toBlock + 1))
    have hasked : asked = (if cursor ≤ x ∧ x ≤ queryToBlock ∧ x < row.fromBlock then 1 else 0) +
        if max cursor (row.toBlock + 1) > queryToBlock then 0 else
          timesAsked (scanLoop pageSize queryToBlock
            (rows ++ [⟨queryToBlock + 1, queryToBlock + 1⟩]) (max cursor (row.toBlock + 1))) x :=
      timesAsked_scanLoop_cons hsize row _ cursor x
    rw [uncovered_cons]
    simp only [BlockRange.Covers]
    -- a covered block lies in this row, or in one behind it
    by_cases hu : Uncovered rows x
    · simp only [hu, and_true] at hrest ⊢
      split at hasked <;> split at hasked <;> omega
    · have hge : row.fromBlock ≤ x := by
        by_contra hx
        exact hu (uncovered_of_lt hsorted.1 (by omega))
      have hzero := hrest.2 fun h => hu h.2
      refine ⟨fun h => absurd h.2.2 hu, fun _ => ?_⟩
      split at hasked <;> split at hasked <;> omega

/-! ## The pages -/

/-- No page has more blocks than the page size. -/
lemma length_pagesFrom {cursorEnd : ℤ} {fuel : ℕ} {scanFrom : ℤ} :
    ∀ p ∈ pagesFrom pageSize queryToBlock cursorEnd fuel scanFrom,
      p.toBlock - p.fromBlock + 1 ≤ pageSize := by
  induction fuel generalizing scanFrom with
  | zero => intro p hp; cases hp
  | succ fuel ih =>
    intro p hp
    rw [pagesFrom] at hp
    split at hp
    · rcases List.mem_cons.mp hp with rfl | hp
      · show min (min _ _) _ - scanFrom + 1 ≤ _
        omega
      · exact ih p hp
    · cases hp

/-- The pages of a gap that ends in the query. -/
lemma within_pagesFrom (hsize : 1 ≤ pageSize) {cursorEnd : ℤ} (hend : cursorEnd ≤ queryToBlock)
    {fuel : ℕ} {scanFrom : ℤ} :
    ∀ p ∈ pagesFrom pageSize queryToBlock cursorEnd fuel scanFrom,
      scanFrom ≤ p.fromBlock ∧ p.fromBlock ≤ p.toBlock ∧ p.toBlock ≤ queryToBlock := by
  induction fuel generalizing scanFrom with
  | zero => intro p hp; cases hp
  | succ fuel ih =>
    intro p hp
    rw [pagesFrom] at hp
    split at hp
    · rcases List.mem_cons.mp hp with rfl | hp
      · show scanFrom ≤ scanFrom ∧ scanFrom ≤ min (min _ _) _ ∧ min (min _ _) _ ≤ queryToBlock
        omega
      · have := ih p hp
        omega
    · cases hp

/-- The requests before a range are pages of the gap that ends in front of it. -/
lemma pages_of_scanBefore {cursor : ℤ} {range p : BlockRange}
    (hp : p ∈ scanBefore pageSize queryToBlock cursor range) :
    ∃ fuel, p ∈ pagesFrom pageSize queryToBlock (range.fromBlock - 1) fuel cursor := by
  unfold scanBefore at hp
  split at hp
  · cases hp
  · dsimp only at hp
    rw [if_pos (by omega)] at hp
    exact ⟨_, hp⟩

/-- What holds of the requests before every range holds of the requests of the loop. -/
lemma forall_mem_scanLoop {P : BlockRange → Prop} {ranges : List BlockRange} {low cursor : ℤ}
    (hlow : low ≤ cursor)
    (h : ∀ range ∈ ranges, ∀ cursor, low ≤ cursor →
      ∀ p ∈ scanBefore pageSize queryToBlock cursor range, P p) :
    ∀ p ∈ scanLoop pageSize queryToBlock ranges cursor, P p := by
  induction ranges generalizing cursor with
  | nil => intro p hp; cases hp
  | cons range rest ih =>
    intro p hp
    rw [scanLoop, List.mem_append] at hp
    rcases hp with hp | hp
    · exact h range List.mem_cons_self cursor hlow p hp
    · split at hp
      · cases hp
      · exact ih (by omega) (fun range' hrange => h range' (List.mem_cons_of_mem _ hrange)) p hp

end Exact

/-- The scan asks for the blocks of the query that are in no row, for each of them once, and for
no other block, in pages of at most `pageSize` blocks. When no row starts behind the query, as
none does that `EventScan.findAll` returns, no page is empty. -/
theorem scanRequests_exact {pageSize : ℕ} (hsize : 1 ≤ pageSize) {rows : List BlockRange}
    (hsorted : rows.Pairwise fun row row' => row.fromBlock ≤ row'.fromBlock)
    (hrows : ∀ row ∈ rows, row.fromBlock ≤ row.toBlock) (queryFromBlock queryToBlock : ℤ) :
    let fromBlock := min queryFromBlock queryToBlock
    let toBlock := max queryFromBlock queryToBlock
    let requests := scanRequests pageSize rows queryFromBlock queryToBlock
    (∀ x, ((fromBlock ≤ x ∧ x ≤ toBlock) ∧ Uncovered rows x → timesAsked requests x = 1) ∧
      (¬ ((fromBlock ≤ x ∧ x ≤ toBlock) ∧ Uncovered rows x) → timesAsked requests x = 0)) ∧
    (∀ p ∈ requests, p.toBlock - p.fromBlock + 1 ≤ pageSize) ∧
    ((∀ row ∈ rows, row.fromBlock ≤ toBlock) →
      ∀ p ∈ requests, fromBlock ≤ p.fromBlock ∧ p.fromBlock ≤ p.toBlock ∧ p.toBlock ≤ toBlock) := by
  intro fromBlock toBlock requests
  refine ⟨timesAsked_scanLoop hsize hsorted hrows fromBlock, ?_, ?_⟩
  · apply forall_mem_scanLoop (P := fun p => p.toBlock - p.fromBlock + 1 ≤ pageSize)
      (le_refl fromBlock)
    intro range _ cursor _ p hp
    rcases pages_of_scanBefore hp with ⟨_, hp⟩
    exact length_pagesFrom p hp
  · intro hreach
    apply forall_mem_scanLoop (P := fun p =>
      fromBlock ≤ p.fromBlock ∧ p.fromBlock ≤ p.toBlock ∧ p.toBlock ≤ toBlock) (le_refl fromBlock)
    intro range hrange cursor hcursor p hp
    have hend : range.fromBlock - 1 ≤ toBlock := by
      rcases List.mem_append.mp hrange with hrange | hrange
      · have := hreach range hrange
        omega
      · rw [List.mem_singleton.mp hrange]
        show toBlock + 1 - 1 ≤ toBlock
        omega
    rcases pages_of_scanBefore hp with ⟨_, hp⟩
    have := within_pagesFrom hsize hend p hp
    omega

theorem scanRequests_exact_overlapping :
    let requests := scanRequests 4 overlappingRows 0 12
    (∀ x, ((min 0 12 ≤ x ∧ x ≤ max 0 12) ∧ Uncovered overlappingRows x →
        timesAsked requests x = 1) ∧
      (¬ ((min 0 12 ≤ x ∧ x ≤ max 0 12) ∧ Uncovered overlappingRows x) →
        timesAsked requests x = 0)) ∧
    (∀ p ∈ requests, p.toBlock - p.fromBlock + 1 ≤ 4) ∧
    ((∀ row ∈ overlappingRows, row.fromBlock ≤ max 0 12) →
      ∀ p ∈ requests, min 0 12 ≤ p.fromBlock ∧ p.fromBlock ≤ p.toBlock ∧ p.toBlock ≤ max 0 12) :=
  scanRequests_exact (by decide) (by decide) (by decide) 0 12

/-! ## The requests of a renewal -/

section Renewal

variable (env : Env) (r : Renewal)

/-- The blocks of a request. -/
def Fetch.range (f : Fetch) : BlockRange := ⟨f.fromBlock, f.toBlock⟩

/-- The blocks of a row. -/
def ScanRow.range (row : ScanRow) : BlockRange := ⟨row.fromBlock, row.toBlock⟩

/-- The blocks of a scanned range. -/
def ScannedRange.range (range : ScannedRange) : BlockRange := ⟨range.fromBlock, range.toBlock⟩

/-- The blocks of a page. -/
def requestRange (p : ℕ × ℕ) : BlockRange := ⟨p.1, p.2⟩

/-- The pages of a gap, the first one and the others. -/
lemma pages_unfold (cursor cursorEnd : ℕ) :
    pages env r cursor cursorEnd = if cursor ≤ cursorEnd then
      (cursor, min (min r.toBlock (cursor + env.pageSize - 1)) cursorEnd)
        :: pages env r (cursor + env.pageSize) cursorEnd
    else [] := by
  have hpos := env.pageSize_pos
  unfold pages
  split
  · rename_i hle
    rw [List.range'_succ, List.map_cons]
    congr 1
    by_cases hnext : cursor + env.pageSize ≤ cursorEnd
    · rw [if_pos hnext]
      congr 2
      rw [Nat.div_eq_sub_div hpos (by omega), Nat.sub_sub]
    · rw [if_neg hnext, Nat.div_eq_of_lt (by omega)]
      rfl
  · rfl

/-- The pages of the model are those of the loop. -/
lemma map_pages {cursor cursorEnd fuel : ℕ} (hfuel : cursorEnd + 1 ≤ fuel + cursor) :
    (pages env r cursor cursorEnd).map requestRange =
      pagesFrom env.pageSize r.toBlock cursorEnd fuel cursor := by
  have hpos := env.pageSize_pos
  induction fuel generalizing cursor with
  | zero =>
    rw [pages_unfold, if_neg (by omega)]
    rfl
  | succ fuel ih =>
    rw [pages_unfold, pagesFrom]
    by_cases hle : cursor ≤ cursorEnd
    · have hrest := @ih (cursor + env.pageSize) (by omega)
      rw [if_pos hle, if_pos (by omega), List.map_cons, hrest, Nat.cast_add]
      congr 1
      have hend : ((min (min r.toBlock (cursor + env.pageSize - 1)) cursorEnd : ℕ) : ℤ) =
          min (min (r.toBlock : ℤ) (cursor + env.pageSize - 1)) cursorEnd := by
        omega
      rw [requestRange, hend]
    · rw [if_neg hle, if_neg (by omega), List.map_nil]

/-- The requests before a range are those of the loop. -/
lemma map_gap (cursor : ℕ) (range : ScannedRange) :
    (gap env r cursor range).map requestRange =
      scanBefore env.pageSize r.toBlock cursor range.range := by
  have hcast : range.range.fromBlock ≤ cursor ↔ range.fromBlock ≤ cursor := Nat.cast_le
  by_cases hle : range.fromBlock ≤ cursor
  · rw [gap, if_pos hle, scanBefore, if_pos (hcast.mpr hle), List.map_nil]
  · have hend : range.range.fromBlock - 1 = ((range.fromBlock - 1 : ℕ) : ℤ) := by
      show (range.fromBlock : ℤ) - 1 = _
      omega
    rw [gap, if_neg hle, scanBefore, if_neg (mt hcast.mp hle)]
    dsimp only
    rw [hend, if_pos (by omega)]
    exact map_pages env r (by omega)

/-- The requests answered so far. -/
def asked (db : Db) : List BlockRange := db.fetched.map Fetch.range

/-- The pages are asked for in order, all of them unless one fails. -/
lemma scanPages_asked (ps : List (ℕ × ℕ)) (replies : List (List EventLog)) (db : Db) :
    ∃ made, made <+: ps.map requestRange ∧
      asked (scanPages env r ps replies db).1 = asked db ++ made ∧
      ((scanPages env r ps replies db).2.isSome → made = ps.map requestRange) := by
  induction ps generalizing replies db with
  | nil => exact ⟨[], List.prefix_refl _, (List.append_nil _).symm, fun _ => rfl⟩
  | cons p ps ih =>
    cases replies with
    | nil => exact ⟨[], List.nil_prefix, (List.append_nil _).symm, fun h => by cases h⟩
    | cons events replies =>
      rcases ih replies (performScanForContractEvents env r p.1 p.2 events db)
        with ⟨made, hmade, hasked, hall⟩
      refine ⟨requestRange p :: made, ?_, ?_, ?_⟩
      · rw [List.map_cons]
        exact (List.prefix_cons_inj _).mpr hmade
      · show asked (scanPages env r ps replies _).1 = _
        rw [hasked, asked, asked, performScanForContractEvents, List.map_append,
          List.append_assoc]
        rfl
      · intro h
        rw [List.map_cons, hall h]

/-- The loop over the scanned ranges makes these requests, one after the other, and all of them
unless one fails. -/
lemma scanRanges_asked (ranges : List ScannedRange) (cursor m : ℕ)
    (replies : List (List EventLog)) (db : Db) :
    let loop := scanLoop env.pageSize r.toBlock (ranges.map ScannedRange.range) cursor
    ∃ made, made <+: loop ∧
      asked (scanRanges env r ranges cursor m replies db).1 = asked db ++ made ∧
      ((scanRanges env r ranges cursor m replies db).2.isSome → made = loop) := by
  intro loop
  induction ranges generalizing cursor m replies db with
  | nil => exact ⟨[], List.prefix_refl _, (List.append_nil _).symm, fun _ => rfl⟩
  | cons range rest ih =>
    rcases scanPages_asked env r (gap env r cursor range) replies db
      with ⟨made, hmade, hasked, hall⟩
    rw [map_gap] at hmade hall
    cases hpages : scanPages env r (gap env r cursor range) replies db with
    | mk db₁ left =>
      rw [hpages] at hasked hall
      cases left with
      | none =>
        rw [scanRanges_failed hpages]
        exact ⟨made, hmade.trans (List.prefix_append _ _), hasked, fun h => by cases h⟩
      | some left =>
        rw [scanRanges_scanned hpages]
        -- the cursor of the loop is an integer, that of the code a natural number
        have hcursor : max (cursor : ℤ) (range.range.toBlock + 1) =
            ((max cursor (range.toBlock + 1) : ℕ) : ℤ) := by
          show max (cursor : ℤ) (range.toBlock + 1) = _
          omega
        have hmade' := hall rfl
        -- the loop asks for the pages of the gap, then goes on behind the range
        have hloop : loop = made ++ if max cursor (range.toBlock + 1) > r.toBlock then [] else
            scanLoop env.pageSize r.toBlock (rest.map ScannedRange.range)
              (max cursor (range.toBlock + 1) : ℕ) := by
          show scanLoop _ _ (_ :: _) _ = _
          rw [scanLoop, hcursor, ← hmade']
          simp only [gt_iff_lt, Nat.cast_lt]
        rw [hloop]
        split
        · exact ⟨made, by rw [List.append_nil], hasked, fun _ => by rw [List.append_nil]⟩
        · rcases ih (max cursor (range.toBlock + 1))
            (if range.fake then m else max m range.toBlock) left db₁ with ⟨made', hpre, hasked', hall'⟩
          refine ⟨made ++ made', (List.prefix_append_right_inj _).mpr hpre, ?_, ?_⟩
          · rw [hasked', hasked, List.append_assoc]
          · intro h
            rw [hall' h]

/-- The rows of `EventScan` that a renewal finds. -/
def rangesInReach (db : Db) : List BlockRange := (rowsInReach r db.scans).map ScanRow.range

lemma scannedRanges_range (rows : List ScanRow) :
    (scannedRanges r rows).map ScannedRange.range =
      rows.map ScanRow.range ++ [⟨r.toBlock + 1, r.toBlock + 1⟩] := by
  simp only [scannedRanges, List.map_append, List.map_map, List.map_cons, List.map_nil]
  rfl

lemma asked_collapse (first : ScanRow) (m : ℕ) (db : Db) :
    asked (collapse r first m db) = asked db := by
  unfold collapse
  split <;> rfl

/-- The requests for the query of a renewal, chronological as it is. -/
lemma scanRequests_eq (rows : List BlockRange) :
    scanRequests env.pageSize rows r.queryFromBlock r.queryToBlock =
      scanLoop env.pageSize r.toBlock (rows ++ [⟨r.toBlock + 1, r.toBlock + 1⟩]) r.fromBlock := by
  show scanLoop _ (max _ _) _ (min _ _) = _
  rw [← Nat.cast_max, ← Nat.cast_min]
  rfl

variable {env r}

/-- A renewal makes the requests of the loop in order, and all of them if none fails. -/
theorem renewal_requests {db db' : Db} (hs : renewContractEventsCache env r db = some db') :
    let requests := scanRequests env.pageSize (rangesInReach r db) r.queryFromBlock r.queryToBlock
    ∃ made, made <+: requests ∧ asked db' = asked db ++ made ∧
      (r.fails = false → made = requests) := by
  intro requests
  rcases renew_cases hs with ⟨db₁, out, hscan, hcases⟩
  rcases scanRanges_asked env r (scannedRanges r (rowsInReach r db.scans)) r.fromBlock 0 r.replies db
    with ⟨made, hmade, hasked, hall⟩
  rw [scannedRanges_range, ← scanRequests_eq] at hmade hall
  rw [hscan] at hasked hall
  refine ⟨made, hmade, ?_, ?_⟩
  · rcases hcases with ⟨-, -, rfl⟩ | ⟨m, -, -, ⟨-, rfl⟩ | ⟨first, -, rfl⟩⟩
    · exact hasked
    · exact hasked
    · rw [asked_collapse]
      exact hasked
  · intro hfails
    rcases hcases with ⟨-, hfailed, -⟩ | ⟨m, rfl, -⟩
    · rw [hfails] at hfailed
      cases hfailed
    · exact hall rfl

/-- The rows come in the order of their first blocks. -/
lemma rangesInReach_sorted (db : Db) :
    (rangesInReach r db).Pairwise fun row row' => row.fromBlock ≤ row'.fromBlock := by
  have hsorted := List.pairwise_insertionSort (fun row row' : ScanRow =>
    row.fromBlock ≤ row'.fromBlock) (db.scans.filter (inReach r))
  apply List.pairwise_map.mpr
  exact hsorted.imp fun h => Int.ofNat_le.mpr h

/-- Every block of the query that no row found covers is asked for once by a renewal that
succeeds, and no other block is. -/
theorem renewal_exact {db db' : Db} (h : Inv env db)
    (hs : renewContractEventsCache env r db = some db') (hfails : r.fails = false) :
    ∃ made, asked db' = asked db ++ made ∧ ∀ x,
      (((r.fromBlock : ℤ) ≤ x ∧ x ≤ r.toBlock) ∧ Uncovered (rangesInReach r db) x →
        timesAsked made x = 1) ∧
      (¬ (((r.fromBlock : ℤ) ≤ x ∧ x ≤ r.toBlock) ∧ Uncovered (rangesInReach r db) x) →
        timesAsked made x = 0) := by
  rcases renewal_requests hs with ⟨made, -, hasked, hall⟩
  have hrows : ∀ row ∈ rangesInReach r db, row.fromBlock ≤ row.toBlock := by
    intro range hrange
    rcases List.mem_map.mp hrange with ⟨row, hrow, rfl⟩
    have hmem := (List.perm_insertionSort _ _).mem_iff.mp hrow
    exact Int.ofNat_le.mpr (h.chronological row (List.mem_of_mem_filter hmem))
  refine ⟨made, hasked, ?_⟩
  rw [hall hfails, scanRequests_eq]
  exact timesAsked_scanLoop env.pageSize_pos (rangesInReach_sorted db) hrows r.fromBlock

end Renewal

end PointNetwork.Network
