import PointNetwork.Network.EventCache

/-!
# What the cache of contract events covers

A renewal asks for every block of its range and stores what it gets (`scanRanges_covers`), so
what a failed renewal leaves behind is covered. The collapse is where blocks are lost: it takes
the row that `EventScan.findOne()` returns, of whatever chain and contract, and widens it over
every block in between.

* `Inv`, `step_inv`: the rows of `EventScan` cover fetched blocks only, in runs whose collapses
  widen a row over fetched blocks only (`Sound`);
* `cache_covered`: so every covered block has been fetched and its events are stored;
* `collapse_uncovers`: any other collapse covers a block that was never fetched.
-/

namespace PointNetwork.Network

open Js

/-! ## What is fetched and what is stored -/

/-- The row holds this event of this contract and chain. -/
def Holds (env : Env) (chainId : ℕ) (contractAddress : JsString) (event : EventLog)
    (row : EventRow) : Prop :=
  row.id = eventId env contractAddress event ∧ row.chainId = chainId ∧
    row.contractAddress = contractAddress ∧ row.rawId = event.id ∧
    row.transactionHash = event.transactionHash

/-- The events of a request are stored. -/
def Stored (env : Env) (db : Db) (f : Fetch) : Prop :=
  ∀ event ∈ f.events, ∃ row ∈ db.events, Holds env f.chainId f.contractAddress event row

/-- A request that was answered asked for the events of this block. -/
def Fetched (db : Db) (chainId : ℕ) (contractAddress : JsString) (b : ℕ) : Prop :=
  ∃ f ∈ db.fetched, f.chainId = chainId ∧ f.contractAddress = contractAddress ∧
    f.fromBlock ≤ b ∧ b ≤ f.toBlock

/-- Every block of a row of `EventScan` was asked for, for the row's own chain and contract, and
the events in the answer are stored. -/
def Covered (env : Env) (db : Db) : Prop :=
  ∀ row ∈ db.scans, ∀ b, row.fromBlock ≤ b → b ≤ row.toBlock →
    ∃ f ∈ db.fetched, f.chainId = row.chainId ∧ f.contractAddress = row.contractAddress ∧
      f.fromBlock ≤ b ∧ b ≤ f.toBlock ∧ Stored env db f

/-- What holds of the tables after any renewals. -/
structure Inv (env : Env) (db : Db) : Prop where
  keyed : Table.Keyed ScanRow.id db.scans
  chronological : ∀ row ∈ db.scans, row.fromBlock ≤ row.toBlock
  rows_fetched : ∀ row ∈ db.scans, ∀ b, row.fromBlock ≤ b → b ≤ row.toBlock →
    Fetched db row.chainId row.contractAddress b
  stored : ∀ f ∈ db.fetched, Stored env db f

/-- Each block of a row has been fetched, and its events are stored. -/
theorem Inv.covered {env : Env} {db : Db} (h : Inv env db) : Covered env db := by
  intro row hrow b hfrom hto
  obtain ⟨f, hf, hchain, hcontract, hlo, hhi⟩ := h.rows_fetched row hrow b hfrom hto
  exact ⟨f, hf, hchain, hcontract, hlo, hhi, h.stored f hf⟩

theorem inv_init (env : Env) : Inv env Db.init where
  keyed := List.nodup_nil
  chronological := by simp [Db.init]
  rows_fetched := by simp [Db.init]
  stored := by simp [Db.init]

section

variable {env : Env} {r : Renewal}

/-! ## When the ids of events tell them apart -/

/-- The stored rows with the id of one of these events hold this event. -/
def RowsAgree (env : Env) (r : Renewal) (all : List EventLog) (rows : List EventRow) : Prop :=
  ∀ event ∈ all, ∀ row ∈ rows, row.id = eventId env r.contractAddress event →
    Holds env r.chainId r.contractAddress event row

/-- Different events among these have different ids. -/
def IdsAgree (env : Env) (r : Renewal) (all : List EventLog) : Prop :=
  ∀ event ∈ all, ∀ event' ∈ all,
    eventId env r.contractAddress event = eventId env r.contractAddress event' →
      event.id = event'.id ∧ event.transactionHash = event'.transactionHash

/-- What holds of the events while those of a renewal are stored one by one. -/
structure Storing (env : Env) (r : Renewal) (all : List EventLog) (fetched : List Fetch)
    (rows : List EventRow) : Prop where
  agree : RowsAgree env r all rows
  stored : ∀ f ∈ fetched, ∀ event ∈ f.events,
    ∃ row ∈ rows, Holds env f.chainId f.contractAddress event row

theorem holds_eventRow (env : Env) (r : Renewal) (event : EventLog) :
    Holds env r.chainId r.contractAddress event (eventRow env r event) :=
  ⟨rfl, rfl, rfl, rfl, rfl⟩

/-- The row of an event is stored, and the others stay. -/
theorem Storing.upsert {all : List EventLog} {fetched : List Fetch} {rows : List EventRow}
    {event : EventLog} (hids : IdsAgree env r all) (hevent : event ∈ all)
    (h : Storing env r all fetched rows) :
    Storing env r all fetched (Table.upsert EventRow.id (eventRow env r event) rows) where
  agree := by
    intro event' hevent' row hrow hid
    obtain rfl | ⟨hold, -⟩ := Table.of_mem_upsert hrow
    · obtain ⟨hraw, htx⟩ := hids event hevent event' hevent' hid
      exact ⟨hid, rfl, rfl, hraw, htx⟩
    · exact h.agree event' hevent' row hold hid
  stored := by
    intro f hf event' hevent'
    obtain ⟨row, hrow, hholds⟩ := h.stored f hf event' hevent'
    by_cases hkey : row.id = (eventRow env r event).id
    · -- the new row takes the place of a row that holds the same event
      refine ⟨eventRow env r event, Table.mem_upsert_self _ _ _, ?_⟩
      obtain ⟨hid, hchain, hcontract, hraw, htx⟩ := hholds
      obtain ⟨-, hchain', hcontract', hraw', htx'⟩ := h.agree event hevent row hrow hkey
      exact ⟨hkey.symm.trans hid, hchain'.symm.trans hchain, hcontract'.symm.trans hcontract,
        hraw'.symm.trans hraw, htx'.symm.trans htx⟩
    · exact ⟨row, Table.mem_upsert_of_ne hrow hkey, hholds⟩

/-- The rows of all events of a page are stored. -/
theorem Storing.storeEvents {all : List EventLog} {fetched : List Fetch}
    {events : List EventLog} {rows : List EventRow} (hids : IdsAgree env r all)
    (hevents : ∀ event ∈ events, event ∈ all) (h : Storing env r all fetched rows) :
    Storing env r all fetched (storeEvents env r events rows) := by
  induction events generalizing rows with
  | nil => exact h
  | cons event events ih =>
    apply ih (fun e he => hevents e (List.mem_cons_of_mem _ he))
    exact h.upsert hids (hevents event List.mem_cons_self)

/-- Storing events that a row holds already, or stores anew, ends with a row for each. -/
theorem storeEvents_holds {all events : List EventLog} {rows : List EventRow}
    (hids : IdsAgree env r all) (hevents : ∀ event ∈ events, event ∈ all)
    (hagree : RowsAgree env r all rows) :
    ∀ event ∈ events, ∃ row ∈ storeEvents env r events rows,
      Holds env r.chainId r.contractAddress event row := by
  induction events generalizing rows with
  | nil => simp
  | cons event events ih =>
    have hrest : ∀ e ∈ events, e ∈ all := fun e he => hevents e (List.mem_cons_of_mem _ he)
    have hone : Storing env r all [⟨r.contractAddress, r.chainId, 0, 0, [event]⟩]
        (Table.upsert EventRow.id (eventRow env r event) rows) := by
      have hbase : Storing env r all [] rows := ⟨hagree, by simp⟩
      refine ⟨(hbase.upsert hids (hevents event List.mem_cons_self)).agree, ?_⟩
      intro f hf e he
      rw [List.mem_singleton.mp hf] at he ⊢
      rw [List.mem_singleton.mp he]
      exact ⟨_, Table.mem_upsert_self _ _ _, holds_eventRow env r event⟩
    intro e he
    obtain rfl | he := List.mem_cons.mp he
    · exact (hone.storeEvents hids hrest).stored _ (List.mem_singleton_self _) _
        (List.mem_singleton_self _)
    · exact ih hrest hone.agree e he

/-! ## The scan of a page -/

/-- What a scan keeps: the invariant, and the rows that the events to come agree with. -/
structure Scanning (env : Env) (r : Renewal) (all : List EventLog) (db : Db) : Prop
    extends Inv env db where
  agree : RowsAgree env r all db.events

/-- What has been fetched stays fetched. -/
theorem Fetched.append {db : Db} {c : ℕ} {a : JsString} {b : ℕ} (h : Fetched db c a b)
    {db' : Db} {fs : List Fetch} (hdb : db'.fetched = db.fetched ++ fs) : Fetched db' c a b := by
  obtain ⟨f, hf, hrest⟩ := h
  exact ⟨f, hdb ▸ List.mem_append_left _ hf, hrest⟩

/-- A request keeps the invariant. -/
theorem Scanning.perform {all events : List EventLog} {db : Db} {lo hi : ℕ}
    (hids : IdsAgree env r all) (hevents : ∀ event ∈ events, event ∈ all) (hle : lo ≤ hi)
    (h : Scanning env r all db) :
    Scanning env r all (performScanForContractEvents env r lo hi events db) := by
  have hstoring : Storing env r all db.fetched (storeEvents env r events db.events) :=
    Storing.storeEvents hids hevents ⟨h.agree, h.stored⟩
  have hnew : Fetch.mk r.contractAddress r.chainId lo hi events ∈
      (performScanForContractEvents env r lo hi events db).fetched :=
    List.mem_append_right _ (List.mem_singleton_self _)
  exact {
    keyed := h.keyed.upsert
    chronological := by
      intro row hrow
      obtain rfl | ⟨hold, -⟩ := Table.of_mem_upsert hrow
      · exact hle
      · exact h.chronological row hold
    rows_fetched := by
      intro row hrow b hfrom hto
      obtain rfl | ⟨hold, -⟩ := Table.of_mem_upsert hrow
      · exact ⟨_, hnew, rfl, rfl, hfrom, hto⟩
      · exact (h.rows_fetched row hold b hfrom hto).append rfl
    stored := by
      intro f hf
      obtain hold | hf := List.mem_append.mp hf
      · exact hstoring.stored f hold
      · rw [List.mem_singleton.mp hf]
        exact storeEvents_holds hids hevents h.agree
    agree := hstoring.agree }

/-! ## The scan of a gap -/

theorem Renewal.fromBlock_le (r : Renewal) : r.fromBlock ≤ r.toBlock := min_le_max

/-- Where a page of the loop begins and ends. -/
theorem mem_pages {cursor cursorEnd : ℕ} {p : ℕ × ℕ} (hend : cursorEnd ≤ r.toBlock)
    (h : p ∈ pages env r cursor cursorEnd) :
    cursor ≤ p.1 ∧ p.1 ≤ p.2 ∧ p.2 ≤ cursorEnd := by
  unfold pages at h
  split at h
  · rename_i hle
    obtain ⟨scanFrom, hfrom, rfl⟩ := List.mem_map.mp h
    obtain ⟨i, hi, rfl⟩ := List.mem_range'.mp hfrom
    have hsize : env.pageSize * i ≤ cursorEnd - cursor :=
      calc env.pageSize * i ≤ env.pageSize * ((cursorEnd - cursor) / env.pageSize) :=
            Nat.mul_le_mul_left _ (by omega)
        _ ≤ cursorEnd - cursor := Nat.mul_div_le _ _
    have hpos := env.pageSize_pos
    refine ⟨Nat.le_add_right _ _, ?_, min_le_right _ _⟩
    show _ ≤ min (min _ _) _
    omega
  · cases h

/-- The pages of a gap leave no block out. -/
theorem pages_cover (env : Env) {cursor cursorEnd b : ℕ} (hend : cursorEnd ≤ r.toBlock) (hlo : cursor ≤ b)
    (hhi : b ≤ cursorEnd) : ∃ p ∈ pages env r cursor cursorEnd, p.1 ≤ b ∧ b ≤ p.2 := by
  unfold pages
  rw [if_pos (hlo.trans hhi)]
  have hpos := env.pageSize_pos
  -- the page that starts at the last multiple of the page size before the block
  let i := (b - cursor) / env.pageSize
  have hi : i < (cursorEnd - cursor) / env.pageSize + 1 :=
    Nat.lt_succ_of_le (Nat.div_le_div_right (by omega))
  have hstart : env.pageSize * i ≤ b - cursor := Nat.mul_div_le _ _
  have hstop : b - cursor < env.pageSize * i + env.pageSize := by
    have hmod := Nat.mod_lt (b - cursor) hpos
    have hdiv := Nat.div_add_mod (b - cursor) env.pageSize
    show _ < env.pageSize * ((b - cursor) / env.pageSize) + _
    omega
  refine ⟨_, List.mem_map.mpr ⟨cursor + env.pageSize * i, List.mem_range'.mpr ⟨i, hi, rfl⟩, rfl⟩,
    ?_, ?_⟩
  · show cursor + env.pageSize * i ≤ b
    omega
  · show b ≤ min (min _ _) _
    omega

/-- A row that a scan of this renewal has written. -/
def Fresh (r : Renewal) (row : ScanRow) : Prop :=
  row.chainId = r.chainId ∧ row.contractAddress = r.contractAddress ∧
    r.fromBlock ≤ row.fromBlock ∧ row.toBlock ≤ r.toBlock

/-- What the scans of a renewal do to the tables. -/
structure Grown (r : Renewal) (db db' : Db) : Prop where
  keeps : ∀ c a b, Fetched db c a b → Fetched db' c a b
  only : ∀ c a b, Fetched db' c a b →
    Fetched db c a b ∨
      c = r.chainId ∧ a = r.contractAddress ∧ r.fromBlock ≤ b ∧ b ≤ r.toBlock
  rows : ∀ (i : ℕ) (row : ScanRow), db'.scans[i]? = some row → db.scans[i]? = some row ∨ Fresh r row

theorem Grown.refl (r : Renewal) (db : Db) : Grown r db db where
  keeps _ _ _ h := h
  only _ _ _ h := .inl h
  rows _ _ h := .inl h

/-- The tables grow over several requests. -/
theorem Grown.trans {db db' db'' : Db} (h : Grown r db db') (h' : Grown r db' db'') :
    Grown r db db'' where
  keeps c a b hb := h'.keeps c a b (h.keeps c a b hb)
  only c a b hb := by
    obtain hb | hb := h'.only c a b hb
    · exact h.only c a b hb
    · exact .inr hb
  rows i row hrow := by
    obtain hrow | hfresh := h'.rows i row hrow
    · exact h.rows i row hrow
    · exact .inr hfresh

/-- A request inside the query makes the tables grow. -/
theorem Grown.perform {db : Db} {lo hi : ℕ} {events : List EventLog} (hlo : r.fromBlock ≤ lo)
    (hhi : hi ≤ r.toBlock) : Grown r db (performScanForContractEvents env r lo hi events db) where
  keeps _ _ _ h := h.append rfl
  only c a b h := by
    obtain ⟨f, hf, hchain, hcontract, hfrom, hto⟩ := h
    obtain hold | hf := List.mem_append.mp hf
    · exact .inl ⟨f, hold, hchain, hcontract, hfrom, hto⟩
    · rw [List.mem_singleton.mp hf] at hchain hcontract hfrom hto
      exact .inr ⟨hchain.symm, hcontract.symm, hlo.trans hfrom, hto.trans hhi⟩
  rows i row h := by
    obtain rfl | hold := Table.getElem?_upsert h
    · exact .inr ⟨rfl, rfl, hlo, hhi⟩
    · exact .inl hold

/-- The events in these replies are among those of the renewal. -/
def Among (all : List EventLog) (replies : List (List EventLog)) : Prop :=
  ∀ events ∈ replies, ∀ event ∈ events, event ∈ all

/-- What a list of requests does, whether one of them fails or not. -/
theorem scanPages_spec {all : List EventLog} (hids : IdsAgree env r all)
    {ps : List (ℕ × ℕ)} {replies : List (List EventLog)} {db : Db}
    (hps : ∀ p ∈ ps, r.fromBlock ≤ p.1 ∧ p.1 ≤ p.2 ∧ p.2 ≤ r.toBlock)
    (hreplies : Among all replies) (h : Scanning env r all db) :
    Scanning env r all (scanPages env r ps replies db).1 ∧
      Grown r db (scanPages env r ps replies db).1 ∧
      ∀ left, (scanPages env r ps replies db).2 = some left →
        Among all left ∧ ∀ p ∈ ps, ∀ b, p.1 ≤ b → b ≤ p.2 →
          Fetched (scanPages env r ps replies db).1 r.chainId r.contractAddress b := by
  induction ps generalizing replies db with
  | nil =>
    refine ⟨h, .refl r db, ?_⟩
    intro left hleft
    rw [← Option.some.inj hleft]
    exact ⟨hreplies, by simp⟩
  | cons p ps ih =>
    cases replies with
    -- no reply is left: the scan ends here, and what it has stored stays
    | nil => exact ⟨h, .refl r db, by intro left hleft; cases hleft⟩
    | cons events replies =>
      obtain ⟨lo, hi⟩ := p
      obtain ⟨hlo, hle, hhi⟩ := hps (lo, hi) List.mem_cons_self
      have hscan : Scanning env r all (performScanForContractEvents env r lo hi events db) :=
        h.perform hids (hreplies events List.mem_cons_self) hle
      have hgrown : Grown r db (performScanForContractEvents env r lo hi events db) :=
        .perform hlo hhi
      obtain ⟨hscan', hgrown', hleft⟩ := ih
        (fun p hp => hps p (List.mem_cons_of_mem _ hp))
        (fun es hes => hreplies es (List.mem_cons_of_mem _ hes)) hscan
      refine ⟨hscan', hgrown.trans hgrown', ?_⟩
      intro left hl
      obtain ⟨hamong, hcover⟩ := hleft left hl
      refine ⟨hamong, ?_⟩
      intro p hp b hb hb'
      obtain rfl | hp := List.mem_cons.mp hp
      · apply hgrown'.keeps
        exact ⟨_, List.mem_append_right _ (List.mem_singleton_self _), rfl, rfl, hb, hb'⟩
      · exact hcover p hp b hb hb'

/-! ## The scan of a range -/

/-- The rows in reach that the loop looks at: those up to the first that reaches the end of the
query. -/
def visited (r : Renewal) : List ScanRow → List ScanRow
  | [] => []
  | row :: rows => row :: if r.toBlock ≤ row.toBlock then [] else visited r rows

/-- The blocks that the loop leaves covered. -/
def Reached (r : Renewal) (rows : List ScanRow) (b : ℕ) : Prop :=
  b ≤ r.toBlock ∨ ∃ row ∈ visited r rows, b ≤ row.toBlock

/-- The loop ends when a request fails. -/
theorem scanRanges_failed {range : ScannedRange} {rest : List ScannedRange}
    {cursor maxScanned : ℕ} {replies : List (List EventLog)} {db db' : Db}
    (h : scanPages env r (gap env r cursor range) replies db = (db', none)) :
    scanRanges env r (range :: rest) cursor maxScanned replies db = (db', none) := by
  simp only [scanRanges, h]

/-- The loop goes on behind a range, or breaks when the end of the query is reached. -/
theorem scanRanges_scanned {range : ScannedRange} {rest : List ScannedRange}
    {cursor maxScanned : ℕ} {replies left : List (List EventLog)} {db db' : Db}
    (h : scanPages env r (gap env r cursor range) replies db = (db', some left)) :
    scanRanges env r (range :: rest) cursor maxScanned replies db =
      if r.toBlock < max cursor (range.toBlock + 1) then
        (db', some (if range.fake then maxScanned else max maxScanned range.toBlock, left))
      else
        scanRanges env r rest (max cursor (range.toBlock + 1))
          (if range.fake then maxScanned else max maxScanned range.toBlock) left db' := by
  simp only [scanRanges, h, gt_iff_lt]

/-- The pages before a range lie in the query. -/
theorem gap_within (env : Env) {cursor : ℕ} {range : ScannedRange} (hfrom : r.fromBlock ≤ cursor)
    (hrange : range.fromBlock ≤ r.toBlock + 1) :
    ∀ p ∈ gap env r cursor range, r.fromBlock ≤ p.1 ∧ p.1 ≤ p.2 ∧ p.2 ≤ r.toBlock := by
  intro p hp
  unfold gap at hp
  split at hp
  · cases hp
  · have hend : range.fromBlock - 1 ≤ r.toBlock := by omega
    obtain ⟨hlo, hle, hhi⟩ := mem_pages hend hp
    exact ⟨hfrom.trans hlo, hle, hhi.trans hend⟩

/-- The blocks from the cursor up to a range are in its pages. -/
theorem gap_cover (env : Env) {cursor b : ℕ} {range : ScannedRange}
    (hrange : range.fromBlock ≤ r.toBlock + 1) (hlo : cursor ≤ b) (hhi : b < range.fromBlock) :
    ∃ p ∈ gap env r cursor range, p.1 ≤ b ∧ b ≤ p.2 := by
  unfold gap
  rw [if_neg (by omega)]
  exact pages_cover env (by omega) hlo (by omega)

/-- Without rows the end of the query is reached. -/
lemma reached_nil {b : ℕ} : Reached r [] b ↔ b ≤ r.toBlock := by
  simp [Reached, visited]

/-- A row that reaches the end of the query is the last one that is looked at. -/
lemma visited_of_le {row : ScanRow} {rows : List ScanRow} (h : r.toBlock ≤ row.toBlock) :
    visited r (row :: rows) = [row] := by
  rw [visited, if_pos h]

lemma reached_of_le {row : ScanRow} {rows : List ScanRow} {b : ℕ} (h : r.toBlock ≤ row.toBlock) :
    Reached r (row :: rows) b ↔ b ≤ row.toBlock := by
  unfold Reached
  rw [visited_of_le h]
  constructor
  · rintro (hb | ⟨row', hrow', hb⟩)
    · exact hb.trans h
    · rwa [List.mem_singleton.mp hrow'] at hb
  · exact fun hb => .inr ⟨row, List.mem_singleton_self _, hb⟩

lemma visited_of_lt {row : ScanRow} {rows : List ScanRow} (h : row.toBlock < r.toBlock) :
    visited r (row :: rows) = row :: visited r rows := by
  rw [visited, if_neg (not_le.mpr h)]

lemma reached_of_lt {row : ScanRow} {rows : List ScanRow} {b : ℕ} (h : row.toBlock < r.toBlock) :
    Reached r (row :: rows) b ↔ Reached r rows b := by
  unfold Reached
  rw [visited_of_lt h]
  constructor
  · rintro (hb | ⟨row', hrow', hb⟩)
    · exact .inl hb
    · obtain rfl | hrow' := List.mem_cons.mp hrow'
      · exact .inl (hb.trans h.le)
      · exact .inr ⟨row', hrow', hb⟩
  · rintro (hb | ⟨row', hrow', hb⟩)
    · exact .inl hb
    · exact .inr ⟨row', List.mem_cons_of_mem _ hrow', hb⟩

/-- The requests before a range fetch what there is between the cursor and the range. -/
lemma scanGap_spec {all : List EventLog} (hids : IdsAgree env r all) {cursor : ℕ}
    {range : ScannedRange} {replies : List (List EventLog)} {db db' : Db}
    (hrange : range.fromBlock ≤ r.toBlock + 1) (hfrom : r.fromBlock ≤ cursor)
    (hdone : ∀ b, r.fromBlock ≤ b → b < cursor → Fetched db r.chainId r.contractAddress b)
    (hreplies : Among all replies) (h : Scanning env r all db)
    {out : Option (List (List EventLog))}
    (hpages : scanPages env r (gap env r cursor range) replies db = (db', out)) :
    Scanning env r all db' ∧ Grown r db db' ∧ ∀ left, out = some left → Among all left ∧
      ∀ b, r.fromBlock ≤ b → b < max cursor range.fromBlock →
        Fetched db' r.chainId r.contractAddress b := by
  obtain ⟨hscan, hgrown, hleft⟩ := scanPages_spec hids (gap_within env hfrom hrange) hreplies h
  rw [hpages] at hscan hgrown hleft
  refine ⟨hscan, hgrown, fun left hl => ?_⟩
  obtain ⟨hamong, hcover⟩ := hleft left hl
  refine ⟨hamong, fun b hb hlt => ?_⟩
  obtain hlt' | hge := Nat.lt_or_ge b cursor
  · exact hgrown.keeps _ _ _ (hdone b hb hlt')
  · obtain ⟨p, hp, hlo, hhi⟩ := gap_cover env hrange hge (by omega)
    exact hcover p hp b hlo hhi

/-- What the loop over the ranges does, whether a request fails or not: it keeps the invariant,
and if no request fails, all blocks of the query and those of the rows it has looked at have
been fetched. -/
theorem scanRanges_spec {all : List EventLog} (hids : IdsAgree env r all) {rows : List ScanRow}
    {cursor maxScanned : ℕ} {replies : List (List EventLog)} {db : Db}
    (hrows : ∀ row ∈ rows, row.fromBlock ≤ r.toBlock ∧ ∀ b, row.fromBlock ≤ b → b ≤ row.toBlock →
      Fetched db r.chainId r.contractAddress b)
    (hfrom : r.fromBlock ≤ cursor) (hto : cursor ≤ r.toBlock)
    (hdone : ∀ b, r.fromBlock ≤ b → b < cursor → Fetched db r.chainId r.contractAddress b)
    (hreplies : Among all replies) (h : Scanning env r all db)
    {db' : Db} {out : Option (ℕ × List (List EventLog))}
    (hres : scanRanges env r (scannedRanges r rows) cursor maxScanned replies db = (db', out)) :
    Scanning env r all db' ∧ Grown r db db' ∧
      ∀ m left, out = some (m, left) →
        m = ((visited r rows).map ScanRow.toBlock).foldl max maxScanned ∧
          ∀ b, r.fromBlock ≤ b → Reached r rows b →
            Fetched db' r.chainId r.contractAddress b := by
  induction rows generalizing cursor maxScanned replies db with
  | nil =>
    -- the fake range: the rest of the query is scanned
    let fake : ScannedRange := ⟨r.toBlock + 1, r.toBlock + 1, true⟩
    change scanRanges env r [fake] cursor maxScanned replies db = _ at hres
    rcases hpages : scanPages env r (gap env r cursor fake) replies db with ⟨db'', _ | left'⟩
    · obtain ⟨hscan, hgrown, -⟩ := scanGap_spec hids (le_refl _) hfrom hdone hreplies h hpages
      rw [scanRanges_failed hpages] at hres
      obtain ⟨rfl, rfl⟩ := Prod.mk.inj hres
      exact ⟨hscan, hgrown, nofun⟩
    · obtain ⟨hscan, hgrown, hleft⟩ := scanGap_spec hids (le_refl _) hfrom hdone hreplies h hpages
      have hover : r.toBlock < max cursor (fake.toBlock + 1) := by
        show r.toBlock < max cursor (r.toBlock + 1 + 1)
        omega
      rw [scanRanges_scanned hpages, if_pos hover] at hres
      obtain ⟨rfl, rfl⟩ := Prod.mk.inj hres
      refine ⟨hscan, hgrown, fun m left hl => ?_⟩
      obtain ⟨rfl, rfl⟩ := Prod.mk.inj (Option.some.inj hl)
      refine ⟨rfl, fun b hb hreached => (hleft left' rfl).2 b hb ?_⟩
      have hb' : b ≤ r.toBlock := reached_nil.mp hreached
      show b < max cursor (r.toBlock + 1)
      omega
  | cons row rows ih =>
    let range : ScannedRange := ⟨row.fromBlock, row.toBlock, false⟩
    obtain ⟨hrow, hrowdone⟩ := hrows row List.mem_cons_self
    have hrange : range.fromBlock ≤ r.toBlock + 1 := Nat.le_succ_of_le hrow
    change scanRanges env r (range :: scannedRanges r rows) cursor maxScanned replies db = _ at hres
    rcases hpages : scanPages env r (gap env r cursor range) replies db with ⟨db'', _ | left'⟩
    · obtain ⟨hscan, hgrown, -⟩ := scanGap_spec hids hrange hfrom hdone hreplies h hpages
      rw [scanRanges_failed hpages] at hres
      obtain ⟨rfl, rfl⟩ := Prod.mk.inj hres
      exact ⟨hscan, hgrown, nofun⟩
    obtain ⟨hscan, hgrown, hleft⟩ := scanGap_spec hids hrange hfrom hdone hreplies h hpages
    obtain ⟨hamong, hbefore⟩ := hleft left' rfl
    -- up to the row, and in it
    have hdone' : ∀ b, r.fromBlock ≤ b → b < max cursor (row.toBlock + 1) →
        Fetched db'' r.chainId r.contractAddress b := by
      intro b hb hlt
      obtain hlt' | hge := Nat.lt_or_ge b (max cursor range.fromBlock)
      · exact hbefore b hb hlt'
      · have hin : row.fromBlock ≤ b := (le_max_right _ _).trans hge
        exact hgrown.keeps _ _ _ (hrowdone b hin (by omega))
    rw [scanRanges_scanned hpages] at hres
    obtain hover | hover := Nat.lt_or_ge row.toBlock r.toBlock
    · have hnobreak : ¬ r.toBlock < max cursor (range.toBlock + 1) := by
        show ¬ r.toBlock < max cursor (row.toBlock + 1)
        omega
      rw [if_neg hnobreak] at hres
      have hrows' : ∀ row' ∈ rows, row'.fromBlock ≤ r.toBlock ∧
          ∀ b, row'.fromBlock ≤ b → b ≤ row'.toBlock →
            Fetched db'' r.chainId r.contractAddress b := by
        intro row' hrow'
        obtain ⟨hle, hf⟩ := hrows row' (List.mem_cons_of_mem _ hrow')
        exact ⟨hle, fun b hb hb' => hgrown.keeps _ _ _ (hf b hb hb')⟩
      obtain ⟨hscan', hgrown', hout⟩ := ih hrows' (hfrom.trans (le_max_left _ _))
        (not_lt.mp hnobreak) hdone' hamong hscan hres
      refine ⟨hscan', hgrown.trans hgrown', fun m left hl => ?_⟩
      obtain ⟨hm, hfetched⟩ := hout m left hl
      rw [visited_of_lt hover]
      exact ⟨hm, fun b hb hreached => hfetched b hb ((reached_of_lt hover).mp hreached)⟩
    · have hbreak : r.toBlock < max cursor (range.toBlock + 1) :=
        lt_of_lt_of_le (Nat.lt_succ_of_le hover) (le_max_right _ _)
      rw [if_pos hbreak] at hres
      obtain ⟨rfl, rfl⟩ := Prod.mk.inj hres
      refine ⟨hscan, hgrown, fun m left hl => ?_⟩
      obtain ⟨rfl, rfl⟩ := Prod.mk.inj (Option.some.inj hl)
      rw [visited_of_le hover]
      refine ⟨rfl, fun b hb hreached => hdone' b hb ?_⟩
      have hb' : b ≤ row.toBlock := (reached_of_le hover).mp hreached
      omega

/-! ## The collapse -/

/-- The blocks that the collapse of a renewal makes the row `first` cover. -/
def Widened (r : Renewal) (scans : List ScanRow) (first : ScanRow) (b : ℕ) : Prop :=
  min first.fromBlock r.fromBlock ≤ b ∧
    (b ≤ first.toBlock ∨ ∃ row ∈ visited r (rowsInReach r scans), b ≤ row.toBlock)

/-- The block is in the query of the renewal, which is one for the row's contract and chain. -/
def Queried (r : Renewal) (first : ScanRow) (b : ℕ) : Prop :=
  first.chainId = r.chainId ∧ first.contractAddress = r.contractAddress ∧
    r.fromBlock ≤ b ∧ b ≤ r.toBlock

/-- A renewal that leaves no block behind: the ids of its events tell events apart, and if it
gets to the collapse, the row found there is widened only over blocks that were fetched before
or are queried now. -/
structure Sound (env : Env) (db : Db) (r : Renewal) : Prop where
  rowsAgree : RowsAgree env r r.replies.flatten db.events
  idsAgree : IdsAgree env r r.replies.flatten
  widened : r.fails = false → ∀ first, db.scans[r.found]? = some first →
    ∀ b, Widened r db.scans first b →
      Fetched db first.chainId first.contractAddress b ∨ Queried r first b

/-- A number is below the greatest when it is below one of them. -/
theorem le_foldl_max {b m : ℕ} {l : List ℕ} :
    b ≤ l.foldl max m ↔ b ≤ m ∨ ∃ x ∈ l, b ≤ x := by
  induction l generalizing m with
  | nil => simp
  | cons x l ih => simp [ih, or_assoc]

/-- `max_scanned` reaches up to the rows the loop has looked at. -/
theorem le_max_scanned {rows : List ScanRow} {first : ScanRow} {b m : ℕ}
    (hm : m = ((visited r rows).map ScanRow.toBlock).foldl max 0) :
    b ≤ max first.toBlock m ↔ b ≤ first.toBlock ∨ ∃ row ∈ visited r rows, b ≤ row.toBlock := by
  rw [hm, le_max_iff, le_foldl_max]
  simp only [List.mem_map, exists_exists_and_eq_and]
  constructor
  · rintro (h | h | h)
    · exact .inl h
    · exact .inl (h.trans (Nat.zero_le _))
    · exact .inr h
  · rintro (h | h)
    · exact .inl h
    · exact .inr (.inr h)

/-- A row is in reach when an end of it is in the query. The last case is for rows around the query,
and compares their first block with both ends. -/
theorem inReach_iff {row : ScanRow} : inReach r row = true ↔
    (row.contractAddress = r.contractAddress ∧ row.chainId = r.chainId) ∧
      ((r.fromBlock ≤ row.toBlock ∧ row.toBlock ≤ r.toBlock ∨
        r.fromBlock ≤ row.fromBlock ∧ row.fromBlock ≤ r.toBlock) ∨
          row.fromBlock ≤ r.fromBlock ∧ r.toBlock ≤ row.fromBlock) := by
  simp [inReach]

/-- The rows that a renewal starts from are its contract's, and begin before its end. -/
theorem Inv.rows_in_reach {db : Db} (h : Inv env db) :
    ∀ row ∈ rowsInReach r db.scans, row.fromBlock ≤ r.toBlock ∧
      ∀ b, row.fromBlock ≤ b → b ≤ row.toBlock → Fetched db r.chainId r.contractAddress b := by
  intro row hrow
  obtain ⟨hmem, hreach⟩ := List.mem_filter.mp ((List.mem_insertionSort _).mp hrow)
  obtain ⟨⟨hcontract, hchain⟩, hcases⟩ := inReach_iff.mp hreach
  have hchron := h.chronological row hmem
  have hle := r.fromBlock_le
  refine ⟨by omega, ?_⟩
  intro b hb hb'
  have hfetched := h.rows_fetched row hmem b hb hb'
  rw [hchain, hcontract] at hfetched
  exact hfetched

/-- A collapse over fetched blocks keeps the invariant. -/
theorem Inv.collapse {db : Db} {first : ScanRow} {m : ℕ} (h : Inv env db)
    (hfirst : first ∈ db.scans)
    (hwidened : ∀ b, min first.fromBlock r.fromBlock ≤ b → b ≤ max first.toBlock m →
      Fetched db first.chainId first.contractAddress b) : Inv env (collapse r first m db) := by
  unfold Network.collapse
  split
  · exact h
  · -- the row with the id of `first` is `first`
    have hcases : ∀ row ∈ Table.update (fun row => row.id = first.id)
        (fun row => { row with
          fromBlock := min first.fromBlock r.fromBlock
          toBlock := max first.toBlock m }) db.scans,
        row ∈ db.scans ∨ row = { first with
          fromBlock := min first.fromBlock r.fromBlock
          toBlock := max first.toBlock m } := by
      intro row hrow
      obtain ⟨hold, -⟩ | ⟨row', hrow', hid, rfl⟩ := Table.of_mem_update hrow
      · exact .inl hold
      · right
        rw [h.keyed.eq hrow' hfirst (by simpa using hid)]
    exact {
      keyed := by
        apply Table.Keyed.filter
        apply h.keyed.update
        intro row
        rfl
      chronological := by
        intro row hrow
        obtain hold | rfl := hcases row (List.mem_of_mem_filter hrow)
        · exact h.chronological row hold
        · have hchron := h.chronological first hfirst
          show min _ _ ≤ max _ _
          omega
      rows_fetched := by
        intro row hrow b hb hb'
        obtain hold | rfl := hcases row (List.mem_of_mem_filter hrow)
        · exact h.rows_fetched row hold b hb hb'
        · exact hwidened b hb hb'
      stored := h.stored }

/-! ## A renewal -/

/-- The scan of a renewal, from a state with the invariant. -/
theorem scan_spec {db db' : Db} {out : Option (ℕ × List (List EventLog))} (h : Inv env db)
    (hagree : RowsAgree env r r.replies.flatten db.events)
    (hids : IdsAgree env r r.replies.flatten)
    (hscan : scanRanges env r (scannedRanges r (rowsInReach r db.scans)) r.fromBlock 0 r.replies
      db = (db', out)) :
    Scanning env r r.replies.flatten db' ∧ Grown r db db' ∧
      ∀ m left, out = some (m, left) →
        m = ((visited r (rowsInReach r db.scans)).map ScanRow.toBlock).foldl max 0 ∧
          ∀ b, r.fromBlock ≤ b → Reached r (rowsInReach r db.scans) b →
            Fetched db' r.chainId r.contractAddress b := by
  apply scanRanges_spec hids h.rows_in_reach (le_refl _) r.fromBlock_le _ _ _ hscan
  · intro b hb hlt
    omega
  · intro events hevents event hevent
    exact List.mem_flatten.mpr ⟨events, hevents, hevent⟩
  · exact { h with agree := hagree }

/-- What a renewal does: it fails, or it collapses the rows into the one that was found. -/
theorem renew_cases {db db' : Db} (hs : renewContractEventsCache env r db = some db') :
    ∃ db₁ out, scanRanges env r (scannedRanges r (rowsInReach r db.scans)) r.fromBlock 0 r.replies
        db = (db₁, out) ∧
      ((out = none ∧ r.fails = true ∧ db' = db₁) ∨
        ∃ m, out = some (m, []) ∧ r.fails = false ∧
          ((db₁.scans = [] ∧ db' = db₁) ∨
            ∃ first, db₁.scans[r.found]? = some first ∧ db' = collapse r first m db₁)) := by
  unfold renewContractEventsCache at hs
  split at hs
  · rename_i db₁ hscan
    refine ⟨db₁, none, hscan, .inl ⟨rfl, ?_⟩⟩
    split at hs
    · rename_i hfails
      exact ⟨hfails, (Option.some.inj hs).symm⟩
    · cases hs
  · rename_i db₁ m hscan
    refine ⟨db₁, some (m, []), hscan, .inr ⟨m, rfl, ?_⟩⟩
    split at hs
    · cases hs
    · rename_i hfails
      refine ⟨by simpa using hfails, ?_⟩
      split at hs
      · rename_i hempty
        exact .inl ⟨hempty, (Option.some.inj hs).symm⟩
      · split at hs
        · cases hs
        · rename_i first hfirst
          exact .inr ⟨first, hfirst, (Option.some.inj hs).symm⟩
  · cases hs

/-- A renewal keeps the invariant. -/
theorem step_inv {db db' : Db} (h : Inv env db) (hok : Sound env db r)
    (hs : step env db r = some db') : Inv env db' := by
  obtain ⟨db₁, out, hscan, hcases⟩ := renew_cases hs
  obtain ⟨hscanning, hgrown, hout⟩ := scan_spec h hok.rowsAgree hok.idsAgree hscan
  obtain ⟨-, -, rfl⟩ | ⟨m, hm, hfails, ⟨-, rfl⟩ | ⟨first, hfirst, rfl⟩⟩ := hcases
  · exact hscanning.toInv
  · exact hscanning.toInv
  · obtain ⟨hmax, hreached⟩ := hout m [] hm
    apply hscanning.toInv.collapse (List.mem_of_getElem? hfirst)
    intro b hb hb'
    rw [le_max_scanned hmax] at hb'
    obtain hold | ⟨hchain, hcontract, hfrom, hto⟩ := hgrown.rows _ _ hfirst
    · obtain hfetched | ⟨hchain, hcontract, hlo, hhi⟩ :=
        hok.widened hfails first hold b ⟨hb, hb'⟩
      · exact hgrown.keeps _ _ _ hfetched
      · rw [hchain, hcontract]
        exact hreached b hlo (.inl hhi)
    · -- a row that the scan itself has written lies in the query
      rw [hchain, hcontract]
      apply hreached b (by omega)
      obtain hb' | hb' := hb'
      · exact .inl (hb'.trans hto)
      · exact .inr hb'

/-- The condition is exact: a collapse over a block that was neither fetched before nor queried
leaves a row that covers a block nobody has asked for. -/
theorem collapse_uncovers {db db₁ : Db} {first : ScanRow} {m b : ℕ} (h : Inv env db)
    (hagree : RowsAgree env r r.replies.flatten db.events)
    (hids : IdsAgree env r r.replies.flatten)
    (hscan : scanRanges env r (scannedRanges r (rowsInReach r db.scans)) r.fromBlock 0 r.replies
      db = (db₁, some (m, [])))
    (hfirst : db₁.scans[r.found]? = some first) (hb : Widened r db.scans first b)
    (hunfetched : ¬ Fetched db first.chainId first.contractAddress b)
    (hunqueried : ¬ Queried r first b) : ¬ Covered env (collapse r first m db₁) := by
  intro hcovered
  obtain ⟨-, hgrown, hout⟩ := scan_spec h hagree hids hscan
  obtain ⟨hlo, hhi⟩ := hb
  rw [← le_max_scanned (hout m [] rfl).1] at hhi
  have hmem : first ∈ db₁.scans := List.mem_of_getElem? hfirst
  have hfetched : Fetched db₁ first.chainId first.contractAddress b := by
    -- the row that is widened claims the block, so it would have been fetched
    unfold collapse at hcovered
    split at hcovered
    · rename_i hdone
      obtain ⟨f, hf, hchain, hcontract, hf1, hf2, -⟩ :=
        hcovered first hmem b (by omega) (by omega)
      exact ⟨f, hf, hchain, hcontract, hf1, hf2⟩
    · let row : ScanRow := { first with
        fromBlock := min first.fromBlock r.fromBlock
        toBlock := max first.toBlock m }
      have hrow := Table.mem_update (p := fun row => row.id = first.id)
        (f := fun row => { row with
          fromBlock := min first.fromBlock r.fromBlock
          toBlock := max first.toBlock m }) hmem
      rw [if_pos (by simp)] at hrow
      obtain ⟨f, hf, hchain, hcontract, hf1, hf2, -⟩ :=
        hcovered row (List.mem_filter.mpr ⟨hrow, by simp [row]⟩) b hlo hhi
      exact ⟨f, hf, hchain, hcontract, hf1, hf2⟩
  obtain hold | ⟨hchain, hcontract, hfrom, hto⟩ := hgrown.only _ _ _ hfetched
  · exact hunfetched hold
  · exact hunqueried ⟨hchain, hcontract, hfrom, hto⟩

/-- Every block that a row of `EventScan` covers was fetched for the row's chain and contract,
and its events are stored, in every run of renewals that widen a row only over blocks fetched
before or queried now. -/
theorem cache_covered {db : Db} (h : Machine.Reach (step env) (Sound env) Db.init db) :
    Covered env db := by
  have hinv : Inv env db := h.invariant (inv_init env) fun _ _ _ hi hok hs => step_inv hi hok hs
  exact hinv.covered

/-- A small environment and the renewals of one contract, for concrete runs. -/
def Env.small : Env := ⟨HashFn.firstBytes, 10000, by decide⟩

/-- A renewal of one contract. -/
def renewal (queryFromBlock queryToBlock : ℕ) (replies : List (List EventLog)) : Renewal :=
  ⟨1, js "c", queryFromBlock, queryToBlock, replies, false, 0⟩

/-- Blocks 1 to 10 with an event, then blocks 5 to 20. -/
theorem cache_covered_two :
    Covered .small
      { events := [eventRow .small (renewal 1 10 []) ⟨js "e", js "t", 3⟩]
        scans := [scanRow (renewal 1 10 []) 1 10]
        fetched := [⟨js "c", 1, 1, 10, [⟨js "e", js "t", 3⟩]⟩, ⟨js "c", 1, 11, 20, []⟩] } := by
  let db : Db :=
    { events := [eventRow .small (renewal 1 10 []) ⟨js "e", js "t", 3⟩]
      scans := [scanRow (renewal 1 10 []) 1 10]
      fetched := [⟨js "c", 1, 1, 10, [⟨js "e", js "t", 3⟩]⟩] }
  have hfirst : Machine.Reach (step .small) (Sound .small) Db.init db := by
    apply Machine.Reach.init.step (e := renewal 1 10 [[⟨js "e", js "t", 3⟩]]) _ (by decide +kernel)
    exact {
      rowsAgree := by simp [RowsAgree, Db.init]
      idsAgree := by simp [IdsAgree, renewal]
      widened := by simp [Db.init] }
  apply cache_covered
  apply hfirst.step (e := renewal 5 20 [[]]) _ (by decide +kernel)
  exact {
    rowsAgree := by simp [RowsAgree, renewal]
    idsAgree := by simp [IdsAgree, renewal]
    widened := by
      intro _ first hrow b hb
      obtain rfl : scanRow (renewal 1 10 []) 1 10 = first := Option.some.inj hrow
      have hvisited : visited (renewal 5 20 [[]]) (rowsInReach (renewal 5 20 [[]]) db.scans) =
          [scanRow (renewal 1 10 []) 1 10] := by decide +kernel
      rw [Widened, hvisited] at hb
      have hb' : 1 ≤ b ∧ b ≤ 10 := by
        simp only [List.mem_singleton, exists_eq_left, or_self] at hb
        exact hb
      exact .inl ⟨_, List.mem_singleton_self _, rfl, rfl, hb'.1, hb'.2⟩ }

/-- Blocks 100 to 110 and then 1 to 10 of the same contract: the row covers 1 to 110, and nobody
has asked for block 50. -/
theorem collapse_over_hole :
    ∃ db, Machine.Reach (step .small) Machine.Any Db.init db ∧ ¬ Covered .small db := by
  let row : ScanRow := { scanRow (renewal 100 110 []) 100 110 with fromBlock := 1 }
  let db : Db :=
    { events := []
      scans := [row]
      fetched := [⟨js "c", 1, 100, 110, []⟩, ⟨js "c", 1, 1, 10, []⟩] }
  refine ⟨db, .of_run [renewal 100 110 [[]], renewal 1 10 [[]]] (by decide +kernel), ?_⟩
  intro hcovered
  have hblock := hcovered row (List.mem_singleton_self _) 50 (by decide) (by decide)
  simp [db] at hblock

end

end PointNetwork.Network
