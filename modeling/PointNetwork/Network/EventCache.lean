import PointNetwork.Core
import PointNetwork.Machine
import PointNetwork.Tables
import Mathlib.Data.List.Sort

/-!
# The cache of contract events

`_performScanForContractEvents` and `_renewContractEventsCache` of
`network/providers/ethereum.js` over the tables `Event` and `EventScan`. A renewal asks the
node for the events of those blocks of its range that no row of `EventScan` covers yet, page
by page, and then collapses the rows it has found into one.

Blocks and chain ids are natural numbers. A renewal is one step; the replies of the node come
with it, and so does the row that `EventScan.findOne()` returns, since the query names no
order. The tables also record, for the statements, the requests answered and stored so far.

The columns of an event that are only copied are left out.
-/

namespace PointNetwork.Network

open Js

/-- An event as the node reports it. -/
structure EventLog where
  id : JsString
  transactionHash : JsString
  blockNumber : ℕ
  deriving DecidableEq

/-- A row of `Event`. -/
structure EventRow where
  id : JsString
  rawId : JsString
  contractAddress : JsString
  chainId : ℕ
  blockNumber : ℕ
  transactionHash : JsString
  deriving DecidableEq

/-- A row of `EventScan`. -/
structure ScanRow where
  id : JsString
  contractAddress : JsString
  chainId : ℕ
  fromBlock : ℕ
  toBlock : ℕ
  deriving DecidableEq

/-- A request for events that was answered, and the events stored. -/
structure Fetch where
  contractAddress : JsString
  chainId : ℕ
  fromBlock : ℕ
  toBlock : ℕ
  events : List EventLog
  deriving DecidableEq

/-- The tables of the cache, and what has been requested so far. -/
structure Db where
  events : List EventRow
  scans : List ScanRow
  fetched : List Fetch
  deriving DecidableEq

/-- The empty tables. -/
def Db.init : Db := ⟨[], [], []⟩

/-- The hash function and `network.event_block_page_size`; a page of no blocks would make the
paging loop run forever. -/
structure Env where
  hash : HashFn
  pageSize : ℕ
  pageSize_pos : 0 < pageSize

/-- The arguments of `_renewContractEventsCache`, and what its surroundings do. -/
structure Renewal where
  chainId : ℕ
  contractAddress : JsString
  queryFromBlock : ℕ
  queryToBlock : ℕ
  /-- The replies to the requests that succeed, in order. -/
  replies : List (List EventLog)
  /-- The request after those fails. -/
  fails : Bool
  /-- The place of the row that `EventScan.findOne()` returns. -/
  found : ℕ
  deriving DecidableEq

/-- The ends of the range, made chronological. -/
def Renewal.fromBlock (r : Renewal) : ℕ := min r.queryFromBlock r.queryToBlock

/-- The end of the query, which is not before its start. -/
def Renewal.toBlock (r : Renewal) : ℕ := max r.queryFromBlock r.queryToBlock

section

variable (env : Env) (r : Renewal)

/-! ## `_performScanForContractEvents` -/

/-- `hashFn(contract_address + '_' + event.id + '_' + event.transactionHash)`. -/
def eventId (contractAddress : JsString) (event : EventLog) : JsString :=
  env.hash.id (bufferFrom
    (contractAddress ++ js "_" ++ event.id ++ js "_" ++ event.transactionHash))

/-- The row of an event. -/
def eventRow (event : EventLog) : EventRow where
  id := eventId env r.contractAddress event
  rawId := event.id
  contractAddress := r.contractAddress
  chainId := r.chainId
  blockNumber := event.blockNumber
  transactionHash := event.transactionHash

/-- The row of a range that has been scanned. -/
def scanRow (fromBlock toBlock : ℕ) : ScanRow where
  id := r.contractAddress ++ js "_" ++ natText fromBlock ++ js "_" ++ natText toBlock
  contractAddress := r.contractAddress
  chainId := r.chainId
  fromBlock := fromBlock
  toBlock := toBlock

/-- `Event.findByIdOrCreate` for each event. -/
def storeEvents (events : List EventLog) (rows : List EventRow) : List EventRow :=
  events.foldl (fun rows event => Table.upsert EventRow.id (eventRow env r event) rows) rows

/-- `_performScanForContractEvents` after the node has answered with `events`. -/
def performScanForContractEvents (fromBlock toBlock : ℕ) (events : List EventLog) (db : Db) :
    Db where
  events := storeEvents env r events db.events
  scans := Table.upsert ScanRow.id (scanRow r fromBlock toBlock) db.scans
  fetched := db.fetched ++ [⟨r.contractAddress, r.chainId, fromBlock, toBlock, events⟩]

/-! ## The loops of `_renewContractEventsCache` -/

/-- The requests of the loop over `scan_from`, from `cursor` to `cursor_end`. -/
def pages (cursor cursorEnd : ℕ) : List (ℕ × ℕ) :=
  -- don't scan negative ranges
  if cursor ≤ cursorEnd then
    (List.range' cursor ((cursorEnd - cursor) / env.pageSize + 1) env.pageSize).map fun scanFrom =>
      (scanFrom, min (min r.toBlock (scanFrom + env.pageSize - 1)) cursorEnd)
  else []

/-- Makes a list of requests. What comes out is the replies left, or nothing after a failure. -/
def scanPages : List (ℕ × ℕ) → List (List EventLog) → Db → Db × Option (List (List EventLog))
  | [], replies, db => (db, some replies)
  | _ :: _, [], db => (db, none)
  | (scanFrom, scanTo) :: rest, events :: replies, db =>
    scanPages rest replies (performScanForContractEvents env r scanFrom scanTo events db)

/-- A range of the loop over `scanned_ranges`. -/
structure ScannedRange where
  fromBlock : ℕ
  toBlock : ℕ
  fake : Bool

/-- The requests made for the blocks before a range. -/
def gap (cursor : ℕ) (range : ScannedRange) : List (ℕ × ℕ) :=
  -- the scanned range starts at or before the cursor: fast-forward; else scan what is before it
  if range.fromBlock ≤ cursor then [] else pages env r cursor (range.fromBlock - 1)

/-- The loop over `scanned_ranges`. What comes out is `max_scanned` and the replies left. -/
def scanRanges : List ScannedRange → ℕ → ℕ → List (List EventLog) → Db →
    Db × Option (ℕ × List (List EventLog))
  | [], _, maxScanned, replies, db => (db, some (maxScanned, replies))
  | range :: rest, cursor, maxScanned, replies, db =>
    match scanPages env r (gap env r cursor range) replies db with
    | (db, none) => (db, none)
    | (db, some replies) =>
      let cursor := max cursor (range.toBlock + 1)
      let maxScanned := if range.fake then maxScanned else max maxScanned range.toBlock
      if cursor > r.toBlock then (db, some (maxScanned, replies))
      else scanRanges rest cursor maxScanned replies db

/-- `query.where`, as it stands: the third case, meant for the ranges that surround the
query, asks for `from_block` twice. -/
def inReach (row : ScanRow) : Bool :=
  row.contractAddress = r.contractAddress && row.chainId = r.chainId &&
    ((r.fromBlock ≤ row.toBlock && row.toBlock ≤ r.toBlock) ||
      (r.fromBlock ≤ row.fromBlock && row.fromBlock ≤ r.toBlock) ||
      (row.fromBlock ≤ r.fromBlock && r.toBlock ≤ row.fromBlock))

/-- `EventScan.findAll(query)`. -/
def rowsInReach (scans : List ScanRow) : List ScanRow :=
  (scans.filter (inReach r)).insertionSort fun row row' => row.fromBlock ≤ row'.fromBlock

/-- `scanned_ranges`, with the fake range at the end. -/
def scannedRanges (rows : List ScanRow) : List ScannedRange :=
  rows.map (fun row => ⟨row.fromBlock, row.toBlock, false⟩) ++
    [⟨r.toBlock + 1, r.toBlock + 1, true⟩]

/-- The collapse into the row that `EventScan.findOne()` returned. -/
def collapse (first : ScanRow) (maxScanned : ℕ) (db : Db) : Db :=
  -- already done
  if first.fromBlock = r.fromBlock ∧ first.toBlock = maxScanned then db
  else
    { db with
      scans :=
        (Table.update (fun row => row.id = first.id)
          (fun row =>
            { row with
              fromBlock := min first.fromBlock r.fromBlock
              toBlock := max first.toBlock maxScanned })
          db.scans).filter
        fun row => !(inReach r row && row.id ≠ first.id) }

/-! ## A renewal -/

/-- `_renewContractEventsCache`. The step is impossible where the replies given are not those
to the requests made. -/
def renewContractEventsCache (db : Db) : Option Db :=
  match scanRanges env r (scannedRanges r (rowsInReach r db.scans)) r.fromBlock 0 r.replies db with
  | (db, none) => if r.fails then some db else none
  | (db, some (maxScanned, [])) =>
    if r.fails then none
    -- no ranges found by this query - just forget about it
    else if db.scans = [] then some db
    else
      match db.scans[r.found]? with
      | none => none
      | some first => some (collapse r first maxScanned db)
  | (_, some (_, _ :: _)) => none

end

/-- A step is a renewal. -/
def step (env : Env) (db : Db) (r : Renewal) : Option Db := renewContractEventsCache env r db

end PointNetwork.Network
