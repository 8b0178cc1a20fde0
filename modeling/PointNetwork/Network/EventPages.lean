import Mathlib.Data.Int.Notation
import PointNetwork.Js.Text

/-!
# Pages of events

`handlePaginatedEvents` of `api/controllers/ContractController.js` answers with the events of a
range of blocks up to a cursor, and with the cursor of the next page, down to block 0. A first block
1 is replaced by 0, so that no page is `[0, 0]`.

Both ends of a range are included, and the next cursor is the block before it: the pages that a
client gets partition the blocks (`pages_partition`).
-/

namespace PointNetwork.EventPages

open Js

/-- What is asked for, apart from the blocks. -/
structure Request (Filter : Type) where
  host : JsString
  contract : JsString
  event : JsString
  addTimestamp : Bool
  filter : Filter

/-- An event of a contract. -/
structure Event (Data : Type) where
  returnValues : Data
  blockNumber : ℤ

/-- An event as it is sent to the page. -/
structure EventData (Data : Type) where
  data : Data
  blockNumber : ℤ
  timestamp : Option ℤ

/-- The `from`, `to` and `nextCursor` of `pagination`; no cursor is `null`. -/
structure Pagination where
  fromBlock : ℤ
  toBlock : ℤ
  nextCursor : Option ℤ
  deriving DecidableEq

/-- The events of a page, and the range of its blocks. -/
structure Page (Data : Type) where
  events : List (EventData Data)
  pagination : Pagination

/-- What the controller calls of the provider `ethereum`, with its errors. -/
structure Ethereum (Filter Data Error : Type) where
  getPaginatedPastEvents (host contract event : JsString) (filter : Filter)
    (fromBlock toBlock : ℤ) : Except Error (List (Event Data))
  getBlockTimestamp (blockNumber : ℤ) : Except Error ℤ

section

variable {Filter Data Error : Type} (ethereum : Ethereum Filter Data Error) (PAGE_SIZE : ℤ)

/-- The events with their timestamps, if these are asked for. -/
def normalizeEvents (events : List (Event Data)) (addTimestamp : Bool) :
    Except Error (List (EventData Data)) :=
  events.mapM fun event => do
    let timestamp ←
      if addTimestamp then some <$> ethereum.getBlockTimestamp event.blockNumber else pure none
    pure ⟨event.returnValues, event.blockNumber, timestamp⟩

/-- `host.replace(/\.point$/, '')` -/
def withoutPoint (host : JsString) : JsString :=
  if (js ".point").isSuffixOf host then host.take (host.length - (js ".point").length) else host

/-- `pagination` of the page up to the cursor. -/
def paginate (cursor : ℤ) : Pagination :=
  let fromBlock := if cursor - PAGE_SIZE ≤ 1 then 0 else cursor - PAGE_SIZE
  ⟨fromBlock, cursor, if 0 < fromBlock then some (fromBlock - 1) else none⟩

/-- The page that ends at the cursor. -/
def handlePaginatedEvents (request : Request Filter) (cursor : ℤ) : Except Error (Page Data) := do
  let pagination := paginate PAGE_SIZE cursor
  let events ← ethereum.getPaginatedPastEvents (withoutPoint request.host) request.contract
    request.event request.filter pagination.fromBlock cursor
  let eventData ← normalizeEvents ethereum events request.addTimestamp
  pure ⟨eventData, pagination⟩

/-- A client that asks for a page and then for the next one, until there is none. -/
inductive Follows (request : Request Filter) : ℤ → List Pagination → Prop
  | last {cursor : ℤ} {page : Page Data}
      (hpage : handlePaginatedEvents ethereum PAGE_SIZE request cursor = .ok page)
      (hnext : page.pagination.nextCursor = none) : Follows request cursor [page.pagination]
  | next {cursor nextCursor : ℤ} {page : Page Data} {pages : List Pagination}
      (hpage : handlePaginatedEvents ethereum PAGE_SIZE request cursor = .ok page)
      (hnext : page.pagination.nextCursor = some nextCursor)
      (hpages : Follows request nextCursor pages) :
      Follows request cursor (page.pagination :: pages)

/-- No request fails. -/
structure Ethereum.Answers : Prop where
  events : ∀ host contract event filter fromBlock toBlock, ∃ events,
    ethereum.getPaginatedPastEvents host contract event filter fromBlock toBlock = .ok events
  timestamp : ∀ blockNumber, ∃ timestamp,
    ethereum.getBlockTimestamp blockNumber = .ok timestamp

end

/-- The block is on the page. -/
def Pagination.Covers (page : Pagination) (block : ℤ) : Prop :=
  page.fromBlock ≤ block ∧ block ≤ page.toBlock

section

variable {Filter Data Error : Type} {ethereum : Ethereum Filter Data Error} {PAGE_SIZE cursor : ℤ}
  {request : Request Filter} {page : Page Data} {pages pages' : List Pagination}

/-! ## One page -/

/-- The pagination does not depend on the events. -/
lemma pagination_eq
    (h : handlePaginatedEvents ethereum PAGE_SIZE request cursor = .ok page) :
    page.pagination = paginate PAGE_SIZE cursor := by
  unfold handlePaginatedEvents at h
  dsimp only at h
  cases hevents : ethereum.getPaginatedPastEvents (withoutPoint request.host) request.contract
      request.event request.filter (paginate PAGE_SIZE cursor).fromBlock cursor with
  | error e =>
    rw [hevents] at h
    cases h
  | ok events =>
    rw [hevents] at h
    cases hdata : normalizeEvents ethereum events request.addTimestamp with
    | error e =>
      simp only [bind, Except.bind, hdata] at h
      cases h
    | ok eventData =>
      simp only [bind, Except.bind, hdata] at h
      cases h
      rfl

/-- The events of a page have timestamps when the chain answers. -/
lemma normalizeEvents_ok (hanswers : ethereum.Answers) (events : List (Event Data))
    (addTimestamp : Bool) :
    ∃ eventData, normalizeEvents ethereum events addTimestamp = .ok eventData := by
  induction events with
  | nil => exact ⟨[], rfl⟩
  | cons event events ih =>
    rcases ih with ⟨rest, hrest⟩
    unfold normalizeEvents at hrest ⊢
    rcases hanswers.timestamp event.blockNumber with ⟨timestamp, htimestamp⟩
    refine ⟨⟨event.returnValues, event.blockNumber,
      if addTimestamp then some timestamp else none⟩ :: rest, ?_⟩
    rw [List.mapM_cons, hrest]
    cases addTimestamp with
    | false => rfl
    | true =>
      rw [htimestamp]
      rfl

/-- A page is answered when the chain answers. -/
lemma handlePaginatedEvents_ok (hanswers : ethereum.Answers) (PAGE_SIZE : ℤ)
    (request : Request Filter) (cursor : ℤ) :
    ∃ page, handlePaginatedEvents ethereum PAGE_SIZE request cursor = .ok page := by
  rcases hanswers.events (withoutPoint request.host) request.contract request.event request.filter
    (paginate PAGE_SIZE cursor).fromBlock cursor with ⟨events, hevents⟩
  rcases normalizeEvents_ok hanswers events request.addTimestamp with ⟨eventData, hdata⟩
  refine ⟨⟨eventData, paginate PAGE_SIZE cursor⟩, ?_⟩
  unfold handlePaginatedEvents
  dsimp only
  rw [hevents]
  simp only [bind, Except.bind, hdata]
  rfl

/-! ## All pages -/

/-- The page up to a cursor: it is the last one and begins at 0, or the next cursor is the block
before it, and still positive. -/
lemma paginate_cases (hsize : 1 ≤ PAGE_SIZE) :
    paginate PAGE_SIZE cursor = ⟨0, cursor, none⟩ ∨
      ∃ nextCursor, paginate PAGE_SIZE cursor = ⟨nextCursor + 1, cursor, some nextCursor⟩ ∧
        1 ≤ nextCursor ∧ nextCursor + 1 < cursor := by
  unfold paginate
  by_cases hsmall : cursor - PAGE_SIZE ≤ 1
  · left
    simp only [if_pos hsmall]
    rw [if_neg (by omega)]
  · refine .inr ⟨cursor - PAGE_SIZE - 1, ?_, by omega, by omega⟩
    simp only [if_neg hsmall]
    rw [if_pos (by omega)]
    congr 1
    omega

/-- Whatever pages a client gets down from a cursor, they partition the blocks up to it. -/
lemma Follows.partition (hsize : 1 ≤ PAGE_SIZE) (hcursor : 1 ≤ cursor)
    (h : Follows ethereum PAGE_SIZE request cursor pages) :
    pages.Pairwise (fun page page' => ∀ block, page.Covers block → ¬ page'.Covers block) ∧
      ∀ block, (∃ page ∈ pages, page.Covers block) ↔ 0 ≤ block ∧ block ≤ cursor := by
  induction h with
  | last hpage hnext =>
    rw [pagination_eq hpage] at hnext ⊢
    rcases paginate_cases hsize with hlast | ⟨nextCursor, hmore, -, -⟩
    · refine ⟨List.pairwise_singleton _ _, fun block => ?_⟩
      rw [hlast]
      simp [Pagination.Covers]
    · rw [hmore] at hnext
      cases hnext
  | @next cursor nextCursor page pages hpage hnext hpages ih =>
    rw [pagination_eq hpage] at hnext ⊢
    rcases paginate_cases hsize with hlast | ⟨nextCursor', hmore, hpos, hlt⟩
    · rw [hlast] at hnext
      cases hnext
    · rw [hmore] at hnext ⊢
      obtain rfl : nextCursor' = nextCursor := Option.some.inj hnext
      rcases ih hpos with ⟨hpairwise, hcovers⟩
      -- the blocks of the pages to come end before this page
      refine ⟨List.pairwise_cons.mpr ⟨?_, hpairwise⟩, fun block => ?_⟩
      · intro page' hpage' block hblock hblock'
        have hend := ((hcovers block).mp ⟨page', hpage', hblock'⟩).2
        have hstart : nextCursor' + 1 ≤ block := hblock.1
        omega
      · constructor
        · rintro ⟨page', hpage', hblock⟩
          rcases List.mem_cons.mp hpage' with heq | hrest
          · rw [heq] at hblock
            have hstart : nextCursor' + 1 ≤ block := hblock.1
            have hend : block ≤ cursor := hblock.2
            omega
          · have hbelow := (hcovers block).mp ⟨page', hrest, hblock⟩
            omega
        · intro hblock
          by_cases hstart : nextCursor' + 1 ≤ block
          · exact ⟨_, List.mem_cons_self, hstart, hblock.2⟩
          · rcases (hcovers block).mpr ⟨hblock.1, by omega⟩ with ⟨page', hpage', hblock'⟩
            exact ⟨page', List.mem_cons_of_mem _ hpage', hblock'⟩

/-- The pages are the same for every client. -/
lemma Follows.unique (h : Follows ethereum PAGE_SIZE request cursor pages)
    (h' : Follows ethereum PAGE_SIZE request cursor pages') : pages' = pages := by
  induction h generalizing pages' with
  | last hpage hnext =>
    cases h' with
    | last hpage' _ => rw [pagination_eq hpage, pagination_eq hpage']
    | next hpage' hnext' _ =>
      rw [pagination_eq hpage] at hnext
      rw [pagination_eq hpage', hnext] at hnext'
      cases hnext'
  | next hpage hnext _ ih =>
    rw [pagination_eq hpage] at hnext
    cases h' with
    | last hpage' hnext' =>
      rw [pagination_eq hpage', hnext] at hnext'
      cases hnext'
    | next hpage' hnext' hpages' =>
      rw [pagination_eq hpage', hnext] at hnext'
      cases hnext'
      rw [pagination_eq hpage, pagination_eq hpage', ih hpages']

/-- From any cursor on there is a last page. -/
lemma exists_follows (hanswers : ethereum.Answers) (hsize : 1 ≤ PAGE_SIZE)
    (request : Request Filter) (n : ℕ) :
    ∀ cursor : ℤ, cursor.toNat ≤ n →
      ∃ pages, Follows ethereum PAGE_SIZE request cursor pages := by
  -- the cursors decrease
  induction n with
  | zero =>
    intro cursor hcursor
    rcases handlePaginatedEvents_ok hanswers PAGE_SIZE request cursor with ⟨page, hpage⟩
    refine ⟨_, .last hpage ?_⟩
    rw [pagination_eq hpage]
    rcases paginate_cases hsize with hlast | ⟨nextCursor, -, hpos, hlt⟩
    · rw [hlast]
    · omega
  | succ n ih =>
    intro cursor hcursor
    rcases handlePaginatedEvents_ok hanswers PAGE_SIZE request cursor with ⟨page, hpage⟩
    rcases paginate_cases hsize with hlast | ⟨nextCursor, hmore, hpos, hlt⟩
    · refine ⟨_, .last hpage ?_⟩
      rw [pagination_eq hpage, hlast]
    · rcases ih nextCursor (by omega) with ⟨pages, hpages⟩
      refine ⟨_, .next hpage ?_ hpages⟩
      rw [pagination_eq hpage, hmore]

/-- A client that follows the cursors down from a block gets to a last page, and its pages partition
the blocks. -/
theorem pages_partition (hanswers : ethereum.Answers) (hsize : 1 ≤ PAGE_SIZE)
    (hcursor : 1 ≤ cursor) (request : Request Filter) :
    ∃ pages, Follows ethereum PAGE_SIZE request cursor pages ∧
      (∀ pages', Follows ethereum PAGE_SIZE request cursor pages' → pages' = pages) ∧
      pages.Pairwise (fun page page' => ∀ block, page.Covers block → ¬ page'.Covers block) ∧
      ∀ block, (∃ page ∈ pages, page.Covers block) ↔ 0 ≤ block ∧ block ≤ cursor := by
  rcases exists_follows hanswers hsize request cursor.toNat cursor (Nat.le_refl _)
    with ⟨pages, hpages⟩
  have hpartition := hpages.partition hsize hcursor
  exact ⟨pages, hpages, fun pages' hpages' => hpages.unique hpages', hpartition.1, hpartition.2⟩

end

/-- A chain with an event in every tenth block. -/
def tenths : Ethereum Unit Unit Unit where
  getPaginatedPastEvents _ _ _ _ fromBlock toBlock :=
    .ok (((List.range (toBlock + 1).toNat).filter fun n => n % 10 = 0 ∧ fromBlock ≤ n).map
      fun n => ⟨(), n⟩)
  getBlockTimestamp blockNumber := .ok (1000 * blockNumber)

theorem pages_partition_tenths : ∃ pages,
    Follows tenths 4 ⟨js "blog.point", js "Blog", js "StateChange", true, ()⟩ 11 pages ∧
      (∀ pages', Follows tenths 4 ⟨js "blog.point", js "Blog", js "StateChange", true, ()⟩ 11
        pages' → pages' = pages) ∧
      pages.Pairwise (fun page page' => ∀ block, page.Covers block → ¬ page'.Covers block) ∧
      ∀ block, (∃ page ∈ pages, page.Covers block) ↔ 0 ≤ block ∧ block ≤ 11 :=
  pages_partition ⟨fun _ _ _ _ _ _ => ⟨_, rfl⟩, fun _ => ⟨_, rfl⟩⟩ (by decide) (by decide) _

example : (paginate 4 11, paginate 4 6, paginate 4 5) =
    (⟨7, 11, some 6⟩, ⟨2, 6, some 1⟩, ⟨0, 5, none⟩) := by decide

end PointNetwork.EventPages
