import KrxAlpha.Bisect
import KrxAlpha.Gapfill
import KrxAlpha.JoinedSpans

/-! The merge of a repaired day. Live trades are written first, each under the counter it
came with; then every gap-fill row is given a free counter of its interval. A row whose trade
arrived late among the live ones is dropped, and so is a row that finds no counter. -/
namespace KrxAlpha

structure LiveTick where
  symbol : String
  chetime : Int
  price : Int
  volume : Int
  cum : Int
  recvNs : Int
  deriving DecidableEq

/-- A row of the repaired table. -/
structure RepairedTick where
  symbol : String
  chetime : Int
  price : Int
  volume : Int
  cum : Int
  source : String
  intervalId : Option Nat
  recvWallNs : Option Int
  deriving DecidableEq

/-- The primary key of the table of counters. -/
def LiveTick.counter (tick : LiveTick) : String × Int := (tick.symbol, tick.cum)

def LiveTick.twin (tick : LiveTick) : Int × Int × Int := (tick.chetime, tick.price, tick.volume)

def LiveTick.repaired (tick : LiveTick) : RepairedTick :=
  { symbol := tick.symbol
    chetime := tick.chetime
    price := tick.price
    volume := tick.volume
    cum := tick.cum
    source := "live"
    intervalId := none
    recvWallNs := some tick.recvNs }

namespace FillRow

def key (row : FillRow) : String × Nat := (row.symbol, row.intervalId)

def twin (row : FillRow) : Int × Int × Int := (row.chetime, row.price, row.volume)

/-- The counter lies strictly inside the row's interval. -/
def Inside (row : FillRow) (cum : Int) : Prop := row.cumPrev < cum ∧ cum < row.cumNext

instance decidableInside (row : FillRow) (cum : Int) : Decidable (row.Inside cum) :=
  inferInstanceAs (Decidable (_ ∧ _))

def repaired (row : FillRow) (slot : Int) : RepairedTick :=
  { symbol := row.symbol
    chetime := row.chetime
    price := row.price
    volume := row.volume
    cum := slot
    source := row.provenance
    intervalId := some row.intervalId
    recvWallNs := none }

end FillRow

/-! ### Gaps -/

/-- A span that begins inside the newest one is united with it. -/
def uniteSpan : List (Int × Int) → Int × Int → List (Int × Int) := joinSpan fun start stop => start < stop

/-- The list `gap_ranges` holds under a symbol. The query leaves open in which order spans
with one beginning come. -/
def gapRanges (rows : List FillRow) (symbol : String) : List (Int × Int) :=
  (((((rows.filter (·.symbol = symbol)).map fun row => (row.cumPrev, row.cumNext)).dedup).insertionSort
    (·.1 ≤ ·.1)).foldl uniteSpan []).reverse

/-- `inside_gap`, on the spans under the symbol. -/
def insideGap (spans : List (Int × Int)) (cum : Int) : Bool :=
  let index : Int := bisectLeft (spans.map (·.1)) cum - 1
  0 ≤ index && spans[index.toNat]?.any fun span => span.1 < cum && cum < span.2

/-! ### The loops -/

/-- `late` and `counters` are the two tables of the index. -/
structure MergeState where
  counters : List (String × Int) := []
  late : List LiveTick := []
  table : List RepairedTick := []
  nextSlot : Dict (String × Nat) Int := ∅
  latePool : Dict (String × Nat) (List (Int × Int × Int)) := ∅
  filledRows : Nat := 0
  deduped : Nat := 0
  overfillDropped : Nat := 0

/-- What became of a gap-fill row. -/
inductive Placement where
  | deduped
  | overfill
  | slot (cum : Int)
  deriving DecidableEq

namespace MergeState

/-- One round of the live loop. -/
def addLive (rows : List FillRow) (state : MergeState) (tick : LiveTick) : MergeState :=
  if tick.counter ∈ state.counters then { state with table := state.table ++ [tick.repaired] }
  else
    { state with
      counters := tick.counter :: state.counters
      late := if insideGap (gapRanges rows tick.symbol) tick.cum then state.late ++ [tick] else state.late
      table := state.table ++ [tick.repaired] }

/-- The late trades of the row's interval. -/
def lateTwins (late : List LiveTick) (row : FillRow) : List (Int × Int × Int) :=
  (late.filter fun tick => tick.symbol = row.symbol ∧ row.Inside tick.cum).map (·.twin)

def pool (state : MergeState) (row : FillRow) : List (Int × Int × Int) :=
  (state.latePool.get? row.key).getD (lateTwins state.late row)

/-- The loop `while slot < cum_next`, of at most this many rounds. -/
def searchSlot (counters : List (String × Int)) (symbol : String) : Nat → Int → Int
  | 0, slot => slot
  | rounds + 1, slot =>
    if (symbol, slot) ∈ counters then searchSlot counters symbol rounds (slot + 1) else slot

def firstSlot (state : MergeState) (row : FillRow) : Int :=
  (state.nextSlot.get? row.key).getD (row.cumPrev + 1)

def foundSlot (state : MergeState) (row : FillRow) : Int :=
  searchSlot state.counters row.symbol (row.cumNext - state.firstSlot row).toNat (state.firstSlot row)

/-- One round of the loop over the gap-fill rows. -/
def addFill (state : MergeState) (row : FillRow) : MergeState × Placement :=
  let pool := state.pool row
  if row.twin ∈ pool then
    ({ state with
      latePool := state.latePool.set row.key (pool.erase row.twin)
      deduped := state.deduped + 1 }, .deduped)
  else
    let slot := state.foundSlot row
    let searched := { state with
      latePool := state.latePool.set row.key pool
      counters := if slot < row.cumNext then (row.symbol, slot) :: state.counters else state.counters }
    if row.Inside slot then
      ({ searched with
        nextSlot := state.nextSlot.set row.key (slot + 1)
        table := state.table ++ [row.repaired slot]
        filledRows := state.filledRows + 1 }, .slot slot)
    else ({ searched with overfillDropped := state.overfillDropped + 1 }, .overfill)

/-- The loop over the gap-fill rows, with what became of each. -/
def addFills (state : MergeState) : List FillRow → MergeState × List (FillRow × Placement)
  | [] => (state, [])
  | row :: rest =>
    let (next, placement) := state.addFill row
    let (last, placed) := next.addFills rest
    (last, (row, placement) :: placed)

end MergeState

/-- `ORDER BY symbol, chetime, tape_seq, seq`; the rows come in the order of `seq`. -/
def orderedRows (rows : List FillRow) : List FillRow := rows.insertionSort FillRow.Before

/-- Both loops of `_build_repaired_ticks`, on a day whose counts of rows agree. -/
def mergeTicks (ticks : List LiveTick) (rows : List FillRow) :
    MergeState × List (FillRow × Placement) :=
  (ticks.foldl (MergeState.addLive rows) {}).addFills (orderedRows rows)

end KrxAlpha
