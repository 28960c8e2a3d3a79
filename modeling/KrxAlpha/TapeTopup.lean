import KrxAlpha.RepairMerge
import KrxAlpha.TapeBackfill

/-! The tape top-up of a repaired day. Trades that the tape holds more often than the
merged table are put into the free counters of their symbol, gap by gap, each where the
seconds of the neighbouring rows bracket its own. -/
namespace KrxAlpha

/-- Its symbol, second, price and volume. -/
def RepairedTick.trade (row : RepairedTick) : TapeTrade :=
  ⟨row.symbol, row.chetime, row.price, row.volume⟩

/-- A trade of the tape that the table lacks. -/
structure MissingTrade where
  second : Int
  seq : Nat
  price : Int
  volume : Int
  deriving DecidableEq

namespace MissingTrade

/-- The order of `trades.sort()`, which compares tuples. -/
def Before (first second : MissingTrade) : Prop :=
  first.second < second.second ∨
    (first.second = second.second ∧
      (first.seq < second.seq ∨
        (first.seq = second.seq ∧
          (first.price < second.price ∨
            (first.price = second.price ∧ first.volume ≤ second.volume)))))

instance decidableBefore (first second : MissingTrade) : Decidable (first.Before second) :=
  inferInstanceAs (Decidable (_ ∨ _))

/-- The row that puts the trade under a counter. -/
def row (symbol : String) (trade : MissingTrade) (slot : Int) : RepairedTick :=
  { symbol
    chetime := trade.second
    price := trade.price
    volume := trade.volume
    cum := slot
    source := "tape_topup"
    intervalId := none
    recvWallNs := none }

end MissingTrade

/-! ### Gaps -/

/-- Free counters between `lo` and `hi`, and the seconds of the rows around them. -/
structure TopupGap where
  lo : Int
  hi : Int
  tPrev : Int
  tNext : Int
  deriving DecidableEq

/-- What `sort("cum")` may do: it leaves open in which order rows with one counter come. -/
structure CumSort where
  sort : List RepairedTick → List RepairedTick
  perm : ∀ rows, (sort rows).Perm rows
  sorted : ∀ rows, (sort rows).Pairwise fun first second => first.cum ≤ second.cum

/-- `unique(subset=["symbol", "cum"], keep="first")`. -/
def firstByCounter : List RepairedTick → List RepairedTick
  | [] => []
  | row :: rest =>
    row :: (firstByCounter rest).filter fun other =>
      ¬ (other.symbol = row.symbol ∧ other.cum = row.cum)

/-- The gaps between the rows of one symbol; `lo` and `tPrev` come from the row before. -/
def gapsFrom (lo tPrev : Int) : List RepairedTick → List TopupGap
  | [] => []
  | row :: rest =>
    let later := gapsFrom row.cum row.chetime rest
    if 1 < row.cum - lo then ⟨lo, row.cum, tPrev, row.chetime⟩ :: later else later

/-! ### The loops over one symbol -/

/-- The trades that are not used. -/
def unusedTrades (entries : List (MissingTrade × Bool)) : List MissingTrade :=
  (entries.filter (!·.2)).map (·.1)

/-- `trades` with their `used` marks, cut at `pointer`. -/
structure TopupCursor where
  passed : List (MissingTrade × Bool)
  ahead : List (MissingTrade × Bool)

/-- The loop over `index`: unused trades take the slots from `slot` on. -/
def fillGap (hi tNext : Int) (slot : Int) :
    List (MissingTrade × Bool) → List (MissingTrade × Bool) × List (MissingTrade × Int)
  | [] => ([], [])
  | (trade, used) :: rest =>
    if slot < hi ∧ trade.second ≤ tNext then
      if used then
        let filled := fillGap hi tNext slot rest
        ((trade, true) :: filled.1, filled.2)
      else
        let filled := fillGap hi tNext (slot + 1) rest
        ((trade, true) :: filled.1, (trade, slot) :: filled.2)
    else ((trade, used) :: rest, [])

namespace TopupCursor

/-- A trade the loop over `pointer` does not stop at. -/
def skips (gap : TopupGap) (entry : MissingTrade × Bool) : Bool :=
  entry.2 || entry.1.second < gap.tPrev

/-- One round of the loop over the gaps, with what it placed. -/
def serve (cursor : TopupCursor) (gap : TopupGap) : TopupCursor × List (MissingTrade × Int) :=
  let filled := fillGap gap.hi gap.tNext (gap.lo + 1) (cursor.ahead.dropWhile (skips gap))
  (⟨cursor.passed ++ cursor.ahead.takeWhile (skips gap), filled.1⟩, filled.2)

def serveAll (cursor : TopupCursor) : List TopupGap → TopupCursor × List (MissingTrade × Int)
  | [] => (cursor, [])
  | gap :: rest =>
    let (next, placed) := cursor.serve gap
    let (last, later) := next.serveAll rest
    (last, placed ++ later)

def start (trades : List MissingTrade) : TopupCursor := ⟨[], trades.map (·, false)⟩

def unused (cursor : TopupCursor) : List MissingTrade :=
  unusedTrades (cursor.passed ++ cursor.ahead)

end TopupCursor

/-! ### The whole table -/

/-- A call of `_apply_tape_topup`, with the tape rows `_load_tape_rows` returned. -/
structure TapeTopup where
  order : CumSort
  table : List RepairedTick
  tape : List TopupRow

namespace TapeTopup

def symbols (call : TapeTopup) : List String := (call.tape.map (·.symbol)).dedup

/-- The rows of the symbols on the tape. -/
def live (call : TapeTopup) : List RepairedTick :=
  call.table.filter fun row => call.symbols.contains row.symbol

/-- How often the tape holds the trade beyond what the table does. -/
def lacking (call : TapeTopup) (trade : TapeTrade) : Nat :=
  call.tape.countP (·.trade = trade) - call.live.countP (·.trade = trade)

/-- The trade as often as it is lacking, under the first of its sequence numbers. -/
def lacked (call : TapeTopup) (trade : TapeTrade) : List MissingTrade :=
  let seqs := ((call.tape.filter (·.trade = trade)).map (·.tapeSeq)).insertionSort (· ≤ ·)
  (seqs.take (call.lacking trade)).map fun seq => ⟨trade.tsHms, seq, trade.price, trade.volume⟩

/-- The list `missing` holds under a symbol. -/
def missing (call : TapeTopup) (symbol : String) : List MissingTrade :=
  ((call.tape.map (·.trade)).dedup.filter (·.symbol = symbol)).flatMap call.lacked

/-- The rows between which a symbol's gaps lie. -/
def kept (call : TapeTopup) (symbol : String) : List RepairedTick :=
  (firstByCounter (call.order.sort call.live)).filter (·.symbol = symbol)

def gaps (call : TapeTopup) (symbol : String) : List TopupGap :=
  (gapsFrom 0 0 (call.kept symbol)).insertionSort (·.lo ≤ ·.lo)

def served (call : TapeTopup) (symbol : String) : TopupCursor × List (MissingTrade × Int) :=
  (TopupCursor.start ((call.missing symbol).insertionSort MissingTrade.Before)).serveAll
    (call.gaps symbol)

/-- The trades of the symbol that are counted as unplaced. -/
def unplaced (call : TapeTopup) (symbol : String) : List MissingTrade :=
  (call.served symbol).1.unused

def added (call : TapeTopup) : List RepairedTick :=
  call.symbols.flatMap fun symbol =>
    (call.served symbol).2.map fun placed => placed.1.row symbol placed.2

/-- The table as it is written, the rows added and the trades left unplaced. The returns of
`0, 0` are this too: nothing is missing then. -/
def apply (call : TapeTopup) : List RepairedTick × Nat × Nat :=
  (call.table ++ call.added, call.added.length,
    (call.symbols.map fun symbol => (call.unplaced symbol).length).sum)

end TapeTopup

/-- The top-up of a day over the store of its tape. -/
def applyTapeTopup (order : CumSort) (store : TapeStore) (day : Int) (table : List RepairedTick) :
    List RepairedTick × Nat × Nat :=
  TapeTopup.apply ⟨order, table, store.loadTapeRows day (table.map (·.symbol))⟩

end KrxAlpha
