import KrxAlpha.LossAudit

/-! Gap-fill of the audited loss intervals. Trades a peer vendor received are
placed first, by cumulative volume; what they leave is filled from an external
tick tape, pooled over intervals whose seconds touch. Interval ids are positions
in the list of audited intervals, which is computed again after the peers'
trades were taken off. -/
namespace KrxAlpha

/-- Python's `str.zfill`: zeros go behind a sign. -/
def zfill (width : Nat) (text : String) : String :=
  match text.toList with
  | [] => String.ofList (List.replicate width '0')
  | first :: rest =>
    if first = '+' ∨ first = '-' then String.ofList (first :: rest.leftpad (width - 1) '0')
    else String.ofList ((first :: rest).leftpad width '0')

/-- An interval of the audit document, with the fields the repair reads. A time that is
absent or empty is `none`. -/
structure AuditInterval where
  phase : MarketPhase
  kind : LossKind
  missingTrades : Int
  volumeDeficit : Int
  cumPrev : Int
  cumNext : Int
  chetimePrev : Option Chetime
  chetimeNext : Option Chetime
  acmlPrev : Option Int
  acmlNextBefore : Option Int
  deriving DecidableEq

structure AuditEntry where
  symbol : String
  status : LedgerStatus
  tradesObserved : Int
  confirmedMissing : Int
  intervals : List AuditInterval
  deriving DecidableEq

/-- `tradesObserved` is the entry of that name under `totals`. -/
structure AuditDocument where
  symbols : List AuditEntry
  tradesObserved : Int
  deriving DecidableEq

namespace AuditInterval

/-- The test of `_audit_intervals`. -/
def Audited (interval : AuditInterval) : Prop :=
  0 < interval.missingTrades ∧ interval.chetimePrev.isSome ∧ interval.chetimeNext.isSome

instance (interval : AuditInterval) : Decidable interval.Audited :=
  inferInstanceAs (Decidable (_ ∧ _))

-- The two seconds are read of audited intervals only, which have them.
def firstSecond (interval : AuditInterval) : Int :=
  (interval.chetimePrev.map Chetime.number).getD 0

def lastSecond (interval : AuditInterval) : Int :=
  (interval.chetimeNext.map Chetime.number).getD 0

end AuditInterval

def auditIntervals (ledgers : List AuditEntry) : List (String × AuditInterval) :=
  ledgers.flatMap fun ledger =>
    (ledger.intervals.filter (·.Audited)).map fun interval => (zfill 6 ledger.symbol, interval)

/-- An audited interval under the id its position, or the caller, gives it. -/
structure AuditItem where
  id : Nat
  symbol : String
  interval : AuditInterval

def indexedAuditIntervals (ledgers : List AuditEntry) : List AuditItem :=
  (auditIntervals ledgers).zipIdx.map fun ((symbol, interval), id) => ⟨id, symbol, interval⟩

structure PeerTrade where
  acml : Int
  chetime : Int
  price : Int
  qty : Int
  deriving DecidableEq

structure Peer where
  peerId : String
  conflating : Bool := false
  perSymbol : Dict String (List PeerTrade)

def Peer.trades (peer : Peer) (symbol : String) : List PeerTrade :=
  (peer.perSymbol.get? symbol).getD []

/-- A fill row. The six-digit text of its time is kept as the number it spells. -/
structure FillRow where
  symbol : String
  chetime : Int
  price : Int
  volume : Int
  tapeSeq : Int
  intervalId : Nat
  cumPrev : Int
  cumNext : Int
  vendor : String
  provenance : String
  deriving DecidableEq

namespace FillRow

/-- The order of `sort(["symbol", "chetime", "tape_seq"])`. -/
def Before (first second : FillRow) : Prop :=
  first.symbol < second.symbol ∨
    (first.symbol = second.symbol ∧
      (zfill 6 (toString first.chetime) < zfill 6 (toString second.chetime) ∨
        (zfill 6 (toString first.chetime) = zfill 6 (toString second.chetime) ∧
          first.tapeSeq ≤ second.tapeSeq)))

instance (first second : FillRow) : Decidable (first.Before second) :=
  inferInstanceAs (Decidable (_ ∨ _))

end FillRow

/-- The plain peers' trades within the span, the first peer to hold a cumulative volume
supplying it. -/
def plainTrades (peers : List Peer) (symbol : String) (lo hi : Int) :
    Dict Int (PeerTrade × String) :=
  (peers.filter (!·.conflating)).foldl (fun seen peer =>
    (peer.trades symbol).foldl (fun seen trade =>
      if lo < trade.acml ∧ trade.acml ≤ hi ∧ ¬ seen.contains trade.acml then
        seen.set trade.acml (trade, peer.peerId)
      else seen) seen) ∅

/-- The first conflating peer whose trades match the missing count and the span. -/
def conflatedTrades (peers : List Peer) (symbol : String) (lo hi missing : Int) :
    Option (List (PeerTrade × String)) :=
  (peers.filter (·.conflating)).findSome? fun peer =>
    let candidate := ((peer.trades symbol).filter fun trade =>
      lo < trade.acml ∧ trade.acml ≤ hi).insertionSort (·.acml ≤ ·.acml)
    if (candidate.length : Int) = missing ∧ (candidate.map (·.qty)).sum = hi - lo then
      some (candidate.map fun trade => (trade, peer.peerId))
    else none

inductive Pick where
  | untouched
  | rejected
  | filled (trades : List (PeerTrade × String))

/-- One round of the loop of `derive_cross_vendor_fill`. -/
def pickTrades (peers : List Peer) (item : AuditItem) : Pick :=
  match item.interval.acmlPrev, item.interval.acmlNextBefore with
  | some lo, some hi =>
    let missing := item.interval.missingTrades
    if missing ≤ 0 ∨ hi ≤ lo then .untouched
    else
      let seen := plainTrades peers item.symbol lo hi
      if seen.keys = [] then
        match conflatedTrades peers item.symbol lo hi missing with
        | some trades => .filled trades
        | none => .untouched
      else
        let ordered := (seen.keys.insertionSort (· ≤ ·)).filterMap seen.get?
        if hi - lo < (ordered.map (·.1.qty)).sum ∨ missing < ordered.length then .rejected
        else .filled ordered
  | _, _ => .untouched

def Pick.trades? : Pick → Option (List (PeerTrade × String))
  | .filled trades => some trades
  | _ => none

def Pick.isRejected : Pick → Bool
  | .rejected => true
  | _ => false

def crossPicked (peers : List Peer) (items : List AuditItem) :
    List (AuditItem × List (PeerTrade × String)) :=
  items.filterMap fun item => (pickTrades peers item).trades?.map fun trades => (item, trades)

def crossRow (item : AuditItem) (pick : PeerTrade × String) : FillRow :=
  { symbol := item.symbol
    chetime := pick.1.chetime
    price := pick.1.price
    volume := pick.1.qty
    tapeSeq := pick.1.acml
    intervalId := item.id
    cumPrev := item.interval.cumPrev
    cumNext := item.interval.cumNext
    vendor := pick.2
    provenance := "gapfill:xvendor_" ++ pick.2 }

/-- What the peers left of an interval: trades and volume, neither below zero. -/
def AuditInterval.lessRecovered (interval : AuditInterval) (count qty : Int) : AuditInterval :=
  { interval with
    missingTrades := max 0 (interval.missingTrades - count)
    volumeDeficit := max 0 (interval.volumeDeficit - qty) }

/-- Change the audited intervals of one ledger in place, the first of them having the
given id. -/
def changeIntervals (change : Nat → AuditInterval → AuditInterval) (id : Nat) :
    List AuditInterval → List AuditInterval
  | [] => []
  | interval :: rest =>
    if interval.Audited then change id interval :: changeIntervals change (id + 1) rest
    else interval :: changeIntervals change id rest

def changeAudited (change : Nat → AuditInterval → AuditInterval) (id : Nat) :
    List AuditEntry → List AuditEntry
  | [] => []
  | ledger :: rest =>
    { ledger with intervals := changeIntervals change id ledger.intervals } ::
      changeAudited change (id + (ledger.intervals.filter (·.Audited)).length) rest

/-- The deep copy of the ledgers, with what was recovered taken off its interval. -/
def residualLedgers (ledgers : List AuditEntry) (recovered : Dict Nat Nat)
    (recoveredQty : Dict Nat Int) : List AuditEntry :=
  changeAudited (fun id interval =>
    match recovered.get? id with
    | some count => interval.lessRecovered count ((recoveredQty.get? id).getD 0)
    | none => interval) 0 ledgers

/-- The result of `derive_cross_vendor_fill`. The source hands the rejected count over
inside the residual document. -/
structure CrossFill where
  rows : List FillRow
  recovered : Dict Nat Nat
  residual : AuditDocument
  rejected : Nat

def deriveCrossVendorFill (audit : AuditDocument) (peers : List Peer) : CrossFill :=
  let items := indexedAuditIntervals audit.symbols
  let picked := crossPicked peers items
  let recovered := Dict.ofList (picked.map fun (item, trades) => (item.id, trades.length))
  let recoveredQty := Dict.ofList (picked.map fun (item, trades) =>
    (item.id, (trades.map (·.1.qty)).sum))
  { rows := (picked.flatMap fun (item, trades) => trades.map (crossRow item)).insertionSort
      FillRow.Before
    recovered
    residual := { audit with symbols := residualLedgers audit.symbols recovered recoveredQty }
    rejected := (items.filter fun item => (pickTrades peers item).isRejected).length }

/-- One trade of an external tape, with the columns the gap-fill selects. -/
structure TapeTrade where
  symbol : String
  tsHms : Int
  price : Int
  volume : Int
  deriving DecidableEq

structure GapfillSource where
  vendor : String
  provenance : String
  tape : List TapeTrade

structure TapeRow where
  seq : Nat
  price : Int
  volume : Int
  deriving DecidableEq

/-- The live `(cum, price, volume)` by symbol and second. -/
abbrev Received := Dict (String × Int) (List (Int × Int × Int))

/-- The tape by symbol and second, in tape order. -/
def indexTape (tape : List TapeTrade) : Dict String (Dict Int (List TapeRow)) :=
  tape.zipIdx.foldl (fun bySymbol (trade, seq) =>
    let byTs := (bySymbol.get? trade.symbol).getD ∅
    let rows := (byTs.get? trade.tsHms).getD []
    bySymbol.set trade.symbol (byTs.set trade.tsHms (rows ++ [⟨seq, trade.price, trade.volume⟩]))) ∅

/-- Intervals of one symbol whose second ranges touch. The members are kept with their
intervals, which the source looks up again by id. -/
structure Cluster where
  members : List AuditItem
  symbol : String
  lo : Int
  hi : Int

/-- The newest cluster of the item's symbol takes it in if it reaches the item's first
second. Clusters stand newest first, so that `open_by_symbol` is the first of the
symbol. -/
def joinOpen (item : AuditItem) : List Cluster → Option (List Cluster)
  | [] => none
  | cluster :: older =>
    if cluster.symbol = item.symbol then
      if item.interval.firstSecond ≤ cluster.hi then
        some ({ cluster with
          hi := max cluster.hi item.interval.lastSecond
          members := cluster.members ++ [item] } :: older)
      else none
    else (joinOpen item older).map (cluster :: ·)

def placeItem (clusters : List Cluster) (item : AuditItem) : List Cluster :=
  (joinOpen item clusters).getD
    (⟨[item], item.symbol, item.interval.firstSecond, item.interval.lastSecond⟩ :: clusters)

/-- The order of `sorted(items, key=(symbol, int(chetime_prev)))`. -/
def AuditItem.Before (first second : AuditItem) : Prop :=
  first.symbol < second.symbol ∨
    (first.symbol = second.symbol ∧ first.interval.firstSecond ≤ second.interval.firstSecond)

instance (first second : AuditItem) : Decidable (first.Before second) :=
  inferInstanceAs (Decidable (_ ∨ _))

def clustersOf (items : List AuditItem) : List Cluster :=
  ((items.insertionSort AuditItem.Before).foldl placeItem []).reverse

/-- The tape rows of one second that are not among the live trades, as multisets of
price and volume. -/
def notReceived (held : List (Int × Int)) : List TapeRow → List TapeRow
  | [] => []
  | row :: rest =>
    if (row.price, row.volume) ∈ held then notReceived (held.erase (row.price, row.volume)) rest
    else row :: notReceived held rest

def pooledRows (byTs : Dict Int (List TapeRow)) (lo hi : Int) (received : Option Received)
    (symbol : String) : List (Int × TapeRow) :=
  (byTs.keys.insertionSort (· ≤ ·)).flatMap fun ts =>
    let rows := (byTs.get? ts).getD []
    if lo ≤ ts ∧ ts ≤ hi then
      match received with
      | none => if lo < ts ∧ ts < hi then rows.map (ts, ·) else []
      | some live =>
        (notReceived (((live.get? (symbol, ts)).getD []).map Prod.snd) rows).map (ts, ·)
    else []

/-- The latest pooled row whose volume is the excess. -/
def lastOfVolume (pool : List (Int × TapeRow)) (excess : Int) : Option Nat :=
  (List.range pool.length).reverse.find? fun index =>
    pool[index]?.any fun item => item.2.volume = excess

/-- The positions of the smallest-volume rows, the latest first on ties. -/
def smallestRows (pool : List (Int × TapeRow)) (drop : Nat) : List Nat :=
  ((pool.zipIdx.insertionSort fun first second =>
      first.1.2.volume < second.1.2.volume ∨
        (first.1.2.volume = second.1.2.volume ∧ second.2 ≤ first.2)).map Prod.snd).take drop

def trimSurplus (pool : List (Int × TapeRow)) (keep deficit : Int) : List (Int × TapeRow) :=
  let drop := ((pool.length : Int) - keep).toNat
  let excess := (pool.map (·.2.volume)).sum - deficit
  let single := if drop = 1 ∧ 0 < deficit then lastOfVolume pool excess else none
  match single with
  | some index => pool.eraseIdx index
  | none =>
    let smallest := smallestRows pool drop
    (pool.zipIdx.filter fun item => item.2 ∉ smallest).map Prod.fst

/-- The statuses `full`, `partial`, `none` and `over`. -/
inductive GapfillStatus where
  | full | partly | nothing | over
  deriving DecidableEq

structure GapfillInterval where
  intervalId : Nat
  symbol : String
  chetimePrev : Option Chetime
  chetimeNext : Option Chetime
  cumPrev : Int
  cumNext : Int
  missingTrades : Int
  recovered : Int
  residual : Int
  status : GapfillStatus
  surplus : Int := 0
  recoveredXvendor : Int := 0
  deriving DecidableEq

/-- The outcome of one member that the tape gives `taken` trades. -/
def memberOutcome (symbol : String) (surplus : Int) (last : Bool) (item : AuditItem)
    (prior : Nat) (taken : Int) : GapfillInterval :=
  let original := item.interval.missingTrades + prior
  let total := prior + taken
  { intervalId := item.id
    symbol
    chetimePrev := item.interval.chetimePrev
    chetimeNext := item.interval.chetimeNext
    cumPrev := item.interval.cumPrev
    cumNext := item.interval.cumNext
    missingTrades := original
    recovered := total
    residual := max 0 (original - total)
    status :=
      if last ∧ surplus ≠ 0 then .over
      else if total = 0 then .nothing
      else if total < original then .partly
      else .full
    surplus := if last then surplus else 0
    recoveredXvendor := prior }

/-- Hand the pool to the members in time order. -/
def clusterOutcomes (symbol : String) (surplus : Int) (prior : Dict Nat Nat) (remaining : Int) :
    List AuditItem → List GapfillInterval
  | [] => []
  | item :: rest =>
    let taken := min item.interval.missingTrades remaining
    memberOutcome symbol surplus rest.isEmpty item ((prior.get? item.id).getD 0) taken ::
      clusterOutcomes symbol surplus prior (remaining - taken) rest

def tapeRow (source : GapfillSource) (outcome : GapfillInterval) (pooled : Int × TapeRow) : FillRow :=
  { symbol := outcome.symbol
    chetime := pooled.1
    price := pooled.2.price
    volume := pooled.2.volume
    tapeSeq := pooled.2.seq
    intervalId := outcome.intervalId
    cumPrev := outcome.cumPrev
    cumNext := outcome.cumNext
    vendor := source.vendor
    provenance := source.provenance }

/-- The rows of the outcomes in turn; the pool is what lies behind the cursor. -/
def clusterRows (source : GapfillSource) (pool : List (Int × TapeRow)) :
    List GapfillInterval → List FillRow
  | [] => []
  | outcome :: rest =>
    let take := (outcome.recovered - outcome.recoveredXvendor).toNat
    (pool.take take).map (tapeRow source outcome) ++ clusterRows source (pool.drop take) rest

/-- The first source with a pooled trade. -/
def choosePool (sources : List GapfillSource) (received : Option Received) (cluster : Cluster) :
    Option (GapfillSource × List (Int × TapeRow)) :=
  sources.findSome? fun source =>
    let byTs := ((indexTape source.tape).get? cluster.symbol).getD ∅
    match pooledRows byTs cluster.lo cluster.hi received cluster.symbol with
    | [] => none
    | pool => some (source, pool)

def fillCluster (sources : List GapfillSource) (received : Option Received) (prior : Dict Nat Nat)
    (cluster : Cluster) : List FillRow × List GapfillInterval :=
  let missing := (cluster.members.map (·.interval.missingTrades)).sum
  let deficit := (cluster.members.map (·.interval.volumeDeficit)).sum
  match choosePool sources received cluster with
  | none => ([], clusterOutcomes cluster.symbol (max 0 (0 - missing)) prior 0 cluster.members)
  | some (source, found) =>
    let surplus := max 0 ((found.length : Int) - missing)
    let pool := if surplus ≠ 0 then trimSurplus found missing deficit else found
    let outcomes := clusterOutcomes cluster.symbol surplus prior pool.length cluster.members
    (clusterRows source pool outcomes, outcomes)

/-- The items under the caller's ids, or under their positions. -/
def pinnedItems (base : List (String × AuditInterval)) : Option (List Nat) → Except String (List AuditItem)
  | some ids =>
    if ids.length ≠ base.length ∨ ¬ ids.Nodup then
      .error ("interval_ids length or uniqueness invalid for " ++ toString base.length ++
        " audited intervals")
    else .ok (List.zipWith (fun id (symbol, interval) => ⟨id, symbol, interval⟩) ids base)
  | none => .ok (base.zipIdx.map fun ((symbol, interval), id) => ⟨id, symbol, interval⟩)

/-- Ids are distinct, so the outcomes kept by id are the list of them in id order. -/
def deriveGapfill (audit : AuditDocument) (sources : List GapfillSource)
    (received : Option Received) (intervalIds : Option (List Nat)) (priorRecovered : Dict Nat Nat) :
    Except String (List FillRow × List GapfillInterval) := do
  let items ← pinnedItems (auditIntervals audit.symbols) intervalIds
  let filled := (clustersOf items).map (fillCluster sources received priorRecovered)
  return ((filled.flatMap Prod.fst).insertionSort FillRow.Before,
    (filled.flatMap Prod.snd).insertionSort (·.intervalId ≤ ·.intervalId))

structure GapfillTotals where
  intervals : Nat
  missingTrades : Int
  recovered : Int
  residual : Int

def summarizeGapfill (outcomes : List GapfillInterval) : GapfillTotals :=
  { intervals := outcomes.length
    missingTrades := (outcomes.map (·.missingTrades)).sum
    recovered := (outcomes.map (·.recovered)).sum
    residual := (outcomes.map (·.residual)).sum }

/-- What the job writes for a day: the rows, and the report about them. -/
structure GapfillReport where
  rows : List FillRow
  outcomes : List GapfillInterval
  totals : GapfillTotals
  xvendorRecovered : Nat
  xvendorRejected : Nat

/-- The peers' rows count as received when the tape is reconciled. -/
def withCrossRows (received : Received) (rows : List FillRow) : Received :=
  rows.foldl (fun live row =>
    let key := (row.symbol, row.chetime)
    live.set key ((live.get? key).getD [] ++ [(-1, row.price, row.volume)])) received

/-- The outcome the job writes for an interval the peers filled whole. -/
def completedOutcome (item : AuditItem) (count : Nat) : GapfillInterval :=
  { intervalId := item.id
    symbol := item.symbol
    chetimePrev := item.interval.chetimePrev
    chetimeNext := item.interval.chetimeNext
    cumPrev := item.interval.cumPrev
    cumNext := item.interval.cumNext
    missingTrades := item.interval.missingTrades
    recovered := count
    residual := 0
    status := .full
    recoveredXvendor := count }

/-- What is written when the tape gave `rows` and `outcomes` and the peers completed the
other intervals. -/
def CrossFill.report (cross : CrossFill) (rows : List FillRow)
    (outcomes completed : List GapfillInterval) : GapfillReport :=
  let settled := (outcomes ++ completed).insertionSort (·.intervalId ≤ ·.intervalId)
  { rows := (cross.rows ++ rows).insertionSort FillRow.Before
    outcomes := settled
    totals := summarizeGapfill settled
    xvendorRecovered := cross.recovered.values.sum
    xvendorRejected := cross.rejected }

/-- The gap-fill step of `_run_locked`, from the day's audit document to the rows and the
report it writes. -/
def gapfillStep (audit : AuditDocument) (peers : List Peer) (tape : List TapeTrade)
    (received : Received) : Except String GapfillReport := do
  let cross := deriveCrossVendorFill audit peers
  let original := indexedAuditIntervals audit.symbols
  let countOf := fun (item : AuditItem) => (cross.recovered.get? item.id).getD 0
  let remainingIds :=
    (original.filter fun item => (countOf item : Int) < item.interval.missingTrades).map (·.id)
  let (rows, outcomes) ← deriveGapfill cross.residual [⟨"kiwoom", "gapfill:kiwoom_tape", tape⟩]
    (some (withCrossRows received cross.rows)) (some remainingIds) cross.recovered
  let completed := (original.filter fun item =>
    (countOf item : Int) = item.interval.missingTrades).map fun item =>
      completedOutcome item (countOf item)
  return cross.report rows outcomes completed

/-- The merge's first check, of the rows it read against the report's total. -/
def gapfillRowsNeRecovered (rows : List FillRow) (totals : GapfillTotals) : Bool :=
  (rows.length : Int) ≠ totals.recovered

end KrxAlpha
