import KrxAlpha.TapeWalk
import KrxAlpha.Gapfill

/-! The backfill of research tapes and its two readers. A run walks the tapes of its
targets, stages the days it gets and, at a checkpoint, publishes one file per day and then
appends to the ledger what is settled. A crash or an I/O failure ends a run between any two
of these durable effects. The gap-fill reads all files of a day, the merge one run per
symbol. -/
namespace KrxAlpha

inductive TapeTier where
  | repair | gap | c | bDynamic
  deriving DecidableEq

inductive TapeStatus where
  | complete | vendorEmpty | edgePartial | failed | abandoned
  deriving DecidableEq

structure TapeRecord where
  date : Int
  symbol : String
  status : TapeStatus
  rows : Nat
  runId : String
  vendor : String := "kiwoom"
  tier : TapeTier
  reason : Option String := none
  deriving DecidableEq

structure TickTapeTarget where
  symbol : String
  days : List Int
  tier : TapeTier := .gap

/-- A row of a published partition. -/
structure PartitionRow where
  date : Int
  symbol : String
  tapeSeq : Nat
  tsHms : Int
  price : Int
  volume : Int
  vendor : String := "kiwoom"
  runId : String
  deriving DecidableEq

/-- One symbol's staged day. -/
structure DayChunk where
  symbol : String
  day : Int
  ticks : List TapeTick
  label : String
  deriving DecidableEq

def DayChunk.rows (chunk : DayChunk) : List PartitionRow :=
  chunk.ticks.zipIdx.map fun (tick, seq) =>
    { date := chunk.day, symbol := chunk.symbol, tapeSeq := seq, tsHms := tick.tsHms,
      price := tick.price, volume := tick.volume, runId := chunk.label }

/-- What a run does that outlasts it: its marker directory, a published partition, a ledger
line. -/
inductive TapeEffect where
  | marker (runId : String)
  | publish (day : Int) (label : String) (chunks : List DayChunk)
  | record (record : TapeRecord)
  deriving DecidableEq

/-! ### The store -/

structure TapeStore where
  runs : List String := []
  partitions : Dict (Int × String) (List PartitionRow) := ∅
  ledger : List TapeRecord := []

def partitionName (label : String) : String := "run-" ++ label ++ ".parquet"

namespace TapeStore

/-- The marker and the link of a partition fail when the name is taken. -/
def perform (store : TapeStore) : TapeEffect → Option TapeStore
  | .marker runId =>
    if runId ∈ store.runs then none else some { store with runs := store.runs ++ [runId] }
  | .publish day label chunks =>
    if (store.partitions.get? (day, partitionName label)).isSome then none
    else some { store with
      partitions := store.partitions.set (day, partitionName label) (chunks.flatMap DayChunk.rows) }
  | .record record => some { store with ledger := store.ledger ++ [record] }

/-- Perform effects up to the first that fails, and list those performed. -/
def performAll (store : TapeStore) : List TapeEffect → TapeStore × List TapeEffect
  | [] => (store, [])
  | effect :: rest =>
    match store.perform effect with
    | none => (store, [])
    | some next =>
      let later := performAll next rest
      (later.1, effect :: later.2)

/-- `read_ledger_done`: the pair is complete or empty at the vendor. -/
def ledgerDone (store : TapeStore) (symbol : String) (day : Int) : Bool :=
  store.ledger.any fun record => record.symbol = symbol && record.date = day &&
    (record.status = .complete || record.status = .vendorEmpty)

end TapeStore

/-! ### A run -/

/-- The pairs a run would like, one target a symbol, before the ledger is looked at. -/
structure TapePlan where
  targets : List TickTapeTarget
  distinct : (targets.map TickTapeTarget.symbol).Nodup
  named : ∀ target ∈ targets, target.symbol ≠ ""
  daysDistinct : ∀ target ∈ targets, target.days.Nodup

def planTickTapeTargets (store : TapeStore) (plan : TapePlan) : List TickTapeTarget :=
  (plan.targets.map fun target =>
    { target with days := target.days.filter fun day => !store.ledgerDone target.symbol day }).filter
    fun target => !target.days.isEmpty

/-- What a target meets when its turn comes: the boundary, tier C's deadline, the pages of
its tape, and the number of days that can be staged before staging fails. -/
structure TapeVisit where
  boundary : Bool := false
  late : Bool := false
  fetches : List Fetch := []
  stageable : Option Nat := none

/-- The settings and the surroundings of a run. Pass 0 goes over all targets, the others
retry. `durable` is the number of effects after which the run is cut off. -/
structure TapeRun where
  runId : String
  plan : TapePlan
  maxTicks : Option Nat := none
  retryPasses : Nat := 0
  visit : Nat → String → TapeVisit
  sleepStops : Nat → Bool := fun _ => false
  durable : Option Nat := none

def flushRowLimit : Nat := 2000000

/-- `_is_retryable`. -/
def TapeFailure.retryable : TapeFailure → Bool
  | .transient | .throttled => true
  | _ => false

def TapeFailure.typeName : TapeFailure → String
  | .deadline => "_CDeadlineError"
  | .auth => "_RunAuthError"
  | .persistence => "_PersistenceError"
  | .transient => "_SymbolTransientError"
  | .throttled => "_SymbolThrottleError"
  | .tape => "KiwoomTickTapeError"
  | .other name => name

/-- How a pass ends: through, at the boundary, or with the run aborted. -/
inductive PassEnd where
  | through | stop | auth | persistence
  deriving DecidableEq

structure BackfillState where
  queue : List TapeRecord := []
  staged : Dict Int (List DayChunk) := ∅
  stagedRows : Nat := 0
  checkpointNo : Nat := 0
  failures : Dict String TapeFailure := ∅
  pendingRetry : List String := []
  effects : List TapeEffect := []

namespace BackfillState

def label (runId : String) (state : BackfillState) : String :=
  if state.checkpointNo = 0 then runId else runId ++ "-" ++ toString state.checkpointNo

/-- Publish the staged days in order, then settle the queue. -/
def checkpoint (runId : String) (state : BackfillState) : BackfillState :=
  if state.staged.entries.isEmpty && state.queue.isEmpty then state
  else
    { state with
      queue := []
      staged := ∅
      stagedRows := 0
      checkpointNo := state.checkpointNo + 1
      effects := state.effects ++
        (state.staged.entries.insertionSort (·.1 ≤ ·.1)).map
          (fun entry => .publish entry.1 (state.label runId) entry.2) ++
        state.queue.map .record }

def abandonTierC (runId : String) (target : TickTapeTarget) (reason : String)
    (state : BackfillState) : BackfillState :=
  { state with queue := state.queue ++ target.days.map fun day =>
      { date := day, symbol := target.symbol, status := .abandoned, rows := 0, runId,
        tier := target.tier, reason := some reason } }

def stageChunk (staged : Dict Int (List DayChunk)) (chunk : DayChunk) : Dict Int (List DayChunk) :=
  staged.set chunk.day ((staged.get? chunk.day).getD [] ++ [chunk])

/-- The end of `_process_target`, for a walk that came through. -/
def stage (runId : String) (target : TickTapeTarget) (walk : TapeWalk) (state : BackfillState) :
    BackfillState :=
  let label := state.label runId
  let settled (status : TapeStatus) (day : Int) (rows : Nat) : TapeRecord :=
    { date := day, symbol := target.symbol, status, rows, runId := label, tier := target.tier }
  { state with
    staged := (walk.emitted.map fun entry =>
      (⟨target.symbol, entry.1, entry.2, label⟩ : DayChunk)).foldl stageChunk state.staged
    stagedRows := state.stagedRows + (walk.emitted.map fun entry => entry.2.length).sum
    queue := state.queue ++ walk.emitted.map (fun entry => settled .complete entry.1 entry.2.length) ++
      walk.vendorEmpty.map (settled .vendorEmpty · 0) ++
      (walk.edgePartial.filter (· ∈ target.days)).map (settled .edgePartial · 0) }

def settleFailure (symbol : String) (state : BackfillState) : BackfillState :=
  { state with
    failures := state.failures.erase symbol
    pendingRetry := state.pendingRetry.erase symbol }

def noteFailure (symbol : String) (failure : TapeFailure) (state : BackfillState) : BackfillState :=
  { state with
    failures := state.failures.set symbol failure
    pendingRetry :=
      if failure.retryable then
        if symbol ∈ state.pendingRetry then state.pendingRetry else state.pendingRetry ++ [symbol]
      else state.pendingRetry.erase symbol }

/-- One turn of a pass. -/
def visitTarget (run : TapeRun) (pass : Nat) (state : BackfillState) (target : TickTapeTarget) :
    BackfillState × PassEnd :=
  let visit := run.visit pass target.symbol
  let settled := state.settleFailure target.symbol
  if visit.boundary then (state, .stop)
  else if target.tier = .c && visit.late then
    (settled.abandonTierC run.runId target "deadline", .through)
  else
    match walkSymbolTape target.days run.maxTicks visit.stageable visit.fetches with
    | .error .deadline => (settled.abandonTierC run.runId target "deadline", .through)
    | .error .auth => (settled, .auth)
    | .error .persistence => (settled, .persistence)
    | .error failure => (state.noteFailure target.symbol failure, .through)
    | .ok walk =>
      let staged := settled.stage run.runId target walk
      (if flushRowLimit < staged.stagedRows then staged.checkpoint run.runId else staged, .through)

def runPass (run : TapeRun) (pass : Nat) (state : BackfillState) :
    List TickTapeTarget → BackfillState × PassEnd
  | [] => (state, .through)
  | target :: rest =>
    match state.visitTarget run pass target with
    | (next, .through) => runPass run pass next rest
    | ended => ended

/-- The retry passes from `pass` on, `count` of them at most. -/
def retry (run : TapeRun) (targets : List TickTapeTarget) (state : BackfillState) (pass : Nat) :
    Nat → BackfillState × PassEnd
  | 0 => (state, .through)
  | count + 1 =>
    if state.pendingRetry.isEmpty then (state, .through)
    else if run.sleepStops pass then (state, .stop)
    else
      match state.runPass run pass (targets.filter fun target => target.symbol ∈ state.pendingRetry) with
      | (next, .through) => retry run targets next (pass + 1) count
      | ended => ended

def passes (run : TapeRun) (targets : List TickTapeTarget) : BackfillState × PassEnd :=
  match runPass run 0 {} targets with
  | (first, .auth) => (first, .auth)
  | (first, .persistence) => (first, .persistence)
  | (first, _) => retry run targets first 1 run.retryPasses

/-- The ledger lines of the targets that failed for good. -/
def queueFailures (run : TapeRun) (targets : List TickTapeTarget) (state : BackfillState) :
    BackfillState :=
  targets.foldl (fun state target =>
    match state.failures.get? target.symbol with
    | none => state
    | some failure =>
      if target.tier = .c then state.abandonTierC run.runId target failure.typeName
      else { state with queue := state.queue ++ target.days.map fun day =>
        { date := day, symbol := target.symbol, status := .failed, rows := 0, runId := run.runId,
          tier := target.tier, reason := some failure.typeName } }) state

end BackfillState

/-- Everything durable a run does when nothing cuts it off. -/
def tapeRunEffects (run : TapeRun) (targets : List TickTapeTarget) : List TapeEffect :=
  .marker run.runId ::
    match BackfillState.passes run targets with
    | (state, .persistence) => state.effects
    | (state, .auth) => (state.checkpoint run.runId).effects
    | (state, _) => ((state.queueFailures run targets).checkpoint run.runId).effects

namespace TapeStore

/-- `run_tick_tape_backfill` over the targets planned from the ledger, with the effects it
got to. -/
def backfill (store : TapeStore) (run : TapeRun) : TapeStore × List TapeEffect :=
  let effects := tapeRunEffects run (planTickTapeTargets store run.plan)
  store.performAll (run.durable.elim effects effects.take)

/-- One run after the other, with the effects of each. -/
def backfills (store : TapeStore) : List TapeRun → TapeStore × List (List TapeEffect)
  | [] => (store, [])
  | run :: rest =>
    let done := store.backfill run
    let later := backfills done.1 rest
    (later.1, done.2 :: later.2)

end TapeStore

/-! ### The readers -/

/-- A row as the gap-fill selects it. -/
def PartitionRow.trade (row : PartitionRow) : TapeTrade :=
  ⟨zfill 6 row.symbol, row.tsHms, row.price, row.volume⟩

/-- A tape row as the merge reads it. The run's name is kept, though the source drops it in
the end. -/
structure TopupRow where
  symbol : String
  s : Int
  price : Int
  volume : Int
  tapeSeq : Nat
  runId : String
  deriving DecidableEq

def PartitionRow.topup (row : PartitionRow) : TopupRow :=
  ⟨zfill 6 row.symbol, row.tsHms, row.price, row.volume, row.tapeSeq, row.runId⟩

/-- A row as a trade of its symbol. -/
def TopupRow.trade (row : TopupRow) : TapeTrade := ⟨row.symbol, row.s, row.price, row.volume⟩

namespace TapeStore

/-- All rows of a day, file after file in the order of their names. -/
def dayRows (store : TapeStore) (day : Int) : List PartitionRow :=
  ((store.partitions.entries.filter (·.1.1 = day)).insertionSort (·.1.2 ≤ ·.1.2)).flatMap Prod.snd

def loadTapeForSymbols (store : TapeStore) (day : Int) (symbols : List String) : List TapeTrade :=
  let wanted := (symbols.filter (· ≠ "")).map (zfill 6)
  ((store.dayRows day).map PartitionRow.trade).filter (·.symbol ∈ wanted)

/-- `_load_tape_rows`: for each symbol the run with the most rows, of several the first by
name. -/
def loadTapeRows (store : TapeStore) (day : Int) (symbols : List String) : List TopupRow :=
  let frame := ((store.dayRows day).map PartitionRow.topup).filter (·.symbol ∈ symbols)
  let size (row : TopupRow) : Nat :=
    frame.countP fun other => other.symbol = row.symbol && other.runId = row.runId
  let largest := frame.filter fun row => frame.all fun other =>
    other.symbol ≠ row.symbol || size other ≤ size row
  largest.filter fun row => largest.all fun other =>
    other.symbol ≠ row.symbol || row.runId ≤ other.runId

end TapeStore
end KrxAlpha
