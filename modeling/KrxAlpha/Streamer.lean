import KrxAlpha.Handover
import Mathlib.Data.List.Dedup
import Mathlib.Data.List.Sort

/-! The receive loop of one streamer: connections are opened one after the other, each
pumps frames into the sink until it fails or the run is stopped, and the time without
data between two of them is noted as a gap of every symbol. What the event loop finds
finished after each wait is the script of a round. -/
namespace KrxAlpha

/-- The reasons with which `pump` returns. -/
inductive PumpEnd where
  | stopped | watchdog | disconnect | authRejected
  deriving DecidableEq

/-- How a connection fails; any exception but a rejected login is a disconnect. -/
inductive PumpFailure where
  | disconnect | authRejected
  deriving DecidableEq

def PumpFailure.reason : PumpFailure → PumpEnd
  | .disconnect => .disconnect
  | .authRejected => .authRejected

/-- What a receive task came to by the end of a wait. -/
inductive Recv where
  | pending
  | frame (frame : L0Frame)
  | failed (failure : PumpFailure)
  deriving DecidableEq

structure Gap where
  symbol : String
  startNs : Int
  endNs : Int
  reason : PumpEnd
  deriving DecidableEq

structure StreamerConfig where
  replayPairs : List (String × String)
  handover : Option HandoverSettings := none

/-- One turn of the loop: whether the silence watchdog fires, whether the lag monitor has
asked for a swap, the symbols the live watch has subscribed meanwhile, the receive tasks
after the wait, the handover's answers, and whether recording raises. -/
structure Round where
  watchdog : Bool := false
  swapRequested : Bool := false
  subscribed : List String := []
  primary : Recv := .pending
  standby : Recv := .pending
  start : StartAnswers := {}
  step : StepAnswers := {}
  recordRaises : Bool := false

/-- The streamer with its sink. `received` lists every frame taken from a receive task,
recorded or not. -/
structure Streamer where
  outage : Option (Int × PumpEnd) := none
  lastFrameWallNs : Option Int := none
  recorded : List L0Frame := []
  gaps : List Gap := []
  received : List L0Frame := []
  handover : Handover := {}

/-- A streamer inside `pump`. -/
structure Pump extends Streamer where
  adapter : Connection
  subscribedNs : Int
  frames : Nat := 0

def replaySymbols (config : StreamerConfig) : List String :=
  (config.replayPairs.map Prod.fst).dedup.insertionSort (· ≤ ·)

/-- Note the open outage as a gap of every replayed symbol. -/
def Streamer.closeOutage (config : StreamerConfig) (streamer : Streamer) (endNs : Int) : Streamer :=
  match streamer.outage with
  | none => streamer
  | some (startNs, reason) =>
    { streamer with
      outage := none
      gaps := streamer.gaps ++ (replaySymbols config).map fun symbol =>
        ⟨symbol, startNs, max startNs endNs, reason⟩ }

section CloseOutage

variable (config : StreamerConfig) (streamer : Streamer) (endNs : Int)

@[simp] theorem close_outage_recorded :
    (streamer.closeOutage config endNs).recorded = streamer.recorded := by
  unfold Streamer.closeOutage
  split <;> rfl

@[simp] theorem close_outage_received :
    (streamer.closeOutage config endNs).received = streamer.received := by
  unfold Streamer.closeOutage
  split <;> rfl

@[simp] theorem close_outage_last :
    (streamer.closeOutage config endNs).lastFrameWallNs = streamer.lastFrameWallNs := by
  unfold Streamer.closeOutage
  split <;> rfl

@[simp] theorem close_outage_closed : (streamer.closeOutage config endNs).outage = none := by
  unfold Streamer.closeOutage
  split
  · assumption
  · rfl

end CloseOutage

namespace Pump

variable (config : StreamerConfig)

/-- Record a frame and count it; `false` when the sink raised. -/
def record (pump : Pump) (frame : L0Frame) (raises : Bool) : Pump × Bool :=
  if raises then (pump, false)
  else ({ pump with
      recorded := pump.recorded ++ [frame]
      lastFrameWallNs := some frame.recvWallNs
      frames := pump.frames + 1 }, true)

/-- The standby's part of a round: a frame it returned, if it is there. -/
def takeStandby (pump : Pump) (round : Round) : Pump × Bool :=
  match config.handover, round.standby, pump.handover.standby with
  | some _, .frame frame, some _ =>
    let answer := pump.handover.admitFrame frame true
    let taken := { pump with handover := answer.1, received := pump.received ++ [frame] }
    if answer.2 then taken.record frame round.recordRaises else (taken, true)
  | _, _, _ => (pump, true)

/-- The standby's receive task has failed. -/
def standbyFailed (pump : Pump) (round : Round) : Bool :=
  match round.standby with
  | .failed _ => pump.handover.standby.isSome
  | _ => false

def stepHandover (pump : Pump) (round : Round) : Pump × Option (Connection × CutReason) :=
  match config.handover with
  | none => (pump, none)
  | some settings =>
    let stepped := pump.handover.step settings (pump.standbyFailed round) round.step
    ({ pump with handover := stepped.1 }, stepped.2)

/-- The old connection is retired and the standby's becomes the primary one. -/
def switch (pump : Pump) (cut : Connection × CutReason) : Pump := { pump with adapter := cut.1 }

/-- The streamer with the primary's frame in hand: the first of a connection closes the
outage. -/
def closedBy (pump : Pump) (frame : L0Frame) : Streamer :=
  let received : Streamer := { pump.toStreamer with received := pump.received ++ [frame] }
  if pump.frames = 0 then received.closeOutage config (max frame.recvWallNs pump.subscribedNs)
  else received

/-- The handover's answer to a frame; without a handover every frame is recorded. -/
def admitted (handover : Handover) (frame : L0Frame) : Handover × Bool :=
  match config.handover with
  | none => (handover, true)
  | some _ => handover.admitFrame frame false

def takeFrame (pump : Pump) (frame : L0Frame) (raises : Bool) : Pump × Bool :=
  let closed := pump.closedBy config frame
  let answer := admitted config closed.handover frame
  let taken : Pump := { pump with toStreamer := { closed with handover := answer.1 } }
  if answer.2 then taken.record frame raises
  else ({ taken with
      lastFrameWallNs := some frame.recvWallNs
      frames := taken.frames + 1 }, true)

/-- The primary's part of a round. -/
def takePrimary (pump : Pump) (round : Round) : Pump × Option PumpEnd :=
  match round.primary with
  | .pending => (pump, none)
  | .frame frame =>
    let (taken, recorded) := takeFrame config pump frame round.recordRaises
    (taken, if recorded then none else some .disconnect)
  | .failed failure =>
    match config.handover with
    | none => (pump, some failure.reason)
    | some _ =>
      match pump.handover.onPrimaryFailure with
      | (handover, some cut) => ({ pump with handover }.switch cut, none)
      | (handover, none) => ({ pump with handover }, some failure.reason)

/-- Start a standby when one is due. -/
def startHandover (pump : Pump) (round : Round) : Pump :=
  match config.handover with
  | none => pump
  | some settings =>
    let asked := { pump.handover with
      requested := pump.handover.requested || round.swapRequested }
    { pump with
      handover := asked.maybeStart settings (0 < pump.frames) (if asked.active then 2 else 1)
        round.start }

/-- The connection has subscribed more symbols. -/
def subscribe (pump : Pump) (symbols : List String) : Pump :=
  { pump with adapter := { pump.adapter with symbols := pump.adapter.symbols ++ symbols } }

/-- A round up to the handover's step; `false` when recording the standby's frame raised. -/
def beforeStep (pump : Pump) (round : Round) : Pump × Bool :=
  ((pump.startHandover config round).subscribe round.subscribed).takeStandby config round

/-- The rest of a round. A cut-over ends it: what the old connection's task returned is
not looked at any more. -/
def fromStep (pump : Pump) (round : Round) : Pump × Option PumpEnd :=
  match pump.stepHandover config round with
  | (stepped, some cut) => (stepped.switch cut, none)
  | (stepped, none) => stepped.takePrimary config round

/-- One turn of the loop. -/
def round (pump : Pump) (round : Round) : Pump × Option PumpEnd :=
  if round.watchdog then (pump, some .watchdog)
  else
    match pump.beforeStep config round with
    | (taken, false) => (taken, some .disconnect)
    | (taken, true) => taken.fromStep config round

/-- The loop, until a round ends it or the run is stopped after the last round. -/
def loop (pump : Pump) : List Round → Pump × PumpEnd
  | [] => (pump, .stopped)
  | round :: rest =>
    match pump.round config round with
    | (next, none) => loop next rest
    | (next, some reason) => (next, reason)

end Pump

/-- How a connection begins: opening or subscribing it fails, with some symbols subscribed
by then, or it is subscribed at a time and pumps through these rounds. -/
inductive PumpScript where
  | refused (failure : PumpFailure) (symbols : List String)
  | connected (adapter : Connection) (subscribedNs : Int) (rounds : List Round)

/-- What a pump left behind: its reason, the symbols subscribed on its connection at the
end, and how many frames had been received by then. -/
structure PumpRecord where
  reason : PumpEnd
  symbols : List String
  received : Nat

namespace Streamer

variable (config : StreamerConfig)

def pump (streamer : Streamer) : PumpScript → Streamer × PumpRecord
  | .refused failure symbols =>
    (streamer, ⟨failure.reason, symbols, streamer.received.length⟩)
  | .connected adapter subscribedNs rounds =>
    let ended := Pump.loop config { toStreamer := streamer, adapter, subscribedNs } rounds
    ({ ended.1.toStreamer with handover := ended.1.handover.close },
      ⟨ended.2, ended.1.adapter.symbols, ended.1.received.length⟩)

/-- Open an outage at the last frame's reception, or at the run's start. -/
def openOutage (streamer : Streamer) (runStartNs : Int) (reason : PumpEnd) : Streamer :=
  match streamer.outage with
  | some _ => streamer
  | none => { streamer with outage := some (streamer.lastFrameWallNs.getD runStartNs, reason) }

/-- The cycles of `run_forever`, up to a stopped pump or the end of the script. -/
def cycles (runStartNs : Int) (streamer : Streamer) : List PumpScript → Streamer × List PumpRecord
  | [] => (streamer, [])
  | script :: rest =>
    let pumped := streamer.pump config script
    if pumped.2.reason = .stopped then (pumped.1, [pumped.2])
    else
      let later := cycles runStartNs (pumped.1.openOutage runStartNs pumped.2.reason) rest
      (later.1, pumped.2 :: later.2)

/-- `run_forever` of a new streamer: the outage left open at the end is closed at its wall
time. -/
def runForever (runStartNs runEndNs : Int) (scripts : List PumpScript) :
    Streamer × List PumpRecord :=
  let run := cycles config runStartNs {} scripts
  (run.1.closeOutage config runEndNs, run.2)

end Streamer
end KrxAlpha
