import Mathlib.Data.List.Sort

/-! The missing-trade ledger of one symbol and market phase. Every trade frame
carries the exchange's cumulative trade counter; a frame that jumps the counter
opens a loss interval, a late frame shrinks the interval that holds its
counter, and enough falling counters in a row restart the segment. No set of
received counters is kept. -/
namespace KrxAlpha

inductive MarketPhase where
  | preClosingPrice | openingAuction | regular | closingAuction | postClosingPrice
  | aftermarket | premarket | unclassified
  deriving DecidableEq

/-- A time of day, the only texts `_valid_hhmmss` accepts. -/
structure Chetime where
  hour : Fin 24
  minute : Fin 60
  second : Fin 60
  deriving DecidableEq

/-- The number the six digits `HHMMSS` spell. -/
def Chetime.number (chetime : Chetime) : Int :=
  (chetime.hour.val * 10000 + chetime.minute.val * 100 + chetime.second.val : Nat)

structure TickFrame where
  cum : Int
  volume : Int
  cvolume : Int
  price : Option String
  chetime : Chetime
  recvNs : Int
  connId : String
  deriving DecidableEq

/-- The bounds are those the settings class validates. -/
structure AuditSettings where
  counterResetConfirmFrames : Nat := 3
  maxIntervalsPerSymbol : Nat := 500
  confirms : 2 ≤ counterResetConfirmFrames := by decide
  retains : 1 ≤ maxIntervalsPerSymbol := by decide

instance : Inhabited AuditSettings := ⟨{}⟩

inductive LossKind where
  | confirmed | countOnly
  deriving DecidableEq

structure LossInterval where
  symbol : String
  phase : MarketPhase
  kind : LossKind
  missingTrades : Int
  volumeDeficit : Int
  cumPrev : Int
  cumNext : Int
  chetimePrev : Chetime
  chetimeNext : Chetime
  recvPrevNs : Int
  recvNextNs : Int
  connChanged : Bool
  acmlPrev : Option Int
  acmlNextBefore : Option Int
  deriving DecidableEq

namespace LossInterval

/-- The counter lies strictly between the interval's bounds. -/
def Holds (interval : LossInterval) (cum : Int) : Prop :=
  interval.cumPrev < cum ∧ cum < interval.cumNext

instance (interval : LossInterval) (cum : Int) : Decidable (interval.Holds cum) :=
  inferInstanceAs (Decidable (_ ∧ _))

/-- The order of `sort(key=(-missing_trades, recv_prev_ns))`. -/
def Before (first second : LossInterval) : Prop :=
  second.missingTrades < first.missingTrades ∨
    (second.missingTrades = first.missingTrades ∧ first.recvPrevNs ≤ second.recvPrevNs)

instance (first second : LossInterval) : Decidable (first.Before second) :=
  inferInstanceAs (Decidable (_ ∨ _))

def deficitLeft (interval : LossInterval) (frame : TickFrame) : Int :=
  max 0 (interval.volumeDeficit - frame.cvolume)

/-- `dataclasses.replace(interval, missing_trades=remaining, volume_deficit=deficit_left)`. -/
def shrunk (interval : LossInterval) (frame : TickFrame) : LossInterval :=
  { interval with
    missingTrades := interval.missingTrades - 1
    volumeDeficit := interval.deficitLeft frame }

/-- What is left of an interval after one of its counters arrived late. -/
def leftover (interval : LossInterval) (frame : TickFrame) : List LossInterval :=
  if interval.missingTrades - 1 = 0 then [] else [interval.shrunk frame]

end LossInterval

/-- Sort the longest intervals to the front and drop those beyond the cap. -/
def AuditSettings.retain (settings : AuditSettings) (intervals : List LossInterval) :
    List LossInterval :=
  (intervals.insertionSort LossInterval.Before).take settings.maxIntervalsPerSymbol

/-- The counters `advance_segment` keeps in the symbol's state. -/
structure Tally where
  acceptedTotal : Nat := 0
  duplicates : Nat := 0
  regressions : Nat := 0
  resets : Nat := 0
  decodeFail : Nat := 0
  frames : Nat := 0
  deriving DecidableEq

namespace Tally

def duplicate (tally : Tally) : Tally := { tally with duplicates := tally.duplicates + 1 }

def accept (tally : Tally) : Tally :=
  { tally with
    acceptedTotal := tally.acceptedTotal + 1
    frames := tally.frames + 1 }

end Tally

structure Segment where
  phase : MarketPhase
  firstCum : Option Int := none
  maxCum : Int := 0
  maxFrame : Option TickFrame := none
  accepted : Int := 0
  last : Option TickFrame := none
  run : List TickFrame := []
  intervals : List LossInterval := []
  completedTrades : Int := 0
  completedNet : Int := 0
  confirmed : Int := 0
  countOnly : Int := 0
  deficit : Int := 0
  intervalCount : Int := 0
  seenConns : List String := []
  deriving DecidableEq

def isDuplicate (prev frame : TickFrame) : Bool :=
  (frame.cum, frame.volume, frame.cvolume, frame.price, frame.chetime) =
    (prev.cum, prev.volume, prev.cvolume, prev.price, prev.chetime)

def nonDecreasing (run : List TickFrame) : Bool :=
  (run.zip run.tail).all fun (earlier, later) => earlier.cum ≤ later.cum

/-- The first interval that holds the late frame's counter, and the intervals after
it was shrunk. -/
def absorbInto (frame : TickFrame) : List LossInterval → Option (LossInterval × List LossInterval)
  | [] => none
  | interval :: rest =>
    if interval.Holds frame.cum then some (interval, interval.leftover frame ++ rest)
    else (absorbInto frame rest).map fun hit => (hit.1, interval :: hit.2)

/-- What one frame did, with the calls of `record_advance` it made: the counter
maximum each of them found and the counter it brought. -/
structure Advanced where
  tally : Tally
  segment : Segment
  calls : List (Int × Int) := []

namespace Segment

/-- A frame from an earlier connection, delivered after another connection advanced
the counter. -/
def isOverlap (segment : Segment) (frame : TickFrame) : Bool :=
  segment.maxFrame.any fun prev =>
    frame.cum ≤ segment.maxCum && frame.connId ≠ prev.connId &&
      segment.seenConns.contains frame.connId

/-- A frame below the counter high, inside or on the bounds of a recorded interval. -/
def fillsOpenInterval (segment : Segment) (frame : TickFrame) : Bool :=
  frame.cum < segment.maxCum &&
    segment.intervals.any fun interval =>
      interval.cumPrev ≤ frame.cum && frame.cum ≤ interval.cumNext

/-- Book a late frame on the interval that held its counter. -/
def absorb (segment : Segment) (frame : TickFrame) (interval : LossInterval)
    (intervals : List LossInterval) : Segment :=
  { segment with
    deficit := segment.deficit - (interval.volumeDeficit - interval.deficitLeft frame)
    confirmed := if interval.kind = .confirmed then segment.confirmed - 1 else segment.confirmed
    countOnly := if interval.kind = .confirmed then segment.countOnly else segment.countOnly - 1
    intervals
    intervalCount :=
      if interval.missingTrades - 1 = 0 then segment.intervalCount - 1 else segment.intervalCount
    accepted := segment.accepted + 1 }

def absorbOverlap (tally : Tally) (segment : Segment) (frame : TickFrame) : Advanced :=
  match absorbInto frame segment.intervals with
  | none => { tally := tally.duplicate, segment }
  | some (interval, intervals) =>
    { tally := tally.accept, segment := segment.absorb frame interval intervals }

def volumeGap (prev frame : TickFrame) : Int := max 0 (frame.volume - prev.volume - frame.cvolume)

/-- The interval a jump of the counter opens. -/
def opened (symbol : String) (segment : Segment) (prev frame : TickFrame) : LossInterval where
  symbol := symbol
  phase := segment.phase
  kind := if 0 < volumeGap prev frame then .confirmed else .countOnly
  missingTrades := frame.cum - segment.maxCum - 1
  volumeDeficit := volumeGap prev frame
  cumPrev := segment.maxCum
  cumNext := frame.cum
  chetimePrev := prev.chetime
  chetimeNext := frame.chetime
  recvPrevNs := prev.recvNs
  recvNextNs := frame.recvNs
  connChanged := frame.connId ≠ prev.connId
  acmlPrev := some prev.volume
  acmlNextBefore := some (frame.volume - frame.cvolume)

def openInterval (settings : AuditSettings) (segment : Segment) (interval : LossInterval) :
    Segment :=
  { segment with
    intervals := settings.retain (segment.intervals ++ [interval])
    intervalCount := segment.intervalCount + 1
    confirmed :=
      if 0 < interval.volumeDeficit then segment.confirmed + interval.missingTrades
      else segment.confirmed
    countOnly :=
      if 0 < interval.volumeDeficit then segment.countOnly
      else segment.countOnly + interval.missingTrades
    deficit := segment.deficit + interval.volumeDeficit }

/-- The loss part of `record_advance`. -/
def recordLoss (settings : AuditSettings) (symbol : String) (segment : Segment)
    (frame : TickFrame) : Segment :=
  match segment.maxFrame with
  | none => segment
  | some prev =>
    if 1 ≤ frame.cum - segment.maxCum - 1 then
      segment.openInterval settings (segment.opened symbol prev frame)
    else segment

def recordAdvance (settings : AuditSettings) (symbol : String) (segment : Segment)
    (frame : TickFrame) : Segment :=
  { segment.recordLoss settings symbol frame with
    maxCum := frame.cum
    maxFrame := some frame
    accepted := segment.accepted + 1 }

/-- The calls of `record_advance` on these frames, one behind the other. -/
def callsOf (start : Int) : List TickFrame → List (Int × Int)
  | [] => []
  | frame :: rest => (start, frame.cum) :: callsOf frame.cum rest

/-- Close the counter range so far and begin again at the first frame of the run. -/
def restart (segment : Segment) (first : Int) (base : TickFrame) : Segment :=
  { segment with
    completedTrades := segment.completedTrades + (segment.maxCum - first + 1)
    completedNet := segment.completedNet + (segment.maxCum - first - (segment.accepted - 1))
    firstCum := some base.cum
    maxCum := base.cum
    maxFrame := some base
    accepted := 1 }

/-- A counter below the maximum: the run of such frames grows, and restarts the
segment once it is long enough and does not fall itself. -/
def regress (settings : AuditSettings) (symbol : String) (tally : Tally) (segment : Segment)
    (first : Int) (frame : TickFrame) : Advanced :=
  let confirm := settings.counterResetConfirmFrames
  let run := segment.run ++ [frame]
  let run := run.drop (run.length - confirm)
  let tally := { tally with regressions := tally.regressions + 1 }
  match run with
  | [] => { tally, segment := { segment with run } }
  | base :: items =>
    if confirm ≤ run.length ∧ nonDecreasing run then
      { tally := { tally with resets := tally.resets + 1 }
        segment :=
          { items.foldl (recordAdvance settings symbol) (segment.restart first base) with
            run := []
            last := some frame }
        calls := callsOf base.cum items }
    else { tally, segment := { segment with run } }

/-- `seen_conns.add(frame.conn_id)`. -/
def noteConn (segment : Segment) (frame : TickFrame) : Segment :=
  { segment with
    seenConns :=
      if segment.seenConns.contains frame.connId then segment.seenConns
      else segment.seenConns ++ [frame.connId] }

/-- The segment's first frame. -/
def start (segment : Segment) (frame : TickFrame) : Segment :=
  { segment with
    firstCum := some frame.cum
    maxCum := frame.cum
    maxFrame := some frame
    accepted := 1
    last := some frame }

/-- A counter at or above the maximum. -/
def advance (settings : AuditSettings) (symbol : String) (segment : Segment) (frame : TickFrame) :
    Segment :=
  { { segment with run := [] }.recordAdvance settings symbol frame with last := some frame }

end Segment

def advanceSegment (settings : AuditSettings) (symbol : String) (tally : Tally)
    (segment : Segment) (frame : TickFrame) : Advanced :=
  if segment.last.any (isDuplicate · frame) || segment.run.getLast?.any (isDuplicate · frame) then
    { tally := tally.duplicate, segment }
  else if segment.isOverlap frame || segment.fillsOpenInterval frame then
    segment.absorbOverlap tally frame
  else
    match segment.firstCum with
    | none => { tally := tally.accept, segment := (segment.noteConn frame).start frame }
    | some first =>
      if frame.cum < segment.maxCum then
        (segment.noteConn frame).regress settings symbol tally.accept first frame
      else
        { tally := tally.accept
          segment := (segment.noteConn frame).advance settings symbol frame
          calls := [(segment.maxCum, frame.cum)] }

end KrxAlpha
