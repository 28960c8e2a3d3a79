import Mathlib.Data.Rat.Defs
import KrxAlpha.Dict
import KrxAlpha.LossSegment
import KrxAlpha.SpanSet

/-! The session audit of one journal partition: records are deduplicated by
their connection's sequence numbers, sorted by symbol and market phase into
segments, and the segments are summed up into one ledger per symbol. -/
namespace KrxAlpha

/-- The journal record around a tick; an absent connection or symbol is the empty text. -/
structure Envelope where
  recvNs : Int
  connId : String
  connSeq : Option Int
  symbol : String

/-- The tick body of a record, each field as the auditor's parsers read it. -/
structure TickBody where
  shcode : Option String
  chetime : Option Chetime
  mdchecnt : Option Int
  mschecnt : Option Int
  volume : Option Int
  cvolume : Option Int
  price : Option String

def tickCum (body : TickBody) : Option Int := do
  let mdchecnt ← body.mdchecnt
  let mschecnt ← body.mschecnt
  return mdchecnt + mschecnt

structure SymbolState extends Tally where
  firstCum : Option Int := none
  varied : Bool := false
  segments : Dict MarketPhase Segment := ∅

/-- What an audit is configured with. The phase of a time of day comes from the
session's windows. -/
structure Auditor where
  kiwoom : Bool := false
  settings : AuditSettings := default
  classify : Chetime → MarketPhase
  manifestFrames : String → Option Int := fun _ => none

structure Derivation where
  symbols : Dict String SymbolState := ∅
  seen : Dict String SpanSet := ∅
  lastRegularTickNs : Option Int := none

namespace Derivation

def symbolState (derivation : Derivation) (symbol : String) : SymbolState :=
  (derivation.symbols.get? symbol).getD {}

def setSymbol (derivation : Derivation) (symbol : String) (state : SymbolState) : Derivation :=
  { derivation with symbols := derivation.symbols.set symbol state }

def seenOn (derivation : Derivation) (connId : String) : SpanSet :=
  (derivation.seen.get? connId).getD .empty

/-- Remember the record's sequence number on its connection, if it has both. -/
def noteSequence (derivation : Derivation) (record : Envelope) : Derivation :=
  match record.connSeq with
  | none => derivation
  | some seq =>
    if record.connId = "" then derivation
    else
      { derivation with
        seen := derivation.seen.set record.connId ((derivation.seenOn record.connId).add seq) }

/-- The answer of `sequence_duplicate`; a fresh number is remembered by `noteSequence`. -/
def sequenceDuplicate (derivation : Derivation) (record : Envelope) : Bool :=
  record.connId ≠ "" && record.connSeq.any fun seq => (derivation.seenOn record.connId).contains seq

def noteRegularTick (derivation : Derivation) (phase : MarketPhase) (record : Envelope) :
    Derivation :=
  if phase = .regular ∧ derivation.lastRegularTickNs.all (· < record.recvNs) then
    { derivation with lastRegularTickNs := some record.recvNs }
  else derivation

end Derivation

/-- A tick frame with the symbol it is booked under. -/
structure SymbolTick where
  symbol : String
  frame : TickFrame

/-- The frame of a record whose body has every field the ledger needs. -/
def decodeTick (record : Envelope) (body : TickBody) : Option SymbolTick := do
  let symbol ← body.shcode.filter (· ≠ "")
  let chetime ← body.chetime
  let cum ← tickCum body
  let volume ← body.volume
  let cvolume ← body.cvolume
  return ⟨symbol, ⟨cum, volume, cvolume, body.price, chetime, record.recvNs, record.connId⟩⟩

/-- The symbol of a record that only counts frames: its feed has no trade counter. -/
def uncountedTick (body : TickBody) : Option (String × Chetime) := do
  let symbol ← body.shcode.filter (· ≠ "")
  let chetime ← body.chetime
  let _ ← body.volume
  let _ ← body.cvolume
  return (symbol, chetime)

def bookedSymbol (record : Envelope) (body : TickBody) : Option String :=
  match body.shcode.filter (· ≠ "") with
  | some symbol => some symbol
  | none => if record.symbol = "" then none else some record.symbol

namespace Auditor

/-- The segment step of `accept_tick`, for a frame that is no sequence duplicate. -/
def bookTick (auditor : Auditor) (state : SymbolState) (tick : SymbolTick) : SymbolState :=
  let phase := auditor.classify tick.frame.chetime
  let segment := (state.segments.get? phase).getD { phase }
  let advanced := advanceSegment auditor.settings tick.symbol state.toTally segment tick.frame
  { toTally := advanced.tally
    firstCum := some (state.firstCum.getD tick.frame.cum)
    varied := state.varied || state.firstCum.any (tick.frame.cum ≠ ·)
    segments := state.segments.set phase advanced.segment }

def acceptTick (auditor : Auditor) (derivation : Derivation) (record : Envelope)
    (body : TickBody) : Derivation :=
  match auditor.kiwoom, uncountedTick body, decodeTick record body with
  | true, some (symbol, chetime), _ =>
    let state := derivation.symbolState symbol
    (derivation.setSymbol symbol { state with frames := state.frames + 1 }).noteRegularTick
      (auditor.classify chetime) record
  | _, _, none =>
    match bookedSymbol record body with
    | none => derivation
    | some symbol =>
      let state := derivation.symbolState symbol
      derivation.setSymbol symbol { state with decodeFail := state.decodeFail + 1 }
  | _, _, some tick =>
    let noted := derivation.noteRegularTick (auditor.classify tick.frame.chetime) record
    let state := noted.symbolState tick.symbol
    if noted.sequenceDuplicate record then
      noted.setSymbol tick.symbol { state with duplicates := state.duplicates + 1 }
    else (noted.noteSequence record).setSymbol tick.symbol (auditor.bookTick state tick)

/-- One record of the tick partition; its sequence number is remembered whatever
became of it. -/
def processRecord (auditor : Auditor) (derivation : Derivation) (input : Envelope × TickBody) :
    Derivation :=
  (auditor.acceptTick derivation input.1 input.2).noteSequence input.1

def derive (auditor : Auditor) (inputs : List (Envelope × TickBody)) : Derivation :=
  inputs.foldl auditor.processRecord {}

end Auditor

inductive LedgerStatus where
  | ok | noCounter
  deriving DecidableEq

structure SymbolLedger where
  symbol : String
  status : LedgerStatus
  frames : Int
  tradesObserved : Int
  confirmedMissing : Int
  countOnlyMissing : Int
  netMissing : Int
  volumeDeficit : Int
  duplicates : Nat
  regressions : Nat
  resets : Nat
  decodeFail : Nat
  intervals : List LossInterval
  intervalsTruncated : Int
  manifestFrames : Option Int

structure LedgerTotals where
  symbols : Nat
  symbolsWithLoss : Nat
  symbolsWithoutCounter : Nat
  tradesObserved : Int
  confirmedMissing : Int
  countOnlyMissing : Int
  netMissingPositive : Int
  volumeDeficit : Int
  lossRatio : Rat

namespace Segment

def tradesObserved (segment : Segment) : Int :=
  match segment.firstCum with
  | none => 0
  | some first => segment.completedTrades + segment.maxCum - first + 1

def netMissing (segment : Segment) : Int :=
  match segment.firstCum with
  | none => 0
  | some first => segment.completedNet + (segment.maxCum - first) - (segment.accepted - 1)

end Segment

namespace SymbolState

def regularSegments (state : SymbolState) : List Segment :=
  state.segments.values.filter (·.phase = .regular)

def intervals (state : SymbolState) : List LossInterval :=
  state.segments.values.flatMap (·.intervals)

def status (state : SymbolState) : LedgerStatus :=
  if state.acceptedTotal = 0 ∨ (1 < state.acceptedTotal ∧ ¬ state.varied) then .noCounter else .ok

end SymbolState

namespace Auditor

def symbolLedger (auditor : Auditor) (symbol : String) (state : SymbolState) : SymbolLedger :=
  let regular := state.regularSegments
  let intervals := auditor.settings.retain state.intervals
  { symbol
    status := state.status
    frames := state.frames
    tradesObserved := (regular.map (·.tradesObserved)).sum
    confirmedMissing := (regular.map (·.confirmed)).sum
    countOnlyMissing := (regular.map (·.countOnly)).sum
    netMissing := (regular.map (·.netMissing)).sum
    volumeDeficit := (regular.map (·.deficit)).sum
    duplicates := state.duplicates
    regressions := state.regressions
    resets := state.resets
    decodeFail := state.decodeFail
    intervals
    intervalsTruncated := (state.segments.values.map (·.intervalCount)).sum - intervals.length
    manifestFrames := auditor.manifestFrames symbol }

def ledgers (auditor : Auditor) (derivation : Derivation) : List SymbolLedger :=
  (derivation.symbols.keys.insertionSort (· ≤ ·)).map fun symbol =>
    auditor.symbolLedger symbol (derivation.symbolState symbol)

def ledgerTotals (ledgers : List SymbolLedger) : LedgerTotals :=
  let usable := ledgers.filter (·.status = .ok)
  let trades := (usable.map (·.tradesObserved)).sum
  let confirmed := (usable.map (·.confirmedMissing)).sum
  { symbols := usable.length
    symbolsWithLoss :=
      (usable.filter fun entry => 0 < entry.confirmedMissing + entry.countOnlyMissing).length
    symbolsWithoutCounter := (ledgers.filter (·.status = .noCounter)).length
    tradesObserved := trades
    confirmedMissing := confirmed
    countOnlyMissing := (usable.map (·.countOnlyMissing)).sum
    netMissingPositive := (usable.map fun entry => max 0 entry.netMissing).sum
    volumeDeficit := (usable.map (·.volumeDeficit)).sum
    lossRatio := if trades = 0 then 0 else confirmed / trades }

def finalizeLedger (auditor : Auditor) (derivation : Derivation) :
    List SymbolLedger × LedgerTotals :=
  (auditor.ledgers derivation, ledgerTotals (auditor.ledgers derivation))

end Auditor
end KrxAlpha
