import KrxAlpha.Dict
import KrxAlpha.Runs
import Mathlib.Algebra.Order.Ring.Rat
import Mathlib.Data.List.Sort

/-! Admission of symbols during the day. The membership ledger says when a symbol entered
collection, at which tier and on which feed; it only grows. A discovery process polls the
vendor's ranking, decides from what it holds in memory which symbols to take in, appends them to
the ledger and then adds them to the file the collectors watch. It may fail or die between the
two, and a new process starts from the ledger. -/
namespace KrxAlpha

/-! ### The membership ledger -/

inductive Tier where
  | a | b | c
  deriving DecidableEq

def tierRank : Tier → Nat
  | .c => 0
  | .b => 1
  | .a => 2

inductive MembershipSource where
  | static | dynamic | ack | intradayCapacity | postCloseScreen
  deriving DecidableEq

inductive MoveDirection where
  | up | down
  deriving DecidableEq

structure MembershipRow where
  symbol : String
  tier : Tier
  source : MembershipSource
  decidedAtNs : Int
  direction : Option MoveDirection := none
  warningLevel : Option String := none
  lsShard : Option Int := none
  kisSlot : Option String := none
  tradeValueKrw : Option Int := none
  reason : Option String := none
  deriving DecidableEq

/-- One row of the ledger against the row that stands for its symbol. -/
def takeTier (current : Dict String MembershipRow) (row : MembershipRow) : Dict String MembershipRow :=
  if row.source = .ack then current
  else
    match current.get? row.symbol with
    | none => current.set row.symbol row
    | some existing =>
      if tierRank row.tier ≥ tierRank existing.tier then current.set row.symbol row else current

def effectiveTiers (rows : List MembershipRow) : Dict String MembershipRow := rows.foldl takeTier ∅

/-! ### The admission rule -/

/-- A feed with room for symbols of the day: an LS shard, written `ls:1`, or a KIS slot, `kis:5`. -/
inductive Feed where
  | ls (shard : Int)
  | kis (slot : String)
  deriving DecidableEq

def isKrxShortCode (code : String) : Bool :=
  code.length = 6 && code.toList.all fun char =>
    ('0' ≤ char && char ≤ '9') || ('A' ≤ char && char ≤ 'Z')

/-- A row of the ranking; the parser drops a row whose symbol has another shape. -/
structure RankingRow where
  symbol : String
  changePct : ℚ
  tradeValueKrw : Int
  short : isKrxShortCode symbol = true
  deriving DecidableEq

structure AdmissionSettings where
  minAbsChangePct : ℚ := 5
  minTradeValueKrw : Int := 10000000000
  moving : 0 < minAbsChangePct
  trading : 0 < minTradeValueKrw

structure AdmissionState where
  collected : List String
  ineligible : List String
  capacityLeft : Dict Feed Int

structure Admission where
  symbol : String
  feed : Feed
  changePct : ℚ
  tradeValueKrw : Int
  direction : MoveDirection
  deriving DecidableEq

inductive AdmissionRefusal where
  | ineligible | capacity
  deriving DecidableEq

structure AdmissionDecision where
  admitted : List Admission := []
  rejected : List (String × AdmissionRefusal) := []

def directionOf (changePct : ℚ) : MoveDirection := if 0 < changePct then .up else .down

/-- The move is large enough, either way, and so is the trade value. -/
def qualifies (row : RankingRow) (cfg : AdmissionSettings) : Bool :=
  (cfg.minAbsChangePct ≤ row.changePct || cfg.minAbsChangePct ≤ -row.changePct) &&
    cfg.minTradeValueKrw ≤ row.tradeValueKrw

/-- Greater trade value first, then by symbol. -/
def RankingRow.Before (first second : RankingRow) : Prop :=
  second.tradeValueKrw < first.tradeValueKrw ∨
    first.tradeValueKrw = second.tradeValueKrw ∧ first.symbol ≤ second.symbol

instance RankingRow.decidableBefore (first second : RankingRow) : Decidable (first.Before second) :=
  inferInstanceAs (Decidable (_ ∨ _))

/-- The rows of a poll that may be admitted, each symbol once. -/
structure Screened where
  seen : List String := []
  rejected : List (String × AdmissionRefusal) := []
  qualifiers : List RankingRow := []

def screenRow (state : AdmissionState) (cfg : AdmissionSettings) (screened : Screened)
    (row : RankingRow) : Screened :=
  if row.symbol ∈ screened.seen ∨ row.symbol ∈ state.collected ∨ qualifies row cfg = false then screened
  else if row.symbol ∈ state.ineligible then
    { screened with
      seen := row.symbol :: screened.seen
      rejected := screened.rejected ++ [(row.symbol, .ineligible)] }
  else
    { screened with
      seen := row.symbol :: screened.seen
      qualifiers := screened.qualifiers ++ [row] }

structure Placed where
  remaining : Dict Feed Int
  admitted : List Admission := []
  rejected : List (String × AdmissionRefusal)

def RankingRow.admission (row : RankingRow) (feed : Feed) : Admission where
  symbol := row.symbol
  feed
  changePct := row.changePct
  tradeValueKrw := row.tradeValueKrw
  direction := directionOf row.changePct

/-- A row goes to the first feed with room. -/
def placeRow (placed : Placed) (row : RankingRow) : Placed :=
  match placed.remaining.entries.find? (0 < ·.2) with
  | none => { placed with rejected := placed.rejected ++ [(row.symbol, .capacity)] }
  | some (feed, left) =>
    { placed with
      remaining := placed.remaining.set feed (left - 1)
      admitted := placed.admitted ++ [row.admission feed] }

def decideAdmissions (rows : List RankingRow) (state : AdmissionState) (cfg : AdmissionSettings) :
    AdmissionDecision :=
  let screened := rows.foldl (screenRow state cfg) {}
  let placed := (screened.qualifiers.insertionSort RankingRow.Before).foldl placeRow
    { remaining := state.capacityLeft, rejected := screened.rejected }
  { admitted := placed.admitted, rejected := placed.rejected }

def feedCapacities (lsReserveSymbols kisSlotSymbols : Int) (kisSlot : Option String) : Dict Feed Int :=
  let ls := (∅ : Dict Feed Int).set (.ls 1) lsReserveSymbols
  let capacity := match kisSlot with
    | some slot => ls.set (.kis slot) kisSlotSymbols
    | none => ls
  capacity.mapValues fun count => if count < 0 then 0 else count

/-- The feed of a dynamic row; without one the row is an error. -/
def feedOf (row : MembershipRow) : Option Feed :=
  match row.lsShard, row.kisSlot with
  | some shard, _ => some (.ls shard)
  | none, some slot => some (.kis slot)
  | none, none => none

def collects (row : MembershipRow) : Bool :=
  (row.tier = .a || row.tier = .b) && (row.source = .static || row.source = .dynamic)

/-- A dynamic row takes one place of its feed. -/
def takePlace (left : Dict Feed Int) (row : MembershipRow) : Except String (Dict Feed Int) :=
  if row.source ≠ .dynamic then .ok left
  else
    match feedOf row with
    | none => .error ("dynamic membership row has no feed: " ++ row.symbol)
    | some feed =>
      match left.get? feed with
      | some places => .ok (left.set feed (if places - 1 < 0 then 0 else places - 1))
      | none => .ok left

def stateFromLedger (rows : List MembershipRow) (ineligible : List String) (capacity : Dict Feed Int) :
    Except String AdmissionState :=
  (rows.foldlM takePlace capacity).map fun capacityLeft =>
    { collected := ((effectiveTiers rows).entries.filter (collects ·.2)).map Prod.fst
      ineligible, capacityLeft }

/-! ### The file the collectors watch -/

structure DynamicEntry where
  symbol : String
  feed : Feed
  decidedAtNs : Int
  deriving DecidableEq

structure DynamicPlan where
  rev : Nat := 0
  entries : List DynamicEntry := []
  deriving DecidableEq

/-- A missing file is a plan without entries; the invalid one is not of the schema. -/
inductive AdmissionsFile where
  | missing | invalid
  | plan (plan : DynamicPlan)
  deriving DecidableEq

def readDynamicAdmissions : AdmissionsFile → Except String DynamicPlan
  | .missing => .ok {}
  | .invalid => .error "invalid dynamic admissions file"
  | .plan plan =>
    if plan.entries.any fun entry => !isKrxShortCode entry.symbol then
      .error "invalid symbol in dynamic admissions file"
    else .ok plan

def writeDynamicAdmissions (file : AdmissionsFile) (plan : DynamicPlan) : Except String AdmissionsFile := do
  let current ← readDynamicAdmissions file
  if plan.rev ≤ current.rev then throw "dynamic admissions rev must exceed stored rev"
  return .plan plan

/-! ### The discovery process -/

structure DiscoveryState where
  admission : AdmissionState
  rejectOnce : List String := []
  capacityOnce : List String := []
  warningLevels : Dict String String := ∅

/-- What the lookup of a symbol's status comes to. -/
inductive StatusLookup where
  | failed
  | verdict (exclude : Bool) (warningLevel : String)

def checkStatus : StatusLookup → Bool × String
  | .failed => (false, "unknown")
  | .verdict exclude warningLevel => (exclude, warningLevel)

/-- One row of the ranking before the decision: the state may learn that the symbol is not
eligible, or its warning level. The status is asked once for a symbol. -/
def freshRow (cfg : AdmissionSettings) (statusOf : Option (String → StatusLookup))
    (polled : DiscoveryState × List RankingRow) (row : RankingRow) : DiscoveryState × List RankingRow :=
  let state := polled.1
  if row.symbol ∈ state.admission.collected ∨ row.symbol ∈ state.rejectOnce then polled
  else if qualifies row cfg = false then polled
  else if row.symbol ∈ state.admission.ineligible then
    ({ state with rejectOnce := row.symbol :: state.rejectOnce }, polled.2)
  else
    match statusOf, state.warningLevels.get? row.symbol with
    | some lookup, none =>
      let (excluded, level) := checkStatus (lookup row.symbol)
      if excluded then
        ({ state with
            rejectOnce := row.symbol :: state.rejectOnce
            admission := { state.admission with
              ineligible := row.symbol :: state.admission.ineligible } }, polled.2)
      else
        ({ state with warningLevels := state.warningLevels.set row.symbol level }, polled.2 ++ [row])
    | _, _ => (state, polled.2 ++ [row])

/-- The rows turned away for want of room, unless that was recorded before. -/
def capacityRows (state : DiscoveryState) (fresh : List RankingRow) (decision : AdmissionDecision) :
    List RankingRow :=
  let bySymbol := Dict.ofList (fresh.map fun row => (row.symbol, row))
  decision.rejected.filterMap fun (symbol, reason) =>
    if reason = .capacity ∧ symbol ∉ state.capacityOnce then bySymbol.get? symbol else none

def feedFields : Feed → Option Int × Option String
  | .ls shard => (some shard, none)
  | .kis slot => (none, some slot)

def admittedRow (warningLevels : Dict String String) (decided : Int) (admission : Admission) :
    MembershipRow where
  symbol := admission.symbol
  tier := .b
  source := .dynamic
  decidedAtNs := decided
  direction := some admission.direction
  warningLevel := warningLevels.get? admission.symbol
  lsShard := (feedFields admission.feed).1
  kisSlot := (feedFields admission.feed).2
  tradeValueKrw := some admission.tradeValueKrw

def tierC (source : MembershipSource) (decided : Int) (row : RankingRow) : MembershipRow where
  symbol := row.symbol
  tier := .c
  source
  decidedAtNs := decided
  direction := some (directionOf row.changePct)
  tradeValueKrw := some row.tradeValueKrw

/-- The row a collector writes for an answer to a subscription. -/
def ackRow (symbol : String) (feed : Feed) (decided : Int) (reason : String) : MembershipRow where
  symbol
  tier := .b
  source := .ack
  decidedAtNs := decided
  lsShard := (feedFields feed).1
  kisSlot := (feedFields feed).2
  reason := some reason

/-- The state once its admissions are in the ledger. -/
def AdmissionState.takeIn (state : AdmissionState) (admitted : List Admission) : AdmissionState :=
  { state with
    collected := state.collected ++ admitted.map (·.symbol)
    capacityLeft := admitted.foldl
      (fun left admission => left.set admission.feed ((left.get? admission.feed).getD 0 - 1))
      state.capacityLeft }

def Admission.entry (admission : Admission) (decided : Int) : DynamicEntry where
  symbol := admission.symbol
  feed := admission.feed
  decidedAtNs := decided

def publishIpc (file : AdmissionsFile) (admitted : List Admission) (decided : Int) :
    Except String AdmissionsFile := do
  let current ← readDynamicAdmissions file
  writeDynamicAdmissions file {
    rev := current.rev + 1
    entries := current.entries ++ admitted.map (·.entry decided) }

/-! ### Processes and files over a day -/

/-- How a poll goes wrong, if it does: an append or a write raises, or the process dies. An append
that fails writes nothing, and the watched file is replaced in one piece. -/
inductive PollFault where
  | nothing | append | ipc | diesBeforeAppend | diesAfterAppend | diesAfterIpc
  deriving DecidableEq

def PollFault.dies : PollFault → Bool
  | .diesBeforeAppend | .diesAfterAppend | .diesAfterIpc => true
  | _ => false

structure DiscoveryWorld where
  ledger : List MembershipRow
  ipc : AdmissionsFile := .missing
  running : Option DiscoveryState := none

inductive DiscoveryStep where
  | restart (ineligible : List String)
  | crash
  | admissionPoll (rows : Option (List RankingRow)) (statusOf : Option (String → StatusLookup))
      (decided : Int) (fault : PollFault)
  | postClosePoll (rows : Option (List RankingRow)) (decided : Int) (appends : Bool)
  | acked (acks : List (String × Feed × String)) (decided : Int)

namespace DiscoveryWorld

/-- The state goes on unless the process has died. -/
def goOn (world : DiscoveryWorld) (fault : PollFault) (state : DiscoveryState) : DiscoveryWorld :=
  { world with running := if fault.dies then none else some state }

def publish (world : DiscoveryWorld) (state : DiscoveryState) (decision : AdmissionDecision)
    (turnedAway : List RankingRow) (decided : Int) (fault : PollFault) : DiscoveryWorld :=
  if decision.admitted = [] ∧ turnedAway = [] then world.goOn fault state
  else if fault = .append ∨ fault = .diesBeforeAppend then world.goOn fault state
  else
    let appended := { world with
      ledger := world.ledger ++ decision.admitted.map (admittedRow state.warningLevels decided) ++
        turnedAway.map (tierC .intradayCapacity decided) }
    if decision.admitted = [] ∨ fault = .diesAfterAppend then appended.goOn fault state
    else
      let state := { state with admission := state.admission.takeIn decision.admitted }
      match fault, publishIpc world.ipc decision.admitted decided with
      | .ipc, _ => appended.goOn fault state
      | _, .error _ => appended.goOn fault state
      | _, .ok ipc => { appended with ipc }.goOn fault state

def admissionPoll (world : DiscoveryWorld) (cfg : AdmissionSettings) (state : DiscoveryState)
    (rows : List RankingRow) (statusOf : Option (String → StatusLookup)) (decided : Int)
    (fault : PollFault) : DiscoveryWorld :=
  let (state, fresh) := rows.foldl (freshRow cfg statusOf) (state, [])
  let decision := decideAdmissions fresh state.admission cfg
  let turnedAway := capacityRows state fresh decision
  let state := { state with capacityOnce := state.capacityOnce ++ turnedAway.map (·.symbol) }
  world.publish state decision turnedAway decided fault

def postClosePoll (world : DiscoveryWorld) (cfg : AdmissionSettings) (rows : List RankingRow)
    (decided : Int) (appends : Bool) : DiscoveryWorld :=
  let ledger := effectiveTiers world.ledger
  let screen := rows.filter fun row => qualifies row cfg && !ledger.contains row.symbol
  if appends then
    { world with ledger := world.ledger ++ screen.map (tierC .postCloseScreen decided) }
  else world

/-- One step of a day with one admission setting and one capacity for each feed. -/
def step (cfg : AdmissionSettings) (capacity : Dict Feed Int) (world : DiscoveryWorld) :
    DiscoveryStep → DiscoveryWorld
  | .restart ineligible =>
    match stateFromLedger world.ledger ineligible capacity with
    | .ok admission => { world with running := some { admission } }
    | .error _ => { world with running := none }
  | .crash => { world with running := none }
  | .admissionPoll (some rows) statusOf decided fault =>
    match world.running with
    | some state => world.admissionPoll cfg state rows statusOf decided fault
    | none => world
  | .admissionPoll none _ _ fault => { world with running := if fault.dies then none else world.running }
  | .postClosePoll (some rows) decided appends =>
    match world.running with
    | some _ => world.postClosePoll cfg rows decided appends
    | none => world
  | .postClosePoll none _ _ => world
  | .acked acks decided =>
    { world with
      ledger := world.ledger ++ acks.map fun (symbol, feed, reason) => ackRow symbol feed decided reason }

end DiscoveryWorld

end KrxAlpha
