import KrxAlpha.ClientIds
import KrxAlpha.Risk

/-! The order audit journal: the records the manager, its gateways and the
session builder append, and the day's records as a restart reads them. A
record carries the fields that some reader uses; the quoted book, the request
body and the latency figures are written for people only. Appends succeed:
a failed write is not part of these runs. -/
namespace KrxAlpha

structure Evidence where
  cnclYn : Bool
  cancelChild : Bool
  rmnQty : Int
  rejectedQty : Int
  deriving DecidableEq, Repr

/-- What a gateway writes on its own behalf while it handles one order. -/
inductive GatewayEvent where
  | liveSend (trId : String)
  | paperWouldSend (brokerOrderNo : String) (simulatedFillQty simulatedFillAmountKrw : Int)
  | paperWouldCancel
  deriving DecidableEq, Repr

/-- Fields a reader finds missing in older journals are optional. -/
inductive Event where
  | sessionStart (holdings : Option (List Holding)) (restoredOrders : Nat)
  | positionMismatch (diffs : List (String × Int × Int))
  | riskReject (clientId : String) (intent : OrderIntent) (code : RejectCode) (detail : String)
  | intent (clientId : String) (intent : OrderIntent) (referencePrice : Int)
  | gateway (clientId : String) (written : GatewayEvent)
  | submitResult (clientId : String) (outcome : BrokerOutcome) (status : OrderStatus)
  | cancelResult (clientId : String) (outcome : BrokerOutcome)
  | unknownAdopted (clientId brokerOrderNo brokerOrgNo orderTime : String)
  | unknownAmbiguous (clientId : String) (candidates : List String)
  | unknownResolved (clientId reason : String)
  | integrityViolation (clientId : String) (brokerFilledQty localFilledQty : Int)
  | fill (clientId : String) (deltaQty deltaAmountKrw cumulativeQty : Int)
      (cumulativeAmountKrw : Option Int)
  | status (clientId : String) (status : OrderStatus) (filledQty : Option Int) (evidence : Evidence)
  deriving DecidableEq, Repr

structure Record where
  ts : Timestamp
  mode : ExecutionMode
  event : Event
  deriving DecidableEq, Repr

/-- The order an event is filed under. -/
def Event.clientId? : Event → Option String
  | .sessionStart .. => none
  | .positionMismatch .. => none
  | .riskReject clientId .. => some clientId
  | .intent clientId .. => some clientId
  | .gateway clientId .. => some clientId
  | .submitResult clientId .. => some clientId
  | .cancelResult clientId .. => some clientId
  | .unknownAdopted clientId .. => some clientId
  | .unknownAmbiguous clientId .. => some clientId
  | .unknownResolved clientId .. => some clientId
  | .integrityViolation clientId .. => some clientId
  | .fill clientId .. => some clientId
  | .status clientId .. => some clientId

/-- The records of events appended one after another, each under the next
reading of the clock. -/
def stamp (mode : ExecutionMode) (clock : Nat → Timestamp) : List Event → List Record
  | [] => []
  | event :: rest => ⟨clock 0, mode, event⟩ :: stamp mode (fun tick => clock (tick + 1)) rest

/-- `OrderJournal.read_day`: one mode's records of one calendar day, in order. -/
def readDay (records : List Record) (mode : ExecutionMode) (day : Int) : List Record :=
  records.filter fun record => dayOf record.ts = day ∧ record.mode = mode

theorem read_day_all (all : ∀ record ∈ records, dayOf record.ts = day ∧ record.mode = mode) :
    readDay records mode day = records :=
  List.filter_eq_self.mpr fun record member => decide_eq_true (all record member)

theorem stamp_take (mode : ExecutionMode) (clock : Nat → Timestamp) (events : List Event)
    (count : Nat) : (stamp mode clock events).take count = stamp mode clock (events.take count) := by
  induction events generalizing clock count with
  | nil => simp [stamp]
  | cons event rest ih =>
    cases count with
    | zero => rfl
    | succ count => simp [stamp, ih]

theorem stamp_append (mode : ExecutionMode) (clock : Nat → Timestamp) (first second : List Event) :
    stamp mode clock (first ++ second) =
      stamp mode clock first ++ stamp mode (fun tick => clock (tick + first.length)) second := by
  induction first generalizing clock with
  | nil => rfl
  | cons event rest ih => simp [stamp, ih, Nat.add_assoc]

end KrxAlpha
