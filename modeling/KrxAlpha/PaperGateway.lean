import KrxAlpha.Session

/-! The paper gateway: orders are not sent but filled against the quoted book
at once, kept in a book of its own and reported back as broker rows. A paper
session is the order manager together with this gateway; the manager's
environment answers are then the gateway's. -/
namespace KrxAlpha
open OrderManager

/-- A level a limit order does not trade at; a market order trades at any. -/
def beyondLimit (side : Side) (limit : Option Int) (price : Int) : Bool :=
  match limit with
  | none => false
  | some limit => (side = .buy ∧ price > limit) ∨ (side = .sell ∧ price < limit)

/-- The loop of `simulate_paper_fills` over the quoted levels. -/
def takeLevels (side : Side) (limit : Option Int) :
    List (Int × Int) → (remaining filled amount : Int) → Int × Int
  | [], _, filled, amount => (filled, amount)
  | (price, size) :: rest, remaining, filled, amount =>
    if beyondLimit side limit price then (filled, amount)
    else
      let take := min remaining size
      if remaining - take = 0 then (filled + take, amount + take * price)
      else takeLevels side limit rest (remaining - take) (filled + take) (amount + take * price)

/-- Quantity and amount filled at submission. -/
def simulatePaperFills (intent : OrderIntent) (quote : Quote) : Int × Int :=
  let levels := if intent.side = .buy then quote.asks else quote.bids
  let limit := if intent.orderType = .limit then intent.limitPrice else none
  takeLevels intent.side limit levels intent.qty 0 0

structure PaperEntry where
  intent : OrderIntent
  filledQty : Int
  filledAmountKrw : Int
  reservePrice : Int
  cancelled : Bool := false
  deriving DecidableEq, Repr

structure PaperGateway where
  seq : Nat := 0
  book : Dict String PaperEntry := ∅

/-- `f"P{seq:08d}"`. -/
def paperNumber (seq : Nat) : String := String.ofList ('P' :: zeroPad 8 seq)

theorem paper_number_injective (same : paperNumber first = paperNumber second) :
    first = second := by
  have digits := (List.cons.inj (String.ofList_inj.mp same)).2
  rw [← of_digits_zero_pad 8 first, digits, of_digits_zero_pad]

namespace PaperGateway

/-- The gateway after a submission, and what the submission wrote and answered. -/
def submit (g : PaperGateway) (order : Order) (quote : Quote) (at_ : Timestamp) :
    PaperGateway × GatewayCall :=
  let seq := g.seq + 1
  let odno := paperNumber seq
  let (filled, amount) := simulatePaperFills order.intent quote
  let written := [(at_, GatewayEvent.paperWouldSend odno filled amount)]
  match referencePrice order.intent quote with
  | .error err => ({ g with seq }, { written, reply := .error err })
  | .ok reservePrice =>
    ({ seq
       book := g.book.set odno {
         intent := order.intent, filledQty := filled, filledAmountKrw := amount, reservePrice } },
     { written
       reply := .ok { kind := .accepted, brokerOrderNo := some odno, brokerOrgNo := some "PAPER",
                      orderTime := some "" } })

/-- The entry is marked before the request body is built, which raises for an
order without its numbers. -/
def cancel (g : PaperGateway) (order : Order) (at_ : Timestamp) : PaperGateway × GatewayCall :=
  let odno := order.brokerOrderNo.getD ""
  match g.book.get? odno with
  | none => (g, { reply := .error (.execution .unknownPaperOrder) })
  | some entry =>
    if entry.filledQty = entry.intent.qty then
      (g, { reply := .ok { kind := .rejected, brokerOrderNo := order.brokerOrderNo,
                           code := "ALREADY_FILLED", message := "nothing to cancel" } })
    else
      let marked := { g with book := g.book.set odno { entry with cancelled := true } }
      if order.brokerOrderNo = none ∨ order.brokerOrgNo = none then
        (marked, { reply := .error (.execution .cancelNeedsNumbers) })
      else
        (marked, { written := [(at_, .paperWouldCancel)]
                   reply := .ok { kind := .accepted, brokerOrderNo := order.brokerOrderNo,
                                  brokerOrgNo := some "PAPER" } })

/-- The row an entry is reported as. -/
def statusOf (odno : String) (entry : PaperEntry) : BrokerOrderStatus where
  brokerOrderNo := odno
  originalOrderNo := ""
  orgNo := "PAPER"
  symbol := entry.intent.symbol
  side := entry.intent.side
  orderedQty := entry.intent.qty
  price := entry.intent.limitPrice.getD 0
  filledQty := entry.filledQty
  filledAmountKrw := entry.filledAmountKrw
  remainingQty := if entry.cancelled then 0 else entry.intent.qty - entry.filledQty
  rejectedQty := 0
  cancelled := entry.cancelled
  orderTime := ""

def fetchStatuses (g : PaperGateway) : List BrokerOrderStatus :=
  g.book.entries.map fun item => statusOf item.1 item.2

/-- What `orderable_cash` holds back for the unfilled rest of open purchases. -/
def reserved (g : PaperGateway) : Int :=
  ((g.book.values.filter fun entry => ¬ entry.cancelled ∧ entry.intent.side = .buy).map
    fun entry => (entry.intent.qty - entry.filledQty) * entry.reservePrice).sum

def orderableCash (g : PaperGateway) (ledger : Ledger) : Int := ledger.cashKrw - g.reserved

end PaperGateway

/-! ### Paper sessions -/

/-- The manager and the gateway it was built with; they share one ledger. -/
structure PaperSession where
  manager : OrderManager
  gateway : PaperGateway

/-- Operations of a paper session, with the answers of clock, quotes and kill
switch. -/
inductive PaperOp where
  | submit (intent : OrderIntent) (quote : Except Error Quote) (killSwitch : Bool)
      (clock : SubmitClock) (sentAt : Timestamp)
  | cancel (clientId : String) (sentAt recordedAt : Timestamp)
  | reconcile (clock : Nat → Timestamp)
  | resolveUnknown (clientId reason : String) (clock : Nat → Timestamp) (recordedAt : Timestamp)
  | blockSubmits (reason : String)
  | close

namespace PaperSession

def submitEnv (s : PaperSession) (quote : Except Error Quote) (killSwitch : Bool)
    (clock : SubmitClock) (sentAt : Timestamp) : SubmitEnv where
  quote := quote
  orderableCash := fun _ => .ok (s.gateway.orderableCash s.manager.ledger)
  killSwitch := killSwitch
  clock := clock
  gateway := fun order quote => (s.gateway.submit order quote sentAt).2

def reconcileEnv (s : PaperSession) (clock : Nat → Timestamp) : ReconcileEnv :=
  ⟨.ok s.gateway.fetchStatuses, clock⟩

/-- The manager's operation, answered by the gateway. -/
def answered (s : PaperSession) : PaperOp → Op
  | .submit intent quote killSwitch clock sentAt =>
    .submit intent (s.submitEnv quote killSwitch clock sentAt)
  | .cancel clientId sentAt recordedAt =>
    .cancel clientId ⟨fun order => (s.gateway.cancel order sentAt).2, recordedAt⟩
  | .reconcile clock => .reconcile (s.reconcileEnv clock)
  | .resolveUnknown clientId reason clock recordedAt =>
    .resolveUnknown clientId reason (s.reconcileEnv clock) recordedAt
  | .blockSubmits reason => .blockSubmits reason
  | .close => .close

/-- The order and quote a submission hands to the gateway, if it gets there. -/
def submitted (m : OrderManager) (intent : OrderIntent) (env : SubmitEnv) : Option (Order × Quote) :=
  if m.closed then none
  else match env.quote with
    | .error _ => none
    | .ok quote => match m.riskGate intent quote env with
      | .error _ => none
      | .ok _ => some (pendingOrder (m.nextId env) intent env, quote)

/-- The order a cancellation hands to the gateway, if it gets there. -/
def cancelled (m : OrderManager) (clientId : String) : Option Order :=
  if m.closed then none
  else (m.orders.get? clientId).filter fun order =>
    order.status ∉ terminalStatuses ∧ order.brokerOrderNo ≠ none

/-- The gateway an operation leaves behind. -/
def gatewayAfter (s : PaperSession) : PaperOp → PaperGateway
  | .submit intent quote killSwitch clock sentAt =>
    match submitted s.manager intent (s.submitEnv quote killSwitch clock sentAt) with
    | none => s.gateway
    | some (order, quote) => (s.gateway.submit order quote sentAt).1
  | .cancel clientId sentAt _ =>
    match cancelled s.manager clientId with
    | none => s.gateway
    | some order => (s.gateway.cancel order sentAt).1
  | _ => s.gateway

def step (s : PaperSession) (op : PaperOp) : PaperSession :=
  ⟨s.manager.step (s.answered op), s.gatewayAfter op⟩

def run (s : PaperSession) (ops : List PaperOp) : PaperSession := ops.foldl step s

end PaperSession

/-- Everything a submission can come to, with what it hands to the gateway. -/
inductive SubmitStep (m : OrderManager) (intent : OrderIntent) (env : SubmitEnv) :
    Option (Order × Quote) → OrderManager → Prop where
  | refused : SubmitStep m intent env none m
  | counted : SubmitStep m intent env none { m with seq := m.seq + 1 }
  | rejected (code : RejectCode) (detail : String) : SubmitStep m intent env none
      (({ m with seq := m.seq + 1 }).rejectIntent (m.nextId env) intent code detail env).1
  | sent (quote : Quote) (ref : Int) (quoted : env.quote = .ok quote)
      (passed : m.riskGate intent quote env = .ok ref) :
      SubmitStep m intent env (some (pendingOrder (m.nextId env) intent env, quote))
        (({ m with seq := m.seq + 1 }).send (m.nextId env) intent quote ref env).1

theorem submit_step (m : OrderManager) (intent : OrderIntent) (env : SubmitEnv) :
    SubmitStep m intent env (PaperSession.submitted m intent env) (m.submit intent env).1 := by
  unfold PaperSession.submitted OrderManager.submit
  split
  · exact .refused
  · cases quoted : env.quote with
    | error err => exact .refused
    | ok quote =>
      cases passed : m.riskGate intent quote env with
      | ok ref =>
        simp only [passed]
        exact .sent quote ref quoted passed
      | error err =>
        simp only [passed]
        cases err with
        | riskRejected code detail => exact .rejected code detail
        | _ => exact .counted

end KrxAlpha
