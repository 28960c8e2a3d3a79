import KrxAlpha.Journal
import KrxAlpha.Ledger
import KrxAlpha.Sweep

/-! The order manager: submission behind the risk gate, cancellation, operator
resolution, and the reconciliation of local orders with the broker's
cumulative rows. Every operation returns the manager it leaves behind together
with its result or exception; an exception keeps whatever was already written.
Answers of the clock, the quote source, the kill switch and the gateway are
arguments, so a run may meet any of them. -/
namespace KrxAlpha

/-- One gateway call: the records the gateway itself appended before it
answered or raised. -/
structure GatewayCall where
  written : List (Timestamp × GatewayEvent) := []
  reply : Except Error BrokerOutcome

/-- The clock readings of one submission, in the order they are taken. -/
structure SubmitClock where
  idAt : Timestamp
  gateAt : Timestamp
  createdAt : Timestamp
  journaledAt : Timestamp
  submittedAt : Timestamp
  resultAt : Timestamp
  deriving DecidableEq, Repr

structure SubmitEnv where
  quote : Except Error Quote
  /-- `gateway.orderable_cash` at the reference price. -/
  orderableCash : Int → Except Error Int
  killSwitch : Bool
  clock : SubmitClock
  gateway : Order → Quote → GatewayCall

structure CancelEnv where
  gateway : Order → GatewayCall
  recordedAt : Timestamp

structure ReconcileEnv where
  /-- `gateway.fetch_statuses`. -/
  statuses : Except Error (List BrokerOrderStatus)
  /-- The reading under which the call's n-th record is written. -/
  clock : Nat → Timestamp

structure OrderManager where
  mode : ExecutionMode
  limits : RiskLimits
  costs : CostModel
  ledger : Ledger
  orders : Dict String Order := ∅
  seq : Nat := 0
  submitTimes : List Timestamp := []
  submitBlockReason : Option String := none
  closed : Bool := false
  journal : List Record := []

namespace OrderManager

def blockSubmits (m : OrderManager) (reason : String) : OrderManager :=
  { m with submitBlockReason := some reason }

def close (m : OrderManager) : OrderManager := { m with closed := true }

def record (m : OrderManager) (at_ : Timestamp) (event : Event) : OrderManager :=
  { m with journal := m.journal ++ [⟨at_, m.mode, event⟩] }

/-- The records a gateway appended for one order. -/
def gatewayRecords (mode : ExecutionMode) (clientId : String)
    (written : List (Timestamp × GatewayEvent)) : List Record :=
  written.map fun line => ⟨line.1, mode, .gateway clientId line.2⟩

/-! ### Submission -/

def openOrders (m : OrderManager) : List Order :=
  m.orders.values.filter (·.status ∈ openStatuses)

/-- Unfilled quantity of the open orders of one symbol and side. -/
def openQty (m : OrderManager) (symbol : String) (side : Side) : Int :=
  (((m.openOrders.filter (·.intent.symbol = symbol)).filter (·.intent.side = side)).map
    Order.remainingQty).sum

def riskContext (m : OrderManager) (intent : OrderIntent) (env : SubmitEnv) (ref orderable : Int) :
    RiskContext where
  killSwitch := env.killSwitch
  unknownPending := m.openOrders.any fun o =>
    o.status = .unknown ∧ o.intent.symbol = intent.symbol ∧ o.intent.side = intent.side
  ordersLastMinute := (m.submitTimes.filter fun t => env.clock.gateAt - 60000000 < t).length
  realizedPnlKrw := m.ledger.realizedPnlKrw
  positionQty := m.ledger.qty intent.symbol
  openBuyQty := m.openQty intent.symbol .buy
  openSellQty := m.openQty intent.symbol .sell
  orderableCashKrw := orderable
  estCommissionKrw := m.costs.commission (intent.qty * ref)
  submitBlockReason := m.submitBlockReason

/-- The guarded block of `submit`: the reference price of an intent that
passes, or what the block raises. -/
def riskGate (m : OrderManager) (intent : OrderIntent) (quote : Quote) (env : SubmitEnv) :
    Except Error Int := do
  let ref ← referencePrice intent quote
  let orderable ← (if intent.side = .buy then env.orderableCash ref else .ok 0 : Except Error Int)
  checkIntent intent quote m.limits (m.riskContext intent env ref orderable)
  return ref

/-- A rejected intent is registered as a terminal order of its own. -/
def rejectIntent (m : OrderManager) (clientId : String) (intent : OrderIntent) (code : RejectCode)
    (detail : String) (env : SubmitEnv) : OrderManager × Except Error Order :=
  let order : Order := {
    clientId, intent, status := .rejected, createdAt := env.clock.createdAt,
    rejectCode := some code.value, rejectMessage := some detail }
  (({ m with orders := m.orders.set clientId order }).record env.clock.journaledAt
    (.riskReject clientId intent code detail), .ok order)

/-- The gateway's answer applied to the order it was asked about. -/
def settleOrder (order : Order) (outcome : BrokerOutcome) : Except Error Order :=
  match outcome.kind with
  | .accepted => do
    let status ← transition order.status .accepted
    return { order with
      status, brokerOrderNo := outcome.brokerOrderNo, brokerOrgNo := outcome.brokerOrgNo,
      brokerOrderTime := outcome.orderTime }
  | .rejected => do
    let status ← transition order.status .rejected
    return { order with
      status, rejectCode := some outcome.code, rejectMessage := some outcome.message }
  | .unknown => do
    let status ← transition order.status .unknown
    return { order with status }

def settle (m : OrderManager) (order : Order) (outcome : BrokerOutcome) (at_ : Timestamp) :
    OrderManager × Except Error Order :=
  match settleOrder order outcome with
  | .error err => (m, .error err)
  | .ok settled =>
    (({ m with orders := m.orders.set order.clientId settled }).record at_
      (.submitResult order.clientId outcome settled.status), .ok settled)

/-- The order `send` hands to the gateway. -/
def pendingOrder (clientId : String) (intent : OrderIntent) (env : SubmitEnv) : Order :=
  { clientId, intent, status := .pendingSubmit, createdAt := env.clock.createdAt }

/-- The order on the books, with its intent journaled and the send counted. -/
def register (m : OrderManager) (clientId : String) (intent : OrderIntent) (ref : Int)
    (env : SubmitEnv) : OrderManager :=
  { m with
    orders := m.orders.set clientId (pendingOrder clientId intent env)
    journal := m.journal ++ [⟨env.clock.journaledAt, m.mode, .intent clientId intent ref⟩]
    submitTimes := m.submitTimes ++ [env.clock.submittedAt] }

/-- Register the order and only then call the gateway. -/
def send (m : OrderManager) (clientId : String) (intent : OrderIntent) (quote : Quote) (ref : Int)
    (env : SubmitEnv) : OrderManager × Except Error Order :=
  let order := pendingOrder clientId intent env
  let registered := m.register clientId intent ref env
  let call := env.gateway order quote
  let sent := { registered with
    journal := registered.journal ++ gatewayRecords m.mode clientId call.written }
  match call.reply with
  | .error err => (sent, .error err)
  | .ok outcome => sent.settle order outcome env.clock.resultAt

/-- The client id the next submission takes. -/
def nextId (m : OrderManager) (env : SubmitEnv) : String :=
  clientIdText m.mode env.clock.idAt (m.seq + 1)

def submit (m : OrderManager) (intent : OrderIntent) (env : SubmitEnv) :
    OrderManager × Except Error Order :=
  if m.closed then (m, .error (.execution .sessionClosed))
  else match env.quote with
    | .error err => (m, .error err)
    | .ok quote =>
      let counted := { m with seq := m.seq + 1 }
      match m.riskGate intent quote env with
      | .error (.riskRejected code detail) =>
        counted.rejectIntent (m.nextId env) intent code detail env
      | .error err => (counted, .error err)
      | .ok ref => counted.send (m.nextId env) intent quote ref env

/-! ### Cancellation -/

def cancel (m : OrderManager) (clientId : String) (env : CancelEnv) :
    OrderManager × Except Error Order :=
  if m.closed then (m, .error (.execution .sessionClosed))
  else match m.orders.get? clientId with
    | none => (m, .error (.execution (.unknownClientId clientId)))
    | some order =>
      if order.status ∈ terminalStatuses then (m, .ok order)
      else if order.brokerOrderNo = none then (m, .error (.execution .cancelWithoutNumber))
      else
        let call := env.gateway order
        let asked := { m with
          journal := m.journal ++ gatewayRecords m.mode clientId call.written }
        match call.reply with
        | .error err => (asked, .error err)
        | .ok outcome => (asked.record env.recordedAt (.cancelResult clientId outcome), .ok order)

/-! ### Reconciliation -/

/-- The broker numbers local orders are bound to; an empty number binds nothing. -/
def knownNumbers (orders : Dict String Order) : List String :=
  orders.values.filterMap fun o => o.brokerOrderNo.filter (· ≠ "")

/-- Five seconds before the order was created, as the broker writes times. -/
def matchThreshold (order : Order) : String := timeText (order.createdAt - 5000000)

def expectedPrice (order : Order) : Option Int :=
  if order.intent.orderType = .limit then order.intent.limitPrice else some 0

/-- A row no local order is bound to that could be this order's. -/
def isCandidate (known : List String) (order : Order) (status : BrokerOrderStatus) : Bool :=
  status.brokerOrderNo ∉ known ∧
  (status.originalOrderNo = "" ∨ status.originalOrderNo = status.brokerOrderNo) ∧
  status.symbol = order.intent.symbol ∧ status.side = order.intent.side ∧
  status.orderedQty = order.intent.qty ∧ some status.price = expectedPrice order ∧
  matchThreshold order ≤ status.orderTime

def candidates (statuses : List BrokerOrderStatus) (known : List String) (order : Order) :
    List BrokerOrderStatus :=
  statuses.filter (isCandidate known order)

/-- The first loop's body: an UNKNOWN order takes over a single matching row. -/
def adoptOrder (statuses : List BrokerOrderStatus) (known : List String) (order : Order) :
    Visit (List String) Order Event Error :=
  if order.status ≠ .unknown then { state := known, item := order }
  else match candidates statuses known order with
    | [] => { state := known, item := order }
    | [row] => {
        state := known ++ [row.brokerOrderNo]
        item := { order with
          brokerOrderNo := some row.brokerOrderNo, brokerOrgNo := some row.orgNo,
          brokerOrderTime := some row.orderTime }
        emitted := [.unknownAdopted order.clientId row.brokerOrderNo row.orgNo row.orderTime] }
    | rows => {
        state := known, item := order
        emitted := [.unknownAmbiguous order.clientId (rows.map (·.brokerOrderNo))] }

/-- The row of an order: the last one the broker listed under its number. -/
def rowOf (statuses : List BrokerOrderStatus) (order : Order) : Option BrokerOrderStatus :=
  order.brokerOrderNo.bind
    (Dict.ofList (statuses.map fun status => (status.brokerOrderNo, status))).get?

/-- Some row names the order as the original it amends or cancels. -/
def hasCancelChild (statuses : List BrokerOrderStatus) (order : Order) : Bool :=
  statuses.any fun status =>
    status.originalOrderNo ≠ "" ∧ status.originalOrderNo ≠ status.brokerOrderNo ∧
    some status.originalOrderNo = order.brokerOrderNo

/-- The rest of the second loop's body once the ledger has taken the fill. -/
def settleRow (statuses : List BrokerOrderStatus) (ledger : Ledger) (order : Order)
    (row : BrokerOrderStatus) (newStatus : OrderStatus) (fills : List Event) :
    Visit Ledger Order Event Error :=
  let filled := { order with filledQty := row.filledQty, filledAmountKrw := row.filledAmountKrw }
  match transition order.status newStatus with
  | .error err => { state := ledger, item := filled, emitted := fills, stop := some err }
  | .ok status =>
    let evidence := {
      cnclYn := row.cancelled, cancelChild := hasCancelChild statuses order,
      rmnQty := row.remainingQty, rejectedQty := row.rejectedQty }
    { state := ledger
      item := { filled with status }
      emitted := fills ++
        if status ≠ order.status ∨ fills ≠ [] then
          [.status order.clientId status (some row.filledQty) evidence]
        else [] }

/-- The second loop's body: a bound open order takes over its row. -/
def applyOrder (statuses : List BrokerOrderStatus) (ledger : Ledger) (order : Order) :
    Visit Ledger Order Event Error :=
  if order.status ∈ terminalStatuses then { state := ledger, item := order }
  else match rowOf statuses order with
    | none => { state := ledger, item := order }
    | some row =>
      if row.filledQty < order.filledQty ∨ row.filledQty > order.intent.qty then {
        state := ledger, item := order
        emitted := [.integrityViolation order.clientId row.filledQty order.filledQty]
        stop := some (.brokerIntegrity (.cumulativeMoved row.filledQty)) }
      else match deriveStatus row (hasCancelChild statuses order) with
        | .error err => { state := ledger, item := order, stop := some err }
        | .ok newStatus =>
          let deltaQty := row.filledQty - order.filledQty
          let deltaAmount := row.filledAmountKrw - order.filledAmountKrw
          if deltaQty > 0 then
            match ledger.applyFill order.intent.symbol order.intent.side deltaQty deltaAmount with
            | .error err => { state := ledger, item := order, stop := some err }
            | .ok (paid, _) =>
              settleRow statuses paid order row newStatus
                [.fill order.clientId deltaQty deltaAmount row.filledQty (some row.filledAmountKrw)]
          else settleRow statuses ledger order row newStatus []

/-- The orders a reconciliation reports: those adopted or given a new status. -/
def changedIds (events : List Event) : List String :=
  (events.filterMap fun
    | .unknownAdopted clientId .. => some clientId
    | .status clientId .. => some clientId
    | _ => none).eraseDups

def reconcile (m : OrderManager) (env : ReconcileEnv) : OrderManager × Except Error (List Order) :=
  if m.closed then (m, .error (.execution .sessionClosed))
  else match env.statuses with
    | .error err => (m, .error err)
    | .ok statuses =>
      let adopted := m.orders.sweep (adoptOrder statuses) (knownNumbers m.orders)
      let applied := adopted.items.sweep (applyOrder statuses) m.ledger
      let events := adopted.emitted ++ applied.emitted
      let after := { m with
        orders := applied.items
        ledger := applied.state
        journal := m.journal ++ stamp m.mode env.clock events }
      match applied.stop with
      | some err => (after, .error err)
      | none => (after, .ok ((changedIds events).filterMap after.orders.get?))

/-- The operator's override: retire an UNKNOWN order the broker never saw. -/
def resolveUnknown (m : OrderManager) (clientId reason : String) (env : ReconcileEnv)
    (recordedAt : Timestamp) : OrderManager × Except Error Order :=
  if m.closed then (m, .error (.execution .sessionClosed))
  else match m.orders.get? clientId with
    | none => (m, .error (.execution (.unknownClientId clientId)))
    | some before =>
      if before.status ≠ .unknown then (m, .error (.execution (.notUnknown before.status)))
      else match m.reconcile env with
        | (after, .error err) => (after, .error err)
        | (after, .ok _) =>
          match after.orders.get? clientId with
          | none => (after, .error (.execution (.unknownClientId clientId)))
          | some order =>
            if order.status ≠ .unknown ∨ order.brokerOrderNo ≠ none then
              (after, .error (.execution .matchedBrokerRecord))
            else match transition order.status .rejected with
              | .error err => (after, .error err)
              | .ok status =>
                let retired := { order with
                  status, rejectCode := some "unknown_resolved", rejectMessage := some reason }
                (({ after with orders := after.orders.set clientId retired }).record recordedAt
                  (.unknownResolved clientId reason), .ok retired)

/-! ### What passing the gate means -/

theorem risk_gate_ok {m : OrderManager} (passed : m.riskGate intent quote env = .ok ref) :
    referencePrice intent quote = .ok ref ∧
      ∃ orderable, (intent.side = .buy → env.orderableCash ref = .ok orderable) ∧
        Passed intent quote m.limits (m.riskContext intent env ref orderable) := by
  unfold riskGate at passed
  obtain ⟨price, priced, passed⟩ := bind_ok passed
  obtain ⟨orderable, cash, passed⟩ := bind_ok passed
  obtain ⟨_, checked, done⟩ := bind_ok passed
  cases done
  refine ⟨priced, orderable, fun buying => ?_, check_intent_ok checked⟩
  simpa [buying] using cash

/-! ### What one visit can do -/

/-- An order's row is listed, under the order's number. -/
theorem row_of_some (found : rowOf statuses order = some row) :
    order.brokerOrderNo = some row.brokerOrderNo ∧ row ∈ statuses := by
  obtain ⟨number, bound, held⟩ := Option.bind_eq_some_iff.mp found
  obtain ⟨listed, member, same⟩ := List.mem_map.mp (Dict.mem_of_ofList held)
  cases same
  exact ⟨bound, member⟩

/-- Everything the first loop can do to one order. -/
inductive AdoptStep (statuses : List BrokerOrderStatus) (known : List String) (order : Order) :
    Visit (List String) Order Event Error → Prop where
  | idle (unmatched : order.status = .unknown → candidates statuses known order = []) :
      AdoptStep statuses known order { state := known, item := order }
  | ambiguous (unknown : order.status = .unknown)
      (several : 2 ≤ (candidates statuses known order).length) :
      AdoptStep statuses known order {
        state := known, item := order
        emitted := [.unknownAmbiguous order.clientId
          ((candidates statuses known order).map (·.brokerOrderNo))] }
  | adopted (unknown : order.status = .unknown) (row : BrokerOrderStatus)
      (single : candidates statuses known order = [row]) :
      AdoptStep statuses known order {
        state := known ++ [row.brokerOrderNo]
        item := { order with
          brokerOrderNo := some row.brokerOrderNo, brokerOrgNo := some row.orgNo,
          brokerOrderTime := some row.orderTime }
        emitted := [.unknownAdopted order.clientId row.brokerOrderNo row.orgNo row.orderTime] }

theorem adopt_order_step (statuses : List BrokerOrderStatus) (known : List String) (order : Order) :
    AdoptStep statuses known order (adoptOrder statuses known order) := by
  unfold adoptOrder
  split
  · rename_i different
    exact .idle fun unknown => absurd unknown different
  · rename_i unknown
    have unknown : order.status = .unknown := not_not.mp unknown
    split
    · rename_i nothing
      exact .idle fun _ => nothing
    · rename_i row single
      exact .adopted unknown row single
    · rename_i several notOne notNone
      refine .ambiguous unknown ?_
      match shape : candidates statuses known order with
      | [] => exact absurd shape notOne
      | [row] => exact absurd shape (notNone row)
      | _ :: _ :: _ => simp

/-- The ledger's part of taking over a row: nothing for an unchanged quantity,
one fill for a larger one. -/
inductive TakesFill (ledger : Ledger) (order : Order) (row : BrokerOrderStatus) :
    Ledger → List Event → Prop where
  | same (equal : row.filledQty = order.filledQty) : TakesFill ledger order row ledger []
  | more (larger : order.filledQty < row.filledQty) (paid : Ledger) (pnl : Int)
      (applied : ledger.applyFill order.intent.symbol order.intent.side
        (row.filledQty - order.filledQty) (row.filledAmountKrw - order.filledAmountKrw) =
          .ok (paid, pnl)) :
      TakesFill ledger order row paid [.fill order.clientId (row.filledQty - order.filledQty)
        (row.filledAmountKrw - order.filledAmountKrw) row.filledQty (some row.filledAmountKrw)]

/-- The record of a changed status or quantity. -/
def statusRecords (statuses : List BrokerOrderStatus) (order : Order) (row : BrokerOrderStatus)
    (status : OrderStatus) (fills : List Event) : List Event :=
  if status ≠ order.status ∨ fills ≠ [] then
    [.status order.clientId status (some row.filledQty) {
      cnclYn := row.cancelled, cancelChild := hasCancelChild statuses order,
      rmnQty := row.remainingQty, rejectedQty := row.rejectedQty }]
  else []

/-- Why the second loop stops at an order without touching it. -/
inductive Refusal (statuses : List BrokerOrderStatus) (ledger : Ledger) (order : Order)
    (row : BrokerOrderStatus) : List Event → Error → Prop where
  | moved (outside : row.filledQty < order.filledQty ∨ order.intent.qty < row.filledQty) :
      Refusal statuses ledger order row
        [.integrityViolation order.clientId row.filledQty order.filledQty]
        (.brokerIntegrity (.cumulativeMoved row.filledQty))
  | unreadable (err : Error)
      (failed : deriveStatus row (hasCancelChild statuses order) = .error err) :
      Refusal statuses ledger order row [] err
  | unpaid (err : Error) (low : order.filledQty < row.filledQty)
      (high : row.filledQty ≤ order.intent.qty)
      (failed : ledger.applyFill order.intent.symbol order.intent.side
        (row.filledQty - order.filledQty) (row.filledAmountKrw - order.filledAmountKrw) =
          .error err) :
      Refusal statuses ledger order row [] err

/-- Everything the second loop can do to one order. -/
inductive ApplyStep (statuses : List BrokerOrderStatus) (ledger : Ledger) (order : Order) :
    Visit Ledger Order Event Error → Prop where
  | idle (skipped : order.status ∈ terminalStatuses ∨ rowOf statuses order = none) :
      ApplyStep statuses ledger order { state := ledger, item := order }
  | refused (live : order.status ∉ terminalStatuses) (row : BrokerOrderStatus)
      (found : rowOf statuses order = some row) (events : List Event) (err : Error)
      (cause : Refusal statuses ledger order row events err) :
      ApplyStep statuses ledger order {
        state := ledger, item := order, emitted := events, stop := some err }
  | taken (live : order.status ∉ terminalStatuses) (row : BrokerOrderStatus)
      (found : rowOf statuses order = some row)
      (low : order.filledQty ≤ row.filledQty) (high : row.filledQty ≤ order.intent.qty)
      (status : OrderStatus) (read : deriveStatus row (hasCancelChild statuses order) = .ok status)
      (paid : Ledger) (fills : List Event) (took : TakesFill ledger order row paid fills)
      (moved : transition order.status status = .ok status) :
      ApplyStep statuses ledger order {
        state := paid
        item := { order with
          filledQty := row.filledQty, filledAmountKrw := row.filledAmountKrw, status }
        emitted := fills ++ statusRecords statuses order row status fills }
  | stuck (live : order.status ∉ terminalStatuses) (row : BrokerOrderStatus)
      (found : rowOf statuses order = some row)
      (low : order.filledQty ≤ row.filledQty) (high : row.filledQty ≤ order.intent.qty)
      (status : OrderStatus) (read : deriveStatus row (hasCancelChild statuses order) = .ok status)
      (paid : Ledger) (fills : List Event) (took : TakesFill ledger order row paid fills)
      (err : Error) (illegal : transition order.status status = .error err) :
      ApplyStep statuses ledger order {
        state := paid
        item := { order with filledQty := row.filledQty, filledAmountKrw := row.filledAmountKrw }
        emitted := fills, stop := some err }

private theorem settle_row_step {ledger paid : Ledger}
    (live : order.status ∉ terminalStatuses) (found : rowOf statuses order = some row)
    (low : order.filledQty ≤ row.filledQty) (high : row.filledQty ≤ order.intent.qty)
    (read : deriveStatus row (hasCancelChild statuses order) = .ok status)
    (took : TakesFill ledger order row paid fills) :
    ApplyStep statuses ledger order (settleRow statuses paid order row status fills) := by
  unfold settleRow
  cases moved : transition order.status status with
  | error err => exact .stuck live row found low high status read paid fills took err moved
  | ok result =>
    have same : result = status := transition_ok moved
    subst same
    exact .taken live row found low high result read paid fills took moved

theorem apply_order_step (statuses : List BrokerOrderStatus) (ledger : Ledger) (order : Order) :
    ApplyStep statuses ledger order (applyOrder statuses ledger order) := by
  unfold applyOrder
  split
  · rename_i terminal
    exact .idle (.inl terminal)
  · rename_i live
    cases found : rowOf statuses order with
    | none => exact .idle (.inr found)
    | some row =>
      simp only
      split
      · rename_i outside
        exact .refused live row found _ _ (.moved outside)
      · rename_i inside
        have low : order.filledQty ≤ row.filledQty := by omega
        have high : row.filledQty ≤ order.intent.qty := by omega
        cases read : deriveStatus row (hasCancelChild statuses order) with
        | error err => exact .refused live row found _ _ (.unreadable err read)
        | ok status =>
          simp only
          split
          · rename_i larger
            have larger : order.filledQty < row.filledQty := by omega
            cases applied : ledger.applyFill order.intent.symbol order.intent.side
                (row.filledQty - order.filledQty)
                (row.filledAmountKrw - order.filledAmountKrw) with
            | error err => exact .refused live row found _ _ (.unpaid err larger high applied)
            | ok result =>
              obtain ⟨paid, pnl⟩ := result
              exact settle_row_step live found low high read (.more larger paid pnl applied)
          · have same : row.filledQty = order.filledQty := by omega
            exact settle_row_step live found low high read (.same same)

end OrderManager
end KrxAlpha
