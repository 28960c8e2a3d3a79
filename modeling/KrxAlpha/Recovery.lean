import KrxAlpha.OrderManager

/-! Same-day restore: the order state and the ledger rebuilt from the journal
alone. The reader keeps its own accounting rules and refuses a journal that
breaks them. Records are typed here, so the reader's checks of field types and
of unknown status texts do not arise. -/
namespace KrxAlpha

structure RecoveredSession where
  orders : Dict String Order
  nextSeq : Nat
  submitTimes : List Timestamp
  ledger : Option Ledger

/-- `str(value or "") or None`. -/
def textOrNone (text : String) : Option String := if text = "" then none else some text

/-- The first pass: the highest sequence number and the times of the sends. -/
def scanRecord (scan : Nat × List Timestamp) (record : Record) :
    Except Error (Nat × List Timestamp) :=
  match record.event with
  | .intent clientId .. => do
    let seq ← seqOf clientId
    return (max scan.1 seq, scan.2 ++ [record.ts])
  | .riskReject clientId .. => do
    let seq ← seqOf clientId
    return (max scan.1 seq, scan.2)
  | _ => .ok scan

/-- One event applied to the order it is filed under. -/
def replayEvent (order : Order) : Event → Except Error Order
  | .submitResult _ outcome status => .ok { order with
      status
      brokerOrderNo := outcome.brokerOrderNo
      brokerOrgNo := outcome.brokerOrgNo
      brokerOrderTime := outcome.orderTime
      rejectCode := if status = .rejected then textOrNone outcome.code else none
      rejectMessage := if status = .rejected then textOrNone outcome.message else none }
  | .unknownAdopted _ brokerOrderNo brokerOrgNo orderTime => .ok { order with
      brokerOrderNo := some brokerOrderNo
      brokerOrgNo := some brokerOrgNo
      brokerOrderTime := some orderTime }
  | .unknownResolved _ reason => .ok { order with
      status := .rejected
      rejectCode := some "unknown_resolved"
      rejectMessage := textOrNone reason }
  | .fill _ _ _ _ none => .error (.execution .fillWithoutAmount)
  | .fill _ deltaQty deltaAmount qty (some amount) =>
    if ¬ (order.filledQty < qty ∧ qty ≤ order.intent.qty) ∨ amount < order.filledAmountKrw ∨
        deltaQty ≠ qty - order.filledQty ∨ deltaAmount ≠ amount - order.filledAmountKrw then
      .error (.execution .inconsistentFill)
    else .ok { order with filledQty := qty, filledAmountKrw := amount }
  | .status _ status filledQty _ =>
    if filledQty = none ∨ filledQty = some order.filledQty then .ok { order with status }
    else .error (.execution .statusWithoutFill)
  | _ => .ok order

/-- The second pass over the records, in their order. -/
def replayRecord (orders : Dict String Order) (record : Record) : Except Error (Dict String Order) :=
  match record.event with
  | .intent clientId intent _ =>
    if orders.contains clientId then .error (.execution (.duplicateIntent clientId))
    else do
      let _ ← seqOf clientId
      return orders.set clientId
        { clientId, intent, status := .pendingSubmit, createdAt := record.ts }
  | .riskReject .. => .ok orders
  | event =>
    match event.clientId? with
    | none => .ok orders
    | some clientId => do
      let _ ← seqOf clientId
      match orders.get? clientId with
      | none => .error (.execution (.eventWithoutIntent clientId))
      | some order => do
        let next ← replayEvent order event
        return orders.set clientId next

/-- A status with PENDING_SUBMIT read as UNKNOWN. -/
def shownStatus (status : OrderStatus) : OrderStatus :=
  if status = .pendingSubmit then .unknown else status

/-- A send whose answer was never written may have reached the broker. -/
def readPending (order : Order) : Order := { order with status := shownStatus order.status }

def snapshotRow (positions : Dict String Position) (row : Holding) :
    Except Error (Dict String Position) :=
  if row.qty < 0 ∨ row.costKrw < 0 ∨ positions.contains row.symbol then
    .error (.execution .inconsistentHoldings)
  else .ok (positions.set row.symbol { qty := row.qty, costKrw := row.costKrw })

/-- A fill of an order the second pass did not build is a missing key. -/
def replayFill (orders : Dict String Order) (ledger : Ledger) (record : Record) :
    Except Error Ledger :=
  match record.event with
  | .fill clientId deltaQty deltaAmount _ _ =>
    match orders.get? clientId with
    | none => .error (.foreign "KeyError")
    | some order => do
      let (paid, _) ← ledger.applyFill order.intent.symbol order.intent.side deltaQty deltaAmount
      return paid
  | _ => .ok ledger

/-- The holdings of the earliest `session_start`, if there is one. -/
def firstHoldings : List Record → Option (Option (List Holding))
  | [] => none
  | record :: rest =>
    match record.event with
    | .sessionStart holdings _ => some holdings
    | _ => firstHoldings rest

def replayLedger (records : List Record) (orders : Dict String Order) (costs : CostModel) :
    Except Error (Option Ledger) :=
  match firstHoldings records with
  | none => .ok none
  | some none => .error (.execution .holdingsMissing)
  | some (some holdings) => do
    let positions ← holdings.foldlM snapshotRow ∅
    let ledger ← records.foldlM (replayFill orders) { cashKrw := 0, costs, positions }
    return some ledger

/-- `restore_session`. A paper session restores its counters only. -/
def restoreSession (records : List Record) (mode : ExecutionMode) (costs : CostModel) :
    Except Error RecoveredSession := do
  let (nextSeq, submitTimes) ← records.foldlM scanRecord (0, [])
  if mode = .paper then return { orders := ∅, nextSeq, submitTimes, ledger := none }
  else do
    let replayed ← records.foldlM replayRecord ∅
    let orders := replayed.mapValues readPending
    let ledger ← replayLedger records orders costs
    return { orders, nextSeq, submitTimes, ledger }

/-- The manager `build_order_manager` assembles on a day, before its own parity checks. A
broker-backed session takes over the ledger its records replay to; a paper session, and
one without a snapshot on record, opens on the ledger it is given. -/
def openSession (journal : List Record) (mode : ExecutionMode) (limits : RiskLimits)
    (costs : CostModel) (day : Int) (opening : Ledger) : Except Error OrderManager := do
  let recovered ← restoreSession (readDay journal mode day) mode costs
  return {
    mode, limits, costs
    ledger := recovered.ledger.getD opening
    orders := recovered.orders
    seq := recovered.nextSeq
    submitTimes := recovered.submitTimes
    journal }

/-- A broker-backed session opens on the account's holdings. -/
def resume (journal : List Record) (mode : ExecutionMode) (limits : RiskLimits) (costs : CostModel)
    (day : Int) (holdings : List Holding) : Except Error OrderManager :=
  openSession journal mode limits costs day (Ledger.ofHoldings costs holdings)

end KrxAlpha
