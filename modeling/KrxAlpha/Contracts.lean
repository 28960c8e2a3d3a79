import Mathlib.Data.List.Basic
import KrxAlpha.Runs

/-! The order-execution contracts: order and broker records, the order state
machine, and the deterministic reading of a broker's cumulative row. Prices,
quantities and amounts are unbounded integers (whole won), as in the source.
Instants are microseconds of Seoul wall-clock time since 1970-01-01 00:00. -/
namespace KrxAlpha

abbrev Timestamp := Int

inductive ExecutionMode where
  | paper | mock | live
  deriving DecidableEq, Repr

def ExecutionMode.value : ExecutionMode → String
  | .paper => "paper"
  | .mock => "mock"
  | .live => "live"

inductive Side where
  | buy | sell
  deriving DecidableEq, Repr

inductive OrderType where
  | limit | market
  deriving DecidableEq, Repr

inductive OrderStatus where
  | pendingSubmit | accepted | partiallyFilled | filled | cancelled | rejected | unknown
  deriving DecidableEq, Repr

inductive OutcomeKind where
  | accepted | rejected | unknown
  deriving DecidableEq, Repr

inductive RejectCode where
  | killSwitch | unknownPending | symbolNotAllowed | qtyInvalid | priceInvalid | tradingHalted
  | tickTableMismatch | priceOffTick | priceOutOfBand | orderRateLimit | dailyLossLimit
  | notionalLimit | positionLimit | insufficientCash | insufficientPosition | accountMismatch
  deriving DecidableEq, Repr

def RejectCode.value : RejectCode → String
  | .killSwitch => "kill_switch"
  | .unknownPending => "unknown_pending"
  | .symbolNotAllowed => "symbol_not_allowed"
  | .qtyInvalid => "qty_invalid"
  | .priceInvalid => "price_invalid"
  | .tradingHalted => "trading_halted"
  | .tickTableMismatch => "tick_table_mismatch"
  | .priceOffTick => "price_off_tick"
  | .priceOutOfBand => "price_out_of_band"
  | .orderRateLimit => "order_rate_limit"
  | .dailyLossLimit => "daily_loss_limit"
  | .notionalLimit => "notional_limit"
  | .positionLimit => "position_limit"
  | .insufficientCash => "insufficient_cash"
  | .insufficientPosition => "insufficient_position"
  | .accountMismatch => "account_mismatch"

/-! ### Exceptions -/

/-- The raise sites of `BrokerIntegrityError`. -/
inductive IntegrityFault where
  | invalidCumulative (filled ordered : Int)
  | cumulativeMoved (filled : Int)
  | invalidFill (qty amount : Int)
  | oversell (symbol : String) (qty : Int)
  deriving DecidableEq, Repr

/-- The raise sites of a plain `ExecutionError`, of the manager, the gateways
and the journal reader. -/
inductive ExecutionFault where
  | sessionClosed
  | unknownClientId (clientId : String)
  | cancelWithoutNumber
  | notUnknown (status : OrderStatus)
  | matchedBrokerRecord
  | cancelNeedsNumbers
  | unknownPaperOrder
  | invalidClientId (clientId : String)
  | nonNumericSuffix (clientId : String)
  | duplicateIntent (clientId : String)
  | eventWithoutIntent (clientId : String)
  | fillWithoutAmount
  | inconsistentFill
  | statusWithoutFill
  | holdingsMissing
  | inconsistentHoldings
  deriving DecidableEq, Repr

/-- Everything that can leave an operation as an exception. `foreign` stands
for any exception of a broker client, a quote source or the transport under
them that is not one of the execution layer's own. -/
inductive Error where
  | riskRejected (code : RejectCode) (detail : String)
  | illegalTransition (current new : OrderStatus)
  | brokerIntegrity (fault : IntegrityFault)
  | execution (fault : ExecutionFault)
  | kisApi (msgCd text : String)
  | valueError (text : String)
  | zeroDivision
  | foreign (name : String)
  deriving DecidableEq, Repr

/-! ### Records -/

structure OrderIntent where
  symbol : String
  side : Side
  qty : Int
  orderType : OrderType
  limitPrice : Option Int := none
  tag : String := ""
  deriving DecidableEq, Repr

/-- A quote; `asks` and `bids` are price and size of each level. -/
structure Quote where
  symbol : String
  last : Int
  upperLimit : Int
  lowerLimit : Int
  tick : Int
  halted : Bool
  asks : List (Int × Int)
  bids : List (Int × Int)
  deriving DecidableEq, Repr

structure Order where
  clientId : String
  intent : OrderIntent
  status : OrderStatus
  createdAt : Timestamp
  brokerOrderNo : Option String := none
  brokerOrgNo : Option String := none
  brokerOrderTime : Option String := none
  filledQty : Int := 0
  filledAmountKrw : Int := 0
  rejectCode : Option String := none
  rejectMessage : Option String := none
  deriving DecidableEq, Repr

def Order.remainingQty (order : Order) : Int := order.intent.qty - order.filledQty

/-- One row of the broker's daily order list, with cumulative fills. -/
structure BrokerOrderStatus where
  brokerOrderNo : String
  originalOrderNo : String
  orgNo : String
  symbol : String
  side : Side
  orderedQty : Int
  price : Int
  filledQty : Int
  filledAmountKrw : Int
  remainingQty : Int
  rejectedQty : Int
  cancelled : Bool
  orderTime : String
  deriving DecidableEq, Repr

structure BrokerOutcome where
  kind : OutcomeKind
  brokerOrderNo : Option String := none
  brokerOrgNo : Option String := none
  orderTime : Option String := none
  code : String := ""
  message : String := ""
  deriving DecidableEq, Repr

structure Holding where
  symbol : String
  qty : Int
  costKrw : Int
  deriving DecidableEq, Repr

/-! ### The order state machine -/

def terminalStatuses : List OrderStatus := [.filled, .cancelled, .rejected]

def openStatuses : List OrderStatus := [.pendingSubmit, .accepted, .partiallyFilled, .unknown]

def allowedTransitions : OrderStatus → List OrderStatus
  | .pendingSubmit => [.accepted, .rejected, .unknown]
  | .unknown => [.accepted, .partiallyFilled, .filled, .cancelled, .rejected]
  | .accepted => [.partiallyFilled, .filled, .cancelled, .rejected]
  | .partiallyFilled => [.filled, .cancelled]
  | .filled => []
  | .cancelled => []
  | .rejected => []

def transition (current new : OrderStatus) : Except Error OrderStatus :=
  if new = current then .ok current
  else if new ∈ allowedTransitions current then .ok new
  else .error (.illegalTransition current new)

def deriveStatus (status : BrokerOrderStatus) (hasCancelChild : Bool) : Except Error OrderStatus :=
  if status.filledQty < 0 ∨ status.filledQty > status.orderedQty then
    .error (.brokerIntegrity (.invalidCumulative status.filledQty status.orderedQty))
  else if status.filledQty = status.orderedQty then .ok .filled
  else
    let cancelEvidence := status.cancelled || hasCancelChild
    if cancelEvidence ∨ status.rejectedQty > 0 ∨ status.remainingQty = 0 then
      if status.filledQty = 0 ∧ status.rejectedQty > 0 ∧ ¬ cancelEvidence then .ok .rejected
      else .ok .cancelled
    else if status.filledQty > 0 then .ok .partiallyFilled
    else .ok .accepted

/-- A status is open or terminal, never both. -/
theorem open_iff_not_terminal (status : OrderStatus) :
    status ∈ openStatuses ↔ status ∉ terminalStatuses := by
  cases status <;> decide

theorem transition_ok (moved : transition current new = .ok result) : result = new := by
  unfold transition at moved
  split at moved
  · rename_i same
    cases moved
    exact same.symm
  · split at moved
    · cases moved
      rfl
    · cases moved

@[simp] theorem transition_self (status : OrderStatus) : transition status status = .ok status := by
  simp [transition]

theorem transition_error
    (refused : transition current new = .error err) : err = .illegalTransition current new := by
  unfold transition at refused
  split at refused
  · cases refused
  · split at refused
    · cases refused
    · exact (Except.error.inj refused).symm

/-- A row never reads as a state that only the local side knows. -/
theorem derive_status_known (read : deriveStatus status child = .ok result) :
    result ≠ .pendingSubmit ∧ result ≠ .unknown := by
  simp only [deriveStatus] at read
  repeat' split at read
  all_goals first
    | cases read; exact ⟨by decide, by decide⟩
    | cases read

theorem derive_status_error (failed : deriveStatus status child = .error err) :
    err = .brokerIntegrity (.invalidCumulative status.filledQty status.orderedQty) := by
  simp only [deriveStatus] at failed
  repeat' split at failed
  all_goals first
    | exact (Except.error.inj failed).symm
    | cases failed

end KrxAlpha
