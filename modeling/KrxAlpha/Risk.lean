import KrxAlpha.Contracts

/-! The pre-trade gate: the exchange tick grid and the ordered checks that
either reject an intent with a code or let it through. -/
namespace KrxAlpha

def tickTable : List (Int × Int) :=
  [(500000, 1000), (200000, 500), (50000, 100), (20000, 50), (5000, 10), (2000, 5), (0, 1)]

def tickOf (price : Int) : Except Error Int :=
  if price < 1 then .error (.valueError s!"price must be >= 1: {price}")
  else match tickTable.find? (fun row => price ≥ row.1) with
    | some row => .ok row.2
    | none => .error (.valueError s!"price must be >= 1: {price}")

def isTickAligned (price : Int) : Bool :=
  if price < 1 then false
  else match tickOf price with
    | .ok tick => price % tick == 0
    | .error _ => false

structure RiskLimits where
  maxOrderNotionalKrw : Int
  maxPositionNotionalKrw : Int
  maxOrdersPerMinute : Int
  maxDailyLossKrw : Int
  symbolWhitelist : List String := []
  deriving DecidableEq, Repr

structure RiskContext where
  killSwitch : Bool
  unknownPending : Bool
  ordersLastMinute : Nat
  realizedPnlKrw : Int
  positionQty : Int
  openBuyQty : Int
  openSellQty : Int
  orderableCashKrw : Int
  estCommissionKrw : Int
  submitBlockReason : Option String := none
  deriving DecidableEq, Repr

def referencePrice (intent : OrderIntent) (quote : Quote) : Except Error Int :=
  match intent.orderType, intent.limitPrice with
  | .limit, none => .error (.riskRejected .priceInvalid "limit order requires limit_price")
  | .limit, some price => .ok price
  | .market, _ => if intent.side = .buy then .ok quote.upperLimit else .ok quote.last

/-- Raise the rejection unless the rule holds. -/
def requireRule (holds : Prop) [Decidable holds] (code : RejectCode) (detail : String) :
    Except Error Unit :=
  if holds then .ok () else .error (.riskRejected code detail)

/-- The limit price checks, skipped for a market order. -/
def checkLimitPrice (intent : OrderIntent) (quote : Quote) : Except Error Unit :=
  match intent.orderType, intent.limitPrice with
  | .limit, some price => do
    requireRule (isTickAligned price) .priceOffTick s!"price off tick: {price}"
    requireRule (quote.lowerLimit ≤ price ∧ price ≤ quote.upperLimit) .priceOutOfBand
      s!"price out of band: {price}"
  | _, _ => .ok ()

/-- The quoted tick must be the table's, unless nothing has traded. -/
def checkTick (quote : Quote) : Except Error Unit :=
  if quote.last ≥ 1 then do
    let tick ← tickOf quote.last
    requireRule (tick = quote.tick) .tickTableMismatch "broker tick unit mismatch"
  else .ok ()

/-- `check_intent`: the first violated rule decides the code. -/
def checkIntent (intent : OrderIntent) (quote : Quote) (limits : RiskLimits) (ctx : RiskContext) :
    Except Error Unit := do
  requireRule (ctx.killSwitch = false) .killSwitch "kill switch engaged"
  requireRule (ctx.submitBlockReason = none) .accountMismatch (ctx.submitBlockReason.getD "")
  requireRule (ctx.unknownPending = false) .unknownPending "unknown order pending for symbol side"
  requireRule (limits.symbolWhitelist = [] ∨ intent.symbol ∈ limits.symbolWhitelist) .symbolNotAllowed
    s!"symbol not allowed: {intent.symbol}"
  requireRule (1 ≤ intent.qty) .qtyInvalid s!"qty must be >= 1: {intent.qty}"
  requireRule (intent.orderType = .limit ↔ intent.limitPrice.isSome) .priceInvalid
    "limit/market price combination invalid"
  requireRule (quote.halted = false) .tradingHalted "trading halted"
  checkTick quote
  checkLimitPrice intent quote
  requireRule (ctx.ordersLastMinute < limits.maxOrdersPerMinute) .orderRateLimit
    "order rate limit exceeded"
  let ref ← referencePrice intent quote
  let notional := intent.qty * ref
  requireRule (intent.side = .buy → -limits.maxDailyLossKrw < ctx.realizedPnlKrw) .dailyLossLimit
    "daily loss limit reached"
  requireRule (notional ≤ limits.maxOrderNotionalKrw) .notionalLimit s!"notional too large: {notional}"
  requireRule (intent.side = .buy →
      (ctx.positionQty + ctx.openBuyQty + intent.qty) * ref ≤ limits.maxPositionNotionalKrw)
    .positionLimit "position limit exceeded"
  requireRule (intent.side = .buy → notional + ctx.estCommissionKrw ≤ ctx.orderableCashKrw)
    .insufficientCash "insufficient cash"
  requireRule (intent.side = .sell → intent.qty ≤ ctx.positionQty - ctx.openSellQty)
    .insufficientPosition "insufficient position"

private theorem require_rule_ok [Decidable holds]
    (passed : requireRule holds code detail = .ok result) : holds := by
  unfold requireRule at passed
  split at passed
  · assumption
  · cases passed

/-- What an intent that passed the gate satisfies. -/
structure Passed (intent : OrderIntent) (quote : Quote) (limits : RiskLimits) (ctx : RiskContext) :
    Prop where
  noUnknown : ctx.unknownPending = false
  positive : 1 ≤ intent.qty
  priced : intent.orderType = .limit ↔ intent.limitPrice.isSome
  limitPrice : checkLimitPrice intent quote = .ok ()
  rate : ctx.ordersLastMinute < limits.maxOrdersPerMinute
  cash : intent.side = .buy → ∀ ref, referencePrice intent quote = .ok ref →
    intent.qty * ref + ctx.estCommissionKrw ≤ ctx.orderableCashKrw
  position : intent.side = .sell → intent.qty ≤ ctx.positionQty - ctx.openSellQty

theorem check_intent_ok (passed : checkIntent intent quote limits ctx = .ok ()) :
    Passed intent quote limits ctx := by
  unfold checkIntent at passed
  obtain ⟨_, -, passed⟩ := bind_ok passed
  obtain ⟨_, -, passed⟩ := bind_ok passed
  obtain ⟨_, unknown, passed⟩ := bind_ok passed
  obtain ⟨_, -, passed⟩ := bind_ok passed
  obtain ⟨_, positive, passed⟩ := bind_ok passed
  obtain ⟨_, priced, passed⟩ := bind_ok passed
  obtain ⟨_, -, passed⟩ := bind_ok passed
  obtain ⟨_, -, passed⟩ := bind_ok passed
  obtain ⟨_, limitPrice, passed⟩ := bind_ok passed
  obtain ⟨_, rate, passed⟩ := bind_ok passed
  obtain ⟨ref, referenced, passed⟩ := bind_ok passed
  obtain ⟨_, -, passed⟩ := bind_ok passed
  obtain ⟨_, -, passed⟩ := bind_ok passed
  obtain ⟨_, -, passed⟩ := bind_ok passed
  obtain ⟨_, cash, position⟩ := bind_ok passed
  refine ⟨require_rule_ok unknown, require_rule_ok positive, require_rule_ok priced, limitPrice, require_rule_ok rate,
    fun buying other same => ?_, require_rule_ok position⟩
  rw [referenced] at same
  cases same
  exact require_rule_ok cash buying

end KrxAlpha
