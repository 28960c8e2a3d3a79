import KrxAlpha.Contracts
import KrxAlpha.Dict

/-! The position ledger. Commission and sell tax are arbitrary integer
functions of the amount: the source computes them in floating point from basis
points, and no result here depends on how it rounds unless it says so. -/
namespace KrxAlpha

structure CostModel where
  commission : Int → Int
  sellTax : Int → Int

structure Position where
  qty : Int := 0
  costKrw : Int := 0
  deriving DecidableEq, Repr

structure Ledger where
  cashKrw : Int
  costs : CostModel
  realizedPnlKrw : Int := 0
  positions : Dict String Position := ∅

namespace Ledger

def qty (ledger : Ledger) (symbol : String) : Int :=
  ((ledger.positions.get? symbol).getD {}).qty

/-- Apply one fill delta and return the realized profit of a sale. Nothing is
written before the last check has passed, so a raise leaves the ledger as it
was. -/
def applyFill (ledger : Ledger) (symbol : String) (side : Side) (qty amountKrw : Int) :
    Except Error (Ledger × Int) :=
  if qty ≤ 0 ∨ amountKrw < 0 then .error (.brokerIntegrity (.invalidFill qty amountKrw))
  else match side with
    | .buy =>
      let fee := ledger.costs.commission amountKrw
      let pos := (ledger.positions.get? symbol).getD {}
      .ok ({ ledger with
        cashKrw := ledger.cashKrw - (amountKrw + fee)
        positions := ledger.positions.set symbol
          { qty := pos.qty + qty, costKrw := pos.costKrw + (amountKrw + fee) } }, 0)
    | .sell =>
      match ledger.positions.get? symbol with
      | none => .error (.brokerIntegrity (.oversell symbol qty))
      | some pos =>
        if qty > pos.qty then .error (.brokerIntegrity (.oversell symbol qty))
        else if pos.qty = 0 then .error .zeroDivision
        else
          let fee := ledger.costs.commission amountKrw
          let tax := ledger.costs.sellTax amountKrw
          let removed := Int.fdiv (pos.costKrw * qty) pos.qty
          let left : Position := { qty := pos.qty - qty, costKrw := pos.costKrw - removed }
          let proceeds := amountKrw - fee - tax
          let pnl := proceeds - removed
          .ok ({ ledger with
            cashKrw := ledger.cashKrw + proceeds
            realizedPnlKrw := ledger.realizedPnlKrw + pnl
            positions :=
              if left.qty = 0 then ledger.positions.erase symbol
              else ledger.positions.set symbol left }, pnl)

/-- The ledger a session opens with: the account's holdings and no cash. -/
def ofHoldings (costs : CostModel) (holdings : List Holding) : Ledger :=
  { cashKrw := 0, costs,
    positions := Dict.ofList (holdings.map fun h => (h.symbol, { qty := h.qty, costKrw := h.costKrw })) }

/-- Shares a fill adds to the position. -/
def signedQty : Side → Int → Int
  | .buy, qty => qty
  | .sell, qty => -qty

/-- Cash a fill adds, fees and tax included. -/
def cashDelta (costs : CostModel) : Side → Int → Int
  | .buy, amount => -(amount + costs.commission amount)
  | .sell, amount => amount - costs.commission amount - costs.sellTax amount

variable {ledger after : Ledger} {symbol probe : String} {side : Side} {quantity amount pnl : Int}

private theorem qty_set (positions : Dict String Position) (position : Position) :
    (((positions.set symbol position).get? probe).getD {}).qty =
      if probe = symbol then position.qty else ((positions.get? probe).getD {}).qty := by
  rw [Dict.get?_set]
  split <;> rfl

private theorem qty_erase (positions : Dict String Position) :
    (((positions.erase symbol).get? probe).getD {}).qty =
      if probe = symbol then 0 else ((positions.get? probe).getD {}).qty := by
  rw [Dict.get?_erase]
  split <;> rfl

/-- A purchase is refused only for its own figures. -/
theorem apply_fill_buy (positive : 0 < quantity) (amounts : 0 ≤ amount) :
    ∃ after, ledger.applyFill symbol .buy quantity amount = .ok (after, 0) := by
  have valid : ¬ (quantity ≤ 0 ∨ amount < 0) := by omega
  simp [applyFill, valid]

/-- A sale within the position goes through, and its divisor is the positive
position. -/
theorem apply_fill_sell (positive : 0 < quantity) (amounts : 0 ≤ amount)
    (covered : quantity ≤ ledger.qty symbol) :
    ∃ after pnl, ledger.applyFill symbol .sell quantity amount = .ok (after, pnl) := by
  have valid : ¬ (quantity ≤ 0 ∨ amount < 0) := by omega
  cases held : ledger.positions.get? symbol with
  | none => simp [qty, held] at covered; omega
  | some pos =>
    simp only [qty, held, Option.getD_some] at covered
    have within : ¬ quantity > pos.qty := by omega
    have divisor : pos.qty ≠ 0 := by omega
    simp [applyFill, valid, held, within, divisor]

section

variable (applied : ledger.applyFill symbol side quantity amount = .ok (after, pnl))
include applied

/-- What an accepted fill did: its figures were valid, the one symbol moved by
the filled quantity, cash by the proceeds or cost, and fees stay as they are. -/
theorem apply_fill_ok :
    0 < quantity ∧ 0 ≤ amount ∧ after.costs = ledger.costs ∧
      after.cashKrw = ledger.cashKrw + cashDelta ledger.costs side amount ∧
      ∀ probe, after.qty probe =
        ledger.qty probe + if probe = symbol then signedQty side quantity else 0 := by
  unfold applyFill at applied
  split at applied
  · cases applied
  · rename_i valid
    refine ⟨by omega, by omega, ?_⟩
    cases side with
    | buy =>
      simp only [Except.ok.injEq, Prod.mk.injEq] at applied
      obtain ⟨rfl, -⟩ := applied
      refine ⟨rfl, by simp only [cashDelta]; omega, fun probe => ?_⟩
      simp only [qty, qty_set, signedQty]
      split
      · rename_i same
        rw [same]
      · omega
    | sell =>
      simp only at applied
      split at applied
      · cases applied
      · rename_i pos held
        split at applied
        · cases applied
        · split at applied
          · cases applied
          · simp only [Except.ok.injEq, Prod.mk.injEq] at applied
            obtain ⟨rfl, -⟩ := applied
            refine ⟨rfl, by simp only [cashDelta], fun probe => ?_⟩
            -- The position is dropped exactly when the sale empties it.
            simp only [qty, signedQty]
            split <;> simp only [qty_set, qty_erase] <;> split <;>
              simp_all [Int.sub_eq_add_neg]

theorem apply_fill_costs : after.costs = ledger.costs :=
  (apply_fill_ok applied).2.2.1

theorem apply_fill_qty (probe : String) : after.qty probe =
      ledger.qty probe + if probe = symbol then signedQty side quantity else 0 :=
  (apply_fill_ok applied).2.2.2.2 probe

end

end Ledger
end KrxAlpha
