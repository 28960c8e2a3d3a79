import KrxAlpha.Ledger

/-! The value a ledger accounts for. A purchase turns cash into cost, a sale turns
cost into cash and books the difference as profit, so cash and held cost less the
realized profit never move. The cost a sale removes is the floor of its share, which
is the whole cost once nothing is left to sell. -/
namespace KrxAlpha
namespace Ledger

/-- Cash and the cost of what is held, less the profit realized. -/
def value (ledger : Ledger) : Int :=
  ledger.cashKrw + ledger.positions.total (·.costKrw) - ledger.realizedPnlKrw

def cost (ledger : Ledger) (symbol : String) : Int :=
  ((ledger.positions.get? symbol).getD {}).costKrw

/-- No position is short, and none is carried at a negative cost. -/
def LongOnly (ledger : Ledger) : Prop :=
  ∀ symbol position, ledger.positions.get? symbol = some position →
    0 ≤ position.qty ∧ 0 ≤ position.costKrw

/-- A fill as `apply_fill` is handed it. -/
structure Fill where
  symbol : String
  side : Side
  qty : Int
  amountKrw : Int

/-- Fills applied one after the other, each accepted. -/
def applyFills (ledger : Ledger) (fills : List Fill) : Except Error Ledger :=
  fills.foldlM (fun ledger fill => do
    let (after, _) ← ledger.applyFill fill.symbol fill.side fill.qty fill.amountKrw
    return after) ledger

variable {ledger after : Ledger} {symbol : String} {side : Side} {quantity amount pnl : Int}

/-- The two ways a fill is accepted, with what each leaves. -/
theorem apply_fill_cases (applied : ledger.applyFill symbol side quantity amount = .ok (after, pnl)) :
    0 < quantity ∧ 0 ≤ amount ∧
    ((side = .buy ∧ pnl = 0 ∧
        after = { ledger with
          cashKrw := ledger.cashKrw - (amount + ledger.costs.commission amount)
          positions := ledger.positions.set symbol
            { qty := ledger.qty symbol + quantity
              costKrw := ledger.cost symbol + (amount + ledger.costs.commission amount) } }) ∨
      (side = .sell ∧ ∃ pos removed, ledger.positions.get? symbol = some pos ∧
        quantity ≤ pos.qty ∧ removed = Int.fdiv (pos.costKrw * quantity) pos.qty ∧
        pnl = amount - ledger.costs.commission amount - ledger.costs.sellTax amount - removed ∧
        after = { ledger with
          cashKrw := ledger.cashKrw + (pnl + removed)
          realizedPnlKrw := ledger.realizedPnlKrw + pnl
          positions :=
            if pos.qty - quantity = 0 then ledger.positions.erase symbol
            else ledger.positions.set symbol
              { qty := pos.qty - quantity, costKrw := pos.costKrw - removed } })) := by
  unfold applyFill at applied
  split at applied
  · cases applied
  · rename_i valid
    refine ⟨by omega, by omega, ?_⟩
    cases side with
    | buy =>
      simp only [Except.ok.injEq, Prod.mk.injEq] at applied
      obtain ⟨rfl, rfl⟩ := applied
      exact .inl ⟨rfl, rfl, rfl⟩
    | sell =>
      right
      cases held : ledger.positions.get? symbol with
      | none => simp [held] at applied
      | some pos =>
        simp only [held] at applied
        split at applied
        · cases applied
        · split at applied
          · cases applied
          · rename_i within _
            simp only [Except.ok.injEq, Prod.mk.injEq] at applied
            obtain ⟨rfl, rfl⟩ := applied
            exact ⟨rfl, pos, _, rfl, by omega, rfl, rfl, by simp⟩

/-- Selling all there is removes the whole cost. -/
theorem removed_all {cost quantity : Int} (positive : 0 < quantity) :
    Int.fdiv (cost * quantity) quantity = cost :=
  Int.mul_fdiv_cancel cost (by omega)

/-- A sale removes no more than the cost there is. -/
theorem removed_le {cost quantity held : Int} (nonneg : 0 ≤ cost) (positive : 0 < quantity)
    (covered : quantity ≤ held) : Int.fdiv (cost * quantity) held ≤ cost := by
  have monotone : cost * quantity ≤ cost * held := Int.mul_le_mul_of_nonneg_left covered nonneg
  rw [Int.fdiv_eq_ediv_of_nonneg _ (by omega)]
  calc cost * quantity / held ≤ cost * held / held := Int.ediv_le_ediv (by omega) monotone
    _ = cost := Int.mul_ediv_cancel cost (by omega)

/-- Every accepted fill leaves the value as it was. -/
theorem apply_fill_value (applied : ledger.applyFill symbol side quantity amount = .ok (after, pnl)) :
    after.value = ledger.value := by
  obtain ⟨positive, -, ⟨-, -, rfl⟩ | ⟨-, pos, removed, held, covered, share, -, rfl⟩⟩ :=
    apply_fill_cases applied
  · cases held : ledger.positions.get? symbol with
    | none =>
      simp only [value, Dict.total_set_new _ held, cost, held, Option.getD_none]
      omega
    | some pos =>
      simp only [value, Dict.total_set_present _ held, cost, held, Option.getD_some]
      omega
  · simp only [value]
    split
    · -- The position goes, and with it the cost the sale did not remove: there is none.
      rename_i emptied
      have sold : quantity = pos.qty := by omega
      subst sold
      rw [removed_all positive] at share
      rw [Dict.total_erase _ held]
      omega
    · simp only [Dict.total_set_present _ held]
      omega

/-- Accepted fills keep every quantity and every cost at or above zero. -/
theorem apply_fill_long (fees : ∀ amount, 0 ≤ amount → 0 ≤ ledger.costs.commission amount)
    (long : ledger.LongOnly)
    (applied : ledger.applyFill symbol side quantity amount = .ok (after, pnl)) :
    after.LongOnly := by
  obtain ⟨positive, amounts, ⟨-, -, rfl⟩ | ⟨-, pos, removed, held, covered, share, -, rfl⟩⟩ :=
    apply_fill_cases applied
  · have fee := fees amount amounts
    have known : 0 ≤ ledger.qty symbol ∧ 0 ≤ ledger.cost symbol := by
      unfold qty cost
      cases held : ledger.positions.get? symbol with
      | none => exact ⟨le_rfl, le_rfl⟩
      | some pos => exact long symbol pos held
    exact Dict.forall_set ⟨by simp only; omega, by simp only; omega⟩ long
  · obtain ⟨-, carried⟩ := long symbol pos held
    simp only [LongOnly]
    split
    · intro probe position found
      rw [Dict.get?_erase] at found
      split at found
      · cases found
      · exact long probe position found
    · have bound := removed_le carried positive covered
      exact Dict.forall_set ⟨by simp only; omega, by simp only; omega⟩ long

/-- A sale of everything held drops the position and realizes against its whole cost. -/
theorem apply_fill_emptied
    (applied : ledger.applyFill symbol .sell quantity amount = .ok (after, pnl))
    (emptied : after.qty symbol = 0) :
    after.positions.get? symbol = none ∧
      pnl = amount - ledger.costs.commission amount - ledger.costs.sellTax amount -
        ledger.cost symbol := by
  obtain ⟨positive, -, ⟨side, -, -⟩ | ⟨-, pos, removed, held, covered, share, profit, rfl⟩⟩ :=
    apply_fill_cases applied
  · cases side
  · have sold : pos.qty - quantity = 0 := by
      by_contra kept
      simp only [qty, if_neg kept, Dict.get?_set_self, Option.getD_some] at emptied
      exact kept emptied
    have whole : quantity = pos.qty := by omega
    subst whole
    rw [removed_all positive] at share
    refine ⟨by simp [Dict.get?_erase], ?_⟩
    simp only [cost, held, Option.getD_some]
    omega

/-- The value and the signs over any sequence of accepted fills. -/
theorem apply_fills_keep
    (fees : ∀ amount, 0 ≤ amount → 0 ≤ ledger.costs.commission amount) (long : ledger.LongOnly)
    (accepted : ledger.applyFills fills = .ok after) :
    after.value = ledger.value ∧ after.LongOnly := by
  induction fills generalizing ledger with
  | nil =>
    cases accepted
    exact ⟨rfl, long⟩
  | cons fill rest ih =>
    simp only [applyFills, List.foldlM_cons] at accepted
    cases applied : ledger.applyFill fill.symbol fill.side fill.qty fill.amountKrw with
    | error err => rw [applied] at accepted; cases accepted
    | ok result =>
      obtain ⟨next, pnl⟩ := result
      rw [applied] at accepted
      have later := ih (by rw [apply_fill_costs applied]; exact fees)
        (apply_fill_long fees long applied) accepted
      exact ⟨later.1.trans (apply_fill_value applied), later.2⟩

/-- Over every sequence of accepted fills cash, held cost and realized profit balance, no
cost falls below zero, and what is sold down to nothing leaves no cost behind. -/
theorem ledger_value_conserved (ledger : Ledger)
    (fees : ∀ amount, 0 ≤ amount → 0 ≤ ledger.costs.commission amount) (long : ledger.LongOnly)
    (fills : List Fill) (after : Ledger) (accepted : ledger.applyFills fills = .ok after) :
    after.value = ledger.value ∧
      (∀ symbol position, after.positions.get? symbol = some position →
        0 ≤ position.qty ∧ 0 ≤ position.costKrw) ∧
      ∀ symbol quantity amount sold pnl,
        after.applyFill symbol .sell quantity amount = .ok (sold, pnl) → sold.qty symbol = 0 →
          sold.positions.get? symbol = none ∧
            pnl = amount - after.costs.commission amount - after.costs.sellTax amount -
              after.cost symbol :=
  have kept := apply_fills_keep fees long accepted
  ⟨kept.1, kept.2, fun _ _ _ _ _ applied emptied => apply_fill_emptied applied emptied⟩

namespace Sample

/-- Ten at a cost of 1000, one won of commission and two of tax on every amount. -/
def tenShares : Ledger :=
  { cashKrw := 5000
    costs := ⟨fun _ => 1, fun _ => 2⟩
    positions := Dict.ofList [("005930", { qty := 10, costKrw := 1000 })] }

/-- Five more are bought, then four and the other eleven are sold. -/
def boughtAndSold : List Fill :=
  [⟨"005930", .buy, 5, 700⟩, ⟨"005930", .sell, 4, 600⟩, ⟨"005930", .sell, 11, 1500⟩]

end Sample

open KrxAlpha.Ledger.Sample

theorem ledger_value_conserved_round : ∃ after,
    tenShares.applyFills boughtAndSold = .ok after ∧ after.value = 6000 ∧
      after.positions.entries = [] ∧ after.realizedPnlKrw = 393 := by
  have long : tenShares.LongOnly := by
    intro symbol position found
    obtain ⟨rfl, rfl⟩ : symbol = "005930" ∧ position = { qty := 10, costKrw := 1000 } := by
      simpa [tenShares] using Dict.mem_of_ofList found
    decide
  have conserved := ledger_value_conserved tenShares (fun _ _ => Int.one_nonneg) long
    boughtAndSold _ rfl
  exact ⟨_, rfl, conserved.1.trans (by decide), by decide, by decide⟩

end Ledger
end KrxAlpha
