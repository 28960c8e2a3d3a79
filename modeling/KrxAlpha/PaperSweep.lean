import KrxAlpha.GreedyFill
import KrxAlpha.PaperGateway

/-! The paper fill as a greedy sweep. The loop over the quoted levels takes from the
levels within the limit as much as is wanted, from the front; on a side sorted by price
that is the best total the levels allow. -/
namespace KrxAlpha
open List
open GreedyFill

namespace OrderIntent

/-- The side of the book the order trades against. -/
def against (intent : OrderIntent) (quote : Quote) : List (Int × Int) :=
  if intent.side = .buy then quote.asks else quote.bids

def limit (intent : OrderIntent) : Option Int :=
  if intent.orderType = .limit then intent.limitPrice else none

/-- The levels the order may trade at. -/
def withinLimit (intent : OrderIntent) (quote : Quote) : List (Int × Int) :=
  (intent.against quote).filter fun level => !beyondLimit intent.side intent.limit level.1

/-- The relevant side stands best price first. -/
def BestFirst (intent : OrderIntent) (levels : List (Int × Int)) : Prop :=
  match intent.side with
  | .buy => levels.Pairwise (·.1 ≤ ·.1)
  | .sell => levels.Pairwise (·.1 ≥ ·.1)

/-- A total at least as good for the order: a buyer pays no more, a seller gets no less. -/
def NoWorse (intent : OrderIntent) (amount other : Int) : Prop :=
  match intent.side with
  | .buy => amount ≤ other
  | .sell => other ≤ amount

end OrderIntent

variable {side : Side} {limit : Option Int}

/-- The loop, as a greedy way of taking from the levels before the first beyond the limit. -/
theorem take_levels_eq (sizes : ∀ level ∈ levels, 0 ≤ level.2)
    (wanted : 0 ≤ remaining) (filled amount : Int) :
    takeLevels side limit levels remaining filled amount =
      (filled + (greedy (levels.takeWhile fun level => !beyondLimit side limit level.1) remaining).sum,
        amount + cost (levels.takeWhile fun level => !beyondLimit side limit level.1)
          (greedy (levels.takeWhile fun level => !beyondLimit side limit level.1) remaining)) := by
  induction levels generalizing remaining filled amount with
  | nil => simp [takeLevels, greedy]
  | cons level rest ih =>
    obtain ⟨price, size⟩ := level
    have others : ∀ other ∈ rest, 0 ≤ other.2 :=
      fun other listed => sizes other (mem_cons_of_mem _ listed)
    rw [takeLevels]
    by_cases beyond : beyondLimit side limit price = true
    · simp [beyond, greedy]
    · have within : ∀ other ∈ rest.takeWhile (fun level => !beyondLimit side limit level.1), 0 ≤ other.2 :=
        fun other listed => others other (( takeWhile_prefix _).subset listed)
      simp only [beyond, Bool.false_eq_true, if_false, takeWhile_cons, Bool.not_false, if_true,
        greedy, sum_cons, cost_cons]
      split
      · -- The loop stops here, where the greedy way would go on to take nothing.
        rename_i done
        rw [done, greedy_sum within le_rfl, cost_greedy_zero within,
          min_eq_left (offered_nonneg within)]
        simp
      · rw [ih others (by omega)]
        simp only [Int.add_assoc]

/-- On a side that stands best price first, no level behind one beyond the limit is within. -/
theorem take_while_within {intent : OrderIntent} (sorted : intent.BestFirst levels) :
    levels.takeWhile (fun level => !beyondLimit intent.side intent.limit level.1) =
      levels.filter fun level => !beyondLimit intent.side intent.limit level.1 := by
  unfold OrderIntent.BestFirst at sorted
  induction levels with
  | nil => rfl
  | cons level rest ih =>
    by_cases beyond : beyondLimit intent.side intent.limit level.1 = true
    · have behind : ∀ other ∈ rest, beyondLimit intent.side intent.limit other.1 = true := by
        intro other listed
        cases side : intent.side <;> cases limit : intent.limit <;>
          simp only [side, limit, pairwise_cons] at sorted beyond ⊢ <;>
          have order := sorted.1 other listed <;>
          simp [beyondLimit] at beyond ⊢ <;> omega
      have none : rest.filter (fun level => !beyondLimit intent.side intent.limit level.1) = [] :=
        filter_eq_nil_iff.mpr fun other listed => by simp [behind other listed]
      simp [beyond, none]
    · have tail : (match intent.side with
          | .buy => rest.Pairwise (·.1 ≤ ·.1)
          | .sell => rest.Pairwise (·.1 ≥ ·.1)) := by
        cases side : intent.side <;> simp only [side] at sorted ⊢ <;>
          exact (pairwise_cons.mp sorted).2
      simp [beyond, ih tail]

/-- Every paper fill takes as much as the levels within the limit allow, never more than a
level offers, at the best total of all ways of taking that much from them. -/
theorem paper_sweep_best (intent : OrderIntent) (quote : Quote)
    (sorted : intent.BestFirst (intent.against quote))
    (sizes : ∀ level ∈ intent.against quote, 0 ≤ level.2) (positive : 1 ≤ intent.qty) :
    (simulatePaperFills intent quote).1 = min intent.qty (offered (intent.withinLimit quote)) ∧
      (∃ taken, Allocation (intent.withinLimit quote) taken ∧
        taken.sum = (simulatePaperFills intent quote).1 ∧
        cost (intent.withinLimit quote) taken = (simulatePaperFills intent quote).2) ∧
      ∀ taken, Allocation (intent.withinLimit quote) taken →
        taken.sum = (simulatePaperFills intent quote).1 →
        intent.NoWorse (simulatePaperFills intent quote).2
          (cost (intent.withinLimit quote) taken) := by
  have within : ∀ level ∈ intent.withinLimit quote, 0 ≤ level.2 :=
    fun level listed => sizes level (mem_of_mem_filter listed)
  have swept : simulatePaperFills intent quote =
      ((greedy (intent.withinLimit quote) intent.qty).sum,
        cost (intent.withinLimit quote) (greedy (intent.withinLimit quote) intent.qty)) := by
    have loop : takeLevels intent.side intent.limit (intent.against quote) intent.qty 0 0 = _ :=
      take_levels_eq sizes (by omega) 0 0
    rw [take_while_within sorted] at loop
    change takeLevels intent.side intent.limit (intent.against quote) intent.qty 0 0 = _
    simpa [OrderIntent.withinLimit] using loop
  rw [swept]
  refine ⟨greedy_sum within (by omega), ⟨_, greedy_allocation within (by omega), rfl, rfl⟩, ?_⟩
  intro taken allocation total
  have kept := filter_sublist (p := fun level => !beyondLimit intent.side intent.limit level.1)
    (l := intent.against quote)
  unfold OrderIntent.NoWorse
  unfold OrderIntent.BestFirst at sorted
  cases side : intent.side with
  | buy =>
    simp only [side] at sorted
    exact greedy_least within (by omega) (sorted.sublist kept) allocation total
  | sell =>
    simp only [side] at sorted
    exact greedy_most within (by omega) (sorted.sublist kept) allocation total

namespace Sample

def threeAsks : Quote where
  symbol := "005930"
  last := 100
  upperLimit := 130
  lowerLimit := 70
  tick := 1
  halted := false
  asks := [(100, 5), (101, 4), (103, 9)]
  bids := []

def buyEight : OrderIntent := ⟨"005930", .buy, 8, .limit, some 102, ""⟩

end Sample

open Sample

theorem paper_sweep_best_eight :
    simulatePaperFills buyEight threeAsks = (8, 803) ∧
      ∀ taken, Allocation [(100, 5), (101, 4)] taken → taken.sum = 8 →
        803 ≤ cost [(100, 5), (101, 4)] taken := by
  have sorted : buyEight.BestFirst (buyEight.against threeAsks) :=
    show List.Pairwise (·.1 ≤ ·.1) threeAsks.asks by decide
  have best := paper_sweep_best buyEight threeAsks sorted (by decide) (by decide)
  exact ⟨by decide, best.2.2⟩

end KrxAlpha
