import Mathlib.Algebra.BigOperators.Group.List.Basic
import Mathlib.Algebra.Order.BigOperators.Group.List
import Mathlib.Algebra.Order.Ring.Int
import Mathlib.Tactic.Ring
import Mathlib.Tactic.Linarith

/-! Taking a quantity from priced levels in their order. A level is a price and the
size it offers; what is taken is a list of quantities beside the levels. Among all ways
of taking the same total from levels whose prices rise, taking from the front is the
cheapest, and from levels whose prices fall it is the dearest. -/
namespace KrxAlpha.GreedyFill
open List

/-- From each level in turn as much as is still wanted and there is. -/
def greedy : List (Int × Int) → Int → List Int
  | [], _ => []
  | (_, size) :: rest, want => min want size :: greedy rest (want - min want size)

/-- A way of taking from the levels: nothing negative, and no more than a level offers. -/
def Allocation (levels : List (Int × Int)) (taken : List Int) : Prop :=
  List.Forall₂ (fun level share => 0 ≤ share ∧ share ≤ level.2) levels taken

/-- What is paid for the shares taken. -/
def cost (levels : List (Int × Int)) (taken : List Int) : Int :=
  (List.zipWith (fun level share => share * level.1) levels taken).sum

def offered (levels : List (Int × Int)) : Int := (levels.map (·.2)).sum

@[simp] theorem cost_nil (taken : List Int) : cost [] taken = 0 := by simp [cost]

@[simp] theorem cost_cons (level : Int × Int) (levels : List (Int × Int)) (share : Int)
    (taken : List Int) :
    cost (level :: levels) (share :: taken) = share * level.1 + cost levels taken := by
  simp [cost]

@[simp] theorem offered_cons (level : Int × Int) (levels : List (Int × Int)) :
    offered (level :: levels) = level.2 + offered levels := by
  simp [offered]

theorem offered_nonneg (sizes : ∀ level ∈ levels, 0 ≤ level.2) : 0 ≤ offered levels :=
  sum_nonneg fun size inside => by
    obtain ⟨level, listed, rfl⟩ := mem_map.mp inside
    exact sizes level listed

theorem Allocation.sum_nonneg (allocation : Allocation levels taken) : 0 ≤ taken.sum := by
  induction allocation with
  | nil => exact le_rfl
  | cons here _ ih =>
    rw [sum_cons]
    omega

variable {levels : List (Int × Int)} {want : Int}

section

variable (sizes : ∀ level ∈ levels, 0 ≤ level.2)
include sizes

theorem greedy_allocation (wanted : 0 ≤ want) : Allocation levels (greedy levels want) := by
  induction levels generalizing want with
  | nil => exact .nil
  | cons level rest ih =>
    have size := sizes level mem_cons_self
    refine .cons (by omega) (ih (fun other listed => sizes other (mem_cons_of_mem _ listed)) ?_)
    omega

theorem greedy_sum (wanted : 0 ≤ want) : (greedy levels want).sum = min want (offered levels) := by
  induction levels generalizing want with
  | nil => simp [greedy, offered, wanted]
  | cons level rest ih =>
    have size := sizes level mem_cons_self
    have others : ∀ other ∈ rest, 0 ≤ other.2 :=
      fun other listed => sizes other (mem_cons_of_mem _ listed)
    have room := offered_nonneg others
    rw [greedy, sum_cons, ih others (by omega), offered_cons]
    omega

/-- Where nothing is wanted nothing is paid. -/
theorem cost_greedy_zero : cost levels (greedy levels 0) = 0 := by
  induction levels with
  | nil => simp
  | cons level rest ih =>
    have none : min 0 level.2 = 0 := min_eq_left (sizes level mem_cons_self)
    simp only [greedy, cost_cons, none, zero_mul, zero_add, sub_zero]
    exact ih fun other listed => sizes other (mem_cons_of_mem _ listed)

section

variable (wanted : 0 ≤ want) (rising : levels.Pairwise (·.1 ≤ ·.1))
include wanted rising

/-- The exchange: whoever takes `more` than the greedy way pays at least the floor price
for each share of it. -/
theorem greedy_exchange (above : ∀ level ∈ levels, floor ≤ level.1)
    (allocation : Allocation levels taken) (excess : 0 ≤ more)
    (total : taken.sum = (greedy levels want).sum + more) :
    cost levels (greedy levels want) + more * floor ≤ cost levels taken := by
  induction allocation generalizing want floor more with
  | nil =>
    simp only [greedy, sum_nil, zero_add] at total
    simp [← total]
  | cons here behind ih =>
    rename_i level share rest shares
    have size := sizes level mem_cons_self
    have others : ∀ other ∈ rest, 0 ≤ other.2 :=
      fun other listed => sizes other (mem_cons_of_mem _ listed)
    obtain ⟨first, later⟩ := pairwise_cons.mp rising
    have base := above level mem_cons_self
    have room := offered_nonneg others
    have behindSum := Allocation.sum_nonneg behind
    rw [greedy, sum_cons, sum_cons] at total
    have reached := greedy_sum others (show 0 ≤ want - min want level.2 by omega)
    -- The excess behind the first level is never negative: a first share above the greedy
    -- one leaves the greedy way nothing to take behind it.
    have carried : 0 ≤ more + min want level.2 - share := by omega
    have dearer : cost rest (greedy rest (want - min want level.2)) +
        (more + min want level.2 - share) * level.1 ≤ cost rest shares :=
      ih others (by omega) later first carried (by omega)
    have step : more * floor ≤ more * level.1 := Int.mul_le_mul_of_nonneg_left base excess
    rw [greedy, cost_cons, cost_cons]
    linarith [Int.sub_mul (more + min want level.2) share level.1,
      Int.add_mul more (min want level.2) level.1]

/-- Of all ways to take as much from rising prices, the greedy one costs least. -/
theorem greedy_least
    (allocation : Allocation levels taken) (total : taken.sum = (greedy levels want).sum) :
    cost levels (greedy levels want) ≤ cost levels taken := by
  cases levels with
  | nil => simp
  | cons level rest =>
    have floor : ∀ other ∈ level :: rest, level.1 ≤ other.1 :=
      forall_mem_cons.mpr ⟨le_rfl, (pairwise_cons.mp rising).1⟩
    have exchange := greedy_exchange sizes wanted rising floor allocation le_rfl (by omega)
    omega

end

end

/-- The levels at the opposite prices. -/
def mirrored (levels : List (Int × Int)) : List (Int × Int) :=
  levels.map fun level => (-level.1, level.2)

theorem greedy_mirrored (levels : List (Int × Int)) (want : Int) :
    greedy (mirrored levels) want = greedy levels want := by
  induction levels generalizing want with
  | nil => rfl
  | cons level rest ih => exact congrArg (_ :: ·) (ih _)

theorem cost_mirrored (levels : List (Int × Int)) (taken : List Int) :
    cost (mirrored levels) taken = -cost levels taken := by
  induction levels generalizing taken with
  | nil => simp [mirrored]
  | cons level rest ih =>
    cases taken with
    | nil => simp [cost]
    | cons share shares =>
      have behind := ih shares
      simp only [mirrored, map_cons, cost_cons, mul_neg] at behind ⊢
      omega

/-- From falling prices the greedy way brings most. -/
theorem greedy_most (sizes : ∀ level ∈ levels, 0 ≤ level.2)
    (wanted : 0 ≤ want) (falling : levels.Pairwise (·.1 ≥ ·.1))
    (allocation : Allocation levels taken) (total : taken.sum = (greedy levels want).sum) :
    cost levels taken ≤ cost levels (greedy levels want) := by
  have least : cost (mirrored levels) (greedy (mirrored levels) want) ≤
      cost (mirrored levels) taken := by
    apply greedy_least _ wanted
    · simpa [mirrored, pairwise_map] using falling
    · simpa [Allocation, mirrored, forall₂_map_left_iff] using allocation
    · rw [greedy_mirrored]
      exact total
    · exact forall_mem_map.mpr sizes
  rw [greedy_mirrored, cost_mirrored, cost_mirrored] at least
  omega

end KrxAlpha.GreedyFill
