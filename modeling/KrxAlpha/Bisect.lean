import Mathlib.Data.List.TakeWhile
import Mathlib.Data.List.Pairwise

/-! Binary search in a sorted list. Both searches halve an interval around the
place where a test stops to hold; they differ in the test only. -/
namespace KrxAlpha
open List

/-- Halve the places from `lo` to `hi` until only the one is left below which the
test holds. -/
def bisect {α : Type} (before : α → Bool) (items : List α) (lo hi : Nat) : Nat :=
  if lo < hi then
    let mid := (lo + hi) / 2
    if items[mid]?.any before then bisect before items (mid + 1) hi
    else bisect before items lo mid
  else lo
termination_by hi - lo

/-- The first place at which the number keeps the list sorted. -/
def bisectLeft (items : List Int) (number : Int) : Nat :=
  bisect (· < number) items 0 items.length

/-- The last place at which the number keeps the list sorted. -/
def bisectRight (items : List Int) (number : Int) : Nat :=
  bisect (· ≤ number) items 0 items.length

section Down

variable (test : α → Bool)

/-- A test that stops to hold somewhere in the list and fails of its first item fails of all. -/
private theorem count_of_first_fails
    (down : (first :: rest).Pairwise fun first second => test second → test first)
    (fails : test first = false) : (first :: rest).countP test = 0 := by
  refine countP_eq_zero.mpr (forall_mem_cons.mpr ⟨by simp [fails], fun other member holds => ?_⟩)
  simp [rel_of_pairwise_cons down member holds] at fails

variable {items : List α} (down : items.Pairwise fun first second => test second → test first)
include down

/-- What holds of a first part of a list holds below its count. -/
theorem holds_below_count (found : items[index]? = some value) :
    test value = true ↔ index < items.countP test := by
  induction items generalizing index with
  | nil => simp at found
  | cons first rest ih =>
    cases held : test first with
    | true =>
      cases index with
      | zero =>
        cases found
        simp [held]
      | succ index =>
        rw [ih down.of_cons (by simpa using found), countP_cons_of_pos held]
        omega
    | false =>
      have none := count_of_first_fails test down held
      rw [none]
      simp [countP_eq_zero.mp none value (mem_of_getElem? found)]

/-- The search ends at the count of the items that the test holds of. -/
theorem bisect_eq_count (low : lo ≤ items.countP test) (high : items.countP test ≤ hi)
    (inside : hi ≤ items.length) :
    bisect test items lo hi = items.countP test := by
  fun_induction bisect test items lo hi with
  | case1 lo hi wide mid holds ih =>
    have found := getElem?_eq_getElem (show mid < items.length by omega)
    have below : mid < items.countP test := by
      rw [← holds_below_count test down found]
      simpa [found] using holds
    exact ih (by omega) high inside
  | case2 lo hi wide mid fails ih =>
    have found := getElem?_eq_getElem (show mid < items.length by omega)
    have stops : ¬ mid < items.countP test := by
      rw [← holds_below_count test down found]
      simpa [found] using fails
    exact ih low (by omega) (by omega)
  | case3 lo hi narrow => omega

/-- The test holds of as many items as it takes from the front. -/
theorem count_eq_length_takeWhile : items.countP test = (items.takeWhile test).length := by
  induction items with
  | nil => rfl
  | cons first rest ih =>
    cases held : test first with
    | true => simp [held, ih down.of_cons]
    | false =>
      rw [count_of_first_fails test down held]
      simp [held]

/-- The test cuts the list at its count. -/
theorem split_at_count :
    items.takeWhile test = items.take (items.countP test) ∧
      items.dropWhile test = items.drop (items.countP test) := by
  rw [count_eq_length_takeWhile test down]
  constructor
  · calc
      items.takeWhile test = (items.takeWhile test ++ items.dropWhile test).take
          (items.takeWhile test).length := take_left.symm
      _ = _ := by rw [takeWhile_append_dropWhile]
  · calc
      items.dropWhile test = (items.takeWhile test ++ items.dropWhile test).drop
          (items.takeWhile test).length := drop_left.symm
      _ = _ := by rw [takeWhile_append_dropWhile]

theorem count_drop (skipped : Nat) :
    (items.drop skipped).countP test = items.countP test - skipped := by
  induction items generalizing skipped with
  | nil => simp
  | cons first rest ih =>
    cases skipped with
    | zero => simp
    | succ skipped =>
      rw [drop_succ_cons, ih down.of_cons]
      cases held : test first with
      | true => simp [held]
      | false =>
        have none := count_of_first_fails test down held
        rw [none]
        rw [countP_cons_of_neg (by simp [held])] at none
        rw [none, Nat.zero_sub, Nat.zero_sub]

end Down

end KrxAlpha
