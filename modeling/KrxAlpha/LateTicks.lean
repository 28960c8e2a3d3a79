import KrxAlpha.MergeSlots
import Mathlib.Algebra.BigOperators.Group.Finset.Basic

/-! Late live ticks. A live tick inside a gap cancels the gap-fill row of its trade. The late
ticks are pooled once for each interval, so a tick that lies in two intervals can cancel a row
in each: more rows of a trade are cancelled than there are late ticks of it exactly when what its
intervals can cancel, each on its own, adds up to more. -/
namespace KrxAlpha
open List hiding span

/-! ### Membership by bisection -/

/-- The counter lies strictly inside the span. -/
def SpanHolds (span : Int × Int) (cum : Int) : Prop := span.1 < cum ∧ cum < span.2

theorem unite_joins : Joins (fun start stop => decide (start < stop)) SpanHolds where
  earlier order inside := by
    simp only [decide_eq_true_eq] at inside ⊢
    omega
  union at_ order inside := by
    simp only [decide_eq_true_eq] at inside
    simp only [SpanHolds]
    omega

/-- Spans in order, none of which begins before an earlier one ends. -/
def UnitedSpans (spans : List (Int × Int)) : Prop :=
  spans.Pairwise fun older newer => older.1 ≤ newer.1 ∧ older.2 ≤ newer.1

theorem united_spans {gaps : List (Int × Int)} (sorted : gaps.Pairwise (·.1 ≤ ·.1)) :
    UnitedSpans (gaps.foldl uniteSpan []).reverse ∧ ∀ cum,
      (∃ span ∈ (gaps.foldl uniteSpan []).reverse, SpanHolds span cum) ↔ ∃ span ∈ gaps, SpanHolds span cum := by
  have joined := join_spans_so_far unite_joins sorted
  refine ⟨pairwise_reverse.mpr (joined.apart.imp fun order => ⟨order.1, by simpa using order.2⟩),
    fun cum => ?_⟩
  rw [← joined.covered cum]
  simp only [mem_reverse]
  rfl

theorem inside_gap_iff (united : UnitedSpans spans) (cum : Int) :
    insideGap spans cum = true ↔ ∃ span ∈ spans, SpanHolds span cum := by
  have down : spans.Pairwise fun first second => decide (second.1 < cum) → decide (first.1 < cum) :=
    united.imp fun order below => by simp at below ⊢; omega
  have place : bisectLeft (spans.map (·.1)) cum = spans.countP (·.1 < cum) := by
    rw [bisectLeft, bisect_eq_count (fun start : Int => decide (start < cum)) (pairwise_map.mpr down)
      (Nat.zero_le _) countP_le_length le_rfl, countP_map]
    rfl
  simp only [insideGap, place, Bool.and_eq_true, decide_eq_true_eq, Option.any_eq_true]
  constructor
  · rintro ⟨-, span, found, held⟩
    exact ⟨span, mem_of_getElem? found, held⟩
  · rintro ⟨span, member, held⟩
    obtain ⟨index, found⟩ := getElem?_of_mem member
    have below := (holds_below_count (fun span : Int × Int => decide (span.1 < cum)) down found).mp
      (by simpa using held.1)
    -- a later span that begins below the counter would begin inside this one
    have newest : index = spans.countP (·.1 < cum) - 1 := by
      by_contra early
      obtain ⟨newer, listed⟩ : ∃ newer, spans[spans.countP (·.1 < cum) - 1]? = some newer :=
        Option.isSome_iff_exists.mp (by
          rw [isSome_getElem?]
          have := countP_le_length (p := fun span : Int × Int => decide (span.1 < cum)) (l := spans)
          omega)
      have begun := (holds_below_count (fun span : Int × Int => decide (span.1 < cum)) down listed).mpr
        (by omega)
      obtain ⟨_, rfl⟩ := List.getElem?_eq_some_iff.mp found
      obtain ⟨_, rfl⟩ := List.getElem?_eq_some_iff.mp listed
      have order := (pairwise_iff_getElem.mp united _ _ ‹_› ‹_› (show index < _ by omega)).2
      have high := held.2
      simp at begun
      omega
    refine ⟨by omega, span, ?_, held⟩
    rw [← found, newest]
    congr 1
    omega

private theorem listed_gap_iff (rows : List FillRow) (symbol : String) (listed : List (Int × Int))
    (query : ∀ range, range ∈ listed ↔
      range ∈ (rows.filter (·.symbol = symbol)).map fun row => (row.cumPrev, row.cumNext))
    (sorted : listed.Pairwise (·.1 ≤ ·.1)) (cum : Int) :
    insideGap (listed.foldl uniteSpan []).reverse cum = true ↔
      ∃ row ∈ rows, row.symbol = symbol ∧ row.cumPrev < cum ∧ cum < row.cumNext := by
  obtain ⟨united, covered⟩ := united_spans sorted
  rw [inside_gap_iff united, covered]
  simp only [query, mem_map, mem_filter, decide_eq_true_eq]
  constructor
  · rintro ⟨_, ⟨row, ⟨inside, same⟩, rfl⟩, held⟩
    exact ⟨row, inside, same, held⟩
  · rintro ⟨row, inside, same, held⟩
    exact ⟨_, ⟨row, ⟨inside, same⟩, rfl⟩, held⟩

/-- In whatever order the query lists the distinct ranges of a symbol that begin at one counter, the
search finds a counter in a gap exactly when it lies strictly inside one of the symbol's ranges. -/
theorem gap_membership_exact (rows : List FillRow) (symbol : String) (listed : List (Int × Int))
    (query : listed.Perm
      ((rows.filter (·.symbol = symbol)).map fun row => (row.cumPrev, row.cumNext)).dedup)
    (sorted : listed.Pairwise (·.1 ≤ ·.1)) (cum : Int) :
    insideGap (listed.foldl uniteSpan []).reverse cum = true ↔
      ∃ row ∈ rows, row.symbol = symbol ∧ row.cumPrev < cum ∧ cum < row.cumNext :=
  listed_gap_iff rows symbol listed (fun range => by rw [query.mem_iff, mem_dedup]) sorted cum

/-- A counter is in a gap's range exactly when it lies strictly inside a row's interval. -/
theorem inside_ranges_iff (rows : List FillRow) (symbol : String) (cum : Int) :
    insideGap (gapRanges rows symbol) cum = true ↔
      ∃ row ∈ rows, row.symbol = symbol ∧ row.Inside cum :=
  listed_gap_iff rows symbol _ (fun range => by rw [mem_insertionSort, mem_dedup])
    (pairwise_insertionSort (fun first second : Int × Int => first.1 ≤ second.1) _) cum

/-- A counter inside the outer of two nested ranges and behind the inner one. -/
theorem nested_gap_member :
    insideGap ([(1, 9), (3, 7)].foldl uniteSpan []).reverse 8 = true ↔
      ∃ row ∈ [Sample.gapRow 10 0 1 9, Sample.gapRow 10 1 3 7],
        row.symbol = "005930" ∧ row.cumPrev < 8 ∧ 8 < row.cumNext :=
  gap_membership_exact _ "005930" [(1, 9), (3, 7)] (by decide) (by decide) 8

/-! ### The table of late ticks -/

/-- The live ticks whose counter was not seen before. -/
def firstTicks (seen : List (String × Int)) : List LiveTick → List LiveTick
  | [] => []
  | tick :: rest =>
    if seen.contains tick.counter then firstTicks seen rest
    else tick :: firstTicks (tick.counter :: seen) rest

/-- The live ticks with a counter of their own strictly inside the interval of some row. -/
def gapTicks (ticks : List LiveTick) (rows : List FillRow) : List LiveTick :=
  (firstTicks [] ticks).filter fun tick =>
    rows.any fun row => row.symbol = tick.symbol ∧ row.Inside tick.cum

theorem add_live_late (ticks : List LiveTick) (rows : List FillRow) (state : MergeState) :
    (ticks.foldl (MergeState.addLive rows) state).late =
      state.late ++ (firstTicks state.counters ticks).filter fun tick =>
        insideGap (gapRanges rows tick.symbol) tick.cum := by
  induction ticks generalizing state with
  | nil => simp [firstTicks]
  | cons tick rest ih =>
    rw [foldl_cons, ih, firstTicks]
    by_cases known : tick.counter ∈ state.counters
    · simp [MergeState.addLive, known]
    · cases inside : insideGap (gapRanges rows tick.symbol) tick.cum with
      | true => simp [MergeState.addLive, known, inside]
      | false => simp [MergeState.addLive, known, inside]

theorem live_late (ticks : List LiveTick) (rows : List FillRow) :
    (ticks.foldl (MergeState.addLive rows) {}).late = gapTicks ticks rows := by
  rw [add_live_late]
  refine filter_congr fun tick _ => ?_
  rw [Bool.eq_iff_iff, inside_ranges_iff]
  simp

/-! ### What the pools cancel -/

/-- The row is of the interval and the trade. -/
def FillRow.Of (row : FillRow) (key : String × Nat) (twin : Int × Int × Int) : Prop :=
  row.key = key ∧ row.twin = twin

instance FillRow.decidableOf (row : FillRow) (key : String × Nat) (twin : Int × Int × Int) :
    Decidable (row.Of key twin) :=
  inferInstanceAs (Decidable (_ ∧ _))

/-- The pool of an interval, the one its first row to come would open included. -/
def MergeState.poolOf (state : MergeState) (rows : List FillRow) (key : String × Nat) :
    List (Int × Int × Int) :=
  (state.latePool.get? key).getD
    (((rows.find? (·.key = key)).map (MergeState.lateTwins state.late)).getD [])

section Pools

variable {state : MergeState} {row : FillRow} {rest : List FillRow} {key : String × Nat}

theorem add_fill_late : (state.addFill row).1.late = state.late := by
  unfold MergeState.addFill
  simp only
  split
  · rfl
  · split <;> rfl

theorem add_fill_pool : (state.addFill row).1.latePool = state.latePool.set row.key
    ((state.pool row).erase row.twin) := by
  unfold MergeState.addFill
  simp only
  split
  · rfl
  · rename_i absent
    rw [erase_of_not_mem absent]
    split <;> rfl

theorem add_fill_deduped_iff (state : MergeState) (row : FillRow) : (state.addFill row).2 = .deduped ↔
    row.twin ∈ state.pool row := by
  unfold MergeState.addFill
  simp only
  split
  · rename_i present
    exact iff_of_true rfl present
  · rename_i absent
    refine iff_of_false ?_ absent
    split <;> simp

theorem pool_of_other (other : row.key ≠ key) :
    (state.addFill row).1.poolOf rest key = state.poolOf (row :: rest) key := by
  unfold MergeState.poolOf
  rw [add_fill_pool, add_fill_late, Dict.get?_set_of_ne (Ne.symm other),
    find?_cons_of_neg (by simpa using other)]

theorem pool_of_own (state : MergeState) (row : FillRow) (rest : List FillRow) :
    state.poolOf (row :: rest) row.key = state.pool row ∧
      (state.addFill row).1.poolOf rest row.key = (state.pool row).erase row.twin := by
  constructor
  · unfold MergeState.poolOf
    rw [find?_cons_of_pos (by simp)]
    rfl
  · unfold MergeState.poolOf
    rw [add_fill_pool, Dict.get?_set_self, Option.getD_some]

/-- Of an interval's rows of a trade, as many are cancelled as the interval's pool holds. -/
theorem add_fills_cancelled (state : MergeState) (rows : List FillRow) (key : String × Nat)
    (twin : Int × Int × Int) :
    (state.addFills rows).2.countP (fun entry => entry.1.Of key twin ∧ entry.2 = .deduped) =
      min (rows.countP (·.Of key twin)) ((state.poolOf rows key).count twin) := by
  induction rows generalizing state with
  | nil => simp [MergeState.addFills]
  | cons row rest ih =>
    simp only [MergeState.addFills, countP_cons, ih]
    by_cases own : row.key = key
    · subst own
      obtain ⟨here, later⟩ := pool_of_own state row rest
      rw [here, later]
      by_cases same : row.twin = twin
      · subst same
        have held := add_fill_deduped_iff state row
        rw [← count_pos_iff] at held
        rw [count_erase_self]
        simp only [FillRow.Of, held, decide_eq_true_eq, true_and, if_true]
        split <;> omega
      · rw [count_erase_of_ne (Ne.symm same)]
        simp [FillRow.Of, same]
    · rw [pool_of_other own]
      simp [FillRow.Of, own]

theorem add_fills_deduped (state : MergeState) (rows : List FillRow) :
    (state.addFills rows).1.deduped =
      state.deduped + (state.addFills rows).2.countP (·.2 = .deduped) := by
  induction rows generalizing state with
  | nil => rfl
  | cons row rest ih =>
    simp only [MergeState.addFills, ih, countP_cons]
    unfold MergeState.addFill
    simp only
    split
    · simp only [decide_true, if_true]
      omega
    · split <;> simp

end Pools

/-! ### One tick, one row -/

/-- The row that opens the pool of an interval. -/
def opener (rows : List FillRow) (key : String × Nat) : Option FillRow :=
  (orderedRows rows).find? (·.key = key)

/-- The late tick is in the pool of the interval, with the trade's values. -/
def pooledTick (rows : List FillRow) (label : (String × Nat) × (Int × Int × Int)) (tick : LiveTick) :
    Bool :=
  (opener rows label.1).any fun first =>
    tick.symbol = first.symbol ∧ first.Inside tick.cum ∧ tick.twin = label.2

section Cancelled

variable {ticks : List LiveTick} {rows : List FillRow}

/-- Of an interval's rows of a trade, as many are cancelled as there are late ticks of the
trade in its pool. -/
theorem merge_cancelled (ticks : List LiveTick) (rows : List FillRow) (key : String × Nat)
    (twin : Int × Int × Int) :
    (mergeTicks ticks rows).2.countP (fun entry => entry.1.Of key twin ∧ entry.2 = .deduped) =
      min (rows.countP (·.Of key twin)) ((gapTicks ticks rows).countP (pooledTick rows (key, twin))) := by
  obtain ⟨-, _, _, shape⟩ := add_live_run ticks rows {}
  have fresh : (ticks.foldl (MergeState.addLive rows) {}).latePool = ∅ := by rw [shape]
  rw [mergeTicks, add_fills_cancelled, (ordered_rows_perm rows).countP_eq]
  congr 1
  rw [MergeState.poolOf, fresh, live_late]
  change (((opener rows key).map _).getD []).count twin = _
  unfold pooledTick
  cases opener rows key with
  | none => simp
  | some first =>
    rw [Option.map_some, Option.getD_some, MergeState.lateTwins, count_eq_countP, countP_map,
      countP_filter]
    refine countP_congr fun tick _ => ?_
    simp [and_comm, and_assoc]

theorem merge_deduped (ticks : List LiveTick) (rows : List FillRow) :
    (mergeTicks ticks rows).1.deduped = (mergeTicks ticks rows).2.countP (·.2 = .deduped) := by
  obtain ⟨-, _, _, shape⟩ := add_live_run ticks rows {}
  rw [mergeTicks, add_fills_deduped, shape]
  exact Nat.zero_add _

theorem placed_mem (member : entry ∈ (mergeTicks ticks rows).2) : entry.1 ∈ rows := by
  have listed : entry.1 ∈ (mergeTicks ticks rows).2.map Prod.fst := mem_map_of_mem member
  rw [mergeTicks, add_fills_rows] at listed
  exact (ordered_rows_perm rows).mem_iff.mp listed

end Cancelled

/-- The gap-fill rows the late ticks cancelled. -/
def cancelledRows (ticks : List LiveTick) (rows : List FillRow) : List FillRow :=
  ((mergeTicks ticks rows).2.filter (·.2 = .deduped)).map Prod.fst

/-- What the intervals with rows of a trade can cancel, each on its own: as many of its rows as
late ticks of the trade lie in it. -/
def cancellable (ticks : List LiveTick) (rows : List FillRow) (symbol : String) (twin : Int × Int × Int) :
    Nat :=
  (((rows.filter fun row => row.symbol = symbol ∧ row.twin = twin).map (·.intervalId)).dedup.map fun id =>
    min (rows.countP (·.Of (symbol, id) twin))
      ((gapTicks ticks rows).countP (pooledTick rows ((symbol, id), twin)))).sum

/-- The rows of a trade that are cancelled are those its intervals cancel, added up. -/
theorem cancelled_of_trade (ticks : List LiveTick) (rows : List FillRow) (symbol : String)
    (twin : Int × Int × Int) :
    (cancelledRows ticks rows).countP (fun row => row.symbol = symbol ∧ row.twin = twin) =
      cancellable ticks rows symbol twin := by
  let kept := (cancelledRows ticks rows).filter fun row => row.symbol = symbol ∧ row.twin = twin
  let ids := ((rows.filter fun row => row.symbol = symbol ∧ row.twin = twin).map (·.intervalId)).dedup
  have known : ∀ id ∈ (kept.map (·.intervalId) : Multiset Nat), id ∈ ids.toFinset := by
    intro id member
    obtain ⟨row, held, rfl⟩ := mem_map.mp member
    obtain ⟨dropped, trade⟩ := mem_filter.mp held
    obtain ⟨entry, placed, rfl⟩ := mem_map.mp dropped
    exact mem_toFinset.mpr (mem_dedup.mpr (mem_map.mpr
      ⟨entry.1, mem_filter.mpr ⟨placed_mem (mem_of_mem_filter placed), trade⟩, rfl⟩))
  have classes := Multiset.sum_count_eq_card known
  rw [List.sum_toFinset _ (nodup_dedup _), Multiset.coe_card, length_map] at classes
  rw [countP_eq_length_filter, ← classes, cancellable]
  congr 1
  refine map_congr_left fun id _ => ?_
  rw [← merge_cancelled, Multiset.coe_count, count_eq_countP, countP_map, countP_filter, cancelledRows,
    countP_map, countP_filter]
  refine countP_congr fun entry _ => ?_
  simp only [FillRow.Of, FillRow.key, Function.comp_apply, Prod.mk.injEq, Bool.and_eq_true,
    decide_eq_true_eq, beq_iff_eq]
  tauto

/-- A late tick cancels at most one gap-fill row, in all and of every trade, if and only if what the
intervals of each trade can cancel adds up to no more than the late ticks of the trade. -/
theorem late_tick_cancels_once_iff (ticks : List LiveTick) (rows : List FillRow) :
    ((mergeTicks ticks rows).1.deduped ≤ (gapTicks ticks rows).length ∧
      ∀ symbol twin,
        (cancelledRows ticks rows).countP (fun row => row.symbol = symbol ∧ row.twin = twin) ≤
          (gapTicks ticks rows).countP fun tick => tick.symbol = symbol ∧ tick.twin = twin) ↔
    ∀ symbol twin, cancellable ticks rows symbol twin ≤
      (gapTicks ticks rows).countP fun tick => tick.symbol = symbol ∧ tick.twin = twin := by
  simp only [cancelled_of_trade]
  refine ⟨And.right, fun bound => ⟨?_, bound⟩⟩
  -- No tick is of two trades, so the bounds add up.
  have all : (mergeTicks ticks rows).1.deduped = (cancelledRows ticks rows).length := by
    rw [merge_deduped, cancelledRows, length_map, countP_eq_length_filter]
  have trades : (cancelledRows ticks rows).map (fun row => (row.symbol, row.twin)) <+~
      (gapTicks ticks rows).map fun tick => (tick.symbol, tick.twin) := by
    refine subperm_ext_iff.mpr fun ⟨symbol, twin⟩ _ => ?_
    have share := (cancelled_of_trade ticks rows symbol twin).le.trans (bound symbol twin)
    simpa only [count_eq_countP, countP_map, Function.comp_def, Bool.beq_eq_decide_eq, Prod.mk.injEq] using share
  rw [all]
  simpa using trades.length_le

/-- One live tick between the counters of two nested intervals cancels a row in each. -/
theorem late_tick_cancels_twice :
    (mergeTicks [Sample.liveAt 10 5] [Sample.gapRow 10 0 1 9, Sample.gapRow 10 1 3 7]).1.deduped = 2 ∧
    (gapTicks [Sample.liveAt 10 5] [Sample.gapRow 10 0 1 9, Sample.gapRow 10 1 3 7]).length = 1 := by
  decide +kernel

end KrxAlpha
