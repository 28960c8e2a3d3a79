import Mathlib.Algebra.BigOperators.Group.List.Basic
import Mathlib.Data.List.Dedup
import KrxAlpha.TapeTopup

/-! What the top-up adds is sound: free counters, each taken once, within the seconds of the
neighbouring rows, and no trade more often than the tape holds it. -/
namespace KrxAlpha
open List

@[simp] theorem unused_trades_append (first second : List (MissingTrade × Bool)) :
    unusedTrades (first ++ second) = unusedTrades first ++ unusedTrades second := by
  simp [unusedTrades]

/-! ### One gap -/

section

variable (hi tNext slot : Int) (entries : List (MissingTrade × Bool))
include hi tNext slot entries

theorem fill_gap_trades : (fillGap hi tNext slot entries).1.map (·.1) = entries.map (·.1) := by
  fun_induction fillGap hi tNext slot entries with
  | case1 => rfl
  | case2 slot trade rest fits filled ih => exact congrArg (trade :: ·) ih
  | case3 slot trade used rest fits fresh filled ih => exact congrArg (trade :: ·) ih
  | case4 => rfl

/-- No trade is lost: those placed and those still unused are the unused ones of before. -/
theorem fill_gap_unused :
    ((fillGap hi tNext slot entries).2.map (·.1) ++
      unusedTrades (fillGap hi tNext slot entries).1).Perm (unusedTrades entries) := by
  fun_induction fillGap hi tNext slot entries with
  | case1 => exact .refl _
  | case2 slot trade rest fits filled ih => exact ih
  | case3 slot trade used rest fits fresh filled ih =>
    have marked : used = false := by simpa using fresh
    subst marked
    exact ih.cons trade
  | case4 => exact .refl _

/-- The slots run on from the first one, within the gap. -/
theorem fill_gap_slots :
    ∀ placed ∈ (fillGap hi tNext slot entries).2,
      slot ≤ placed.2 ∧ placed.2 < hi ∧ placed.1.second ≤ tNext := by
  fun_induction fillGap hi tNext slot entries with
  | case1 => simp
  | case2 slot trade rest fits filled ih => exact ih
  | case3 slot trade used rest fits fresh filled ih =>
    refine forall_mem_cons.mpr ⟨⟨Int.le_refl _, fits⟩, fun placed member => ?_⟩
    have := ih placed member
    omega
  | case4 => simp

theorem fill_gap_rising :
    (fillGap hi tNext slot entries).2.Pairwise fun first second => first.2 < second.2 := by
  fun_induction fillGap hi tNext slot entries with
  | case1 => exact .nil
  | case2 slot trade rest fits filled ih => exact ih
  | case3 slot trade used rest fits fresh filled ih =>
    refine pairwise_cons.mpr ⟨fun placed member => ?_, ih⟩
    have := fill_gap_slots _ _ _ _ placed member
    simp only
    omega
  | case4 => exact .nil

end

namespace TopupCursor

/-- The trades ahead come by second. -/
def InOrder (cursor : TopupCursor) : Prop :=
  (cursor.ahead.map (·.1)).Pairwise fun first second => first.second ≤ second.second

variable {cursor : TopupCursor}

theorem serve_in_order (ordered : cursor.InOrder) (gap : TopupGap) :
    (cursor.serve gap).1.InOrder := by
  simp only [InOrder, serve, fill_gap_trades]
  exact ordered.sublist ((dropWhile_sublist _).map _)

theorem serve_unused (cursor : TopupCursor) (gap : TopupGap) :
    ((cursor.serve gap).2.map (·.1) ++ (cursor.serve gap).1.unused).Perm cursor.unused := by
  have filled := fill_gap_unused gap.hi gap.tNext (gap.lo + 1) (cursor.ahead.dropWhile (skips gap))
  have ahead : unusedTrades cursor.ahead = unusedTrades (cursor.ahead.takeWhile (skips gap)) ++
      unusedTrades (cursor.ahead.dropWhile (skips gap)) := by
    rw [← unused_trades_append, takeWhile_append_dropWhile]
  refine perm_iff_count.mpr fun trade => ?_
  have counted := filled.count_eq trade
  simp only [serve, unused, unused_trades_append, ahead, count_append] at counted ⊢
  omega

/-- What is still ahead where the pointer stops is not before the gap. -/
theorem reached_seconds (ordered : cursor.InOrder) (gap : TopupGap) :
    ∀ entry ∈ cursor.ahead.dropWhile (skips gap), gap.tPrev ≤ entry.1.second := by
  have stopped := head?_dropWhile_not (skips gap) cursor.ahead
  have rest := (pairwise_map.mp ordered).sublist (dropWhile_sublist (skips gap))
  cases reached : cursor.ahead.dropWhile (skips gap) with
  | nil => simp
  | cons first later =>
    simp only [reached, head?_cons, skips, Bool.or_eq_false_iff, decide_eq_false_iff_not] at stopped
    rw [reached] at rest
    refine forall_mem_cons.mpr ⟨by omega, fun entry member => ?_⟩
    have := (pairwise_cons.mp rest).1 entry member
    omega

/-- A row placed in a gap: a slot inside it, and a second between those of its rows. -/
def Fits (gap : TopupGap) (placed : MissingTrade × Int) : Prop :=
  (gap.lo < placed.2 ∧ placed.2 < gap.hi) ∧ gap.tPrev ≤ placed.1.second ∧ placed.1.second ≤ gap.tNext

theorem serve_fits (ordered : cursor.InOrder) (gap : TopupGap) :
    ∀ placed ∈ (cursor.serve gap).2, Fits gap placed := by
  intro placed member
  have inside := fill_gap_slots _ _ _ _ placed member
  have unused : placed.1 ∈ unusedTrades (cursor.ahead.dropWhile (skips gap)) := by
    refine (fill_gap_unused gap.hi gap.tNext (gap.lo + 1) _).mem_iff.mp ?_
    exact mem_append_left _ (mem_map_of_mem member)
  obtain ⟨entry, listed, same⟩ := mem_map.mp unused
  have late := reached_seconds ordered gap entry (mem_of_mem_filter listed)
  rw [same] at late
  exact ⟨⟨by omega, inside.2.1⟩, late, inside.2.2⟩

theorem serve_all_unused (cursor : TopupCursor) (gaps : List TopupGap) :
    ((cursor.serveAll gaps).2.map (·.1) ++ (cursor.serveAll gaps).1.unused).Perm cursor.unused := by
  induction gaps generalizing cursor with
  | nil => exact .refl _
  | cons gap gaps ih =>
    refine perm_iff_count.mpr fun trade => ?_
    have now := (cursor.serve_unused gap).count_eq trade
    have later := (ih (cursor.serve gap).1).count_eq trade
    simp only [serveAll, map_append, count_append] at now later ⊢
    omega

theorem serve_all_fits (ordered : cursor.InOrder) (gaps : List TopupGap) :
    ∀ placed ∈ (cursor.serveAll gaps).2, ∃ gap ∈ gaps, Fits gap placed := by
  induction gaps generalizing cursor with
  | nil => simp [serveAll]
  | cons gap gaps ih =>
    intro placed member
    rcases mem_append.mp member with now | later
    · exact ⟨gap, mem_cons_self, serve_fits ordered gap placed now⟩
    · obtain ⟨other, listed, fits⟩ := ih (serve_in_order ordered gap) placed later
      exact ⟨other, mem_cons_of_mem _ listed, fits⟩

theorem serve_all_rising (ordered : cursor.InOrder)
    (apart : gaps.Pairwise fun first second => first.hi ≤ second.lo) :
    (cursor.serveAll gaps).2.Pairwise fun first second => first.2 < second.2 := by
  induction gaps generalizing cursor with
  | nil => exact .nil
  | cons gap gaps ih =>
    obtain ⟨behind, apart⟩ := pairwise_cons.mp apart
    have next := serve_in_order ordered gap
    refine pairwise_append.mpr ⟨fill_gap_rising _ _ _ _, ih next apart, ?_⟩
    intro placed now other later
    have low := serve_fits ordered gap placed now
    obtain ⟨further, listed, high⟩ := serve_all_fits next gaps other later
    have := behind further listed
    have := low.1.2
    have := high.1.1
    omega

end TopupCursor

/-! ### Gaps -/

theorem first_by_counter_sublist (rows : List RepairedTick) :
    (firstByCounter rows).Sublist rows := by
  induction rows with
  | nil => exact .slnil
  | cons row rows ih => exact (filter_sublist.trans ih).cons_cons row

theorem first_by_counter_apart (rows : List RepairedTick) :
    (firstByCounter rows).Pairwise fun first second =>
      ¬ (second.symbol = first.symbol ∧ second.cum = first.cum) := by
  induction rows with
  | nil => exact .nil
  | cons row rows ih =>
    refine pairwise_cons.mpr ⟨fun other member => ?_, ih.sublist filter_sublist⟩
    simpa only [decide_eq_true_eq] using (mem_filter.mp member).2

theorem first_by_counter_covers (member : row ∈ rows) :
    ∃ kept ∈ firstByCounter rows, kept.symbol = row.symbol ∧ kept.cum = row.cum := by
  induction rows with
  | nil => simp at member
  | cons first rows ih =>
    by_cases same : row.symbol = first.symbol ∧ row.cum = first.cum
    · exact ⟨first, mem_cons_self, same.1.symm, same.2.symm⟩
    · rcases mem_cons.mp member with rfl | later
      · exact absurd ⟨rfl, rfl⟩ same
      · obtain ⟨kept, listed, symbol, cum⟩ := ih later
        refine ⟨kept, mem_cons_of_mem _ (mem_filter.mpr ⟨listed, ?_⟩), symbol, cum⟩
        simpa only [symbol, cum, decide_eq_true_eq] using same

/-- A gap ends at a row and begins at the row before it, or at zero. -/
theorem gap_between (member : gap ∈ gapsFrom lo tPrev rows) :
    ∃ front row back, rows = front ++ row :: back ∧ 1 < gap.hi - gap.lo ∧
      gap.hi = row.cum ∧ gap.tNext = row.chetime ∧
      (gap.lo, gap.tPrev) = (front.getLast?.map fun prev => (prev.cum, prev.chetime)).getD (lo, tPrev) := by
  induction rows generalizing lo tPrev with
  | nil => simp [gapsFrom] at member
  | cons first rest ih =>
    -- The first row ends a gap, or the gap is one of the later ones.
    have listed : (1 < first.cum - lo ∧ gap = ⟨lo, first.cum, tPrev, first.chetime⟩) ∨
        gap ∈ gapsFrom first.cum first.chetime rest := by
      simp only [gapsFrom] at member
      split at member
      · rcases mem_cons.mp member with own | later
        · exact .inl ⟨‹_›, own⟩
        · exact .inr later
      · exact .inr member
    rcases listed with ⟨wide, rfl⟩ | later
    · exact ⟨[], first, rest, rfl, wide, rfl, rfl, rfl⟩
    · obtain ⟨front, row, back, rfl, wide, stop, next, begin⟩ := ih later
      refine ⟨first :: front, row, back, rfl, wide, stop, next, begin.trans ?_⟩
      rw [getLast?_cons]
      cases front.getLast? <;> rfl

theorem gaps_from_above {rows : List RepairedTick}
    (above : ∀ row ∈ rows, lo < row.cum) : ∀ gap ∈ gapsFrom lo tPrev rows, lo ≤ gap.lo := by
  intro gap member
  obtain ⟨front, row, back, rfl, -, -, -, begin⟩ := gap_between member
  cases last : front.getLast? with
  | none =>
    rw [last] at begin
    exact Int.le_of_eq (congrArg Prod.fst begin).symm
  | some prev =>
    rw [last] at begin
    have := above prev (mem_append_left _ (mem_of_getLast? last))
    have := congrArg Prod.fst begin
    simp only [Option.map_some, Option.getD_some] at this
    omega

theorem gaps_from_apart {rows : List RepairedTick}
    (rising : rows.Pairwise fun first second => first.cum < second.cum) :
    (gapsFrom lo tPrev rows).Pairwise fun first second => first.hi ≤ second.lo := by
  induction rows generalizing lo tPrev with
  | nil => exact .nil
  | cons row rows ih =>
    obtain ⟨above, rest⟩ := pairwise_cons.mp rising
    have later := @gaps_from_above row.cum row.chetime rows above
    simp only [gapsFrom]
    split
    · exact pairwise_cons.mpr ⟨later, ih rest⟩
    · exact ih rest

namespace TapeTopup

variable (call : TapeTopup) (symbol : String)

theorem kept_rising : (call.kept symbol).Pairwise fun first second => first.cum < second.cum := by
  have sorted := (call.order.sorted call.live).sublist (first_by_counter_sublist _)
  have apart := first_by_counter_apart (call.order.sort call.live)
  refine ((sorted.and apart).sublist filter_sublist).imp_of_mem ?_
  rintro first second listed inside ⟨order, distinct⟩
  have here : second.symbol = first.symbol := by
    have one := (mem_filter.mp listed).2
    have two := (mem_filter.mp inside).2
    simp only [decide_eq_true_eq] at one two
    rw [one, two]
  have : second.cum ≠ first.cum := fun same => distinct ⟨here, same⟩
  omega

theorem gaps_eq : call.gaps symbol = gapsFrom 0 0 (call.kept symbol) := by
  refine List.Pairwise.insertionSort_eq (r := fun first second : TopupGap => first.lo ≤ second.lo) ?_
  refine (gaps_from_apart (call.kept_rising symbol)).imp_of_mem ?_
  intro first second member _ apart
  obtain ⟨-, -, -, -, wide, -⟩ := gap_between member
  omega

theorem mem_kept (member : row ∈ call.kept symbol) : row ∈ call.table ∧ row.symbol = symbol := by
  obtain ⟨listed, here⟩ := mem_filter.mp member
  have live := (call.order.perm _).mem_iff.mp ((first_by_counter_sublist _).subset listed)
  exact ⟨mem_of_mem_filter live, by simpa using here⟩

theorem kept_covers (onTape : row.symbol ∈ call.symbols)
    (member : row ∈ call.table) : ∃ kept ∈ call.kept row.symbol, kept.cum = row.cum := by
  have live : row ∈ call.order.sort call.live :=
    (call.order.perm _).mem_iff.mpr (mem_filter.mpr ⟨member, by simpa using onTape⟩)
  obtain ⟨kept, listed, here, same⟩ := first_by_counter_covers live
  exact ⟨kept, mem_filter.mpr ⟨listed, by simpa using here⟩, same⟩

/-- The row of the symbol with the nearest larger counter. -/
structure Next (table : List RepairedTick) (row next : RepairedTick) : Prop where
  listed : next ∈ table
  symbol : next.symbol = row.symbol
  larger : row.cum < next.cum
  nearest : ∀ other ∈ table, other.symbol = row.symbol → row.cum < other.cum → next.cum ≤ other.cum

/-- The row of the symbol with the nearest smaller counter. -/
structure Previous (table : List RepairedTick) (row prev : RepairedTick) : Prop where
  listed : prev ∈ table
  symbol : prev.symbol = row.symbol
  smaller : prev.cum < row.cum
  nearest : ∀ other ∈ table, other.symbol = row.symbol → other.cum < row.cum → other.cum ≤ prev.cum

/-- The row's second lies between those of its neighbours in the table; without a smaller
counter it is not below zero. -/
def Bracketed (table : List RepairedTick) (row : RepairedTick) : Prop :=
  (∃ next, Next table row next ∧ row.chetime ≤ next.chetime) ∧
    ((∃ prev, Previous table row prev ∧ prev.chetime ≤ row.chetime) ∨
      ((∀ other ∈ table, other.symbol = row.symbol → ¬ other.cum < row.cum) ∧ 0 ≤ row.chetime))

variable {call symbol}

section

variable (onTape : symbol ∈ call.symbols)
include onTape

/-- Each row of the symbol lies at or below the rows in front of a cut, or at or beyond its row. -/
theorem counter_sides (shape : call.kept symbol = front ++ newer :: back) :
    ∀ other ∈ call.table, other.symbol = symbol →
      (∃ prev ∈ front.getLast?, other.cum ≤ prev.cum) ∨ newer.cum ≤ other.cum := by
  rintro other listed rfl
  obtain ⟨kept, inside, same⟩ := call.kept_covers onTape listed
  have rising := call.kept_rising other.symbol
  rw [shape] at inside rising
  obtain ⟨before, after, -⟩ := pairwise_append.mp rising
  rcases mem_append.mp inside with early | late
  · left
    rcases eq_nil_or_concat front with rfl | ⟨init, prev, rfl⟩
    · simp at early
    · refine ⟨prev, by simp, ?_⟩
      rw [concat_eq_append] at early before
      rcases mem_append.mp early with first | last
      · have := (pairwise_append.mp before).2.2 kept first prev (by simp)
        omega
      · rw [mem_singleton.mp last] at same
        omega
  · right
    rcases mem_cons.mp late with rfl | later
    · omega
    · have := (pairwise_cons.mp after).1 kept later
      omega

/-- Inside a gap every counter is free. -/
theorem slot_free (member : gap ∈ call.gaps symbol) (low : gap.lo < slot) (high : slot < gap.hi) :
    ∀ other ∈ call.table, other.symbol = symbol → other.cum ≠ slot := by
  intro other listed here same
  rw [gaps_eq] at member
  obtain ⟨front, next, back, shape, -, stop, -, begin⟩ := gap_between member
  rcases counter_sides onTape shape other listed here with ⟨prev, last, below⟩ | beyond
  · rw [last] at begin
    have : gap.lo = prev.cum := congrArg Prod.fst begin
    omega
  · omega

/-- A row inside a gap has the gap's rows as neighbours. -/
theorem fitting_row (member : gap ∈ call.gaps symbol)
    (fits : TopupCursor.Fits gap placed) : Bracketed call.table (placed.1.row symbol placed.2) := by
  obtain ⟨⟨low, high⟩, early, late⟩ := fits
  rw [gaps_eq] at member
  obtain ⟨front, next, back, shape, -, stop, seconds, begin⟩ := gap_between member
  have sides := counter_sides onTape shape
  have nextKept := @mem_kept call symbol next (by simp [shape])
  cases last : front.getLast? with
  | none =>
    rw [last] at begin sides
    have zero : gap.tPrev = 0 := congrArg Prod.snd begin
    have above : ∀ other ∈ call.table, other.symbol = symbol → next.cum ≤ other.cum := by
      simpa using sides
    refine ⟨⟨next, ⟨nextKept.1, nextKept.2, stop ▸ high, fun other listed here _ => above other listed here⟩,
      seconds ▸ late⟩, .inr ⟨fun other listed here below => ?_, zero ▸ early⟩⟩
    have := above other listed here
    have : other.cum < placed.2 := below
    omega
  | some prev =>
    rw [last] at begin sides
    have lowest : gap.lo = prev.cum := congrArg Prod.fst begin
    have second : gap.tPrev = prev.chetime := congrArg Prod.snd begin
    have prevKept := @mem_kept call symbol prev
      (by rw [shape]; exact mem_append_left _ (mem_of_getLast? last))
    have apart : ∀ other ∈ call.table, other.symbol = symbol →
        other.cum ≤ prev.cum ∨ next.cum ≤ other.cum := by
      simpa using sides
    refine ⟨⟨next, ⟨nextKept.1, nextKept.2, stop ▸ high, fun other listed here larger => ?_⟩, seconds ▸ late⟩,
      .inl ⟨prev, ⟨prevKept.1, prevKept.2, lowest ▸ low, fun other listed here smaller => ?_⟩, second ▸ early⟩⟩
    · have : placed.2 < other.cum := larger
      have := apart other listed here
      omega
    · have : other.cum < placed.2 := smaller
      have := apart other listed here
      omega

end

theorem start_in_order (trades : List MissingTrade) :
    (TopupCursor.start (trades.insertionSort MissingTrade.Before)).InOrder := by
  have : Std.Total MissingTrade.Before := ⟨fun first second => by
    simp only [MissingTrade.Before]
    omega⟩
  have : IsTrans MissingTrade MissingTrade.Before := ⟨fun first second third => by
    simp only [MissingTrade.Before]
    omega⟩
  have sorted := pairwise_insertionSort MissingTrade.Before trades
  simp only [TopupCursor.InOrder, TopupCursor.start, map_map, Function.comp_def, map_id']
  exact sorted.imp fun before => by
    simp only [MissingTrade.Before] at before
    omega

theorem served_fits (member : placed ∈ (call.served symbol).2) :
    ∃ gap ∈ call.gaps symbol, TopupCursor.Fits gap placed :=
  TopupCursor.serve_all_fits (start_in_order _) _ placed member

/-- The symbol's missing trades are placed or unplaced. -/
theorem served_unused (call : TapeTopup) (symbol : String) :
    ((call.served symbol).2.map (·.1) ++ call.unplaced symbol).Perm (call.missing symbol) := by
  refine (TopupCursor.serve_all_unused _ _).trans ?_
  simp only [TopupCursor.unused, TopupCursor.start, unusedTrades, nil_append, filter_map,
    map_map, Function.comp_def, Bool.not_false, filter_true, map_id']
  exact perm_insertionSort _ _

theorem mem_added :
    row ∈ call.added ↔ ∃ symbol ∈ call.symbols, ∃ placed ∈ (call.served symbol).2,
      placed.1.row symbol placed.2 = row := by
  simp [added]

/-! ### Counts -/

private theorem count_flatMap_le [DecidableEq α] {items : List α} (distinct : items.Nodup)
    (piece : α → List β) (test : β → Bool) (item : α)
    (others : ∀ other ∈ items, other ≠ item → ∀ value ∈ piece other, test value = false) :
    (items.flatMap piece).countP test ≤ (piece item).countP test := by
  have none : ∀ other, other ≠ item → other ∈ items → (piece other).countP test = 0 := by
    intro other apart listed
    refine countP_eq_zero.mpr fun value member => ?_
    simp [others other listed apart value member]
  rw [countP_flatMap]
  refine Nat.le_trans (Nat.le_of_eq (sum_map_eq_nsmul_single item _ none)) ?_
  exact (Nat.mul_le_mul_right _ (nodup_iff_count_le_one.mp distinct item)).trans_eq (Nat.one_mul _)

/-- The missing trade has the trade's second, price and volume. -/
def stands (trade : TapeTrade) (missing : MissingTrade) : Bool :=
  missing.second = trade.tsHms ∧ missing.price = trade.price ∧ missing.volume = trade.volume

theorem stands_iff {missing : MissingTrade} :
    stands trade missing = true ↔
      (⟨trade.symbol, missing.second, missing.price, missing.volume⟩ : TapeTrade) = trade := by
  cases trade
  simp [stands]

theorem length_lacked (call : TapeTopup) (trade : TapeTrade) :
    (call.lacked trade).length = call.lacking trade := by
  rw [lacked, length_map, length_take, length_insertionSort, length_map,
    ← countP_eq_length_filter]
  exact Nat.min_eq_left (Nat.sub_le _ _)

/-- A trade is missing as often as the tape is ahead of the table. -/
theorem count_missing (call : TapeTopup) (trade : TapeTrade) :
    (call.missing trade.symbol).countP (stands trade) ≤ call.lacking trade := by
  refine (count_flatMap_le ((nodup_dedup _).filter _) _ _ trade ?_).trans ?_
  · intro other listed apart missing member
    obtain ⟨seq, -, rfl⟩ := mem_map.mp member
    have here : other.symbol = trade.symbol := by simpa using (mem_filter.mp listed).2
    rw [← Bool.not_eq_true, stands_iff, ← here]
    exact apart
  · exact countP_le_length.trans_eq (call.length_lacked trade)

theorem count_added (call : TapeTopup) (trade : TapeTrade) :
    call.added.countP (·.trade = trade) ≤ call.lacking trade := by
  have placed : ((call.served trade.symbol).2.map fun placed =>
      placed.1.row trade.symbol placed.2).countP (·.trade = trade) =
        ((call.served trade.symbol).2.map (·.1)).countP (stands trade) := by
    rw [countP_map, countP_map]
    refine countP_congr fun placed _ => ?_
    rw [Function.comp_apply, Function.comp_apply, stands_iff, decide_eq_true_eq]
    rfl
  refine (count_flatMap_le (nodup_dedup _) _ _ trade.symbol ?_).trans ?_
  · intro symbol _ apart row member
    obtain ⟨placed, -, rfl⟩ := mem_map.mp member
    refine decide_eq_false fun same => apart ?_
    exact congrArg TapeTrade.symbol same
  · rw [placed]
    have whole := (call.served_unused trade.symbol).countP_eq (stands trade)
    have most := call.count_missing trade
    rw [countP_append] at whole
    omega

theorem count_live (call : TapeTopup) (onTape : trade.symbol ∈ call.symbols) :
    call.live.countP (·.trade = trade) = call.table.countP (·.trade = trade) := by
  rw [live, countP_filter]
  refine countP_congr fun row _ => ?_
  simp only [Bool.and_eq_true, decide_eq_true_eq, contains_iff_mem, and_iff_left_iff_imp]
  rintro rfl
  exact onTape

/-- Every row the top-up adds takes a counter of its own that the symbol's table does not hold,
at a second between those of the neighbouring rows, and no trade comes to stand in the table
more often than it stood there before or stands on the tape. -/
theorem tape_topup_sound (call : TapeTopup) :
    call.apply.1 = call.table ++ call.added ∧
      (∀ row ∈ call.added, (∀ other ∈ call.table, other.symbol = row.symbol → other.cum ≠ row.cum) ∧
        Bracketed call.table row) ∧
      (call.added.Pairwise fun first second => first.symbol = second.symbol → first.cum ≠ second.cum) ∧
      ∀ trade, call.apply.1.countP (·.trade = trade) ≤
        max (call.table.countP (·.trade = trade)) (call.tape.countP (·.trade = trade)) := by
  refine ⟨rfl, ?_, ?_, ?_⟩
  · intro row member
    obtain ⟨symbol, onTape, placed, listed, rfl⟩ := mem_added.mp member
    obtain ⟨gap, inside, fits⟩ := served_fits listed
    exact ⟨slot_free onTape inside fits.1.1 fits.1.2, fitting_row onTape inside fits⟩
  · refine pairwise_flatMap.mpr ⟨fun symbol _ => ?_, ?_⟩
    · have rising := TopupCursor.serve_all_rising (start_in_order (call.missing symbol))
        (call.gaps_eq symbol ▸ gaps_from_apart (call.kept_rising symbol))
      refine pairwise_map.mpr (rising.imp ?_)
      exact fun less _ => Int.ne_of_lt less
    · refine (nodup_dedup _).imp ?_
      intro symbol other apart row member second inside same
      obtain ⟨placed, -, rfl⟩ := mem_map.mp member
      obtain ⟨further, -, rfl⟩ := mem_map.mp inside
      exact absurd same apart
  · intro trade
    have more := call.count_added trade
    rw [apply, countP_append]
    by_cases onTape : trade.symbol ∈ call.symbols
    · rw [lacking, call.count_live onTape] at more
      omega
    · have none : call.tape.countP (·.trade = trade) = 0 := by
        refine countP_eq_zero.mpr fun row listed same => onTape ?_
        rw [← of_decide_eq_true same]
        exact mem_dedup.mpr (mem_map_of_mem listed)
      rw [lacking, none] at more
      omega

end TapeTopup
end KrxAlpha
