import KrxAlpha.TopupSound

/-! When the top-up leaves no trade behind that a free counter could take. The pointer moves
forward only: a trade that is too early for one gap is given up for all later ones. As the trades
come by second, which ones that are depends on how many lie before each second, and the result
is maximal exactly if no gap with counters to spare could have taken one given up before it. -/
namespace KrxAlpha
open List

/-! ### The pointer in numbers -/

namespace TopupGap

/-- How many counters are free. -/
def room (gap : TopupGap) : Nat := (gap.hi - gap.lo - 1).toNat

variable (before : Int → Nat)

/-- The first trade offered to a gap where `behind` trades are gone, and `before` says how many
trades lie before a second: those in between are given up. -/
def first (behind : Nat) (gap : TopupGap) : Nat := max behind (before gap.tPrev)

/-- How many of the trades from there on the gap takes. -/
def taken (behind : Nat) (gap : TopupGap) : Nat :=
  min gap.room (before (gap.tNext + 1) - gap.first before behind)

def past (behind : Nat) (gap : TopupGap) : Nat := gap.first before behind + gap.taken before behind

/-- The gaps, each with the number of trades gone when its turn comes. -/
def turns : Nat → List TopupGap → List (Nat × TopupGap)
  | _, [] => []
  | behind, gap :: rest => (behind, gap) :: turns (gap.past before behind) rest

/-- A trade given up at the earlier gap is within the seconds of the later one only if that is
filled up. -/
def Spared (earlier later : Nat × TopupGap) : Prop :=
  max earlier.1 (before later.2.tPrev) < min (earlier.2.first before earlier.1) (before (later.2.tNext + 1)) →
    later.2.room ≤ later.2.taken before later.1

section

variable (behind : Nat) (gaps : List TopupGap)

theorem turns_gaps : (turns before behind gaps).map (·.2) = gaps := by
  induction gaps generalizing behind with
  | nil => rfl
  | cons gap rest ih => rw [turns, map_cons, ih]

theorem behind_le_turn : ∀ turn ∈ turns before behind gaps, behind ≤ turn.1 := by
  induction gaps generalizing behind with
  | nil => simp [turns]
  | cons gap rest ih =>
    refine forall_mem_cons.mpr ⟨Nat.le_refl _, fun turn member => ?_⟩
    have := ih _ turn member
    simp only [past, first] at this
    omega

/-- A gap's trades are gone when the later ones have their turn. -/
theorem turns_advance :
    (turns before behind gaps).Pairwise fun earlier later => earlier.2.past before earlier.1 ≤ later.1 := by
  induction gaps generalizing behind with
  | nil => exact .nil
  | cons gap rest ih =>
    exact pairwise_cons.mpr ⟨behind_le_turn before (gap.past before behind) rest, ih _⟩

end

end TopupGap

/-- How many of the trades lie before a second. -/
def tradesBefore (trades : List MissingTrade) (second : Int) : Nat := trades.countP (·.second < second)

section Sorted

variable {trades : List MissingTrade} (sorted : trades.Pairwise fun first second => first.second ≤ second.second)
include sorted

private theorem second_down (bound : Int) : trades.Pairwise fun first second =>
    decide (second.second < bound) = true → decide (first.second < bound) = true :=
  sorted.imp fun order below => by
    simp only [decide_eq_true_eq] at below ⊢
    omega

theorem trade_before_iff (found : trades[index]? = some trade) (bound : Int) :
    trade.second < bound ↔ index < tradesBefore trades bound := by
  have below := holds_below_count (fun trade : MissingTrade => decide (trade.second < bound))
    (second_down sorted bound) found
  rwa [decide_eq_true_eq] at below

/-- Unused trades that come by second take one slot after the other, up to the gap's last second. -/
theorem fill_gap_fresh (hi tNext slot : Int) :
    (fillGap hi tNext slot (trades.map (·, false))).1 =
      (trades.take (min (hi - slot).toNat (tradesBefore trades (tNext + 1)))).map (·, true) ++
        (trades.drop (min (hi - slot).toNat (tradesBefore trades (tNext + 1)))).map (·, false) ∧
    ∀ other, (∃ placed ∈ (fillGap hi tNext slot (trades.map (·, false))).2, placed.2 = other) ↔
      slot ≤ other ∧ other < slot + min (hi - slot).toNat (tradesBefore trades (tNext + 1)) := by
  induction trades generalizing slot with
  | nil => simp [fillGap, tradesBefore]
  | cons trade rest ih =>
    obtain ⟨least, later⟩ := pairwise_cons.mp sorted
    by_cases fits : slot < hi ∧ trade.second ≤ tNext
    · obtain ⟨marked, slots⟩ := ih later (slot + 1)
      have more : min (hi - slot).toNat (tradesBefore (trade :: rest) (tNext + 1)) =
          min (hi - (slot + 1)).toNat (tradesBefore rest (tNext + 1)) + 1 := by
        rw [tradesBefore, countP_cons_of_pos (by simpa using Int.lt_add_one_iff.mpr fits.2)]
        simp only [tradesBefore]
        omega
      simp only [map_cons, fillGap, fits, and_self, if_true, Bool.false_eq_true, if_false, more,
        take_succ_cons, drop_succ_cons, cons_append, marked, exists_mem_cons_iff, slots, true_and]
      intro other
      omega
    · have none : min (hi - slot).toNat (tradesBefore (trade :: rest) (tNext + 1)) = 0 := by
        by_cases room : slot < hi
        · have late : tNext < trade.second := by omega
          have zero : tradesBefore (trade :: rest) (tNext + 1) = 0 := by
            refine countP_eq_zero.mpr (forall_mem_cons.mpr ⟨by simpa using Int.add_one_le_of_lt late,
              fun other member => ?_⟩)
            have := least other member
            simp only [decide_eq_true_eq]
            omega
          omega
        · omega
      simp only [map_cons, fillGap, fits, if_false, none, take_zero, map_nil, drop_zero, nil_append, true_and]
      intro other
      simp only [not_mem_nil, false_and, exists_false, false_iff]
      omega

end Sorted

private theorem mem_slice_iff {items : List α} :
    item ∈ (items.drop start).take size ↔
      ∃ index, items[index]? = some item ∧ start ≤ index ∧ index < start + size := by
  rw [mem_iff_getElem?]
  constructor
  · rintro ⟨index, found⟩
    rw [getElem?_take] at found
    split at found
    · rename_i inside
      rw [getElem?_drop] at found
      exact ⟨_, found, Nat.le_add_right _ _, by omega⟩
    · cases found
  · rintro ⟨index, found, low, high⟩
    refine ⟨index - start, ?_⟩
    rw [getElem?_take_of_lt (by omega), getElem?_drop, Nat.add_sub_cancel' low, found]

private theorem mem_drop_iff {items : List α} :
    item ∈ items.drop start ↔ ∃ index, items[index]? = some item ∧ start ≤ index := by
  rw [mem_iff_getElem?]
  constructor
  · rintro ⟨index, found⟩
    rw [getElem?_drop] at found
    exact ⟨_, found, Nat.le_add_right _ _⟩
  · rintro ⟨index, found, low⟩
    exact ⟨index - start, by rw [getElem?_drop, Nat.add_sub_cancel' low, found]⟩

namespace TopupCursor

/-- So many of the trades are gone, and the pointer stands before them or among them. -/
def Stands (trades : List MissingTrade) (behind : Nat) (cursor : TopupCursor) : Prop :=
  ∃ used : List MissingTrade, cursor.ahead = used.map (·, true) ++ (trades.drop behind).map (·, false)

private theorem unused_marked (used fresh : List MissingTrade) :
    unusedTrades (used.map (·, true) ++ fresh.map (·, false)) = fresh := by
  simp [unusedTrades, filter_map, Function.comp_def]

section Serve

variable {trades : List MissingTrade} (sorted : trades.Pairwise fun first second => first.second ≤ second.second)
  {cursor : TopupCursor} {behind : Nat} (stands : cursor.Stands trades behind)
include sorted stands

/-- One gap: the trades before it are given up, it takes its own, and their slots run on from the
first one. -/
theorem serve_stands (gap : TopupGap) :
    (cursor.serve gap).1.Stands trades (gap.past (tradesBefore trades) behind) ∧
    unusedTrades (cursor.serve gap).1.passed = unusedTrades cursor.passed ++
      (trades.drop behind).take (gap.first (tradesBefore trades) behind - behind) ∧
    ∀ slot, (∃ placed ∈ (cursor.serve gap).2, placed.2 = slot) ↔
      gap.lo < slot ∧ slot ≤ gap.lo + gap.taken (tradesBefore trades) behind := by
  obtain ⟨used, ahead⟩ := stands
  have early := split_at_count (fun trade : MissingTrade => decide (trade.second < gap.tPrev))
    ((second_down sorted gap.tPrev).sublist (drop_sublist behind trades))
  rw [count_drop _ (second_down sorted gap.tPrev)] at early
  have marked : ∀ entry ∈ used.map fun trade => (trade, true), skips gap entry = true :=
    forall_mem_map.mpr fun _ _ => rfl
  have fresh : (skips gap ∘ fun trade => (trade, false)) = fun trade => decide (trade.second < gap.tPrev) := by
    funext trade
    simp [skips]
  have reach : behind + (trades.countP (fun trade => decide (trade.second < gap.tPrev)) - behind) =
      gap.first (tradesBefore trades) behind := by
    simp only [TopupGap.first, tradesBefore]
    omega
  have skipped : cursor.ahead.takeWhile (skips gap) = used.map (·, true) ++
      ((trades.drop behind).take (gap.first (tradesBefore trades) behind - behind)).map (·, false) := by
    rw [ahead, takeWhile_append_of_pos marked, takeWhile_map, fresh, early.1, ← reach, Nat.add_sub_cancel_left]
  have left : cursor.ahead.dropWhile (skips gap) =
      (trades.drop (gap.first (tradesBefore trades) behind)).map (·, false) := by
    rw [ahead, dropWhile_append_of_pos marked, dropWhile_map, fresh, early.2, drop_drop, reach]
  have count : tradesBefore (trades.drop (gap.first (tradesBefore trades) behind)) (gap.tNext + 1) =
      tradesBefore trades (gap.tNext + 1) - gap.first (tradesBefore trades) behind :=
    count_drop _ (second_down sorted (gap.tNext + 1)) _
  obtain ⟨filled, slots⟩ := fill_gap_fresh (sorted.sublist (drop_sublist _ trades)) gap.hi gap.tNext (gap.lo + 1)
  have took : min (gap.hi - (gap.lo + 1)).toNat
      (tradesBefore (trades.drop (gap.first (tradesBefore trades) behind)) (gap.tNext + 1)) =
      gap.taken (tradesBefore trades) behind := by
    rw [count, TopupGap.taken, TopupGap.room, Int.sub_sub]
  rw [took] at filled slots
  refine ⟨⟨(trades.drop (gap.first (tradesBefore trades) behind)).take (gap.taken (tradesBefore trades) behind),
    ?_⟩, ?_, fun slot => ?_⟩
  · simp only [serve, left, filled, drop_drop]
    rfl
  · simp only [serve, skipped]
    rw [unused_trades_append, unused_marked]
  · simp only [serve, left, slots]
    omega

end Serve

section Run

variable {trades : List MissingTrade} (sorted : trades.Pairwise fun first second => first.second ≤ second.second)
  {cursor : TopupCursor} {behind : Nat} (stands : cursor.Stands trades behind) (gaps : List TopupGap)
include sorted stands

/-- The slots taken in all. -/
theorem serve_all_slots (slot : Int) :
    (∃ placed ∈ (cursor.serveAll gaps).2, placed.2 = slot) ↔
      ∃ turn ∈ TopupGap.turns (tradesBefore trades) behind gaps,
        turn.2.lo < slot ∧ slot ≤ turn.2.lo + turn.2.taken (tradesBefore trades) turn.1 := by
  induction gaps generalizing cursor behind with
  | nil => simp [serveAll, TopupGap.turns]
  | cons gap rest ih =>
    obtain ⟨next, -, slots⟩ := serve_stands sorted stands gap
    simp only [serveAll, TopupGap.turns, mem_append, or_and_right, exists_or, slots, ih next,
      exists_mem_cons_iff]

/-- The trades left at the end: those given up at a gap, and those behind all that are gone. -/
theorem serve_all_left (trade : MissingTrade) :
    trade ∈ (cursor.serveAll gaps).1.unused ↔ trade ∈ unusedTrades cursor.passed ∨
      ∃ index, trades[index]? = some trade ∧ ((∃ turn ∈ TopupGap.turns (tradesBefore trades) behind gaps,
        turn.1 ≤ index ∧ index < turn.2.first (tradesBefore trades) turn.1) ∨
          behind ≤ index ∧ ∀ turn ∈ TopupGap.turns (tradesBefore trades) behind gaps,
            turn.2.past (tradesBefore trades) turn.1 ≤ index) := by
  induction gaps generalizing cursor behind with
  | nil =>
    obtain ⟨used, ahead⟩ := stands
    have left : trade ∈ unusedTrades cursor.ahead ↔ ∃ index, trades[index]? = some trade ∧ behind ≤ index := by
      rw [ahead, unused_marked]
      exact mem_drop_iff
    simp only [serveAll, unused, unused_trades_append, mem_append, left, TopupGap.turns, not_mem_nil,
      false_and, exists_false, false_or, IsEmpty.forall_iff, implies_true, and_true]
  | cons gap rest ih =>
    obtain ⟨next, passed, -⟩ := serve_stands sorted stands gap
    have given : trade ∈ unusedTrades (cursor.serve gap).1.passed ↔ trade ∈ unusedTrades cursor.passed ∨
        ∃ index, trades[index]? = some trade ∧ behind ≤ index ∧
          index < gap.first (tradesBefore trades) behind := by
      rw [passed, mem_append, mem_slice_iff]
      refine or_congr_right (exists_congr fun index => and_congr_right fun _ => and_congr_right fun _ => ?_)
      simp only [TopupGap.first]
      omega
    rw [serveAll, ih next, given]
    simp only [TopupGap.turns, exists_mem_cons_iff, forall_mem_cons, or_assoc, ← exists_or, ← and_or_left]
    refine or_congr_right (exists_congr fun index => and_congr_right fun _ => ?_)
    have onward : gap.past (tradesBefore trades) behind ≤ index → behind ≤ index := by
      simp only [TopupGap.past, TopupGap.first]
      omega
    exact or_congr_right (or_congr_right ⟨fun held => ⟨onward held.1, held⟩, And.right⟩)

end Run

end TopupCursor

namespace TapeTopup

/-- The two rows follow each other by counter. -/
def Neighbours (call : TapeTopup) (symbol : String) (prev next : RepairedTick) : Prop :=
  ∃ front back, call.kept symbol = front ++ prev :: next :: back

/-- A trade is left unplaced only if no counter is free between neighbouring rows whose seconds
bracket its own. -/
def Maximal (call : TapeTopup) : Prop :=
  ∀ symbol ∈ call.symbols, ∀ trade ∈ call.unplaced symbol, ∀ prev next,
    call.Neighbours symbol prev next → prev.chetime ≤ trade.second → trade.second ≤ next.chetime →
      ∀ slot, prev.cum < slot → slot < next.cum →
        ∃ row ∈ call.apply.1, row.symbol = symbol ∧ row.cum = slot

variable {call : TapeTopup} {symbol : String}

/-- The free counters between neighbouring rows are a gap. -/
theorem gap_of_neighbours (neighbours : call.Neighbours symbol former newer)
    (wide : 1 < newer.cum - former.cum) :
    ⟨former.cum, newer.cum, former.chetime, newer.chetime⟩ ∈ call.gaps symbol := by
  obtain ⟨front, back, shape⟩ := neighbours
  rw [gaps_eq, shape]
  clear shape
  suffices ∀ lo tPrev, (⟨former.cum, newer.cum, former.chetime, newer.chetime⟩ : TopupGap) ∈
      gapsFrom lo tPrev (front ++ former :: newer :: back) from this 0 0
  induction front with
  | nil =>
    intro lo tPrev
    simp only [nil_append, gapsFrom, wide, if_true]
    split <;> simp
  | cons first front ih =>
    intro lo tPrev
    simp only [cons_append, gapsFrom]
    split
    · exact mem_cons_of_mem _ (ih _ _)
    · exact ih _ _

/-- A gap behind another lies between neighbouring rows. -/
theorem neighbours_of_later_gap (one : first ∈ call.gaps symbol)
    (other : second ∈ call.gaps symbol) (apart : first.hi ≤ second.lo) :
    ∃ prev next, call.Neighbours symbol prev next ∧ second.lo = prev.cum ∧ second.hi = next.cum ∧
      second.tPrev = prev.chetime ∧ second.tNext = next.chetime := by
  rw [gaps_eq] at one other
  obtain ⟨front, next, back, shape, wide, stop, seconds, begin⟩ := gap_between other
  have rising := call.kept_rising symbol
  rw [shape] at one rising
  rcases eq_nil_or_concat front with rfl | ⟨init, prev, rfl⟩
  · -- Nothing lies before the first row's gap.
    obtain ⟨_, row, _, cut, -, ends, -⟩ := gap_between one
    have inside : row ∈ next :: back := by
      rw [← nil_append (next :: back), cut]
      simp
    rcases mem_cons.mp inside with rfl | later
    · omega
    · have := (pairwise_cons.mp rising).1 row later
      omega
  · rw [concat_eq_append, getLast?_append, getLast?_singleton] at begin
    exact ⟨prev, next, ⟨init, back, by simpa using shape⟩, congrArg Prod.fst begin, stop,
      congrArg Prod.snd begin, seconds⟩

section Served

variable (call : TapeTopup) (symbol : String)

/-- The gaps of a symbol, each with the missing trades gone when its turn comes. -/
def turns : List (Nat × TopupGap) := TopupGap.turns (tradesBefore (call.missing symbol)) 0 (call.gaps symbol)

theorem turns_apart : (call.turns symbol).Pairwise fun earlier later => earlier.2.hi ≤ later.2.lo := by
  have apart := @gaps_from_apart 0 0 _ (call.kept_rising symbol)
  rwa [← gaps_eq, ← TopupGap.turns_gaps (tradesBefore (call.missing symbol)) 0 (call.gaps symbol),
    pairwise_map] at apart

/-- The missing trades of a symbol in the order they are offered. -/
def offered : List MissingTrade := (call.missing symbol).insertionSort MissingTrade.Before

theorem offered_sorted : (call.offered symbol).Pairwise fun first second => first.second ≤ second.second := by
  have ordered := start_in_order (call.missing symbol)
  simp only [TopupCursor.InOrder, TopupCursor.start, map_map, Function.comp_def, map_id'] at ordered
  exact ordered

theorem offered_before : tradesBefore (call.offered symbol) = tradesBefore (call.missing symbol) := by
  funext second
  exact (perm_insertionSort _ _).countP_eq _

private theorem start_stands : (TopupCursor.start (call.offered symbol)).Stands (call.offered symbol) 0 :=
  ⟨[], rfl⟩

theorem served_slots (slot : Int) : (∃ placed ∈ (call.served symbol).2, placed.2 = slot) ↔
    ∃ turn ∈ call.turns symbol, turn.2.lo < slot ∧
      slot ≤ turn.2.lo + turn.2.taken (tradesBefore (call.missing symbol)) turn.1 := by
  have slots := TopupCursor.serve_all_slots (call.offered_sorted symbol) (call.start_stands symbol)
    (call.gaps symbol) slot
  rwa [offered_before] at slots

theorem unplaced_left (trade : MissingTrade) : trade ∈ call.unplaced symbol ↔
    ∃ index, (call.offered symbol)[index]? = some trade ∧ ((∃ turn ∈ call.turns symbol,
      turn.1 ≤ index ∧ index < turn.2.first (tradesBefore (call.missing symbol)) turn.1) ∨
        ∀ turn ∈ call.turns symbol, turn.2.past (tradesBefore (call.missing symbol)) turn.1 ≤ index) := by
  have left := TopupCursor.serve_all_left (call.offered_sorted symbol) (call.start_stands symbol)
    (call.gaps symbol) trade
  have none : trade ∉ unusedTrades (TopupCursor.start (call.offered symbol)).passed := not_mem_nil
  simp only [none, offered_before, false_or, Nat.zero_le, true_and] at left
  exact left

end Served

/-- A gap that is not filled up has taken every trade up to its last second. -/
private theorem past_of_short {before : Int → Nat} {turn : Nat × TopupGap}
    (short : turn.2.taken before turn.1 < turn.2.room) :
    before (turn.2.tNext + 1) ≤ turn.2.past before turn.1 := by
  simp only [TopupGap.past, TopupGap.taken] at short ⊢
  omega

theorem maximal_of_spared (spared : ∀ symbol ∈ call.symbols,
    (call.turns symbol).Pairwise (TopupGap.Spared (tradesBefore (call.missing symbol)))) : call.Maximal := by
  intro symbol onTape trade left prev next neighbours late early slot low high
  have gap := gap_of_neighbours neighbours (by omega)
  by_contra free
  rw [← TopupGap.turns_gaps (tradesBefore (call.missing symbol)) 0 (call.gaps symbol)] at gap
  obtain ⟨turn, member, own⟩ := mem_map.mp gap
  have short : turn.2.taken (tradesBefore (call.missing symbol)) turn.1 < turn.2.room := by
    by_contra full
    have most : slot ≤ turn.2.lo + turn.2.taken (tradesBefore (call.missing symbol)) turn.1 := by
      simp only [TopupGap.room, own] at full ⊢
      omega
    obtain ⟨placed, inside, same⟩ := (call.served_slots symbol slot).mpr
      ⟨turn, member, by rw [own]; exact low, most⟩
    exact free ⟨placed.1.row symbol placed.2,
      mem_append_right _ (mem_added.mpr ⟨symbol, onTape, placed, inside, rfl⟩), rfl, same⟩
  have past := past_of_short short
  obtain ⟨index, found, given⟩ := (call.unplaced_left symbol trade).mp left
  have begun := trade_before_iff (call.offered_sorted symbol) found turn.2.tPrev
  have ended := trade_before_iff (call.offered_sorted symbol) found (turn.2.tNext + 1)
  rw [offered_before] at begun ended
  have lower : tradesBefore (call.missing symbol) turn.2.tPrev ≤ index := by
    rw [own] at begun ⊢
    exact Nat.le_of_not_lt fun below => absurd (begun.mpr below) (Int.not_lt.mpr late)
  have upper : index < tradesBefore (call.missing symbol) (turn.2.tNext + 1) := by
    rw [own] at ended ⊢
    exact ended.mp (Int.lt_add_one_iff.mpr early)
  rcases given with ⟨other, listed, from_, until_⟩ | all
  · obtain ⟨front, back, shape⟩ := append_of_mem member
    have advance := TopupGap.turns_advance (tradesBefore (call.missing symbol)) 0 (call.gaps symbol)
    have pairs := spared symbol onTape
    change (call.turns symbol).Pairwise _ at advance
    change call.turns symbol = _ at shape
    rw [shape] at advance pairs
    rw [shape] at listed
    rcases mem_append.mp listed with earlier | here
    · -- Given up before the gap's turn: then the gap is filled up.
      have full := (pairwise_append.mp pairs).2.2 other earlier turn mem_cons_self
      exact absurd (full (by omega)) (Nat.not_le.mpr short)
    · rcases mem_cons.mp here with rfl | later
      · simp only [TopupGap.first] at until_
        omega
      · have := (pairwise_cons.mp (pairwise_append.mp advance).2.1).1 other later
        omega
  · have := all turn member
    omega

/-! ### The converse -/

theorem spared_of_maximal (maximal : call.Maximal) (onTape : symbol ∈ call.symbols) :
    (call.turns symbol).Pairwise (TopupGap.Spared (tradesBefore (call.missing symbol))) := by
  rw [pairwise_iff_forall_sublist]
  intro earlier later both meets
  by_contra full
  have short := Nat.lt_of_not_le full
  -- The first trade that was given up and is within the later gap's seconds.
  obtain ⟨trade, found⟩ : ∃ trade, (call.offered symbol)[max earlier.1
      (tradesBefore (call.missing symbol) later.2.tPrev)]? = some trade := by
    refine Option.isSome_iff_exists.mp ?_
    rw [isSome_getElem?]
    have most : tradesBefore (call.offered symbol) (later.2.tNext + 1) ≤ (call.offered symbol).length :=
      countP_le_length
    rw [offered_before] at most
    omega
  have begun := trade_before_iff (call.offered_sorted symbol) found later.2.tPrev
  have ended := trade_before_iff (call.offered_sorted symbol) found (later.2.tNext + 1)
  rw [offered_before] at begun ended
  have left : trade ∈ call.unplaced symbol :=
    (call.unplaced_left symbol trade).mpr ⟨_, found, .inl ⟨earlier, both.subset mem_cons_self, by omega, by omega⟩⟩
  have gapsOf : ∀ turn ∈ call.turns symbol, turn.2 ∈ call.gaps symbol := by
    intro turn member
    rw [← TopupGap.turns_gaps (tradesBefore (call.missing symbol)) 0 (call.gaps symbol)]
    exact mem_map_of_mem member
  have inside : later ∈ call.turns symbol := both.subset (by simp)
  obtain ⟨prev, next, neighbours, low, high, first, last⟩ := neighbours_of_later_gap
    (gapsOf earlier (both.subset mem_cons_self)) (gapsOf later inside)
    (pairwise_iff_forall_sublist.mp (call.turns_apart symbol) both)
  generalize taken : later.2.taken (tradesBefore (call.missing symbol)) later.1 = count at short
  simp only [TopupGap.room] at short
  obtain ⟨row, written, here, slot⟩ := maximal symbol onTape trade left prev next neighbours
    (by omega) (by omega) (later.2.lo + count + 1) (by omega) (by omega)
  rcases mem_append.mp written with old | new
  · exact slot_free onTape (gapsOf later inside) (by omega) (by omega) row old here slot
  · obtain ⟨own, -, placed, member, rfl⟩ := mem_added.mp new
    rw [show own = symbol from here] at member
    obtain ⟨turn, listed, above, below⟩ := (call.served_slots symbol placed.2).mp ⟨placed, member, rfl⟩
    have slot : placed.2 = later.2.lo + count + 1 := slot
    have room : turn.2.taken (tradesBefore (call.missing symbol)) turn.1 ≤ (turn.2.hi - turn.2.lo - 1).toNat :=
      Nat.min_le_left _ _
    obtain ⟨front, back, shape⟩ := append_of_mem inside
    have apart := call.turns_apart symbol
    rw [shape] at apart listed
    rcases mem_append.mp listed with before | other
    · have := (pairwise_append.mp apart).2.2 turn before later mem_cons_self
      omega
    · rcases mem_cons.mp other with rfl | behind
      · omega
      · have := (pairwise_cons.mp (pairwise_append.mp apart).2.1).1 turn behind
        omega

end TapeTopup

/-- A sort that keeps the order of rows with one counter. -/
def CumSort.stable : CumSort where
  sort := List.insertionSort fun first second => first.cum ≤ second.cum
  perm := List.perm_insertionSort _
  sorted := List.pairwise_insertionSort _

namespace TapeTopup

def Sample.rowAt (cum second : Int) : RepairedTick :=
  ⟨"005930", second, 70000, 10, cum, "live", none, none⟩

/-- The fourth counter was traded before the first; the tape has one trade in between. -/
def Sample.reset : TapeTopup where
  order := .stable
  table := [rowAt 1 90100, rowAt 3 90200, rowAt 4 90000, rowAt 6 90050]
  tape := [⟨"005930", 90020, 70100, 5, 0, ""⟩]

end TapeTopup
end KrxAlpha
