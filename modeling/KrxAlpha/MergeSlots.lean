import KrxAlpha.ClientIds
import KrxAlpha.RepairMerge
import KrxAlpha.TextOrder

/-! Counters of the repaired table. The cursor of an interval never passes a free counter,
whatever live ticks and overlapping intervals have filled: so each emitted row has a counter
of its own inside its interval, and a row is dropped only from a full interval. -/
namespace KrxAlpha
open List

/-! ### Texts of six digits are ordered as the numbers they spell -/

theorem zfill_digits {value : Int} (positive : 0 ≤ value) :
    (zfill 6 (toString value)).toList = zeroPad 6 value.toNat := by
  have text : (toString value).toList = Nat.toDigits 10 value.toNat := by
    rw [Int.toString_eq_repr, Int.repr_eq_if, if_pos positive, Nat.toList_repr]
  have plain : ∀ char ∈ Nat.toDigits 10 value.toNat, ¬ (char = '+' ∨ char = '-') := by
    rintro char member (rfl | rfl) <;>
      exact absurd (Nat.isDigit_of_mem_toDigits (by decide) (by decide) member) (by decide)
  unfold zfill
  rw [text]
  cases shape : Nat.toDigits 10 value.toNat with
  | nil => exact absurd shape Nat.toDigits_ne_nil
  | cons first rest =>
    simp only [if_neg (plain first (by simp [shape])), String.toList_ofList, leftpad, zeroPad,
      shape]

theorem zfill_mono {first second : Int} (positive : 0 ≤ first) (less : first < second)
    (digits : second < 1000000) : zfill 6 (toString first) < zfill 6 (toString second) := by
  have size {value : Int} (below : value < 1000000) : (zeroPad 6 value.toNat).length = 6 :=
    zero_pad_length (by decide) (by omega)
  rw [String.lt_iff, zfill_digits positive, zfill_digits (by omega),
    TextOrder.digits_lt_iff (by rw [size digits, size (by omega)]) (fun _ => zero_pad_digits)
      (fun _ => zero_pad_digits), of_digits_zero_pad, of_digits_zero_pad]
  omega

/-! ### The search for a slot -/

namespace MergeState

theorem search_slot_spec (counters : List (String × Int)) (symbol : String) (rounds : Nat)
    (slot : Int) :
    slot ≤ searchSlot counters symbol rounds slot ∧
      (∀ cum, slot ≤ cum → cum < searchSlot counters symbol rounds slot → (symbol, cum) ∈ counters) ∧
      (searchSlot counters symbol rounds slot < slot + rounds →
        (symbol, searchSlot counters symbol rounds slot) ∉ counters) ∧
      searchSlot counters symbol rounds slot ≤ slot + rounds := by
  induction rounds generalizing slot with
  | zero =>
    refine ⟨le_rfl, fun cum low high => ?_, fun less => ?_, by simp [searchSlot]⟩
    · simp only [searchSlot] at high
      omega
    · simp [searchSlot] at less
  | succ rounds ih =>
    rw [searchSlot]
    split
    · rename_i taken
      obtain ⟨above, below, free, within⟩ := ih (slot + 1)
      refine ⟨by omega, fun cum low high => ?_, fun less => free (by push_cast at less; omega),
        by push_cast; omega⟩
      rcases eq_or_lt_of_le low with rfl | later
      · exact taken
      · exact below cum (by omega) high
    · rename_i free
      exact ⟨le_rfl, fun cum low high => by omega, fun _ => free, by omega⟩

/-- The slot found is the first free one from the cursor on, if there is one below the
interval's end. -/
theorem found_slot_spec (state : MergeState) (row : FillRow) :
    state.firstSlot row ≤ state.foundSlot row ∧
      (∀ cum, state.firstSlot row ≤ cum → cum < state.foundSlot row →
        (row.symbol, cum) ∈ state.counters) ∧
      (state.foundSlot row < row.cumNext → (row.symbol, state.foundSlot row) ∉ state.counters) := by
  obtain ⟨above, below, free, -⟩ := search_slot_spec state.counters row.symbol
    (row.cumNext - state.firstSlot row).toNat (state.firstSlot row)
  refine ⟨above, below, fun less => free ?_⟩
  have least : state.firstSlot row ≤ state.foundSlot row := above
  change state.foundSlot row < _
  omega

/-- What placing a row does to counters, cursors and table. -/
def Places (state : MergeState) (row : FillRow) (next : MergeState) : Placement → Prop
  | .slot cum =>
    next.counters = (row.symbol, cum) :: state.counters ∧
      next.nextSlot = state.nextSlot.set row.key (cum + 1) ∧
      next.table = state.table ++ [row.repaired cum] ∧
      row.Inside cum ∧ (row.symbol, cum) ∉ state.counters ∧ state.firstSlot row ≤ cum ∧
      ∀ below, state.firstSlot row ≤ below → below < cum → (row.symbol, below) ∈ state.counters
  | .overfill =>
    (next.counters = state.counters ∧ next.nextSlot = state.nextSlot ∧ next.table = state.table) ∧
      ∀ cum, state.firstSlot row ≤ cum → cum < row.cumNext → (row.symbol, cum) ∈ state.counters
  | .deduped =>
    next.counters = state.counters ∧ next.nextSlot = state.nextSlot ∧ next.table = state.table

theorem add_fill_places {state : MergeState} (begun : row.cumPrev < state.firstSlot row) :
    state.Places row (state.addFill row).1 (state.addFill row).2 := by
  obtain ⟨above, below, free⟩ := found_slot_spec state row
  unfold addFill
  simp only
  split
  · exact ⟨rfl, rfl, rfl⟩
  · split
    · rename_i inside
      exact ⟨if_pos inside.2, rfl, rfl, inside, free inside.2, above, below⟩
    · rename_i outside
      have ended : ¬ state.foundSlot row < row.cumNext := fun less => outside ⟨by omega, less⟩
      exact ⟨⟨if_neg ended, rfl, rfl⟩, fun cum low high => below cum low (by omega)⟩

end MergeState

/-- All rows of a symbol's interval carry its bounds. -/
def Uniform (rows : List FillRow) : Prop :=
  ∀ first ∈ rows, ∀ second ∈ rows, first.key = second.key →
    first.cumPrev = second.cumPrev ∧ first.cumNext = second.cumNext

/-- No cursor has passed a free counter. -/
def MergeState.Swept (rows : List FillRow) (state : MergeState) : Prop :=
  ∀ row ∈ rows, row.cumPrev < state.firstSlot row ∧
    ∀ cum, row.cumPrev < cum → cum < state.firstSlot row → (row.symbol, cum) ∈ state.counters

section Cursor

variable {rows : List FillRow} {state next : MergeState} {row other : FillRow}

theorem first_slot_set (slot : Int) (moved : next.nextSlot = state.nextSlot.set row.key slot) :
    next.firstSlot other = if other.key = row.key then slot else state.firstSlot other := by
  unfold MergeState.firstSlot
  rw [moved, Dict.get?_set]
  split <;> rfl

theorem places_swept (uniform : Uniform rows) (listed : row ∈ rows) (swept : state.Swept rows)
    (places : state.Places row next placement) : next.Swept rows := by
  have kept (counters : next.counters = state.counters) (cursors : next.nextSlot = state.nextSlot) :
      next.Swept rows := by
    unfold MergeState.Swept MergeState.firstSlot at swept ⊢
    rwa [counters, cursors]
  cases placement with
  | deduped => exact kept places.1 places.2.1
  | overfill => exact kept places.1.1 places.1.2.1
  | slot cum =>
    obtain ⟨counters, cursors, -, inside, -, above, below⟩ := places
    obtain ⟨-, passed⟩ := swept row listed
    intro other member
    rw [first_slot_set (cum + 1) cursors, counters]
    split
    · rename_i same
      obtain ⟨begin_, -⟩ := uniform other member row listed same
      have symbol : other.symbol = row.symbol := congrArg Prod.fst same
      have lower := inside.1
      refine ⟨by omega, fun value low high => ?_⟩
      rw [symbol]
      by_cases here : value = cum
      · exact here ▸ mem_cons_self
      · refine mem_cons_of_mem _ ?_
        by_cases early : value < state.firstSlot row
        · exact passed value (by omega) early
        · exact below value (by omega) (by omega)
    · obtain ⟨begun, taken⟩ := swept other member
      exact ⟨begun, fun value low high => mem_cons_of_mem _ (taken value low high)⟩

end Cursor

/-! ### What a whole run places -/

/-- The counter a placed row was given. -/
def slotCounter (entry : FillRow × Placement) : Option (String × Int) :=
  match entry.2 with
  | .slot cum => some (entry.1.symbol, cum)
  | _ => none

/-- The row of the table a placed row became. -/
def emittedRow (entry : FillRow × Placement) : Option RepairedTick :=
  match entry.2 with
  | .slot cum => some (entry.1.repaired cum)
  | _ => none

/-- What holds of the rows placed from a state on, in the order they were placed. -/
structure Slotted (state : MergeState) (placed : List (FillRow × Placement)) : Prop where
  inside : ∀ row cum, (row, .slot cum) ∈ placed → row.Inside cum
  fresh : ∀ row cum, (row, .slot cum) ∈ placed → (row.symbol, cum) ∉ state.counters
  once : (placed.filterMap slotCounter).Nodup
  ahead : ∀ row cum, (row, .slot cum) ∈ placed → state.firstSlot row ≤ cum
  rising : placed.Pairwise fun first second => first.1.key = second.1.key →
    ∀ early late, first.2 = .slot early → second.2 = .slot late → early < late
  full : ∀ front row back, placed = front ++ (row, .overfill) :: back → ∀ cum, row.Inside cum →
    (row.symbol, cum) ∈ state.counters ∨
      ∃ entry ∈ front, entry.1.symbol = row.symbol ∧ entry.2 = .slot cum

section Run

variable {rows : List FillRow} {state next : MergeState} {row : FillRow}
  {placed : List (FillRow × Placement)}

/-- A row that is given no counter changes none of it. -/
theorem Slotted.cons_dropped (rest : Slotted next placed)
    (counters : next.counters = state.counters) (cursors : next.nextSlot = state.nextSlot)
    (dropped : ∀ cum, placement ≠ .slot cum)
    (filled : placement = .overfill → ∀ cum, row.Inside cum → (row.symbol, cum) ∈ state.counters) :
    Slotted state ((row, placement) :: placed) := by
  have later {other : FillRow} {cum : Int}
      (member : (other, Placement.slot cum) ∈ (row, placement) :: placed) :
      (other, Placement.slot cum) ∈ placed := by
    rcases mem_cons.mp member with here | there
    · exact absurd (congrArg Prod.snd here).symm (dropped cum)
    · exact there
  have slots (other : FillRow) : next.firstSlot other = state.firstSlot other := by
    unfold MergeState.firstSlot
    rw [cursors]
  refine ⟨fun other cum member => rest.inside other cum (later member),
    fun other cum member => counters ▸ rest.fresh other cum (later member), ?_,
    fun other cum member => slots other ▸ rest.ahead other cum (later member), ?_, ?_⟩
  · have silent : slotCounter (row, placement) = none := by
      cases placement with
      | slot cum => exact absurd rfl (dropped cum)
      | deduped => rfl
      | overfill => rfl
    rw [filterMap_cons_none silent]
    exact rest.once
  · exact pairwise_cons.mpr ⟨fun entry _ _ early _ given => absurd given (dropped early),
      rest.rising⟩
  · intro front other back shape cum within
    cases front with
    | nil =>
      obtain ⟨same, -⟩ := cons.inj shape
      cases same
      exact .inl (filled rfl cum within)
    | cons first front =>
      obtain ⟨-, shape⟩ := cons.inj shape
      rcases rest.full front other back shape cum within with taken | ⟨entry, member, found⟩
      · exact .inl (counters ▸ taken)
      · exact .inr ⟨entry, mem_cons_of_mem _ member, found⟩

theorem forall_slot_cons {P : FillRow → Int → Prop} (here : P row cum)
    (there : ∀ other slot, (other, Placement.slot slot) ∈ placed → P other slot) :
    ∀ other slot, (other, Placement.slot slot) ∈ (row, .slot cum) :: placed → P other slot := by
  intro other slot member
  rcases mem_cons.mp member with first | later
  · cases first
    exact here
  · exact there other slot later

theorem Slotted.cons_slot (uniform : Uniform (row :: placed.map Prod.fst))
    (rest : Slotted next placed) (places : state.Places row next (.slot cum)) :
    Slotted state ((row, .slot cum) :: placed) := by
  obtain ⟨counters, cursors, -, inside, free, above, -⟩ := places
  have moved {other : FillRow} {slot : Int} (member : (other, Placement.slot slot) ∈ placed)
      (same : other.key = row.key) : cum < slot := by
    have ahead := rest.ahead other slot member
    rw [first_slot_set (cum + 1) cursors, if_pos same] at ahead
    omega
  have unmoved {other : FillRow} {slot : Int} (member : (other, Placement.slot slot) ∈ placed) :
      (other.symbol, slot) ∉ state.counters ∧ (other.symbol, slot) ≠ (row.symbol, cum) := by
    have fresh := rest.fresh other slot member
    rw [counters, mem_cons, not_or] at fresh
    exact fresh.symm
  refine ⟨forall_slot_cons inside rest.inside,
    forall_slot_cons free fun _ _ there => (unmoved there).1, ?_, forall_slot_cons above ?_, ?_, ?_⟩
  · have given : slotCounter (row, .slot cum) = some (row.symbol, cum) := rfl
    rw [filterMap_cons_some given, nodup_cons]
    refine ⟨fun twice => ?_, rest.once⟩
    obtain ⟨⟨other, placement⟩, member, found⟩ := mem_filterMap.mp twice
    cases placement with
    | slot slot => exact (unmoved member).2 (Option.some.inj found)
    | deduped => cases found
    | overfill => cases found
  · intro other slot there
    by_cases same : other.key = row.key
    · have later := moved there same
      obtain ⟨begin_, -⟩ := uniform other (by simp [mem_map_of_mem (f := Prod.fst) there]) row
        (by simp) same
      unfold MergeState.firstSlot at above ⊢
      rw [same, begin_]
      omega
    · have ahead := rest.ahead other slot there
      rwa [first_slot_set (cum + 1) cursors, if_neg same] at ahead
  · refine pairwise_cons.mpr ⟨?_, rest.rising⟩
    rintro ⟨other, placement⟩ member same early late given taken
    cases given
    subst taken
    exact moved member same.symm
  · intro front other back shape value within
    cases front with
    | nil => cases (cons.inj shape).1
    | cons first front =>
      obtain ⟨rfl, tail⟩ := cons.inj shape
      rcases rest.full front other back tail value within with taken | ⟨entry, member, found⟩
      · rw [counters, mem_cons] at taken
        rcases taken with here | taken
        · obtain ⟨symbol, same⟩ := Prod.mk.inj here
          exact .inr ⟨_, mem_cons_self, symbol.symm, same ▸ rfl⟩
        · exact .inl taken
      · exact .inr ⟨entry, mem_cons_of_mem _ member, found⟩

theorem add_fills_rows (state : MergeState) (rows : List FillRow) :
    (state.addFills rows).2.map Prod.fst = rows := by
  induction rows generalizing state with
  | nil => rfl
  | cons row rest ih => simp [MergeState.addFills, ih]

theorem add_fills_slotted (uniform : Uniform rows) (swept : state.Swept rows) :
    Slotted state (state.addFills rows).2 := by
  induction rows generalizing state with
  | nil =>
    exact ⟨by simp [MergeState.addFills], by simp [MergeState.addFills], by simp [MergeState.addFills],
      by simp [MergeState.addFills], by simp [MergeState.addFills], by simp [MergeState.addFills]⟩
  | cons row rest ih =>
    obtain ⟨begun, taken⟩ := swept row mem_cons_self
    have places := state.add_fill_places begun
    have later := places_swept uniform mem_cons_self swept places
    have placed : Slotted (state.addFill row).1 ((state.addFill row).1.addFills rest).2 := ih
      (fun first one second two => uniform first (mem_cons_of_mem _ one) second
        (mem_cons_of_mem _ two))
      fun other member => later other (mem_cons_of_mem _ member)
    simp only [MergeState.addFills]
    generalize (state.addFill row).2 = placement at places
    cases placement with
    | deduped => exact placed.cons_dropped places.1 places.2.1 (by simp) (by simp)
    | overfill =>
      refine placed.cons_dropped places.1.1 places.1.2.1 (by simp) fun _ cum within => ?_
      by_cases early : cum < state.firstSlot row
      · exact taken cum within.1 early
      · exact places.2 cum (by omega) within.2
    | slot cum => exact placed.cons_slot (by rwa [add_fills_rows]) places

theorem add_fills_table (state : MergeState) (rows : List FillRow) :
    (state.addFills rows).1.table = state.table ++ (state.addFills rows).2.filterMap emittedRow := by
  induction rows generalizing state with
  | nil => simp [MergeState.addFills]
  | cons row rest ih =>
    simp only [MergeState.addFills, ih]
    unfold MergeState.addFill
    simp only
    split
    · rfl
    · split
      · simp [emittedRow]
      · rfl

theorem add_fills_counted (state : MergeState) (rows : List FillRow) :
    (state.addFills rows).1.filledRows + (state.addFills rows).1.deduped +
        (state.addFills rows).1.overfillDropped =
      state.filledRows + state.deduped + state.overfillDropped + rows.length := by
  induction rows generalizing state with
  | nil => rfl
  | cons row rest ih =>
    simp only [MergeState.addFills, ih, length_cons]
    unfold MergeState.addFill
    simp only
    split
    · simp only
      omega
    · split <;> simp only <;> omega

end Run

/-! ### Both loops -/

section Merge

variable {ticks : List LiveTick} {rows : List FillRow}

/-- The live loop fills counters and table and leaves the rest as it was. -/
theorem add_live_run (ticks : List LiveTick) (rows : List FillRow) (state : MergeState) :
    (∀ counter, counter ∈ (ticks.foldl (MergeState.addLive rows) state).counters ↔
      counter ∈ state.counters ∨ ∃ tick ∈ ticks, tick.counter = counter) ∧
    ∃ counters late, ticks.foldl (MergeState.addLive rows) state =
      { state with counters, late, table := state.table ++ ticks.map (·.repaired) } := by
  induction ticks generalizing state with
  | nil => exact ⟨by simp, state.counters, state.late, by simp⟩
  | cons tick rest ih =>
    obtain ⟨members, counters, late, shape⟩ := ih (state.addLive rows tick)
    have first (counter : String × Int) : counter ∈ (state.addLive rows tick).counters ↔
        counter ∈ state.counters ∨ tick.counter = counter := by
      unfold MergeState.addLive
      split
      · rename_i known
        exact ⟨.inl, fun either => either.elim id fun same => same ▸ known⟩
      · simp only [mem_cons]
        exact ⟨fun either => either.symm.imp id Eq.symm, fun either => either.symm.imp Eq.symm id⟩
    refine ⟨fun counter => ?_, counters, late, ?_⟩
    · rw [foldl_cons, members, first]
      simp [or_assoc]
    · rw [foldl_cons, shape]
      unfold MergeState.addLive
      split <;> simp

theorem live_swept (ticks : List LiveTick) (rows fills : List FillRow) :
    (ticks.foldl (MergeState.addLive rows) {}).Swept fills := by
  obtain ⟨-, counters, late, shape⟩ := add_live_run ticks rows {}
  intro row _
  simp only [MergeState.firstSlot, shape, Dict.get?_empty, Option.getD_none]
  exact ⟨by omega, fun cum low high => by omega⟩

theorem ordered_rows_perm (rows : List FillRow) : (orderedRows rows).Perm rows :=
  perm_insertionSort _ _

theorem ordered_uniform (uniform : Uniform rows) : Uniform (orderedRows rows) := by
  have listed {row : FillRow} (member : row ∈ orderedRows rows) : row ∈ rows :=
    (ordered_rows_perm rows).mem_iff.mp member
  exact fun first one second two => uniform first (listed one) second (listed two)

theorem ordered_rows_sorted (rows : List FillRow) : (orderedRows rows).Pairwise FillRow.Before :=
  haveI : Std.Total FillRow.Before := ⟨TextOrder.text_first_total FillRow.symbol _
    (TextOrder.text_first_total (fun row : FillRow => zfill 6 (toString row.chetime)) _
      fun first second => le_total first.tapeSeq second.tapeSeq)⟩
  haveI : IsTrans FillRow FillRow.Before := ⟨TextOrder.text_first_trans FillRow.symbol _
    (TextOrder.text_first_trans (fun row : FillRow => zfill 6 (toString row.chetime)) _
      fun _ _ _ => le_trans)⟩
  pairwise_insertionSort ..

/-- Earlier by time and, within a second, by the number on the tape. -/
def FillRow.Earlier (first second : FillRow) : Prop :=
  first.chetime < second.chetime ∨
    (first.chetime = second.chetime ∧ first.tapeSeq < second.tapeSeq)

theorem before_not_later {first second : FillRow} (before : first.Before second)
    (same : first.symbol = second.symbol) (positive : 0 ≤ second.chetime)
    (digits : first.chetime < 1000000) : ¬ second.Earlier first := by
  rintro (less | ⟨equal, less⟩)
  · have texts := zfill_mono positive less digits
    rcases before with symbols | ⟨-, text | ⟨text, -⟩⟩
    · exact String.ne_of_lt symbols same
    · exact String.lt_irrefl _ (String.lt_trans text texts)
    · exact String.ne_of_lt texts text.symm
  · rcases before with symbols | ⟨-, text | ⟨-, order⟩⟩
    · exact String.ne_of_lt symbols same
    · exact String.ne_of_lt text (by rw [equal])
    · omega

theorem rising_with_time {placed : List (FillRow × Placement)}
    (slotted : Slotted state placed) (sorted : (placed.map Prod.fst).Pairwise FillRow.Before)
    (digits : ∀ row ∈ placed.map Prod.fst, 0 ≤ row.chetime ∧ row.chetime < 1000000)
    (here : (first, .slot early) ∈ placed)
    (there : (second, .slot late) ∈ placed) (same : first.key = second.key)
    (earlier : first.Earlier second) : early < late := by
  let Rises (first second : FillRow × Placement) : Prop :=
    first.1.key = second.1.key → ∀ early late, first.2 = .slot early → second.2 = .slot late →
      first.1.Earlier second.1 → early < late
  have itself : ∀ entry ∈ placed, Rises entry entry := by
    rintro entry - - early late - - (less | ⟨-, less⟩) <;> omega
  have forward : placed.Pairwise Rises :=
    slotted.rising.imp fun rising same early late given taken _ => rising same early late given taken
  have backward : placed.Pairwise (flip Rises) := by
    refine (pairwise_map.mp sorted).imp_of_mem ?_
    intro first second one two before same early late _ _ wrong
    exact absurd wrong (before_not_later before (congrArg Prod.fst same).symm
      (digits second.1 (mem_map_of_mem two)).1 (digits first.1 (mem_map_of_mem one)).2)
  exact forward.forall_of_forall_of_flip itself backward here there same early late rfl rfl earlier

end Merge

/-- Counters of the merge. Every gap-fill row is placed once: emitted, cancelled by a late
trade or dropped. An emitted row has a counter strictly inside its interval that no live tick
and no other emitted row of the symbol has; within an interval the counters rise with the
time; and a row is dropped only when every counter of its interval is taken. -/
theorem merge_slots_sound (ticks : List LiveTick) (rows : List FillRow) (uniform : Uniform rows)
    (digits : ∀ row ∈ rows, 0 ≤ row.chetime ∧ row.chetime < 1000000) :
    ((mergeTicks ticks rows).2.map Prod.fst).Perm rows ∧
    (mergeTicks ticks rows).1.table =
      ticks.map (·.repaired) ++ (mergeTicks ticks rows).2.filterMap emittedRow ∧
    (∀ row cum, (row, .slot cum) ∈ (mergeTicks ticks rows).2 →
      row.Inside cum ∧ ∀ tick ∈ ticks, tick.counter ≠ (row.symbol, cum)) ∧
    ((mergeTicks ticks rows).2.filterMap slotCounter).Nodup ∧
    (∀ first second early late, (first, .slot early) ∈ (mergeTicks ticks rows).2 →
      (second, .slot late) ∈ (mergeTicks ticks rows).2 → first.key = second.key →
        first.Earlier second → early < late) ∧
    (mergeTicks ticks rows).1.filledRows + (mergeTicks ticks rows).1.deduped +
      (mergeTicks ticks rows).1.overfillDropped = rows.length ∧
    ∀ front row back, (mergeTicks ticks rows).2 = front ++ (row, .overfill) :: back →
      ∀ cum, row.Inside cum → (∃ tick ∈ ticks, tick.counter = (row.symbol, cum)) ∨
        ∃ entry ∈ front, entry.1.symbol = row.symbol ∧ entry.2 = .slot cum := by
  obtain ⟨counters, _, _, shape⟩ := add_live_run ticks rows {}
  have slotted := add_fills_slotted (ordered_uniform uniform) (live_swept ticks rows (orderedRows rows))
  have placed := add_fills_rows (ticks.foldl (MergeState.addLive rows) {}) (orderedRows rows)
  have perm := ordered_rows_perm rows
  have taken {counter : String × Int} :
      counter ∈ (ticks.foldl (MergeState.addLive rows) {}).counters ↔
        ∃ tick ∈ ticks, tick.counter = counter := by
    rw [counters]
    simp
  refine ⟨placed ▸ perm, ?_, fun row cum member => ⟨slotted.inside row cum member, ?_⟩, slotted.once,
    ?_, ?_, ?_⟩
  · rw [mergeTicks, add_fills_table, shape]
    simp
  · intro tick listed same
    exact slotted.fresh row cum member (taken.mpr ⟨tick, listed, same⟩)
  · intro first second early late here there
    refine rising_with_time slotted ?_ ?_ here there
    · rw [placed]
      exact ordered_rows_sorted rows
    · rw [placed]
      exact fun row member => digits row (perm.mem_iff.mp member)
  · rw [mergeTicks, add_fills_counted, perm.length_eq, shape]
    simp
  · intro front row back split cum within
    exact (slotted.full front row back split cum within).imp taken.mp id

namespace Sample

/-- A gap-fill row of one share between the counters, at a second after nine. -/
def gapRow (second : Int) (interval : Nat) (cumPrev cumNext : Int) : FillRow :=
  { symbol := "005930", chetime := 90000 + second, price := 100, volume := 1, tapeSeq := second
    intervalId := interval, cumPrev, cumNext, vendor := "kis", provenance := "gapfill:kis" }

/-- The live tick of a second after nine. -/
def liveAt (second cum : Int) : LiveTick := ⟨"005930", 90000 + second, 100, 1, cum, second⟩

end Sample

open Sample

/-- Two rows fit between the counters 1 and 5 beside the live tick with the counter 3; a
third finds the interval full. -/
theorem merge_slots_sound_full :
    (mergeTicks [liveAt 1 1, liveAt 9 3, liveAt 30 5]
        [gapRow 12 0 1 5, gapRow 10 0 1 5, gapRow 14 0 1 5]).2.map Prod.snd =
      [.slot 2, .slot 4, .overfill] ∧
    ((mergeTicks [liveAt 1 1, liveAt 9 3, liveAt 30 5]
        [gapRow 12 0 1 5, gapRow 10 0 1 5, gapRow 14 0 1 5]).2.filterMap
      slotCounter).Nodup :=
  ⟨by decide +kernel, (merge_slots_sound _ _ (by unfold Uniform; decide) (by decide)).2.2.2.1⟩

end KrxAlpha
