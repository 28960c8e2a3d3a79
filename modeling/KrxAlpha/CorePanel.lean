import KrxAlpha.ClientIds
import Mathlib.Data.List.Dedup
import Mathlib.Data.List.Perm.Subperm
import Mathlib.Data.List.Sort
import Mathlib.Order.WithBot

/-! The core panel. A symbol enters when its liquidity rank is high enough and stays as long as the
rank is not too low; the panel of a day is where this recurrence ends after a window of days. In
closed form a symbol is in the panel when it was high enough on some day of the window and has not
been too low since. -/
namespace KrxAlpha
open List

/-- A row of the featured frame; a column that the frame lacks is null. Median trade values are
any values in the order of the sort, and `⊥` is null. -/
structure FeaturedRow (α : Type) where
  date : Int
  symbol : String
  tvMedian20 : WithBot α
  stockCertKind : Option String := none
  section_ : Option String := none

structure Featured (α : Type) where
  columns : List String
  rows : List (FeaturedRow α)
  unique : (rows.map fun row => (row.date, row.symbol)).Nodup

variable {α : Type}

def eligibleStockCertKind : String := "보통주"

def excludedSections : List String :=
  ["관리종목(소속부없음)", "SPAC(소속부없음)", "투자주의환기종목(소속부없음)"]

def FeaturedRow.eligible (row : FeaturedRow α) : Bool :=
  row.stockCertKind.all (· == eligibleStockCertKind) && row.section_.all (· ∉ excludedSections)

/-- The order of the ranking: by median trade value, the largest first, then by symbol. -/
def CoreLe [LinearOrder α] (first second : FeaturedRow α) : Prop :=
  second.tvMedian20 < first.tvMedian20 ∨
    first.tvMedian20 = second.tvMedian20 ∧ first.symbol ≤ second.symbol

instance decidableCoreLe [LinearOrder α] : DecidableRel (@CoreLe α _) :=
  fun _ _ => inferInstanceAs (Decidable (_ ∨ _))

namespace Featured

variable [LinearOrder α] (frame : Featured α)

/-- `_eligible_core_rows` of a day -/
def eligibleCoreRows (day : Int) : List (FeaturedRow α) :=
  frame.rows.filter fun row => row.date = day && row.eligible && row.tvMedian20 ≠ ⊥

/-- The symbols of a day by rank. -/
def ranking (day : Int) : List String := ((frame.eligibleCoreRows day).insertionSort CoreLe).map (·.symbol)

def rankOn (day : Int) (symbol : String) : Option Nat :=
  if (frame.ranking day).contains symbol then some ((frame.ranking day).idxOf symbol + 1) else none

/-- The symbol's rank on a day is at most the bound. -/
def within (bound : Nat) (symbol : String) (day : Int) : Bool := (frame.rankOn day symbol).any (· ≤ bound)

/-- The last `warmup` dates up to the decision date. -/
def window (decision : Int) (warmup : Nat) : List Int :=
  let dates := (((frame.rows.map (·.date)).filter (· ≤ decision)).dedup).insertionSort (· ≤ ·)
  dates.drop (dates.length - warmup)

/-- One day of the loop. On the first day, and behind a day without rows, nobody is there to stay. -/
def nextMembers (enter exit : Nat) (members : List String) (day : Int) : List String :=
  let entering := (frame.ranking day).filter (frame.within enter · day)
  entering ++ members.filter fun symbol => frame.within exit symbol day && !entering.contains symbol

def corePanel (decision : Int) (enter exit warmup : Nat) : List (String × Nat) :=
  let members := (frame.window decision warmup).foldl (frame.nextMembers enter exit) []
  (members.filterMap fun symbol => (frame.rankOn decision symbol).map (symbol, ·)).insertionSort
    (·.2 ≤ ·.2)

end Featured

/-- `repr` of a date -/
def reprDate (day : Int) : String :=
  let date := civilOfDay day
  s!"datetime.date({date.1}, {date.2.1}, {date.2.2})"

def selectCorePanel [LinearOrder α] (frame : Featured α) (decision enter exit warmup : Int) :
    Except Error (List (String × Nat)) :=
  if enter < 1 ∨ exit < 1 then
    .error (.valueError s!"core ranks must be >= 1, got enter={enter} exit={exit}")
  else if exit < enter then
    .error (.valueError s!"core_exit_rank {exit} must be >= core_enter_rank {enter}")
  else if warmup < 1 then
    .error (.valueError s!"warmup_sessions must be >= 1, got {warmup}")
  else if ¬ ["tv_median_20", "symbol", "date"] ⊆ frame.columns then
    .error (.valueError "missing required columns: tv_median_20, symbol, date")
  else match ((frame.rows.map (·.date)).filter (decision < ·)).max? with
    | some last => .error (.valueError
        s!"lookahead: max date {reprDate last} exceeds decision_date {reprDate decision}")
    | none => .ok (frame.corePanel decision enter.toNat exit.toNat warmup.toNat)

/-! ### Ranks -/

namespace Featured

variable [LinearOrder α] {frame : Featured α}

theorem ranking_nodup (day : Int) : (frame.ranking day).Nodup := by
  have rows : ((frame.eligibleCoreRows day).map fun row => (row.date, row.symbol)).Nodup :=
    frame.unique.sublist (filter_sublist.map _)
  have today : ∀ row ∈ frame.eligibleCoreRows day, row.date = day := fun row member => by
    have kept := (mem_filter.mp member).2
    simp only [Bool.and_eq_true, decide_eq_true_eq] at kept
    exact kept.1.1
  have symbols : ((frame.eligibleCoreRows day).map (·.symbol)).Nodup :=
    pairwise_map.mpr ((pairwise_map.mp rows).imp_of_mem fun one two different same =>
      different (Prod.ext ((today _ one).trans (today _ two).symm) same))
  exact ((perm_insertionSort CoreLe _).map _).nodup_iff.mpr symbols

theorem within_iff : frame.within bound symbol day = true ↔
    symbol ∈ frame.ranking day ∧ (frame.ranking day).idxOf symbol < bound := by
  unfold within rankOn
  split <;> simp_all [Nat.succ_le_iff]

theorem within_mono (within : frame.within low symbol day = true) (order : low ≤ high) :
    frame.within high symbol day = true := by
  obtain ⟨ranked, index⟩ := within_iff.mp within
  exact within_iff.mpr ⟨ranked, by omega⟩

/-! ### The recurrence -/

/-- One of the days lets the symbol in, and from that day on it is never too low. -/
def Entered (frame : Featured α) (enter exit : Nat) (symbol : String) (days : List Int) : Prop :=
  ∃ before day after, days = before ++ day :: after ∧ frame.within enter symbol day = true ∧
    ∀ later ∈ day :: after, frame.within exit symbol later = true

theorem mem_next_members : symbol ∈ frame.nextMembers enter exit members day ↔
    frame.within enter symbol day = true ∨
      symbol ∈ members ∧ frame.within exit symbol day = true := by
  have entering : symbol ∈ (frame.ranking day).filter (frame.within enter · day) ↔
      frame.within enter symbol day = true :=
    mem_filter.trans (and_iff_right_of_imp fun within => (within_iff.mp within).1)
  by_cases high : frame.within enter symbol day = true
  · simp [nextMembers, high, (within_iff.mp high).1]
  · simp [nextMembers, high]

theorem next_members_nodup (distinct : members.Nodup) (day : Int) :
    (frame.nextMembers enter exit members day).Nodup := by
  refine ((ranking_nodup day).filter _).append (distinct.filter _) fun symbol entering staying => ?_
  have out := (mem_filter.mp staying).2
  simp_all

theorem entered_cons (order : enter ≤ exit) :
    frame.Entered enter exit symbol (day :: days) ↔
      frame.Entered enter exit symbol days ∨ frame.within enter symbol day = true ∧
        ∀ later ∈ days, frame.within exit symbol later = true := by
  constructor
  · rintro ⟨before, first, rest, shape, high, never⟩
    cases before with
    | nil =>
      obtain ⟨rfl, rfl⟩ := cons.inj shape
      exact .inr ⟨high, (forall_mem_cons.mp never).2⟩
    | cons other before =>
      obtain ⟨rfl, rfl⟩ := cons.inj shape
      exact .inl ⟨before, first, rest, rfl, high, never⟩
  · rintro (⟨before, first, rest, rfl, high, never⟩ | ⟨high, never⟩)
    · exact ⟨day :: before, first, rest, rfl, high, never⟩
    · exact ⟨[], day, days, rfl, high, forall_mem_cons.mpr ⟨within_mono high order, never⟩⟩

/-- Members after some days: those let in on the way, and those who were there before and were never
too low. -/
theorem mem_members (order : enter ≤ exit) (days : List Int) (members : List String) :
    symbol ∈ days.foldl (frame.nextMembers enter exit) members ↔
      frame.Entered enter exit symbol days ∨
        symbol ∈ members ∧ ∀ day ∈ days, frame.within exit symbol day = true := by
  induction days generalizing members with
  | nil => simp [Entered]
  | cons day days ih =>
    rw [foldl_cons, ih, mem_next_members, entered_cons order, forall_mem_cons]
    tauto

theorem members_nodup (days : List Int) (distinct : members.Nodup) :
    (days.foldl (frame.nextMembers enter exit) members).Nodup := by
  induction days generalizing members with
  | nil => exact distinct
  | cons day days ih => exact ih (next_members_nodup distinct day)

/-! ### The decision date -/

/-- A date on which a symbol is ranked ends its window. -/
theorem decision_in_window (ranked : symbol ∈ frame.ranking decision)
    (shape : frame.window decision warmup = before ++ day :: rest) :
    decision ∈ day :: rest := by
  unfold window at shape
  simp only at shape
  generalize sort : (((frame.rows.map (·.date)).filter (· ≤ decision)).dedup).insertionSort (· ≤ ·) =
    dates at shape
  have sorted : dates.Pairwise (· ≤ ·) := sort ▸ pairwise_insertionSort _ _
  have dated (date : Int) : date ∈ dates ↔ date ∈ frame.rows.map (·.date) ∧ date ≤ decision := by
    rw [← sort, mem_insertionSort, mem_dedup, mem_filter, decide_eq_true_eq]
  have listed : decision ∈ dates := by
    obtain ⟨row, member, -⟩ := mem_map.mp ranked
    obtain ⟨inside, kept⟩ := mem_filter.mp ((mem_insertionSort CoreLe).mp member)
    simp only [Bool.and_eq_true, decide_eq_true_eq] at kept
    exact (dated _).mpr ⟨mem_map.mpr ⟨row, inside, kept.1.1⟩, le_rfl⟩
  have whole : dates = dates.take (dates.length - warmup) ++ before ++ day :: rest := by
    rw [append_assoc, ← shape, take_append_drop]
  -- what stands before a date is no later, and no date is later than the decision's
  rw [whole] at listed sorted
  rcases mem_append.mp listed with early | late
  · have low := (pairwise_append.mp sorted).2.2 _ early day mem_cons_self
    have high := ((dated day).mp (whole ▸ by simp)).2
    rw [show decision = day by omega]
    exact mem_cons_self
  · exact late

theorem mem_core_panel (order : enter ≤ exit) :
    symbol ∈ (frame.corePanel decision enter exit warmup).map (·.1) ↔
      symbol ∈ frame.ranking decision ∧
        frame.Entered enter exit symbol (frame.window decision warmup) := by
  simp only [corePanel, mem_map, mem_insertionSort, mem_filterMap, mem_members order, not_mem_nil,
    false_and, or_false, rankOn]
  constructor
  · rintro ⟨_, ⟨other, entered, shown⟩, rfl⟩
    split at shown
    · rename_i ranked
      cases shown
      exact ⟨by simpa using ranked, entered⟩
    · cases shown
  · rintro ⟨ranked, entered⟩
    exact ⟨_, ⟨symbol, entered, by rw [if_pos (by simpa using ranked)]; rfl⟩, rfl⟩

theorem core_panel_nodup (decision : Int) (enter exit warmup : Nat) :
    ((frame.corePanel decision enter exit warmup).map (·.1)).Nodup := by
  refine ((perm_insertionSort _ _).map _).nodup_iff.mpr ?_
  rw [map_filterMap]
  refine (members_nodup _ nodup_nil).filterMap fun first second shown one two => ?_
  simp only [Option.map_map, Option.mem_def, Option.map_eq_some_iff] at one two
  obtain ⟨_, _, here⟩ := one
  obtain ⟨_, _, there⟩ := two
  exact here.trans there.symm

theorem core_panel_length (order : enter ≤ exit) :
    (frame.corePanel decision enter exit warmup).length ≤ exit := by
  have low : (frame.corePanel decision enter exit warmup).map (·.1) ⊆
      (frame.ranking decision).take exit := by
    intro symbol member
    obtain ⟨ranked, before, day, rest, shape, -, never⟩ := (mem_core_panel order).mp member
    exact (mem_take_iff_idxOf_lt ranked).mpr (within_iff.mp (never _ (decision_in_window ranked shape))).2
  have bound := (subperm_of_subset (core_panel_nodup _ enter exit warmup) low).length_le
  rw [length_map, length_take] at bound
  omega

end Featured

section Select

variable [LinearOrder α] {frame : Featured α} {decision enter exit warmup : Int}

theorem select_core_panel_ok :
    selectCorePanel frame decision enter exit warmup = .ok panel ↔
      (1 ≤ enter ∧ enter ≤ exit ∧ 1 ≤ warmup ∧ ["tv_median_20", "symbol", "date"] ⊆ frame.columns ∧
        ∀ row ∈ frame.rows, row.date ≤ decision) ∧
      frame.corePanel decision enter.toNat exit.toNat warmup.toNat = panel := by
  have past : ((frame.rows.map (·.date)).filter (decision < ·)).max? = none ↔
      ∀ row ∈ frame.rows, row.date ≤ decision := by
    simp [max?_eq_none_iff, filter_eq_nil_iff]
  rw [← past]
  unfold selectCorePanel
  split_ifs with ranks order warm columns
  · simp
    omega
  · simp
    omega
  · simp
    omega
  · cases last : ((frame.rows.map (·.date)).filter (decision < ·)).max? with
    | some day => simp
    | none =>
      simp only [columns, Except.ok.injEq, and_true]
      exact ⟨fun same => ⟨by omega, same⟩, And.right⟩
  · simp [columns]

end Select

/-- The panel in closed form, with the two bounds: a symbol is in it when it is ranked on the decision
date and has entered on a day of the window without being too low since. It has at most `exit`
members, and looser bounds keep all of them. -/
theorem core_panel_closed_form [LinearOrder α] (frame : Featured α)
    (decision enter exit warmup : Int) (ranks : 1 ≤ enter) (order : enter ≤ exit)
    (warm : 1 ≤ warmup) (columns : ["tv_median_20", "symbol", "date"] ⊆ frame.columns)
    (past : ∀ row ∈ frame.rows, row.date ≤ decision) :
    ∃ panel, selectCorePanel frame decision enter exit warmup = .ok panel ∧
      (∀ symbol, symbol ∈ panel.map (·.1) ↔ (∃ rank, frame.rankOn decision symbol = some rank) ∧
        frame.Entered enter.toNat exit.toNat symbol (frame.window decision warmup.toNat)) ∧
      (panel.map (·.1)).Nodup ∧ panel.length ≤ exit.toNat ∧
      ∀ lower higher wider, enter ≤ lower → exit ≤ higher →
        selectCorePanel frame decision lower higher warmup = .ok wider →
          panel.map (·.1) ⊆ wider.map (·.1) := by
  have order' : enter.toNat ≤ exit.toNat := by omega
  refine ⟨_, select_core_panel_ok.mpr ⟨⟨ranks, order, warm, columns, past⟩, rfl⟩, fun symbol => ?_,
    Featured.core_panel_nodup .., Featured.core_panel_length order', ?_⟩
  · rw [Featured.mem_core_panel order']
    simp [Featured.rankOn]
  · intro lower higher wider looser longer chosen symbol member
    obtain ⟨⟨-, above, -⟩, rfl⟩ := select_core_panel_ok.mp chosen
    obtain ⟨ranked, before, day, rest, shape, high, never⟩ := (Featured.mem_core_panel order').mp member
    refine (Featured.mem_core_panel (by omega)).mpr ⟨ranked, before, day, rest, shape,
      Featured.within_mono high (by omega), fun later listed => ?_⟩
    exact Featured.within_mono (never later listed) (by omega)

namespace Sample

/-- One day A leads and B is second, the next day it is the other way. -/
def swapped : Featured Nat :=
  ⟨["date", "symbol", "tv_median_20"], [⟨1, "A", some 9, none, none⟩, ⟨1, "B", some 5, none, none⟩,
    ⟨2, "A", some 4, none, none⟩, ⟨2, "B", some 7, none, none⟩], by decide⟩

end Sample

/-- A symbol that was first yesterday and is second today stays. -/
theorem second_of_two_stays :
    selectCorePanel Sample.swapped 2 1 2 2 = .ok [("B", 1), ("A", 2)] ∧
      Sample.swapped.Entered 1 2 "A" (Sample.swapped.window 2 2) := by
  have selected : selectCorePanel Sample.swapped 2 1 2 2 = .ok [("B", 1), ("A", 2)] := by
    decide +kernel
  obtain ⟨panel, chosen, closed, -⟩ := core_panel_closed_form Sample.swapped 2 1 2 2 (by decide)
    (by decide) (by decide) (by decide) (by decide)
  cases selected.symm.trans chosen
  exact ⟨selected, ((closed "A").mp (by decide)).2⟩

end KrxAlpha
