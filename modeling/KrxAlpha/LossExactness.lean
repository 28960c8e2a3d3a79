import Mathlib.Order.Interval.Finset.Defs
import Mathlib.Data.Int.Interval
import KrxAlpha.LossConservation

/-! Exactness of the loss ledger. The intervals of a segment stand for the set of
counters between its first and its highest one that no record has carried. The
auditor keeps only their number per interval, so the two agree for as long as
no counter is taken out of an interval twice. -/
namespace KrxAlpha
open List

/-- The counters strictly between two bounds that no record has carried. -/
def unreceived (low high : Int) (received : Finset Int) : Finset Int :=
  ((Finset.range (high - low - 1).toNat).image fun above : Nat => low + 1 + above) \ received

section Unreceived
variable {low high cum : Int} {received : Finset Int}

theorem mem_unreceived : cum ∈ unreceived low high received ↔
    (low < cum ∧ cum < high) ∧ cum ∉ received := by
  simp only [unreceived, Finset.mem_sdiff, Finset.mem_image, Finset.mem_range]
  refine and_congr_left' ⟨?_, fun ⟨above, below⟩ => ⟨(cum - low - 1).toNat, ?_, ?_⟩⟩
  · rintro ⟨above, bound, rfl⟩
    omega
  all_goals omega

theorem unreceived_insert_outside (outside : ¬ (low < cum ∧ cum < high)) :
    unreceived low high (insert cum received) = unreceived low high received := by
  ext other
  simp only [mem_unreceived, Finset.mem_insert, not_or]
  constructor
  · rintro ⟨bounds, -, absent⟩
    exact ⟨bounds, absent⟩
  · rintro ⟨bounds, absent⟩
    exact ⟨bounds, fun same => outside (same ▸ bounds), absent⟩

theorem unreceived_insert_inside (inside : low < cum ∧ cum < high) (new : cum ∉ received) :
    ((unreceived low high (insert cum received)).card : Int) =
      (unreceived low high received).card - 1 := by
  have erased : unreceived low high (insert cum received) = (unreceived low high received).erase cum := by
    ext other
    simp only [mem_unreceived, Finset.mem_insert, Finset.mem_erase]
    tauto
  have member : cum ∈ unreceived low high received := mem_unreceived.mpr ⟨inside, new⟩
  have positive : 0 < (unreceived low high received).card := Finset.card_pos.mpr ⟨cum, member⟩
  rw [erased, Finset.card_erase_of_mem member]
  omega

/-- Counters above everything received are all missing. -/
theorem unreceived_above (reaches : high ≤ cum) (top : ∀ other ∈ received, other ≤ high)
    (carried : high ∈ received) (starts : low ≤ high) :
    ((unreceived low cum (insert cum received)).card : Int) =
      (unreceived low high received).card + max 0 (cum - high - 1) := by
  have split : unreceived low cum (insert cum received) =
      unreceived low high received ∪ Finset.Ioo high cum := by
    ext other
    simp only [mem_unreceived, Finset.mem_insert, Finset.mem_union, Finset.mem_Ioo, not_or]
    constructor
    · rintro ⟨bounds, different, absent⟩
      have : other ≠ high := fun same => absent (same ▸ carried)
      by_cases below : other < high
      · exact .inl ⟨⟨bounds.1, below⟩, absent⟩
      · exact .inr ⟨by omega, bounds.2⟩
    · rintro (⟨bounds, absent⟩ | bounds)
      · exact ⟨⟨bounds.1, by omega⟩, by omega, absent⟩
      · refine ⟨⟨by omega, bounds.2⟩, by omega, fun member => ?_⟩
        have := top other member
        omega
  have apart : Disjoint (unreceived low high received) (Finset.Ioo high cum) := by
    refine Finset.disjoint_left.mpr fun other first second => ?_
    have := (mem_unreceived.mp first).1
    have := Finset.mem_Ioo.mp second
    omega
  rw [split, Finset.card_union_of_disjoint apart, Int.card_Ioo]
  omega

end Unreceived

/-- A begun segment knows exactly which counters of its range no record has carried. -/
structure Tracks (segment : Segment) (first : Int) (received : Finset Int) : Prop where
  known : segment.firstCum = some first
  framed : segment.maxFrame ≠ none
  starts : first ∈ received
  carried : segment.maxCum ∈ received
  top : ∀ cum ∈ received, cum ≤ segment.maxCum
  last : ∀ prev, segment.last = some prev → prev.cum = segment.maxCum
  run : ∀ frame ∈ segment.run, frame.cum ∈ received ∧
    ∀ interval ∈ segment.intervals, ¬ interval.Holds frame.cum
  inside : ∀ interval ∈ segment.intervals,
    first ≤ interval.cumPrev ∧ interval.cumNext ≤ segment.maxCum
  missing : ∀ interval ∈ segment.intervals,
    interval.missingTrades = (unreceived interval.cumPrev interval.cumNext received).card
  disjoint : segment.intervals.Pairwise fun one other => ∀ cum, one.Holds cum → ¬ other.Holds cum
  covered : ∀ cum ∈ unreceived first segment.maxCum received,
    ∃ interval ∈ segment.intervals, interval.Holds cum
  counted : segment.intervalCount = segment.intervals.length
  total : segment.confirmed + segment.countOnly = (unreceived first segment.maxCum received).card

namespace Tracks

variable {segment : Segment} {first : Int} {received : Finset Int} {frame : TickFrame}

section

variable (tracks : Tracks segment first received)
include tracks

/-- A counter that no interval holds is out of range or was carried before. -/
theorem settled (below : cum ≤ segment.maxCum)
    (outside : ∀ interval ∈ segment.intervals, ¬ interval.Holds cum) :
    cum ∈ received ∨ cum < first := by
  by_contra unsettled
  rw [not_or] at unsettled
  have notFirst : cum ≠ first := fun same => unsettled.1 (same ▸ tracks.starts)
  have notMax : cum ≠ segment.maxCum := fun same => unsettled.1 (same ▸ tracks.carried)
  obtain ⟨interval, member, holds⟩ := tracks.covered cum
    (mem_unreceived.mpr ⟨⟨by omega, by omega⟩, unsettled.1⟩)
  exact outside interval member holds

/-- A carried or out-of-range counter changes nothing. -/
theorem insert (below : cum ≤ segment.maxCum)
    (settled : cum ∈ received ∨ cum < first) : Tracks segment first (insert cum received) := by
  rcases settled with carried | early
  · rwa [Finset.insert_eq_of_mem carried]
  · have same : ∀ low high, first ≤ low →
        unreceived low high (Insert.insert cum received) = unreceived low high received :=
      fun low high after => unreceived_insert_outside (by omega)
    exact
      { tracks with
        starts := Finset.mem_insert_of_mem tracks.starts
        carried := Finset.mem_insert_of_mem tracks.carried
        top := Finset.forall_mem_insert _ _ _ |>.mpr ⟨below, tracks.top⟩
        run := fun frame member => ⟨Finset.mem_insert_of_mem (tracks.run frame member).1,
          (tracks.run frame member).2⟩
        missing := by
          intro interval member
          rw [same _ _ (tracks.inside interval member).1]
          exact tracks.missing interval member
        covered := by
          intro other member
          rw [same _ _ (le_refl first)] at member
          exact tracks.covered other member
        total := by
          rw [same _ _ (le_refl first)]
          exact tracks.total }

theorem noteConn (frame : TickFrame) : Tracks (segment.noteConn frame) first received :=
  ⟨tracks.1, tracks.2, tracks.3, tracks.4, tracks.5, tracks.6, tracks.7, tracks.8, tracks.9,
    tracks.10, tracks.11, tracks.12, tracks.13⟩

end

private theorem leftover_sublist (frame : TickFrame) (interval : LossInterval) :
    (interval.leftover frame).Sublist [interval.shrunk frame] := by
  unfold LossInterval.leftover
  split_ifs
  · exact nil_sublist _
  · exact .refl _

private abbrev Apart (one other : LossInterval) : Prop := ∀ cum, one.Holds cum → ¬ other.Holds cum

-- A shrunk interval holds what it held before.
private theorem absorb_disjoint (frame : TickFrame) {interval : LossInterval}
    (apart : (front ++ interval :: back).Pairwise Apart) :
    (front ++ (interval.leftover frame ++ back)).Pairwise Apart := by
  have shrunk : (front ++ interval.shrunk frame :: back).Pairwise Apart := by
    simp only [pairwise_append, pairwise_cons, forall_mem_cons] at apart ⊢
    exact apart
  exact shrunk.sublist (((leftover_sublist frame interval).append_right back).append_left front)

private theorem absorb_members {interval : LossInterval} :
    ∀ other ∈ front ++ (interval.leftover frame ++ back),
      other ∈ front ++ back ∨ other = interval.shrunk frame := by
  intro other place
  simp only [mem_append] at place ⊢
  rcases place with early | rest | late
  · exact .inl (.inl early)
  · exact .inr (mem_singleton.mp ((leftover_sublist frame interval).subset rest))
  · exact .inl (.inr late)

section

variable (tracks : Tracks segment first received) {interval : LossInterval}
  (split : segment.intervals = front ++ interval :: back) (holds : interval.Holds frame.cum)
include tracks split holds

private theorem absorb_covered (new : frame.cum ∉ received) :
    ∀ cum ∈ unreceived first segment.maxCum (Insert.insert frame.cum received),
      ∃ other ∈ front ++ (interval.leftover frame ++ back), other.Holds cum := by
  intro cum absent
  obtain ⟨range, fresh⟩ := mem_unreceived.mp absent
  obtain ⟨different, missing⟩ := not_or.mp (mt Finset.mem_insert.mpr fresh)
  obtain ⟨old, inside, held⟩ := tracks.covered cum (mem_unreceived.mpr ⟨range, missing⟩)
  rw [split, mem_append, mem_cons] at inside
  rcases inside with early | rfl | late
  · exact ⟨old, by simp [early], held⟩
  · have more : old.missingTrades - 1 ≠ 0 := by
      have count := tracks.missing old (by simp [split])
      have two : 1 < (unreceived old.cumPrev old.cumNext received).card :=
        Finset.one_lt_card.mpr ⟨cum, mem_unreceived.mpr ⟨held, missing⟩, frame.cum,
          mem_unreceived.mpr ⟨holds, new⟩, different⟩
      omega
    exact ⟨old.shrunk frame, by simp [LossInterval.leftover, more], held⟩
  · exact ⟨old, by simp [late], held⟩

private theorem absorb_others :
    ∀ other ∈ front ++ back, other ∈ segment.intervals ∧ ¬ other.Holds frame.cum := by
  have apart := tracks.disjoint
  rw [split, pairwise_append, pairwise_cons] at apart
  obtain ⟨-, ⟨behind, -⟩, across⟩ := apart
  intro other place
  rcases mem_append.mp place with early | late
  · exact ⟨by simp [split, early], fun held =>
      across other early interval (by simp) frame.cum held holds⟩
  · exact ⟨by simp [split, late], behind other late frame.cum holds⟩

/-- A late counter that no record carried before leaves the interval that held it. -/
theorem absorb (new : frame.cum ∉ received) :
    Tracks (segment.absorb frame interval (front ++ (interval.leftover frame ++ back))) first
      (Insert.insert frame.cum received) := by
  have member : interval ∈ segment.intervals := by simp [split]
  have bounds := tracks.inside interval member
  have range : first < frame.cum ∧ frame.cum < segment.maxCum :=
    ⟨lt_of_le_of_lt bounds.1 holds.1, lt_of_lt_of_le holds.2 bounds.2⟩
  have others := tracks.absorb_others split holds
  have heirs : ∀ other ∈ front ++ (interval.leftover frame ++ back),
      ∃ old ∈ segment.intervals, old.cumPrev = other.cumPrev ∧ old.cumNext = other.cumNext := by
    intro other place
    rcases absorb_members other place with old | rfl
    · exact ⟨other, (others other old).1, rfl, rfl⟩
    · exact ⟨interval, member, rfl, rfl⟩
  refine
    { known := tracks.known
      framed := tracks.framed
      starts := Finset.mem_insert_of_mem tracks.starts
      carried := Finset.mem_insert_of_mem tracks.carried
      top := Finset.forall_mem_insert _ _ _ |>.mpr ⟨range.2.le, tracks.top⟩
      last := tracks.last
      run := ?_
      inside := ?_
      missing := ?_
      disjoint := absorb_disjoint frame (split ▸ tracks.disjoint)
      covered := absorb_covered tracks split holds new
      counted := ?_
      total := ?_ }
  · intro late place
    refine ⟨Finset.mem_insert_of_mem (tracks.run late place).1, fun other kept held => ?_⟩
    obtain ⟨old, inside, low, high⟩ := heirs other kept
    exact (tracks.run late place).2 old inside ⟨low ▸ held.1, high ▸ held.2⟩
  · intro other kept
    obtain ⟨old, inside, low, high⟩ := heirs other kept
    rw [← low, ← high]
    exact tracks.inside old inside
  · intro other kept
    rcases absorb_members other kept with old | rfl
    · rw [unreceived_insert_outside (others other old).2]
      exact tracks.missing other (others other old).1
    · simp only [LossInterval.shrunk]
      rw [unreceived_insert_inside holds new, ← tracks.missing interval member]
  · have before := tracks.counted
    simp only [split, length_append, length_cons] at before
    simp only [Segment.absorb, LossInterval.leftover]
    split_ifs <;> simp <;> omega
  · have before := tracks.total
    simp only [Segment.absorb]
    rw [unreceived_insert_inside range new]
    split_ifs <;> omega

end

variable {settings : AuditSettings}

private theorem retain_perm
    (fits : intervals.length ≤ settings.maxIntervalsPerSymbol) :
    (settings.retain intervals).Perm intervals := by
  rw [AuditSettings.retain, take_of_length_le (by simpa using fits)]
  exact perm_insertionSort _ _

private theorem record_advance_opens (symbol : String)
    (tracks : Tracks segment first received) (reaches : segment.maxCum ≤ frame.cum)
    (uncapped : (segment.recordAdvance settings symbol frame).intervalCount ≤
      settings.maxIntervalsPerSymbol) :
    ∃ extra : List LossInterval,
      (segment.recordAdvance settings symbol frame).intervals.Perm (segment.intervals ++ extra) ∧
      (segment.recordAdvance settings symbol frame).intervalCount =
        segment.intervalCount + extra.length ∧
      (segment.recordAdvance settings symbol frame).confirmed +
          (segment.recordAdvance settings symbol frame).countOnly =
        segment.confirmed + segment.countOnly + max 0 (frame.cum - segment.maxCum - 1) ∧
      (segment.maxCum + 1 < frame.cum → extra ≠ []) ∧ extra.length ≤ 1 ∧
      ∀ interval ∈ extra, interval.cumPrev = segment.maxCum ∧ interval.cumNext = frame.cum ∧
        interval.missingTrades = max 0 (frame.cum - segment.maxCum - 1) := by
  obtain ⟨prev, met⟩ := Option.ne_none_iff_exists'.mp tracks.framed
  have counted := tracks.counted
  simp only [Segment.recordAdvance, Segment.recordLoss, met] at uncapped ⊢
  split_ifs at uncapped ⊢ with jumps
  · refine ⟨[segment.opened symbol prev frame], retain_perm ?_, rfl, ?_, by simp, by simp, ?_⟩
    · simp only [Segment.openInterval] at uncapped
      simp only [length_append, length_singleton]
      omega
    · simp only [Segment.openInterval, Segment.opened]
      split_ifs <;> omega
    · intro interval member
      rw [mem_singleton.mp member, max_eq_right (by omega)]
      exact ⟨rfl, rfl, rfl⟩
  · refine ⟨[], by simp, by simp, by omega, by omega, by simp, by simp⟩

private theorem opened_disjoint {intervals after extra : List LossInterval}
    (perm : after.Perm (intervals ++ extra))
    (apart : intervals.Pairwise Apart)
    (below : ∀ interval ∈ intervals, interval.cumNext ≤ high) (single : extra.length ≤ 1)
    (starts : ∀ interval ∈ extra, interval.cumPrev = high) :
    after.Pairwise Apart := by
  have symmetric : ∀ {one other : LossInterval}, Apart one other → Apart other one :=
    fun apart cum held back => apart cum back held
  refine (perm.pairwise_iff symmetric).mpr (pairwise_append.mpr ⟨apart, ?_, ?_⟩)
  · cases extra with
    | nil => exact .nil
    | cons interval rest =>
      have alone : rest = [] := by simpa using single
      simp [alone]
  · intro old member interval new cum held other
    have := below old member
    have := starts interval new
    have := held.2
    have := other.1
    omega

private theorem opened_covered (tracks : Tracks segment first received)
    {after extra : List LossInterval} (perm : after.Perm (segment.intervals ++ extra))
    (jumped : segment.maxCum + 1 < frame.cum → extra ≠ [])
    (spans : ∀ interval ∈ extra, interval.cumPrev = segment.maxCum ∧ interval.cumNext = frame.cum) :
    ∀ cum ∈ unreceived first frame.cum (Insert.insert frame.cum received),
      ∃ interval ∈ after, interval.Holds cum := by
  intro cum absent
  obtain ⟨range, fresh⟩ := mem_unreceived.mp absent
  have missing : cum ∉ received := fun old => fresh (Finset.mem_insert_of_mem old)
  by_cases below : cum < segment.maxCum
  · obtain ⟨interval, member, held⟩ :=
      tracks.covered cum (mem_unreceived.mpr ⟨⟨range.1, below⟩, missing⟩)
    exact ⟨interval, perm.mem_iff.mpr (by simp [member]), held⟩
  · have notMax : cum ≠ segment.maxCum := fun same => missing (same ▸ tracks.carried)
    obtain ⟨interval, member⟩ := exists_mem_of_ne_nil _ (jumped (by omega))
    obtain ⟨low, high⟩ := spans interval member
    exact ⟨interval, perm.mem_iff.mpr (by simp [member]), by rw [low]; omega, by rw [high]; omega⟩

/-- A counter at or above the maximum. -/
theorem recordAdvance (symbol : String)
    (tracks : Tracks segment first received) (reaches : segment.maxCum ≤ frame.cum)
    (cleared : segment.run = [])
    (uncapped : (segment.recordAdvance settings symbol frame).intervalCount ≤
      settings.maxIntervalsPerSymbol) :
    Tracks { segment.recordAdvance settings symbol frame with last := some frame } first
      (Insert.insert frame.cum received) := by
  obtain ⟨extra, perm, counted, total, jumped, single, opened⟩ :=
    tracks.record_advance_opens symbol reaches uncapped
  have begins : first ≤ segment.maxCum := tracks.top first tracks.starts
  have members : ∀ interval ∈ (segment.recordAdvance settings symbol frame).intervals,
      interval ∈ segment.intervals ∨ interval ∈ extra := by
    intro interval member
    simpa using perm.mem_iff.mp member
  refine
    { known := (record_advance_keeps settings symbol segment frame).1.trans tracks.known
      framed := by simp [Segment.recordAdvance]
      starts := Finset.mem_insert_of_mem tracks.starts
      carried := Finset.mem_insert_self _ _
      top := ?_
      last := ?_
      run := by simp [(record_advance_keeps settings symbol segment frame).2.2, cleared]
      inside := ?_
      missing := ?_
      disjoint := ?_
      covered := ?_
      counted := ?_
      total := ?_ }
  · exact Finset.forall_mem_insert _ _ _ |>.mpr
      ⟨le_refl _, fun cum old => (tracks.top cum old).trans reaches⟩
  · rintro prev ⟨⟩
    rfl
  · intro interval member
    rcases members interval member with old | new
    · exact ⟨(tracks.inside interval old).1, (tracks.inside interval old).2.trans reaches⟩
    · exact ⟨(opened interval new).1 ▸ begins, (opened interval new).2.1.le⟩
  · intro interval member
    rcases members interval member with old | new
    · have below := (tracks.inside interval old).2
      rw [unreceived_insert_outside (by omega)]
      exact tracks.missing interval old
    · obtain ⟨low, high, missing⟩ := opened interval new
      have none : unreceived segment.maxCum segment.maxCum received = ∅ := by simp [unreceived]
      rw [missing, low, high, unreceived_above reaches tracks.top tracks.carried (le_refl _), none]
      simp
  · exact opened_disjoint perm tracks.disjoint (fun old member => (tracks.inside old member).2)
      single fun interval new => (opened interval new).1
  · exact opened_covered tracks perm jumped fun interval new =>
      ⟨(opened interval new).1, (opened interval new).2.1⟩
  · rw [show (segment.recordAdvance settings symbol frame).intervals.length =
      segment.intervals.length + extra.length by simpa using perm.length_eq]
    have := tracks.counted
    push_cast
    omega
  · have above := unreceived_above reaches tracks.top tracks.carried begins
    rw [← tracks.total] at above
    exact total.trans above.symm

end Tracks

/-- A segment fed with records that carried these counters. -/
def Follows (segment : Segment) (received : Finset Int) : Prop :=
  (segment.firstCum = none ∧ segment.Blank ∧ segment.intervalCount = 0 ∧
    segment.confirmed + segment.countOnly = 0 ∧ received = ∅) ∨
  ∃ first, Tracks segment first received

section Step
variable {settings : AuditSettings} {symbol : String} {tally : Tally} {segment : Segment}
  {received : Finset Int} {frame : TickFrame}

private theorem blank_starts (blank : segment.Blank) (none : segment.intervalCount = 0)
    (zero : segment.confirmed + segment.countOnly = 0) :
    Tracks ((segment.noteConn frame).start frame) frame.cum (insert frame.cum ∅) where
  known := rfl
  framed := by simp [Segment.start]
  starts := Finset.mem_insert_self _ _
  carried := Finset.mem_insert_self _ _
  top := by simp [Segment.start]
  last := by
    rintro prev ⟨⟩
    rfl
  run := by simp [Segment.start, Segment.noteConn, blank.run]
  inside := by simp [Segment.start, Segment.noteConn, blank.intervals]
  missing := by simp [Segment.start, Segment.noteConn, blank.intervals]
  disjoint := by simp [Segment.start, Segment.noteConn, blank.intervals]
  covered := by simp [unreceived, Segment.start]
  counted := by simp [Segment.start, Segment.noteConn, blank.intervals, none]
  total := by simp [unreceived, Segment.start, Segment.noteConn, zero]

theorem duplicate_cum (same : isDuplicate former newer = true) : newer.cum = former.cum := by
  simp only [isDuplicate, Prod.mk.injEq, decide_eq_true_eq] at same
  exact same.1

/-- A frame that no earlier one made late in vain keeps the ledger exact. -/
theorem Follows.advance (follows : Follows segment received)
    (quiet : (advanceSegment settings symbol tally segment frame).tally.resets = tally.resets)
    (uncapped : (advanceSegment settings symbol tally segment frame).segment.intervalCount ≤
      settings.maxIntervalsPerSymbol)
    (new : ∀ interval ∈ segment.intervals, interval.Holds frame.cum → frame.cum ∉ received) :
    Follows (advanceSegment settings symbol tally segment frame).segment
      (insert frame.cum received) := by
  have step := advance_segment_cases settings symbol tally segment frame
  generalize advanceSegment settings symbol tally segment frame = done at step quiet uncapped
  rcases follows with ⟨unstarted, blank, none, zero, rfl⟩ | ⟨first, tracks⟩
  · cases step with
    | duplicate prev kept same => simp [blank.last, blank.run] at kept
    | stale below met outside => simp [blank.maxFrame, blank.intervals] at met
    | absorbed front interval back split holds earlier => simp [blank.intervals] at split
    | started fresh => exact .inr ⟨frame.cum, blank_starts blank none zero⟩
    | regressed first known _ _ _ _ => cases unstarted.symm.trans known
    | reset first known _ _ _ => cases unstarted.symm.trans known
    | advanced first known _ => cases unstarted.symm.trans known
  refine .inr ⟨first, ?_⟩
  cases step with
  | duplicate prev kept same =>
    have equal := duplicate_cum same
    have carried : frame.cum ∈ received := by
      rw [equal]
      rcases kept with last | run
      · exact tracks.last prev last ▸ tracks.carried
      · exact (tracks.run prev (mem_of_getLast? run)).1
    exact tracks.insert (tracks.top _ carried) (.inl carried)
  | stale below met outside => exact tracks.insert below (tracks.settled below outside)
  | absorbed front interval back split holds earlier =>
    exact tracks.absorb split holds (new interval (by simp [split]) holds)
  | started fresh => cases tracks.known.symm.trans fresh
  | regressed other known below clear run tail =>
    have outside : ∀ interval ∈ segment.intervals, ¬ interval.Holds frame.cum :=
      fun interval member held => clear interval member ⟨held.1.le, held.2.le⟩
    have kept := tracks.insert below.le (tracks.settled below.le outside)
    refine { kept.noteConn frame with run := ?_ }
    intro late member
    rcases mem_append.mp (tail.subset member) with old | new
    · exact kept.run late old
    · rw [mem_singleton.mp new]
      exact ⟨Finset.mem_insert_self _ _, outside⟩
  | reset other known base items rising => simp at quiet
  | advanced other known reaches =>
    have cleared : Tracks { segment.noteConn frame with run := [] } first received :=
      { tracks.noteConn frame with run := by simp }
    exact cleared.recordAdvance symbol reaches rfl uncapped

/-- A counter an interval holds is always taken out of it, carried before or not. -/
theorem Tracks.reabsorb (tracks : Tracks segment first received)
    (member : interval ∈ segment.intervals) (holds : interval.Holds frame.cum)
    (quiet : (advanceSegment settings symbol tally segment frame).tally.resets = tally.resets) :
    let later := (advanceSegment settings symbol tally segment frame).segment
    later.firstCum = some first ∧ later.maxCum = segment.maxCum ∧
      later.confirmed + later.countOnly = segment.confirmed + segment.countOnly - 1 := by
  have step := advance_segment_cases settings symbol tally segment frame
  have below := (tracks.inside interval member).2
  have high := holds.2
  generalize advanceSegment settings symbol tally segment frame = done at step quiet
  cases step with
  | duplicate prev kept same =>
    have equal := duplicate_cum same
    rcases kept with last | run
    · have := tracks.last prev last
      omega
    · exact absurd (equal ▸ holds) ((tracks.run prev (mem_of_getLast? run)).2 interval member)
  | stale _ _ outside => exact absurd holds (outside interval member)
  | absorbed front other back split _ _ =>
    refine ⟨tracks.known, rfl, ?_⟩
    simp only [Segment.absorb]
    split_ifs <;> omega
  | started fresh => cases tracks.known.symm.trans fresh
  | regressed _ _ _ clear _ _ => exact absurd ⟨holds.1.le, holds.2.le⟩ (clear interval member)
  | reset _ _ _ _ _ => simp at quiet
  | advanced _ _ reaches => omega

end Step

/-- The counter a record carries. -/
def carriedCum (input : Envelope × TickBody) : Option Int :=
  (decodeTick input.1 input.2).map (·.frame.cum)

def carriedCums (inputs : List (Envelope × TickBody)) : Finset Int :=
  (inputs.filterMap carriedCum).toFinset

/-- A sequence number on a connection belongs to one frame, however often it is delivered. -/
def Sequenced (inputs : List (Envelope × TickBody)) : Prop :=
  ∀ first ∈ inputs, ∀ second ∈ inputs, first.1.connId ≠ "" → first.1.connId = second.1.connId →
    first.1.connSeq ≠ none → first.1.connSeq = second.1.connSeq → carriedCum first = carriedCum second

namespace Auditor

/-- A decodable tick of the symbol and phase, from a feed with trade counters. -/
def Counts (auditor : Auditor) (symbol : String) (phase : MarketPhase)
    (input : Envelope × TickBody) : Prop :=
  auditor.kiwoom = false ∧ ∃ frame, decodeTick input.1 input.2 = some ⟨symbol, frame⟩ ∧
    auditor.classify frame.chetime = phase

def segmentAfter (auditor : Auditor) (symbol : String) (phase : MarketPhase)
    (inputs : List (Envelope × TickBody)) : Segment :=
  (((auditor.derive inputs).symbolState symbol).segments.get? phase).getD { phase }

/-- The booked loss is the number of counters between the segment's first and its
highest one that no record carried. -/
def Exact (auditor : Auditor) (symbol : String) (phase : MarketPhase)
    (inputs : List (Envelope × TickBody)) : Prop :=
  let segment := auditor.segmentAfter symbol phase inputs
  ∀ first, segment.firstCum = some first →
    segment.confirmed + segment.countOnly =
      (unreceived first segment.maxCum (carriedCums inputs)).card

/-- A record brings a counter again that an open interval still spans, and the
sequence numbers do not give it away. -/
def Reabsorbs (auditor : Auditor) (symbol : String) (phase : MarketPhase)
    (before : List (Envelope × TickBody)) (input : Envelope × TickBody) : Prop :=
  (auditor.derive before).sequenceDuplicate input.1 = false ∧
    ∃ cum ∈ carriedCums before, carriedCum input = some cum ∧
      ∃ interval ∈ (auditor.segmentAfter symbol phase before).intervals, interval.Holds cum

end Auditor

section Records
variable {auditor : Auditor} {symbol : String} {phase : MarketPhase}
  {before inputs : List (Envelope × TickBody)} {input : Envelope × TickBody} {frame : TickFrame}

theorem derive_append (auditor : Auditor) (before : List (Envelope × TickBody))
    (input : Envelope × TickBody) :
    auditor.derive (before ++ [input]) = auditor.processRecord (auditor.derive before) input := by
  simp [Auditor.derive]

theorem note_regular_tick_seen (derivation : Derivation) (phase : MarketPhase) (record : Envelope) :
    (derivation.noteRegularTick phase record).seen = derivation.seen := by
  unfold Derivation.noteRegularTick
  split_ifs <;> rfl

/-- A counted record is a sequence duplicate or goes to the segment of its phase. -/
theorem process_counted (counts : auditor.kiwoom = false)
    (decoded : decodeTick input.1 input.2 = some ⟨symbol, frame⟩) (derivation : Derivation) :
    (auditor.processRecord derivation input).symbolState symbol =
      if derivation.sequenceDuplicate input.1 then
        { derivation.symbolState symbol with
          duplicates := (derivation.symbolState symbol).duplicates + 1 }
      else auditor.bookTick (derivation.symbolState symbol) ⟨symbol, frame⟩ := by
  have noted : ∀ phase, (derivation.noteRegularTick phase input.1).sequenceDuplicate input.1 =
      derivation.sequenceDuplicate input.1 := by
    intro phase
    simp only [Derivation.sequenceDuplicate, Derivation.seenOn, note_regular_tick_seen]
  simp only [Auditor.processRecord, Auditor.acceptTick, counts, decoded, noted]
  simp only [Derivation.symbolState]
  split_ifs <;> simp [Derivation.setSymbol]

/-- The tally a counted record meets. -/
private abbrev tallyBefore (auditor : Auditor) (symbol : String)
    (before : List (Envelope × TickBody)) : Tally :=
  ((auditor.derive before).symbolState symbol).toTally

theorem segment_after_duplicate (counts : auditor.Counts symbol phase input)
    (repeated : (auditor.derive before).sequenceDuplicate input.1 = true) :
    auditor.segmentAfter symbol phase (before ++ [input]) = auditor.segmentAfter symbol phase before ∧
      tallyBefore auditor symbol (before ++ [input]) = (tallyBefore auditor symbol before).duplicate := by
  obtain ⟨counted, frame, decoded, -⟩ := counts
  constructor <;>
    simp only [Auditor.segmentAfter, tallyBefore, derive_append, process_counted counted decoded,
      repeated, if_true, Tally.duplicate]

theorem segment_after_fresh (counted : auditor.kiwoom = false)
    (decoded : decodeTick input.1 input.2 = some ⟨symbol, frame⟩)
    (classified : auditor.classify frame.chetime = phase)
    (fresh : (auditor.derive before).sequenceDuplicate input.1 = false) :
    auditor.segmentAfter symbol phase (before ++ [input]) =
        (advanceSegment auditor.settings symbol (tallyBefore auditor symbol before)
          (auditor.segmentAfter symbol phase before) frame).segment ∧
      tallyBefore auditor symbol (before ++ [input]) =
        (advanceSegment auditor.settings symbol (tallyBefore auditor symbol before)
          (auditor.segmentAfter symbol phase before) frame).tally := by
  subst classified
  constructor <;>
    simp only [Auditor.segmentAfter, tallyBefore, derive_append, process_counted counted decoded,
      fresh, Bool.false_eq_true, if_false, Auditor.bookTick, Dict.get?_set_self, Option.getD_some]

theorem advance_segment_resets (settings : AuditSettings) (symbol : String) (tally : Tally)
    (segment : Segment) (frame : TickFrame) :
    tally.resets ≤ (advanceSegment settings symbol tally segment frame).tally.resets := by
  have step := advance_segment_cases settings symbol tally segment frame
  generalize advanceSegment settings symbol tally segment frame = done at step
  cases step <;> simp [Tally.duplicate, Tally.accept]

/-- Confirmed resets are never taken back. -/
theorem resets_mono (counts : ∀ input ∈ inputs, auditor.Counts symbol phase input)
    (part : before <+: inputs) :
    (tallyBefore auditor symbol before).resets ≤ (tallyBefore auditor symbol inputs).resets := by
  induction inputs using reverseRecOn with
  | nil => rw [prefix_nil.mp part]
  | append_singleton inputs input ih =>
    rcases prefix_concat_iff.mp part with rfl | earlier
    · rfl
    · refine (ih (fun other member => counts other (by simp [member])) earlier).trans ?_
      have counted := counts input (by simp)
      cases repeated : (auditor.derive inputs).sequenceDuplicate input.1 with
      | true => rw [(segment_after_duplicate counted repeated).2]; rfl
      | false =>
        obtain ⟨feed, frame, decoded, classified⟩ := counted
        rw [(segment_after_fresh feed decoded classified repeated).2]
        exact advance_segment_resets _ _ _ _ _

theorem note_sequence_seen (derivation : Derivation) (record : Envelope) (conn : String) (seq : Int) :
    seq ∈ (derivation.noteSequence record).seenOn conn ↔
      seq ∈ derivation.seenOn conn ∨
        (record.connId = conn ∧ conn ≠ "" ∧ record.connSeq = some seq) := by
  unfold Derivation.noteSequence
  cases held : record.connSeq with
  | none => simp
  | some own =>
    split_ifs with unnamed
    · have apart : ¬ (record.connId = conn ∧ conn ≠ "" ∧ some own = some seq) := by
        rintro ⟨rfl, named, -⟩
        exact named unnamed
      simp only [apart, or_false]
    · by_cases same : conn = record.connId
      · subst same
        simp [Derivation.seenOn, unnamed, or_comm, eq_comm]
      · simp [Derivation.seenOn, Dict.get?_set, same, Ne.symm same]

private theorem accept_tick_seen
    (seen : seq ∈ (auditor.acceptTick derivation record body).seenOn conn) :
    seq ∈ derivation.seenOn conn ∨ (record.connId = conn ∧ record.connSeq = some seq) := by
  have regular : ∀ (other : Derivation) phase,
      seq ∈ (other.noteRegularTick phase record).seenOn conn → seq ∈ other.seenOn conn := by
    intro other phase
    simp only [Derivation.seenOn, note_regular_tick_seen, imp_self]
  unfold Auditor.acceptTick at seen
  split at seen
  · have early := regular _ _ seen
    exact .inl early
  · split at seen <;> exact .inl seen
  · simp only at seen
    split_ifs at seen
    · have early := regular _ _ seen
      exact .inl early
    · rcases (note_sequence_seen _ record conn seq).mp seen with early | own
      · exact .inl (regular _ _ early)
      · exact .inr ⟨own.1, own.2.2⟩

/-- Only sequence numbers of records are remembered. -/
theorem derive_seen (auditor : Auditor) (inputs : List (Envelope × TickBody)) (conn : String)
    (seq : Int) : seq ∈ (auditor.derive inputs).seenOn conn →
      ∃ input ∈ inputs, input.1.connId = conn ∧ input.1.connSeq = some seq := by
  induction inputs using reverseRecOn with
  | nil => simp [Auditor.derive, Derivation.seenOn]
  | append_singleton inputs input ih =>
    intro seen
    rw [derive_append, Auditor.processRecord, note_sequence_seen] at seen
    have noted : seq ∈ (auditor.derive inputs).seenOn conn ∨
        (input.1.connId = conn ∧ input.1.connSeq = some seq) := by
      rcases seen with early | own
      · exact accept_tick_seen early
      · exact .inr ⟨own.1, own.2.2⟩
    rcases noted with early | own
    · obtain ⟨earlier, member, same⟩ := ih early
      exact ⟨earlier, by simp [member], same⟩
    · exact ⟨input, by simp, own⟩

theorem carried_cums_append (before : List (Envelope × TickBody))
    (carried : carriedCum input = some cum) :
    carriedCums (before ++ [input]) = insert cum (carriedCums before) := by
  simp [carriedCums, carried]

/-- A sequence duplicate brings a counter that was carried before. -/
theorem duplicate_carried (sequenced : Sequenced (before ++ [input]))
    (carried : carriedCum input = some cum)
    (repeated : (auditor.derive before).sequenceDuplicate input.1 = true) :
    cum ∈ carriedCums before := by
  simp only [Derivation.sequenceDuplicate, Bool.and_eq_true, decide_eq_true_eq,
    Option.any_eq_true, SpanSet.contains_iff] at repeated
  obtain ⟨named, seq, numbered, seen⟩ := repeated
  obtain ⟨earlier, member, conn, same⟩ := derive_seen auditor before _ _ seen
  have equal : carriedCum earlier = carriedCum input :=
    sequenced earlier (by simp [member]) input (by simp) (conn ▸ named) conn (by simp [same])
      (same.trans numbered.symm)
  simp only [carriedCums, mem_toFinset, mem_filterMap]
  exact ⟨earlier, member, equal.trans carried⟩

/-- The segment is exact as long as no record brought a counter into it twice. -/
theorem follows_records (counts : ∀ input ∈ inputs, auditor.Counts symbol phase input)
    (sequenced : Sequenced inputs)
    (unreset : ((auditor.derive inputs).symbolState symbol).resets = 0)
    (uncapped : ∀ before, before <+: inputs →
      (auditor.segmentAfter symbol phase before).intervalCount ≤
        auditor.settings.maxIntervalsPerSymbol)
    (fresh : ∀ before input, before ++ [input] <+: inputs →
      ¬ auditor.Reabsorbs symbol phase before input) :
    Follows (auditor.segmentAfter symbol phase inputs) (carriedCums inputs) := by
  induction inputs using reverseRecOn with
  | nil => exact .inl ⟨rfl, ⟨rfl, rfl, rfl, rfl, rfl⟩, rfl, rfl, rfl⟩
  | append_singleton inputs input ih =>
    have front : inputs <+: inputs ++ [input] := prefix_append _ _
    have early := resets_mono counts front
    have before := ih (fun other member => counts other (by simp [member]))
      (fun first one second two => sequenced first (by simp [one]) second (by simp [two]))
      (Nat.le_zero.mp (early.trans_eq unreset)) (fun part short => uncapped part (short.trans front))
      (fun part other short => fresh part other (short.trans front))
    have counted := counts input (by simp)
    obtain ⟨feed, frame, decoded, classified⟩ := counts input (by simp)
    have carried : carriedCum input = some frame.cum := by simp [carriedCum, decoded]
    have bounded := uncapped _ (prefix_refl _)
    rw [carried_cums_append inputs carried]
    cases repeated : (auditor.derive inputs).sequenceDuplicate input.1 with
    | true =>
      rw [(segment_after_duplicate counted repeated).1,
        Finset.insert_eq_of_mem (duplicate_carried sequenced carried repeated)]
      exact before
    | false =>
      obtain ⟨stepped, tallied⟩ := segment_after_fresh feed decoded classified repeated
      rw [stepped] at bounded ⊢
      have quiet : (tallyBefore auditor symbol (inputs ++ [input])).resets = 0 := unreset
      refine before.advance ?_ bounded ?_
      · rw [← tallied, quiet]
        exact (Nat.le_zero.mp (early.trans_eq unreset)).symm
      · intro interval member holds old
        exact fresh inputs input (prefix_refl _)
          ⟨repeated, frame.cum, old, carried, interval, member, holds⟩

/-- Counters that are each delivered once are never taken out twice. -/
theorem distinct_never_reabsorbed (distinct : (inputs.filterMap carriedCum).Nodup)
    (short : before ++ [input] <+: inputs) : ¬ auditor.Reabsorbs symbol phase before input := by
  rintro ⟨-, cum, old, carried, -⟩
  have apart := distinct.sublist (short.sublist.filterMap carriedCum)
  simp only [filterMap_append, filterMap_cons, carried] at apart
  exact (nodup_append.mp apart).2.2 cum (mem_toFinset.mp old) cum (by simp) rfl

/-- A counter taken out of an interval a second time leaves the ledger one short. -/
theorem reabsorbs_inexact (follows : Follows (auditor.segmentAfter symbol phase before)
      (carriedCums before)) (counts : auditor.Counts symbol phase input)
    (unreset : ((auditor.derive (before ++ [input])).symbolState symbol).resets =
      ((auditor.derive before).symbolState symbol).resets)
    (reabsorbs : auditor.Reabsorbs symbol phase before input) :
    ¬ auditor.Exact symbol phase (before ++ [input]) := by
  obtain ⟨fresh, cum, old, carried, interval, member, holds⟩ := reabsorbs
  obtain ⟨feed, frame, decoded, classified⟩ := counts
  obtain rfl : frame.cum = cum := by simpa [carriedCum, decoded] using carried
  obtain ⟨stepped, tallied⟩ := segment_after_fresh feed decoded classified fresh
  rcases follows with ⟨-, blank, -⟩ | ⟨first, tracks⟩
  · simp [blank.intervals] at member
  have quiet := congrArg Tally.resets tallied
  obtain ⟨known, top, lower⟩ := tracks.reabsorb member holds (quiet.symm.trans unreset)
  rw [← stepped] at known top lower
  intro exact
  have claimed := exact first known
  rw [carried_cums_append before carried, Finset.insert_eq_of_mem old, top, ← tracks.total] at claimed
  omega

end Records

/-- Along records of one symbol and phase, without a reset and below the interval cap,
the booked loss is after every record the number of counters that no record carried,
if and only if no record brings a counter into an open interval that it has left
before. -/
theorem loss_exact_unless_reabsorbed {auditor : Auditor} {symbol : String} {phase : MarketPhase}
    {inputs : List (Envelope × TickBody)}
    (counts : ∀ input ∈ inputs, auditor.Counts symbol phase input) (sequenced : Sequenced inputs)
    (unreset : ((auditor.derive inputs).symbolState symbol).resets = 0)
    (uncapped : ∀ before, before <+: inputs →
      (auditor.segmentAfter symbol phase before).intervalCount ≤
        auditor.settings.maxIntervalsPerSymbol) :
    (∀ before, before <+: inputs → auditor.Exact symbol phase before) ↔
      ∀ before input, before ++ [input] <+: inputs →
        ¬ auditor.Reabsorbs symbol phase before input := by
  have zero : ∀ part, part <+: inputs → ((auditor.derive part).symbolState symbol).resets = 0 :=
    fun part short => Nat.le_zero.mp ((resets_mono counts short).trans_eq unreset)
  have follows : ∀ part, part <+: inputs →
      (∀ before input, before ++ [input] <+: part → ¬ auditor.Reabsorbs symbol phase before input) →
      Follows (auditor.segmentAfter symbol phase part) (carriedCums part) := by
    intro part short fresh
    exact follows_records (fun input member => counts input (short.subset member))
      (fun first one second two => sequenced first (short.subset one) second (short.subset two))
      (zero part short) (fun before earlier => uncapped before (earlier.trans short)) fresh
  constructor
  · intro exact before input
    -- Strong induction: up to the first repeated counter the ledger follows the records.
    induction size : before.length using Nat.strong_induction_on generalizing before input with
    | _ size ih =>
      intro short reabsorbs
      have front : before <+: inputs := (prefix_append _ _).trans short
      have fresh := follows before front fun earlier other inside =>
        ih earlier.length (by have := inside.length_le; simp at this; omega) earlier other rfl
          (inside.trans front)
      exact reabsorbs_inexact fresh (counts input (short.subset (by simp)))
        ((zero _ short).trans (zero _ front).symm) reabsorbs (exact _ short)
  · intro fresh before short first known
    rcases follows before short (fun part input inside => fresh part input (inside.trans short))
      with ⟨none, -⟩ | ⟨other, tracks⟩
    · cases none.symm.trans known
    · cases tracks.known.symm.trans known
      exact tracks.total

namespace Sample

def regularAuditor : Auditor := { classify := fun _ => .regular }

/-- A trade frame with this counter, the given number on its connection. -/
def trade (conn : String) (seq cum : Int) : Envelope × TickBody :=
  (⟨0, conn, some seq, ""⟩,
    ⟨some "005930", some ⟨9, 0, 0⟩, some cum, some 0, some cum, some 1, none⟩)

/-- Trade 3 arrives late. -/
def lateOnce : List (Envelope × TickBody) := [trade "a" 1 1, trade "a" 2 5, trade "a" 3 3]

/-- Trade 3 arrives late on one connection and again on the other. -/
def lateTwice : List (Envelope × TickBody) := lateOnce ++ [trade "b" 1 3]

theorem trade_counts (conn : String) (seq cum : Int) :
    regularAuditor.Counts "005930" .regular (trade conn seq cum) :=
  ⟨rfl, _, rfl, rfl⟩

end Sample

open Sample

/-- One late trade leaves the two that are still missing. -/
theorem loss_exact_unless_reabsorbed_late :
    regularAuditor.Exact "005930" .regular lateOnce := by
  refine (loss_exact_unless_reabsorbed ?_ ?_ (by decide) ?_).mpr
    (fun before input short => distinct_never_reabsorbed (by decide) short) _ (prefix_refl _)
  · simp [lateOnce, trade_counts]
  · unfold Sequenced
    decide
  · intro before short
    have bounded : ∀ part ∈ lateOnce.inits,
        (regularAuditor.segmentAfter "005930" .regular part).intervalCount ≤
          regularAuditor.settings.maxIntervalsPerSymbol := by decide
    exact bounded before ((mem_inits _ _).mpr short)

/-- Of the counters between 1 and 5 the trades 2 and 4 are missing, but the trade that
arrived late twice was taken off the loss twice. -/
theorem repeated_late_trade_understates_loss :
    (∀ input ∈ lateTwice, regularAuditor.Counts "005930" .regular input) ∧
    Sequenced lateTwice ∧
    ((regularAuditor.derive lateTwice).symbolState "005930").resets = 0 ∧
    (∀ before ∈ lateTwice.inits,
      (regularAuditor.segmentAfter "005930" .regular before).intervalCount ≤
        regularAuditor.settings.maxIntervalsPerSymbol) ∧
    ¬ regularAuditor.Exact "005930" .regular lateTwice := by
  refine ⟨?_, ?_, by decide, by decide, fun exact => ?_⟩
  · simp [lateTwice, lateOnce, trade_counts]
  · unfold Sequenced
    decide
  · have claimed := exact 1 (by decide)
    exact absurd claimed (by decide)

end KrxAlpha
