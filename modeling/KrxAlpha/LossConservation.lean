import Mathlib.Algebra.BigOperators.Ring.Finset
import KrxAlpha.LossAudit
import KrxAlpha.Runs

/-! Balance of the loss ledger. Said once is what a frame can do to a segment;
from that follows, for every sequence of frames, how the counter range, the
accepted frames and the booked losses stay tied to one another. -/
namespace KrxAlpha
open List

theorem absorb_into_none :
    absorbInto frame intervals = none ↔ ∀ interval ∈ intervals, ¬ interval.Holds frame.cum := by
  induction intervals with
  | nil => simp [absorbInto]
  | cons interval rest ih =>
    by_cases holds : interval.Holds frame.cum
    · simp [absorbInto, holds]
    · simp [absorbInto, holds, ih]

/-- The late frame goes to the first interval that holds its counter, and the others
stay as they are. -/
theorem absorb_into_some (hit : absorbInto frame intervals = some (interval, later)) :
    ∃ front back, intervals = front ++ interval :: back ∧
      later = front ++ (interval.leftover frame ++ back) ∧ interval.Holds frame.cum ∧
      ∀ earlier ∈ front, ¬ earlier.Holds frame.cum := by
  induction intervals generalizing later with
  | nil => simp [absorbInto] at hit
  | cons head rest ih =>
    simp only [absorbInto] at hit
    split_ifs at hit with holds
    · cases hit
      exact ⟨[], rest, rfl, rfl, holds, by simp⟩
    · obtain ⟨found, inner, shape⟩ := Option.map_eq_some_iff.mp hit
      cases shape
      obtain ⟨front, back, split, left, inside, earlier⟩ := ih inner
      exact ⟨head :: front, back, by rw [split]; rfl, by rw [left]; rfl, inside,
        forall_mem_cons.mpr ⟨holds, earlier⟩⟩

/-- Everything one frame can do to a segment. -/
inductive Advances (settings : AuditSettings) (symbol : String) (tally : Tally)
    (segment : Segment) (frame : TickFrame) : Advanced → Prop where
  | duplicate (prev : TickFrame)
    (kept : segment.last = some prev ∨ segment.run.getLast? = some prev)
    (same : isDuplicate prev frame = true) :
    Advances settings symbol tally segment frame { tally := tally.duplicate, segment }
  | stale (below : frame.cum ≤ segment.maxCum)
    (met : segment.maxFrame ≠ none ∨ segment.intervals ≠ [])
    (outside : ∀ interval ∈ segment.intervals, ¬ interval.Holds frame.cum) :
    Advances settings symbol tally segment frame { tally := tally.duplicate, segment }
  | absorbed (front : List LossInterval) (interval : LossInterval) (back : List LossInterval)
    (split : segment.intervals = front ++ interval :: back)
    (holds : interval.Holds frame.cum)
    (earlier : ∀ other ∈ front, ¬ other.Holds frame.cum) :
    Advances settings symbol tally segment frame
      { tally := tally.accept
        segment := segment.absorb frame interval (front ++ (interval.leftover frame ++ back)) }
  | started (fresh : segment.firstCum = none) :
    Advances settings symbol tally segment frame
      { tally := tally.accept, segment := (segment.noteConn frame).start frame }
  | regressed (first : Int) (known : segment.firstCum = some first)
    (below : frame.cum < segment.maxCum)
    (clear : ∀ interval ∈ segment.intervals,
      ¬ (interval.cumPrev ≤ frame.cum ∧ frame.cum ≤ interval.cumNext))
    (run : List TickFrame) (tail : run <:+ segment.run ++ [frame]) :
    Advances settings symbol tally segment frame
      { tally := { tally.accept with regressions := tally.regressions + 1 }
        segment := { segment.noteConn frame with run } }
  | reset (first : Int) (known : segment.firstCum = some first) (base : TickFrame)
    (items : List TickFrame) (rising : nonDecreasing (base :: items) = true) :
    Advances settings symbol tally segment frame
      { tally := { tally.accept with regressions := tally.regressions + 1, resets := tally.resets + 1 }
        segment :=
          { items.foldl (Segment.recordAdvance settings symbol)
              ((segment.noteConn frame).restart first base) with
            run := []
            last := some frame }
        calls := Segment.callsOf base.cum items }
  | advanced (first : Int) (known : segment.firstCum = some first)
    (reaches : segment.maxCum ≤ frame.cum) :
    Advances settings symbol tally segment frame
      { tally := tally.accept
        segment := (segment.noteConn frame).advance settings symbol frame
        calls := [(segment.maxCum, frame.cum)] }

section Cases
variable (settings : AuditSettings) (symbol : String) (tally : Tally) (segment : Segment)
  (frame : TickFrame)

private theorem late_cases (below : frame.cum ≤ segment.maxCum)
    (met : segment.maxFrame ≠ none ∨ segment.intervals ≠ []) :
    Advances settings symbol tally segment frame (segment.absorbOverlap tally frame) := by
  unfold Segment.absorbOverlap
  split
  · next missed => exact .stale below met (absorb_into_none.mp missed)
  · next interval after hit =>
    obtain ⟨front, back, split, rfl, holds, earlier⟩ := absorb_into_some hit
    exact .absorbed front interval back split holds earlier

private theorem regress_cases (known : segment.firstCum = some first)
    (below : frame.cum < segment.maxCum) (unfilled : segment.fillsOpenInterval frame = false) :
    Advances settings symbol tally segment frame
      ((segment.noteConn frame).regress settings symbol tally.accept first frame) := by
  have clear : ∀ interval ∈ segment.intervals,
      ¬ (interval.cumPrev ≤ frame.cum ∧ frame.cum ≤ interval.cumNext) := by
    intro interval member bounds
    have fills : segment.fillsOpenInterval frame = true := by
      simp only [Segment.fillsOpenInterval, Bool.and_eq_true, decide_eq_true_eq, any_eq_true]
      exact ⟨below, interval, member, bounds⟩
    rw [fills] at unfilled
    cases unfilled
  have tail := drop_suffix
    ((segment.run ++ [frame]).length - settings.counterResetConfirmFrames) (segment.run ++ [frame])
  simp only [Segment.regress]
  split
  · next shape => exact .regressed first known below clear _ tail
  · next base items shape =>
    split_ifs with confirmed
    · have rising : nonDecreasing (base :: items) = true := by
        rw [← shape]
        exact confirmed.2
      exact .reset first known base items rising
    · exact .regressed first known below clear _ tail

private theorem overlap_below (overlap : segment.isOverlap frame = true) :
    frame.cum ≤ segment.maxCum ∧ segment.maxFrame ≠ none := by
  unfold Segment.isOverlap at overlap
  cases met : segment.maxFrame with
  | none => simp [met] at overlap
  | some prev =>
    simp only [met, Option.any_some, Bool.and_eq_true, decide_eq_true_eq] at overlap
    exact ⟨overlap.1.1, by simp⟩

private theorem fills_below (fills : segment.fillsOpenInterval frame = true) :
    frame.cum ≤ segment.maxCum ∧ segment.intervals ≠ [] := by
  simp only [Segment.fillsOpenInterval, Bool.and_eq_true, decide_eq_true_eq, any_eq_true] at fills
  obtain ⟨below, interval, member, -⟩ := fills
  exact ⟨by omega, ne_nil_of_mem member⟩

theorem advance_segment_cases :
    Advances settings symbol tally segment frame
      (advanceSegment settings symbol tally segment frame) := by
  unfold advanceSegment
  by_cases repeated : (segment.last.any (isDuplicate · frame) ||
      segment.run.getLast?.any (isDuplicate · frame)) = true
  · rw [if_pos repeated]
    rcases Bool.or_eq_true_iff.mp repeated with last | run
    · obtain ⟨prev, kept, same⟩ := (Option.any_eq_true _ _).mp last
      exact .duplicate prev (.inl kept) same
    · obtain ⟨prev, kept, same⟩ := (Option.any_eq_true _ _).mp run
      exact .duplicate prev (.inr kept) same
  rw [if_neg repeated]
  by_cases late : (segment.isOverlap frame || segment.fillsOpenInterval frame) = true
  · rw [if_pos late]
    rcases Bool.or_eq_true_iff.mp late with overlap | fills
    · obtain ⟨below, met⟩ := overlap_below segment frame overlap
      exact late_cases settings symbol tally segment frame below (.inl met)
    · obtain ⟨below, met⟩ := fills_below segment frame fills
      exact late_cases settings symbol tally segment frame below (.inr met)
  rw [if_neg late]
  cases known : segment.firstCum with
  | none => exact .started known
  | some first =>
    split_ifs with below
    · have unfilled : segment.fillsOpenInterval frame = false := by
        simp only [Bool.or_eq_true, not_or, Bool.not_eq_true] at late
        exact late.2
      exact regress_cases settings symbol tally segment frame known below unfilled
    · exact .advanced first known (by omega)

end Cases

section Retained
variable {settings : AuditSettings} {intervals : List LossInterval}

theorem mem_retain (kept : interval ∈ settings.retain intervals) : interval ∈ intervals :=
  (mem_insertionSort _).mp (mem_of_mem_take kept)

theorem retain_length_le : (settings.retain intervals).length ≤ intervals.length := by
  simp [AuditSettings.retain]

/-- The cap only ever lowers a sum of what the intervals hold. -/
theorem retain_sum_le (measure : LossInterval → Int)
    (nonneg : ∀ interval ∈ intervals, 0 ≤ measure interval) :
    ((settings.retain intervals).map measure).sum ≤ (intervals.map measure).sum := by
  rw [← ((perm_insertionSort LossInterval.Before intervals).map measure).sum_eq]
  refine ((take_sublist _ _).map measure).sum_le_sum fun amount member => ?_
  obtain ⟨interval, inside, rfl⟩ := mem_map.mp member
  exact nonneg interval ((mem_insertionSort _).mp inside)

theorem retain_snoc_sum_le (settings : AuditSettings) (measure : LossInterval → Int)
    (nonneg : ∀ other ∈ intervals ++ [interval], 0 ≤ measure other) :
    ((settings.retain (intervals ++ [interval])).map measure).sum ≤
      (intervals.map measure).sum + measure interval := by
  simpa using retain_sum_le measure nonneg

end Retained

/-- The trades an interval misses, if it is of this kind. -/
def LossInterval.missingAs (kind : LossKind) (interval : LossInterval) : Int :=
  if interval.kind = kind then interval.missingTrades else 0

/-- The segment's loss total of a kind. -/
def Segment.booked (segment : Segment) : LossKind → Int
  | .confirmed => segment.confirmed
  | .countOnly => segment.countOnly

/-- Calls of `record_advance` that brought the counter they found as the maximum. -/
def stalls (calls : List (Int × Int)) : Nat := (calls.filter fun call => call.2 = call.1).length

theorem stalls_nil : ((stalls [] : Nat) : Int) = 0 := rfl

theorem stalls_cons (call : Int × Int) (rest : List (Int × Int)) :
    ((stalls (call :: rest) : Nat) : Int) = (if call.2 = call.1 then 1 else 0) + stalls rest := by
  by_cases still : call.2 = call.1
  · simp [stalls, still, add_comm]
  · simp [stalls, still]

structure LossInterval.Bounded (interval : LossInterval) : Prop where
  missing : 1 ≤ interval.missingTrades
  fits : interval.missingTrades ≤ interval.cumNext - interval.cumPrev - 1
  deficit : 0 ≤ interval.volumeDeficit

theorem LossInterval.Bounded.missingAs_nonneg {interval : LossInterval}
    (bounded : interval.Bounded) (kind : LossKind) : 0 ≤ interval.missingAs kind := by
  have := bounded.missing
  unfold LossInterval.missingAs
  split_ifs <;> omega

/-- No frame has reached the segment. -/
structure Segment.Blank (segment : Segment) : Prop where
  completedNet : segment.completedNet = 0
  intervals : segment.intervals = []
  maxFrame : segment.maxFrame = none
  last : segment.last = none
  run : segment.run = []

/-- The ledger of a segment after calls of which so many stalled. -/
structure Segment.Sound (segment : Segment) (stalled : Int) : Prop where
  bounded : ∀ interval ∈ segment.intervals, interval.Bounded
  phased : ∀ interval ∈ segment.intervals, interval.phase = segment.phase
  -- Evicted intervals and the volume of absorbed ones stay booked.
  booked : ∀ kind, (segment.intervals.map (·.missingAs kind)).sum ≤ segment.booked kind
  deficit : (segment.intervals.map (·.volumeDeficit)).sum ≤ segment.deficit
  counted : (segment.intervals.length : Int) ≤ segment.intervalCount
  framed : segment.firstCum ≠ none → segment.maxFrame ≠ none
  unstarted : segment.firstCum = none → segment.Blank
  balance : segment.netMissing = segment.confirmed + segment.countOnly - stalled

section Kept

variable (settings : AuditSettings) (symbol : String)

theorem record_advance_keeps (segment : Segment) (frame : TickFrame) :
    (segment.recordAdvance settings symbol frame).firstCum = segment.firstCum ∧
      (segment.recordAdvance settings symbol frame).phase = segment.phase ∧
      (segment.recordAdvance settings symbol frame).run = segment.run := by
  simp only [Segment.recordAdvance, Segment.recordLoss]
  split
  · exact ⟨rfl, rfl, rfl⟩
  · split_ifs <;> exact ⟨rfl, rfl, rfl⟩

theorem record_advances_keep (segment : Segment) (items : List TickFrame) :
    (items.foldl (Segment.recordAdvance settings symbol) segment).firstCum = segment.firstCum ∧
      (items.foldl (Segment.recordAdvance settings symbol) segment).phase = segment.phase := by
  induction items generalizing segment with
  | nil => exact ⟨rfl, rfl⟩
  | cons item rest ih =>
    obtain ⟨first, phase, -⟩ := record_advance_keeps settings symbol segment item
    exact ⟨(ih _).1.trans first, (ih _).2.trans phase⟩

end Kept

namespace Segment.Sound

theorem fresh (phase : MarketPhase) : Segment.Sound { phase } 0 where
  bounded := by simp
  phased := by simp
  booked := by intro kind; cases kind <;> simp [Segment.booked]
  deficit := by simp
  counted := by simp
  framed := by simp
  unstarted := fun _ => ⟨rfl, rfl, rfl, rfl, rfl⟩
  balance := by simp [Segment.netMissing]

variable {segment : Segment} {stalled : Int} {frame : TickFrame}

section

variable (sound : segment.Sound stalled)
include sound

theorem deficit_nonneg : 0 ≤ segment.deficit := by
  refine le_trans (sum_nonneg (forall_mem_map.mpr fun interval inside => ?_)) sound.deficit
  exact (sound.bounded interval inside).deficit

theorem booked_nonneg (kind : LossKind) : 0 ≤ segment.booked kind := by
  refine le_trans (sum_nonneg (forall_mem_map.mpr fun interval inside => ?_)) (sound.booked kind)
  exact (sound.bounded interval inside).missingAs_nonneg kind

/-- A segment with an interval has begun. -/
theorem known (inside : interval ∈ segment.intervals) : ∃ first, segment.firstCum = some first := by
  refine Option.ne_none_iff_exists'.mp fun fresh => ?_
  rw [(sound.unstarted fresh).intervals] at inside
  simp at inside

theorem noteConn (frame : TickFrame) : (segment.noteConn frame).Sound stalled :=
  ⟨sound.bounded, sound.phased, sound.booked, sound.deficit, sound.counted, sound.framed,
    fun fresh => ⟨(sound.unstarted fresh).1, (sound.unstarted fresh).2, (sound.unstarted fresh).3,
      (sound.unstarted fresh).4, (sound.unstarted fresh).5⟩, sound.balance⟩

/-- The run of falling frames and the last accepted one are no part of the ledger. -/
theorem rewound (known : segment.firstCum ≠ none) (run : List TickFrame) (last : Option TickFrame) :
    Segment.Sound { segment with run, last } stalled :=
  ⟨sound.bounded, sound.phased, sound.booked, sound.deficit, sound.counted, sound.framed,
    fun fresh => (known fresh).elim, sound.balance⟩

theorem start (fresh : segment.firstCum = none) : (segment.start frame).Sound stalled := by
  refine ⟨sound.bounded, sound.phased, sound.booked, sound.deficit, sound.counted, by
    simp [Segment.start], by simp [Segment.start], ?_⟩
  have balance := sound.balance
  simp only [Segment.netMissing, fresh] at balance
  simp only [Segment.netMissing, Segment.start, (sound.unstarted fresh).completedNet]
  omega

end

private theorem leftover_bounded (frame : TickFrame) {interval other : LossInterval}
    (bounded : interval.Bounded) (left : other ∈ interval.leftover frame) :
    other.Bounded ∧ other.phase = interval.phase := by
  unfold LossInterval.leftover at left
  split_ifs at left with gone
  · simp at left
  · rw [mem_singleton.mp left]
    have := bounded.missing
    have := bounded.fits
    refine ⟨⟨?_, ?_, ?_⟩, rfl⟩ <;> simp only [LossInterval.shrunk, LossInterval.deficitLeft] <;> omega

private theorem leftover_missing (frame : TickFrame) (interval : LossInterval) (kind : LossKind) :
    ((interval.leftover frame).map (·.missingAs kind)).sum =
      interval.missingAs kind - if interval.kind = kind then 1 else 0 := by
  unfold LossInterval.leftover LossInterval.missingAs
  split_ifs with gone same same
  · simp only [map_nil, sum_nil]
    omega
  · simp
  · simp [LossInterval.shrunk, same]
  · simp [LossInterval.shrunk, same]

private theorem leftover_deficit (frame : TickFrame) (interval : LossInterval) :
    ((interval.leftover frame).map (·.volumeDeficit)).sum ≤ interval.deficitLeft frame := by
  unfold LossInterval.leftover
  split_ifs
  · simp [LossInterval.deficitLeft]
  · simp [LossInterval.shrunk]

private theorem leftover_length (frame : TickFrame) (interval : LossInterval) :
    ((interval.leftover frame).length : Int) = if interval.missingTrades - 1 = 0 then 0 else 1 := by
  unfold LossInterval.leftover
  split_ifs <;> rfl

/-- A late frame lowers the loss by one and raises the accepted frames by one. -/
theorem absorb (sound : segment.Sound stalled)
    (split : segment.intervals = front ++ interval :: back) :
    (segment.absorb frame interval (front ++ (interval.leftover frame ++ back))).Sound stalled := by
  have inside : interval ∈ segment.intervals := by simp [split]
  have members : ∀ other ∈ front ++ (interval.leftover frame ++ back),
      other ∈ segment.intervals ∨ other ∈ interval.leftover frame := by
    intro other member
    simp only [mem_append] at member
    simp only [split, mem_append]
    tauto
  have left : ∀ other ∈ interval.leftover frame, other.Bounded ∧ other.phase = interval.phase :=
    fun _ => leftover_bounded frame (sound.bounded interval inside)
  refine ⟨?_, ?_, ?_, ?_, ?_, sound.framed, ?_, ?_⟩
  · intro other member
    rcases members other member with old | rest
    · exact sound.bounded other old
    · exact (left other rest).1
  · intro other member
    rcases members other member with old | rest
    · exact sound.phased other old
    · exact (left other rest).2.trans (sound.phased interval inside)
  · intro kind
    have before := sound.booked kind
    have rest := leftover_missing frame interval kind
    simp only [split, map_append, map_cons, sum_append, sum_cons] at before
    have after : (segment.absorb frame interval (front ++ (interval.leftover frame ++ back))).booked kind
        = segment.booked kind - if interval.kind = kind then 1 else 0 := by
      cases kind <;> cases shape : interval.kind <;> simp [Segment.booked, Segment.absorb, shape]
    rw [after]
    simp only [Segment.absorb, map_append, sum_append]
    omega
  · have before := sound.deficit
    have rest := leftover_deficit frame interval
    simp only [split, map_append, map_cons, sum_append, sum_cons] at before
    simp only [Segment.absorb, map_append, sum_append]
    omega
  · have before := sound.counted
    have rest := leftover_length frame interval
    simp only [split, length_append, length_cons] at before
    simp only [Segment.absorb, length_append]
    split_ifs at rest ⊢ <;> omega
  · obtain ⟨first, known⟩ := sound.known inside
    simp [Segment.absorb, known]
  · obtain ⟨first, known⟩ := sound.known inside
    have balance := sound.balance
    simp only [Segment.netMissing, known] at balance
    simp only [Segment.netMissing, Segment.absorb, known]
    split_ifs <;> omega

/-- A jump of the counter books what it skipped. -/
theorem openInterval (sound : segment.Sound stalled)
    (known : segment.firstCum = some first) (bounded : interval.Bounded)
    (phase : interval.phase = segment.phase)
    (kind : interval.kind = if 0 < interval.volumeDeficit then .confirmed else .countOnly) :
    (segment.openInterval settings interval).Sound (stalled + interval.missingTrades) := by
  have members : ∀ other ∈ settings.retain (segment.intervals ++ [interval]),
      other ∈ segment.intervals ∨ other = interval := by
    intro other kept
    simpa using mem_retain kept
  have all : ∀ other ∈ segment.intervals ++ [interval], other.Bounded :=
    forall_mem_append.mpr ⟨sound.bounded, forall_mem_singleton.mpr bounded⟩
  refine ⟨fun other kept => all other (mem_retain kept), ?_, ?_, ?_, ?_, sound.framed, ?_, ?_⟩
  · intro other kept
    rcases members other kept with old | rfl
    · exact sound.phased other old
    · exact phase
  · intro which
    have kept := retain_snoc_sum_le settings (·.missingAs which) fun other member =>
      (all other member).missingAs_nonneg which
    have before := sound.booked which
    have after : (segment.openInterval settings interval).booked which =
        segment.booked which + interval.missingAs which := by
      by_cases lost : 0 < interval.volumeDeficit <;> cases which <;>
        simp [Segment.booked, Segment.openInterval, LossInterval.missingAs, kind, lost]
    rw [after]
    simp only [Segment.openInterval]
    omega
  · have kept := retain_snoc_sum_le settings (·.volumeDeficit) fun other member =>
      (all other member).deficit
    have before := sound.deficit
    simp only [Segment.openInterval]
    omega
  · have kept : (settings.retain (segment.intervals ++ [interval])).length ≤ _ := retain_length_le
    have before := sound.counted
    simp only [length_append, length_cons, length_nil] at kept
    simp only [Segment.openInterval]
    omega
  · intro fresh
    cases known.symm.trans fresh
  · have balance := sound.balance
    simp only [Segment.netMissing, Segment.openInterval] at balance ⊢
    split_ifs <;> omega

section

variable (settings : AuditSettings) (symbol : String) (sound : segment.Sound stalled)
include settings symbol sound

private theorem recordLoss (known : segment.firstCum = some first) :
    (segment.recordLoss settings symbol frame).Sound
        (stalled + max 0 (frame.cum - segment.maxCum - 1)) ∧
      (segment.recordLoss settings symbol frame).firstCum = some first ∧
      (segment.recordLoss settings symbol frame).maxCum = segment.maxCum ∧
      (segment.recordLoss settings symbol frame).accepted = segment.accepted := by
  obtain ⟨prev, met⟩ := Option.ne_none_iff_exists'.mp (sound.framed (by simp [known]))
  simp only [Segment.recordLoss, met]
  split_ifs with jumps
  · refine ⟨?_, known, rfl, rfl⟩
    have bounded : (segment.opened symbol prev frame).Bounded :=
      ⟨jumps, le_refl _, le_max_left _ _⟩
    rw [max_eq_right (by omega)]
    exact sound.openInterval known bounded rfl rfl
  · refine ⟨?_, known, rfl, rfl⟩
    rw [max_eq_left (by omega), add_zero]
    exact sound

/-- `record_advance` on a counter at or above the maximum. -/
theorem recordAdvance
    (known : segment.firstCum = some first) (reaches : segment.maxCum ≤ frame.cum) :
    (segment.recordAdvance settings symbol frame).Sound
      (stalled + if frame.cum = segment.maxCum then 1 else 0) := by
  obtain ⟨booked, same, top, taken⟩ := sound.recordLoss settings symbol known
  refine ⟨booked.bounded, booked.phased, booked.booked, booked.deficit, booked.counted,
    by simp [Segment.recordAdvance], fun fresh => ?_, ?_⟩
  · cases same.symm.trans fresh
  · have balance := booked.balance
    simp only [Segment.netMissing, same] at balance
    simp only [Segment.netMissing, Segment.recordAdvance, same]
    split_ifs <;> omega

/-- The run of a reset, recorded from its first frame on. -/
theorem recordAdvances (known : segment.firstCum ≠ none)
    (top : segment.maxCum = base.cum) (rising : nonDecreasing (base :: items) = true) :
    (items.foldl (Segment.recordAdvance settings symbol) segment).Sound
      (stalled + stalls (Segment.callsOf base.cum items)) := by
  induction items generalizing segment base stalled with
  | nil => simpa [Segment.callsOf, stalls] using sound
  | cons item rest ih =>
    have steps : base.cum ≤ item.cum ∧ nonDecreasing (item :: rest) = true := by
      simpa [nonDecreasing] using rising
    obtain ⟨first, shape⟩ := Option.ne_none_iff_exists'.mp known
    have next := sound.recordAdvance settings symbol shape (top.trans_le steps.1)
    have after := ih next (by rwa [(record_advance_keeps settings symbol segment item).1]) rfl steps.2
    rw [top, add_assoc, ← stalls_cons (base.cum, item.cum)] at after
    exact after

end

theorem restart (sound : segment.Sound stalled) (known : segment.firstCum = some first)
    (base : TickFrame) : (segment.restart first base).Sound stalled := by
  refine ⟨sound.bounded, sound.phased, sound.booked, sound.deficit, sound.counted,
    by simp [Segment.restart], by simp [Segment.restart], ?_⟩
  have balance := sound.balance
  simp only [Segment.netMissing, known] at balance
  simp only [Segment.netMissing, Segment.restart]
  omega

/-- What one frame keeps: the calls it makes of `record_advance` account for every
difference between the counter range and the booked loss. -/
theorem advance (settings : AuditSettings) (symbol : String) (tally : Tally) (frame : TickFrame)
    (sound : segment.Sound stalled) :
    (advanceSegment settings symbol tally segment frame).segment.Sound
      (stalled + stalls (advanceSegment settings symbol tally segment frame).calls) := by
  have step := advance_segment_cases settings symbol tally segment frame
  generalize advanceSegment settings symbol tally segment frame = done at step
  have quiet : stalled + ((stalls [] : Nat) : Int) = stalled := by rw [stalls_nil, add_zero]
  cases step with
  | duplicate prev kept same =>
    rw [quiet]
    exact sound
  | stale below met outside =>
    rw [quiet]
    exact sound
  | absorbed front interval back split holds earlier =>
    rw [quiet]
    exact sound.absorb split
  | started fresh =>
    rw [quiet]
    exact (sound.noteConn frame).start fresh
  | regressed first known below clear run tail =>
    rw [quiet]
    exact (sound.noteConn frame).rewound (Option.ne_none_iff_exists'.mpr ⟨first, known⟩) run _
  | reset first known base items rising =>
    have begun := (sound.noteConn frame).restart known base
    have after := begun.recordAdvances settings symbol (by simp [Segment.restart]) rfl rising
    refine after.rewound ?_ [] (some frame)
    rw [(record_advances_keep settings symbol _ items).1]
    simp [Segment.restart]
  | advanced first known reaches =>
    have present : segment.firstCum ≠ none := by simp [known]
    have noted := (sound.noteConn frame).rewound present [] segment.last
    have after := noted.recordAdvance settings symbol known reaches
    rw [stalls_cons, stalls_nil, add_zero]
    refine after.rewound ?_ _ (some frame)
    rwa [(record_advance_keeps settings symbol _ frame).1]

/-- No frame leaves a segment unstarted. -/
theorem advance_known (settings : AuditSettings) (symbol : String) (tally : Tally)
    (frame : TickFrame) (sound : segment.Sound stalled) :
    (advanceSegment settings symbol tally segment frame).segment.firstCum ≠ none := by
  have step := advance_segment_cases settings symbol tally segment frame
  generalize advanceSegment settings symbol tally segment frame = done at step
  cases step with
  | duplicate prev kept same =>
    intro fresh
    have blank := sound.unstarted fresh
    simp [blank.last, blank.run] at kept
  | stale below met outside =>
    intro fresh
    have blank := sound.unstarted fresh
    simp [blank.maxFrame, blank.intervals] at met
  | absorbed front interval back split holds earlier =>
    obtain ⟨first, known⟩ := sound.known (show interval ∈ segment.intervals by simp [split])
    simp [Segment.absorb, known]
  | started fresh => simp [Segment.start]
  | regressed first known below clear run tail => simp [Segment.noteConn, known]
  | reset first known base items rising => simp [Segment.restart, record_advances_keep]
  | advanced first known reaches =>
    simp [Segment.advance, Segment.noteConn, known, record_advance_keeps]

end Segment.Sound

/-- Frames fed to a segment one behind the other, with all calls of `record_advance`. -/
def feed (settings : AuditSettings) (symbol : String) (start : Advanced) (frames : List TickFrame) :
    Advanced :=
  frames.foldl (fun done frame =>
    let next := advanceSegment settings symbol done.tally done.segment frame
    { next with calls := done.calls ++ next.calls }) start

theorem stalls_append (front back : List (Int × Int)) :
    stalls (front ++ back) = stalls front + stalls back := by
  simp [stalls]

section

variable (settings : AuditSettings) (symbol : String)
include settings symbol

theorem feed_append (start : Advanced) (frames : List TickFrame) (frame : TickFrame) :
    feed settings symbol start (frames ++ [frame]) =
      let done := feed settings symbol start frames
      let next := advanceSegment settings symbol done.tally done.segment frame
      { next with calls := done.calls ++ next.calls } := by
  simp [feed]

theorem feed_sound (phase : MarketPhase) (tally : Tally) (frames : List TickFrame) :
    (feed settings symbol ⟨tally, { phase }, []⟩ frames).segment.Sound
      (stalls (feed settings symbol ⟨tally, { phase }, []⟩ frames).calls) := by
  induction frames using reverseRecOn with
  | nil => exact .fresh phase
  | append_singleton frames frame ih =>
    have next := ih.advance settings symbol
      (feed settings symbol ⟨tally, { phase }, []⟩ frames).tally frame
    rw [feed_append, stalls_append]
    exact next

theorem advance_segment_phase (tally : Tally) (segment : Segment) (frame : TickFrame) :
    (advanceSegment settings symbol tally segment frame).segment.phase = segment.phase := by
  have step := advance_segment_cases settings symbol tally segment frame
  generalize advanceSegment settings symbol tally segment frame = done at step
  cases step with
  | duplicate _ _ _ | stale _ _ _ | absorbed _ _ _ _ _ _ | started _ | regressed _ _ _ _ _ _ => rfl
  | reset first known base items rising => exact (record_advances_keep settings symbol _ items).2
  | advanced first known reaches => exact (record_advance_keeps settings symbol _ frame).2.1

end

/-- Every segment of a symbol is the ledger of its phase. -/
def SymbolState.Sound (state : SymbolState) : Prop :=
  ∀ phase segment, state.segments.get? phase = some segment →
    segment.phase = phase ∧ ∃ stalled, segment.Sound stalled

def Derivation.Sound (derivation : Derivation) : Prop :=
  ∀ symbol state, derivation.symbols.get? symbol = some state → state.Sound

section Audits
variable {auditor : Auditor} {derivation : Derivation}

theorem Derivation.Sound.symbolState (sound : derivation.Sound) (symbol : String) :
    (derivation.symbolState symbol).Sound := by
  unfold Derivation.symbolState
  cases found : derivation.symbols.get? symbol with
  | none =>
    intro phase segment held
    simp at held
  | some state => exact sound symbol state found

theorem Derivation.Sound.setSymbol (sound : derivation.Sound)
    (new : state.Sound) : (derivation.setSymbol symbol state).Sound :=
  Dict.forall_set new sound

theorem book_tick_sound (sound : state.Sound) (tick : SymbolTick) :
    (auditor.bookTick state tick).Sound := by
  set phase := auditor.classify tick.frame.chetime with shape
  have found : ((state.segments.get? phase).getD { phase }).phase = phase ∧
      ∃ stalled, ((state.segments.get? phase).getD { phase }).Sound stalled := by
    cases held : state.segments.get? phase with
    | none => exact ⟨rfl, 0, .fresh phase⟩
    | some segment => exact sound phase segment held
  obtain ⟨same, stalled, kept⟩ := found
  refine Dict.forall_set ⟨?_, ?_⟩ sound
  · rw [advance_segment_phase]
    exact same
  · exact ⟨_, kept.advance auditor.settings tick.symbol state.toTally tick.frame⟩

@[simp] theorem note_sequence_symbols (derivation : Derivation) (record : Envelope) :
    (derivation.noteSequence record).symbols = derivation.symbols := by
  unfold Derivation.noteSequence
  cases record.connSeq with
  | none => rfl
  | some seq =>
    split_ifs <;> rfl

@[simp] theorem note_regular_tick_symbols (derivation : Derivation) (phase : MarketPhase)
    (record : Envelope) : (derivation.noteRegularTick phase record).symbols = derivation.symbols := by
  unfold Derivation.noteRegularTick
  split_ifs <;> rfl

theorem Derivation.Sound.congr {other : Derivation} (sound : derivation.Sound)
    (same : other.symbols = derivation.symbols) : other.Sound := by
  intro symbol state held
  rw [same] at held
  exact sound symbol state held

theorem accept_tick_sound (sound : derivation.Sound) (record : Envelope) (body : TickBody) :
    (auditor.acceptTick derivation record body).Sound := by
  unfold Auditor.acceptTick
  split
  · refine Derivation.Sound.congr ?_ (note_regular_tick_symbols _ _ record)
    exact sound.setSymbol (sound.symbolState _)
  · split
    · exact sound
    · exact sound.setSymbol (sound.symbolState _)
  · next tick _ _ =>
    have noted : (derivation.noteRegularTick (auditor.classify tick.frame.chetime) record).Sound :=
      sound.congr (note_regular_tick_symbols _ _ record)
    simp only
    split_ifs
    · exact noted.setSymbol (noted.symbolState tick.symbol)
    · exact (noted.congr (note_sequence_symbols _ record)).setSymbol
        (book_tick_sound (noted.symbolState tick.symbol) tick)

theorem derive_sound (auditor : Auditor) (inputs : List (Envelope × TickBody)) :
    (auditor.derive inputs).Sound := by
  refine foldlRecOn inputs auditor.processRecord ?_ ?_
  · intro symbol state held
    simp at held
  · intro derivation sound input _
    exact (accept_tick_sound sound input.1 input.2).congr (note_sequence_symbols _ input.1)

/-- The intervals a ledger lists are among those its segments still count. -/
theorem intervals_truncated_nonneg {state : SymbolState} (sound : state.Sound) (symbol : String) :
    0 ≤ (auditor.symbolLedger symbol state).intervalsTruncated := by
  have listed : ((auditor.settings.retain state.intervals).length : Int) ≤ state.intervals.length := by
    exact_mod_cast retain_length_le
  have counted : (state.intervals.length : Int) ≤ (state.segments.values.map (·.intervalCount)).sum := by
    rw [SymbolState.intervals, length_flatMap, Nat.cast_list_sum, map_map]
    refine sum_le_sum fun segment member => ?_
    obtain ⟨phase, held⟩ := Dict.mem_values_iff.mp member
    obtain ⟨-, stalled, kept⟩ := sound phase segment held
    exact kept.counted
  simp only [Auditor.symbolLedger]
  omega

end Audits

/-- After every frame the counter range not covered by accepted frames is the booked
loss, less the frames that repeated the maximum; nothing is booked below zero, every
interval misses at least one trade and no more than lie between its bounds, and no
ledger of an audit lists more intervals than were counted. -/
theorem loss_ledger_balances :
    (∀ (settings : AuditSettings) (symbol : String) (phase : MarketPhase) (tally : Tally)
      (frames : List TickFrame) (frame : TickFrame),
      let done := feed settings symbol ⟨tally, { phase }, []⟩ (frames ++ [frame])
      (∃ first, done.segment.firstCum = some first ∧
        done.segment.completedNet + (done.segment.maxCum - first) - (done.segment.accepted - 1) =
          done.segment.confirmed + done.segment.countOnly - stalls done.calls) ∧
      0 ≤ done.segment.confirmed ∧ 0 ≤ done.segment.countOnly ∧ 0 ≤ done.segment.deficit ∧
      ∀ interval ∈ done.segment.intervals, 1 ≤ interval.missingTrades ∧
        interval.missingTrades ≤ interval.cumNext - interval.cumPrev - 1) ∧
    ∀ (auditor : Auditor) (inputs : List (Envelope × TickBody)),
      ∀ ledger ∈ (auditor.finalizeLedger (auditor.derive inputs)).1, 0 ≤ ledger.intervalsTruncated := by
  constructor
  · intro settings symbol phase tally frames frame done
    have sound : done.segment.Sound (stalls done.calls) :=
      feed_sound settings symbol phase tally (frames ++ [frame])
    have known : done.segment.firstCum ≠ none := by
      have before := feed_sound settings symbol phase tally frames
      simp only [done, feed_append]
      exact before.advance_known settings symbol _ frame
    obtain ⟨first, shape⟩ := Option.ne_none_iff_exists'.mp known
    refine ⟨⟨first, shape, ?_⟩, sound.booked_nonneg .confirmed, sound.booked_nonneg .countOnly,
      sound.deficit_nonneg, fun interval member => ?_⟩
    · have balance := sound.balance
      rwa [Segment.netMissing, shape] at balance
    · exact ⟨(sound.bounded interval member).missing, (sound.bounded interval member).fits⟩
  · intro auditor inputs ledger listed
    obtain ⟨symbol, -, rfl⟩ := mem_map.mp listed
    exact intervals_truncated_nonneg ((derive_sound auditor inputs).symbolState symbol) symbol

end KrxAlpha
