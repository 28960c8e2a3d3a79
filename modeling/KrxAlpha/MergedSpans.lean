import KrxAlpha.JoinedSpans
import Mathlib.Data.Int.Interval
import Mathlib.Data.List.Sort

/-! Gaps of a session. The records are clipped to the session's window, sorted, and joined where they
overlap or touch. What comes out depends on the time that the records cover and on nothing else. -/
namespace KrxAlpha
open List hiding span

/-- A span covers its first nanosecond and ends before its last bound. -/
def SpanCovers (span : Int × Int) (at_ : Int) : Prop := span.1 ≤ at_ ∧ at_ < span.2

/-- What a list of spans covers. -/
def SpansCover (spans : List (Int × Int)) (at_ : Int) : Prop := ∃ span ∈ spans, SpanCovers span at_

/-- Spans in order, with time between any two. -/
structure SpansApart (spans : List (Int × Int)) : Prop where
  apart : spans.Pairwise fun earlier later => earlier.2 < later.1
  proper : ∀ span ∈ spans, span.1 < span.2

/-- The record's span inside the window. -/
def clipSpan (openNs closeNs : Int) (gap : Int × Int) : Int × Int := (max gap.1 openNs, min gap.2 closeNs)

/-- One turn of the loop: spans that overlap or touch are joined. -/
def mergeSpan : List (Int × Int) → Int × Int → List (Int × Int) := joinSpan fun start stop => start ≤ stop

/-- The order of tuples. -/
def SpanLe (first second : Int × Int) : Prop :=
  first.1 < second.1 ∨ first.1 = second.1 ∧ first.2 ≤ second.2

instance decidableSpanLe : DecidableRel SpanLe := fun _ _ => inferInstanceAs (Decidable (_ ∨ _))

/-- `_clip_merge_spans` on the bounds `(gap_start_ns, gap_end_ns)` of the records, with the total in
nanoseconds. -/
def clipMergeSpans (gaps : List (Int × Int)) (openNs closeNs : Int) : List (Int × Int) × Int :=
  let clipped := (gaps.map (clipSpan openNs closeNs)).filter fun span => span.1 < span.2
  let merged := ((clipped.insertionSort SpanLe).foldl mergeSpan []).reverse
  (merged, (merged.map fun span => span.2 - span.1).sum)

/-- The nanoseconds of the window that a record covers. -/
def gapNs (gaps : List (Int × Int)) (openNs closeNs : Int) : List Int :=
  ((range (closeNs - openNs).toNat).map fun offset => openNs + Int.ofNat offset).filter fun at_ =>
    gaps.any fun gap => gap.1 ≤ at_ && at_ < gap.2

/-! ### The loop -/

theorem merge_joins : Joins (fun start stop => decide (start ≤ stop)) SpanCovers where
  earlier order touching := by
    simp only [decide_eq_true_eq] at touching ⊢
    omega
  union at_ order touching := by
    simp only [decide_eq_true_eq] at touching
    simp only [SpanCovers]
    omega

theorem merged_separate (sorted : spans.Pairwise (·.1 ≤ ·.1)) (proper : ∀ span ∈ spans, span.1 < span.2) :
    SpansApart (spans.foldl mergeSpan []).reverse ∧
      ∀ at_, SpansCover (spans.foldl mergeSpan []) at_ ↔ SpansCover spans at_ := by
  have joined := join_spans_so_far merge_joins sorted
  have kept : ∀ span ∈ spans.foldl mergeSpan [], span.1 < span.2 :=
    join_spans_keep (fun span => span.1 < span.2) (fun _ _ own _ => lt_max_of_lt_left own) spans [] proper
      (by simp)
  refine ⟨⟨pairwise_reverse.mpr (joined.apart.imp fun order => ?_),
    fun span member => kept span (mem_reverse.mp member)⟩, joined.covered⟩
  simpa using order.2

/-! ### What separate spans cover says which they are -/

theorem SpansApart.tail (separate : SpansApart (first :: rest)) : SpansApart rest :=
  ⟨separate.apart.of_cons, fun span member => separate.proper span (mem_cons_of_mem _ member)⟩

/-- Behind the first of separate spans the others cover what is left. -/
theorem SpansApart.covered_tail (separate : SpansApart (first :: rest)) (at_ : Int) :
    SpansCover rest at_ ↔ SpansCover (first :: rest) at_ ∧ first.2 ≤ at_ := by
  constructor
  · rintro ⟨span, member, inside⟩
    have after := (pairwise_cons.mp separate.apart).1 span member
    exact ⟨⟨span, mem_cons_of_mem _ member, inside⟩, by have := inside.1; omega⟩
  · rintro ⟨⟨span, member, inside⟩, past⟩
    rcases mem_cons.mp member with rfl | member
    · exact absurd inside.2 (by omega)
    · exact ⟨span, member, inside⟩

theorem SpansApart.first_le (separate : SpansApart (first :: rest)) (covered : SpansCover (first :: rest) at_) :
    first.1 ≤ at_ := by
  obtain ⟨span, member, inside⟩ := covered
  rcases mem_cons.mp member with rfl | member
  · exact inside.1
  · have after := (pairwise_cons.mp separate.apart).1 span member
    have own := separate.proper first mem_cons_self
    have := inside.1
    omega

theorem SpansApart.end_uncovered (separate : SpansApart (first :: rest)) :
    ¬ SpansCover (first :: rest) first.2 := by
  intro covered
  obtain ⟨span, member, inside⟩ := (separate.covered_tail first.2).mpr ⟨covered, le_rfl⟩
  have after := (pairwise_cons.mp separate.apart).1 span member
  have := inside.1
  omega

theorem SpansApart.first_covered (separate : SpansApart (first :: rest)) :
    SpansCover (first :: rest) first.1 :=
  ⟨first, mem_cons_self, le_rfl, separate.proper first mem_cons_self⟩

theorem SpansApart.unique (one : SpansApart first) (two : SpansApart second)
    (same : ∀ at_, SpansCover first at_ ↔ SpansCover second at_) : first = second := by
  induction first generalizing second with
  | nil =>
    cases second with
    | nil => rfl
    | cons span rest => simpa [SpansCover] using (same span.1).mpr two.first_covered
  | cons head rest ih =>
    cases second with
    | nil => simpa [SpansCover] using (same head.1).mp one.first_covered
    | cons other others =>
      have start : head.1 = other.1 :=
        le_antisymm (one.first_le ((same _).mpr two.first_covered))
          (two.first_le ((same _).mp one.first_covered))
      have own := one.proper head mem_cons_self
      have theirs := two.proper other mem_cons_self
      -- the earlier end would be covered by the span that goes on
      have stop : head.2 = other.2 := by
        by_contra different
        rcases Int.lt_or_gt_of_ne different with early | late
        · exact one.end_uncovered ((same _).mpr ⟨other, mem_cons_self, by omega, early⟩)
        · exact two.end_uncovered ((same _).mp ⟨head, mem_cons_self, by omega, late⟩)
      obtain rfl : head = other := Prod.ext start stop
      rw [ih one.tail two.tail fun at_ => by rw [one.covered_tail, two.covered_tail, same]]

/-- The spans add up to the number of nanoseconds they cover. -/
theorem SpansApart.total (separate : SpansApart spans) (set : Finset Int)
    (same : ∀ at_, at_ ∈ set ↔ SpansCover spans at_) :
    (spans.map fun span => span.2 - span.1).sum = set.card := by
  induction spans generalizing set with
  | nil =>
    have empty : set = ∅ := Finset.eq_empty_of_forall_notMem fun at_ member => by
      simpa [SpansCover] using (same at_).mp member
    simp [empty]
  | cons first rest ih =>
    have own := separate.proper first mem_cons_self
    have inside : set.filter (· < first.2) = Finset.Ico first.1 first.2 := by
      ext at_
      rw [Finset.mem_filter, same, Finset.mem_Ico]
      exact ⟨fun held => ⟨separate.first_le held.1, held.2⟩,
        fun held => ⟨⟨first, mem_cons_self, held⟩, held.2⟩⟩
    have others := ih separate.tail (set.filter (¬ · < first.2)) fun at_ => by
      rw [Finset.mem_filter, same, separate.covered_tail, not_lt]
    have split := Finset.card_filter_add_card_filter_not (s := set) (· < first.2)
    rw [inside, Int.card_Ico] at split
    rw [map_cons, sum_cons, others]
    omega

/-! ### The result -/

theorem clip_merge_spans_separate (gaps : List (Int × Int)) (openNs closeNs : Int) :
    SpansApart (clipMergeSpans gaps openNs closeNs).1 ∧
      ∀ at_, SpansCover (clipMergeSpans gaps openNs closeNs).1 at_ ↔
        (openNs ≤ at_ ∧ at_ < closeNs) ∧ SpansCover gaps at_ := by
  let clipped := (gaps.map (clipSpan openNs closeNs)).filter fun span => span.1 < span.2
  have sorted : (clipped.insertionSort SpanLe).Pairwise (·.1 ≤ ·.1) := by
    have total : Std.Total SpanLe := ⟨fun first second => by simp only [SpanLe]; omega⟩
    have trans : IsTrans (Int × Int) SpanLe := ⟨fun _ _ _ => by simp only [SpanLe]; omega⟩
    exact (pairwise_insertionSort SpanLe clipped).imp fun order => by simp only [SpanLe] at order; omega
  have proper : ∀ span ∈ clipped.insertionSort SpanLe, span.1 < span.2 := fun span member => by
    simpa using (mem_filter.mp ((mem_insertionSort SpanLe).mp member)).2
  obtain ⟨separate, covered⟩ := merged_separate sorted proper
  refine ⟨separate, fun at_ => ?_⟩
  have read := covered at_
  simp only [SpansCover, mem_insertionSort, clipped, mem_filter, mem_map, decide_eq_true_eq] at read
  simp only [clipMergeSpans, SpansCover, mem_reverse, read]
  constructor
  · rintro ⟨_, ⟨⟨gap, listed, rfl⟩, -⟩, inside⟩
    simp only [SpanCovers, clipSpan] at inside
    exact ⟨by omega, gap, listed, by simp only [SpanCovers]; omega⟩
  · rintro ⟨window, gap, listed, inside⟩
    refine ⟨_, ⟨⟨gap, listed, rfl⟩, ?_⟩, ?_⟩ <;> simp only [SpanCovers, clipSpan] at inside ⊢ <;> omega

theorem mem_gap_ns (gaps : List (Int × Int)) (openNs closeNs at_ : Int) :
    at_ ∈ gapNs gaps openNs closeNs ↔ (openNs ≤ at_ ∧ at_ < closeNs) ∧ SpansCover gaps at_ := by
  have window : (∃ offset < (closeNs - openNs).toNat, openNs + Int.ofNat offset = at_) ↔
      openNs ≤ at_ ∧ at_ < closeNs := by
    refine ⟨?_, fun inside => ⟨(at_ - openNs).toNat, by omega, by simp; omega⟩⟩
    rintro ⟨offset, small, rfl⟩
    simp
    omega
  rw [gapNs, mem_filter, mem_map, any_eq_true, ← window]
  simp [SpansCover, SpanCovers]

theorem gap_ns_nodup (gaps : List (Int × Int)) (openNs closeNs : Int) :
    (gapNs gaps openNs closeNs).Nodup :=
  (nodup_range.map fun _ _ same => Int.ofNat.inj (Int.add_left_cancel same)).filter _

/-- The spans are in order with time between them, they cover what the records cover of the window,
and the total is that time; records in another order or repeated give the same result. -/
theorem merged_spans_exact (gaps : List (Int × Int)) (openNs closeNs : Int) :
    ((clipMergeSpans gaps openNs closeNs).1.Pairwise fun earlier later => earlier.2 < later.1) ∧
    (∀ span ∈ (clipMergeSpans gaps openNs closeNs).1, span.1 < span.2) ∧
    (∀ at_, (∃ span ∈ (clipMergeSpans gaps openNs closeNs).1, span.1 ≤ at_ ∧ at_ < span.2) ↔
      (openNs ≤ at_ ∧ at_ < closeNs) ∧ ∃ gap ∈ gaps, gap.1 ≤ at_ ∧ at_ < gap.2) ∧
    (clipMergeSpans gaps openNs closeNs).2 = (gapNs gaps openNs closeNs).length ∧
    ∀ others : List (Int × Int), (∀ gap, gap ∈ others ↔ gap ∈ gaps) →
      clipMergeSpans others openNs closeNs = clipMergeSpans gaps openNs closeNs := by
  obtain ⟨separate, covered⟩ := clip_merge_spans_separate gaps openNs closeNs
  refine ⟨separate.apart, separate.proper, covered, ?_, fun others same => ?_⟩
  · rw [← toFinset_card_of_nodup (gap_ns_nodup gaps openNs closeNs)]
    exact separate.total _ fun at_ => by rw [covered, mem_toFinset, mem_gap_ns]
  · obtain ⟨separate', covered'⟩ := clip_merge_spans_separate others openNs closeNs
    have spans : (clipMergeSpans others openNs closeNs).1 = (clipMergeSpans gaps openNs closeNs).1 :=
      separate'.unique separate fun at_ => by
        rw [covered', covered]
        simp only [SpansCover, same]
    exact Prod.ext spans (congrArg (fun merged => (merged.map fun span => span.2 - span.1).sum) spans)

/-- Spans merged for one window and then for another are those merged for what the windows share. -/
theorem clip_merge_spans_twice (gaps : List (Int × Int)) (openNs closeNs start stop : Int) :
    clipMergeSpans (clipMergeSpans gaps openNs closeNs).1 start stop =
      clipMergeSpans gaps (max openNs start) (min closeNs stop) := by
  obtain ⟨-, once⟩ := clip_merge_spans_separate gaps openNs closeNs
  obtain ⟨left, twice⟩ := clip_merge_spans_separate (clipMergeSpans gaps openNs closeNs).1 start stop
  obtain ⟨right, shared⟩ := clip_merge_spans_separate gaps (max openNs start) (min closeNs stop)
  have spans := left.unique right fun at_ => by
    rw [twice, once, shared, max_le_iff, lt_min_iff]
    tauto
  exact Prod.ext spans (congrArg (fun merged => (merged.map fun span => span.2 - span.1).sum) spans)

end KrxAlpha
