import Mathlib.Data.List.Pairwise

/-! Spans joined in one pass. They are read by their beginnings; each is joined to the newest one if
it meets that, and else stands behind it. Callers differ in which spans meet and in what a span
covers; as long as the two fit, the joined spans cover what the spans read cover. -/
namespace KrxAlpha
open List hiding span

/-- Join a span to the newest one if its beginning meets the end of that. The newest is first. -/
def joinSpan (meets : Int → Int → Bool) (joined : List (Int × Int)) (span : Int × Int) :
    List (Int × Int) :=
  match joined with
  | [] => [span]
  | last :: older =>
    if meets span.1 last.2 then (last.1, max last.2 span.2) :: older else span :: last :: older

/-- Two spans that meet cover together what their union covers. -/
structure Joins (meets : Int → Int → Bool) (covers : Int × Int → Int → Prop) : Prop where
  earlier : ∀ {start next stop}, start ≤ next → meets next stop = true → meets start stop = true
  union : ∀ {last span} at_, last.1 ≤ span.1 → meets span.1 last.2 = true →
    (covers (last.1, max last.2 span.2) at_ ↔ covers last at_ ∨ covers span at_)

/-- The spans joined so far against those read and those to come. -/
structure JoinedSoFar (meets : Int → Int → Bool) (covers : Int × Int → Int → Prop)
    (seen rest joined : List (Int × Int)) : Prop where
  apart : joined.Pairwise fun newer older => older.1 ≤ newer.1 ∧ meets newer.1 older.2 = false
  begun : ∀ span ∈ joined, ∀ next ∈ rest, span.1 ≤ next.1
  covered : ∀ at_, (∃ span ∈ joined, covers span at_) ↔ ∃ span ∈ seen, covers span at_

variable {meets : Int → Int → Bool} {covers : Int × Int → Int → Prop}

theorem join_span_so_far (joins : Joins meets covers) (later : ∀ next ∈ rest, span.1 ≤ next.1)
    (soFar : JoinedSoFar meets covers seen (span :: rest) joined) :
    JoinedSoFar meets covers (seen ++ [span]) rest (joinSpan meets joined span) := by
  have covered (at_ : Int) : (∃ other ∈ seen ++ [span], covers other at_) ↔
      (∃ other ∈ joined, covers other at_) ∨ covers span at_ := by
    simp [soFar.covered at_, or_and_right, exists_or]
  cases joined with
  | nil =>
    refine ⟨pairwise_singleton _ _, by simpa [joinSpan] using later, fun at_ => ?_⟩
    rw [covered]
    simp [joinSpan]
  | cons last older =>
    obtain ⟨below, apart⟩ := pairwise_cons.mp soFar.apart
    obtain ⟨start, begun⟩ := forall_mem_cons.mp soFar.begun
    have order := start span mem_cons_self
    have behind : ∀ other ∈ last :: older, ∀ next ∈ rest, other.1 ≤ next.1 :=
      fun other member next listed => soFar.begun other member next (mem_cons_of_mem _ listed)
    simp only [joinSpan]
    split
    · rename_i touching
      obtain ⟨own, others⟩ := forall_mem_cons.mp behind
      refine ⟨pairwise_cons.mpr ⟨below, apart⟩, forall_mem_cons.mpr ⟨own, others⟩, fun at_ => ?_⟩
      rw [covered]
      simp [joins.union at_ order touching, or_right_comm]
    · rename_i beyond
      refine ⟨pairwise_cons.mpr ⟨forall_mem_cons.mpr ⟨⟨order, by simpa using beyond⟩,
        fun other member => ?_⟩, soFar.apart⟩, forall_mem_cons.mpr ⟨later, behind⟩, fun at_ => ?_⟩
      · obtain ⟨before, clear⟩ := below other member
        refine ⟨Int.le_trans before order, Bool.eq_false_iff.mpr fun touching => ?_⟩
        rw [joins.earlier order touching] at clear
        cases clear
      · rw [covered]
        simp [or_comm]

/-- Spans read in order, joined from nothing. -/
theorem join_spans_so_far (joins : Joins meets covers) (sorted : spans.Pairwise (·.1 ≤ ·.1)) :
    JoinedSoFar meets covers spans [] (spans.foldl (joinSpan meets) []) := by
  have run : ∀ (rest seen joined : List (Int × Int)), rest.Pairwise (·.1 ≤ ·.1) →
      JoinedSoFar meets covers seen rest joined →
      JoinedSoFar meets covers (seen ++ rest) [] (rest.foldl (joinSpan meets) joined) := by
    intro rest
    induction rest with
    | nil => exact fun seen joined _ soFar => by simpa using soFar
    | cons span rest ih =>
      intro seen joined sorted soFar
      obtain ⟨later, sorted⟩ := pairwise_cons.mp sorted
      simpa using ih _ _ sorted (join_span_so_far joins later soFar)
  exact run spans [] [] sorted ⟨.nil, by simp, by simp⟩

/-- What holds of the spans read and stays when two are joined holds of the joined ones. -/
theorem join_spans_keep (Good : Int × Int → Prop)
    (closed : ∀ last span, Good last → Good span → Good (last.1, max last.2 span.2))
    (spans joined : List (Int × Int)) (read : ∀ span ∈ spans, Good span)
    (soFar : ∀ span ∈ joined, Good span) : ∀ span ∈ spans.foldl (joinSpan meets) joined, Good span := by
  induction spans generalizing joined with
  | nil => exact soFar
  | cons span rest ih =>
    obtain ⟨own, read⟩ := forall_mem_cons.mp read
    refine ih _ read ?_
    cases joined with
    | nil => simpa [joinSpan] using own
    | cons last older =>
      obtain ⟨newest, others⟩ := forall_mem_cons.mp soFar
      simp only [joinSpan]
      split
      · exact forall_mem_cons.mpr ⟨closed last span newest own, others⟩
      · exact forall_mem_cons.mpr ⟨own, soFar⟩

end KrxAlpha
