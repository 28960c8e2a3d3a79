import Mathlib.Data.List.TakeWhile
import Mathlib.Data.List.Pairwise

/-! Sets of integers kept as the list of their maximal runs, the way mostly
consecutive numbers are remembered. A lookup reads one run, the last that
starts at or below the number; an insertion widens a run, joins the runs it
closes the gap between, or starts a new one. -/
namespace KrxAlpha
open List hiding after span

namespace Spans

def Covers (spans : List (Int × Int)) (number : Int) : Prop :=
  ∃ span ∈ spans, span.1 ≤ number ∧ number ≤ span.2

/-- Rising runs, each non-empty, with a number missing between any two. -/
structure Ordered (spans : List (Int × Int)) : Prop where
  filled : ∀ span ∈ spans, span.1 ≤ span.2
  apart : spans.Pairwise fun earlier later => earlier.2 + 1 < later.1

/-- A widened run joins the runs behind it for as long as it touches them. -/
def swallow (span : Int × Int) : List (Int × Int) → List (Int × Int)
  | [] => [span]
  | next :: rest =>
    if next.1 - 1 ≤ span.2 then swallow (span.1, max span.2 next.2) rest else span :: next :: rest

/-- The first run behind the number takes it, or it starts a run of its own. -/
def insertBehind (number : Int) (front : List (Int × Int)) : List (Int × Int) → List (Int × Int)
  | [] => front ++ [(number, number)]
  | next :: later =>
    if next.1 - 1 ≤ number ∧ number ≤ next.2 + 1 then
      front ++ swallow (min next.1 number, max next.2 number) later
    else front ++ (number, number) :: next :: later

/-- The runs that start below the number are in front, and the last of them takes
the number when it reaches up to it. -/
def insert (number : Int) (spans : List (Int × Int)) : List (Int × Int) :=
  let front := spans.takeWhile (·.1 < number)
  let back := spans.dropWhile (·.1 < number)
  match front.getLast? with
  | none => insertBehind number front back
  | some last =>
    if number ≤ last.2 + 1 then front.dropLast ++ swallow (last.1, max last.2 number) back
    else insertBehind number front back

@[simp] theorem covers_nil (number : Int) : ¬ Covers [] number := by simp [Covers]

@[simp] theorem covers_cons (span : Int × Int) (spans : List (Int × Int)) (number : Int) :
    Covers (span :: spans) number ↔ (span.1 ≤ number ∧ number ≤ span.2) ∨ Covers spans number := by
  simp [Covers]

@[simp] theorem covers_append (front back : List (Int × Int)) (number : Int) :
    Covers (front ++ back) number ↔ Covers front number ∨ Covers back number := by
  simp [Covers, or_and_right, exists_or]

theorem ordered_cons :
    Ordered (span :: spans) ↔
      span.1 ≤ span.2 ∧ (∀ later ∈ spans, span.2 + 1 < later.1) ∧ Ordered spans := by
  constructor
  · rintro ⟨filled, apart⟩
    obtain ⟨behind, rest⟩ := List.pairwise_cons.mp apart
    exact ⟨filled span (by simp), behind, fun later member => filled later (by simp [member]), rest⟩
  · rintro ⟨own, behind, rest⟩
    exact ⟨List.forall_mem_cons.mpr ⟨own, rest.filled⟩, List.pairwise_cons.mpr ⟨behind, rest.apart⟩⟩

theorem ordered_append :
    Ordered (front ++ back) ↔ Ordered front ∧ Ordered back ∧
      ∀ earlier ∈ front, ∀ later ∈ back, earlier.2 + 1 < later.1 := by
  constructor
  · rintro ⟨filled, apart⟩
    obtain ⟨first, second, across⟩ := pairwise_append.mp apart
    exact ⟨⟨fun span member => filled span (mem_append_left _ member), first⟩,
      ⟨fun span member => filled span (mem_append_right _ member), second⟩, across⟩
  · rintro ⟨first, second, across⟩
    exact ⟨forall_mem_append.mpr ⟨first.filled, second.filled⟩,
      pairwise_append.mpr ⟨first.apart, second.apart, across⟩⟩

/-- What a widened run does to the runs behind it, all of which start at or after it. -/
theorem swallow_spec (own : span.1 ≤ span.2)
    (ordered : Ordered rest) (behind : ∀ next ∈ rest, span.1 ≤ next.1) :
    Ordered (swallow span rest) ∧ (∀ next ∈ swallow span rest, span.1 ≤ next.1) ∧
      ∀ number, Covers (swallow span rest) number ↔ Covers (span :: rest) number := by
  induction rest generalizing span with
  | nil => exact ⟨⟨by simpa [swallow] using own, by simp [swallow]⟩, by simp [swallow], by simp [swallow]⟩
  | cons next rest ih =>
    obtain ⟨nextOwn, nextBehind, restOrdered⟩ := ordered_cons.mp ordered
    have nextAfter := behind next (by simp)
    simp only [swallow]
    split_ifs with touches
    · have wide : (span.1, max span.2 next.2).1 ≤ (span.1, max span.2 next.2).2 := by
        simp only
        omega
      have widened := ih wide restOrdered (fun later member => behind later (by simp [member]))
      refine ⟨widened.1, widened.2.1, fun number => (widened.2.2 number).trans ?_⟩
      simp only [covers_cons]
      rw [← or_assoc]
      refine or_congr ?_ Iff.rfl
      omega
    · refine ⟨ordered_cons.mpr ⟨own, ?_, ordered⟩, ?_, fun _ => Iff.rfl⟩
      · refine List.forall_mem_cons.mpr ⟨by omega, fun later rest => ?_⟩
        have := nextBehind later rest
        omega
      · exact List.forall_mem_cons.mpr ⟨by omega, behind⟩

private theorem joined (start stop : Int) (before : Ordered front)
    (ordered : Ordered rest) (own : start ≤ stop) (apart : ∀ earlier ∈ front, earlier.2 + 1 < start)
    (behind : ∀ next ∈ rest, start ≤ next.1) :
    Ordered (front ++ swallow (start, stop) rest) ∧ ∀ number,
      Covers (front ++ swallow (start, stop) rest) number ↔
        Covers front number ∨ (start ≤ number ∧ number ≤ stop) ∨ Covers rest number := by
  obtain ⟨kept, starts, covers⟩ := @swallow_spec (start, stop) rest own ordered behind
  refine ⟨ordered_append.mpr ⟨before, kept, ?_⟩, fun number => by simp [covers]⟩
  intro earlier member later inside
  have front := apart earlier member
  have back := starts later inside
  omega

private theorem behind_spec
    (ordered : Ordered (front ++ back)) (clear : ∀ earlier ∈ front, earlier.2 + 1 < number)
    (above : ∀ next ∈ back.head?, number ≤ next.1) :
    Ordered (insertBehind number front back) ∧ ∀ other,
      Covers (insertBehind number front back) other ↔ other = number ∨ Covers (front ++ back) other := by
  obtain ⟨before, after, across⟩ := ordered_append.mp ordered
  cases back with
  | nil =>
    refine ⟨ordered_append.mpr ⟨before, ⟨by simp, by simp⟩, by simpa [insertBehind] using clear⟩, ?_⟩
    intro other
    simp only [insertBehind, covers_append, covers_cons, covers_nil, or_false]
    rw [or_comm]
    exact or_congr (by omega) Iff.rfl
  | cons next later =>
    obtain ⟨nextOwn, nextBehind, laterOrdered⟩ := ordered_cons.mp after
    have start : number ≤ next.1 := above next rfl
    simp only [insertBehind]
    split_ifs with touches
    · have joins := joined (min next.1 number) (max next.2 number) before laterOrdered (by omega)
        (fun earlier member => by have := clear earlier member; omega)
        (fun further member => by have := nextBehind further member; omega)
      refine ⟨joins.1, fun other => (joins.2 other).trans ?_⟩
      simp only [covers_append, covers_cons]
      have : (min next.1 number ≤ other ∧ other ≤ max next.2 number) ↔
          other = number ∨ (next.1 ≤ other ∧ other ≤ next.2) := by omega
      simp only [this, or_assoc, or_left_comm]
    · refine ⟨ordered_append.mpr ⟨before, ordered_cons.mpr ⟨Int.le_refl _, ?_, after⟩, ?_⟩, ?_⟩
      · refine forall_mem_cons.mpr ⟨by simp only; omega, fun further rest => ?_⟩
        have := nextBehind further rest
        simp only
        omega
      · exact fun earlier member => forall_mem_cons.mpr ⟨clear earlier member, across earlier member⟩
      · intro other
        simp only [covers_append, covers_cons]
        have : (number ≤ other ∧ other ≤ number) ↔ other = number := by omega
        simp only [this, or_left_comm]

theorem insert_spec (ordered : Ordered spans) (number : Int) :
    Ordered (insert number spans) ∧
      ∀ other, Covers (insert number spans) other ↔ other = number ∨ Covers spans other := by
  have split := takeWhile_append_dropWhile (p := fun span : Int × Int => decide (span.1 < number))
    (l := spans)
  have below : ∀ span ∈ spans.takeWhile (·.1 < number), span.1 < number :=
    fun span member => by simpa using mem_takeWhile_imp member
  have above : ∀ next ∈ (spans.dropWhile (·.1 < number)).head?, number ≤ next.1 := by
    intro next first
    have reached := head?_dropWhile_not (fun span : Int × Int => decide (span.1 < number)) spans
    rw [Option.mem_def.mp first] at reached
    simpa using reached
  unfold insert
  generalize spans.takeWhile (·.1 < number) = front at split below ⊢
  generalize spans.dropWhile (·.1 < number) = back at split above ⊢
  subst split
  rcases eq_nil_or_concat front with rfl | ⟨init, last, rfl⟩
  · exact behind_spec ordered (by simp) above
  · simp only [concat_eq_append, getLast?_append, getLast?_singleton, Option.some_or,
      dropLast_concat] at *
    obtain ⟨before, after, across⟩ := ordered_append.mp ordered
    obtain ⟨initOrdered, lastOrdered, lastAcross⟩ := ordered_append.mp before
    have lastOwn := lastOrdered.filled last (by simp)
    have lastBelow := below last (by simp)
    split_ifs with reaches
    · have joins := joined last.1 (max last.2 number) initOrdered after (by omega)
        (fun earlier member => lastAcross earlier member last (by simp))
        (fun next member => by have := across last (by simp) next member; omega)
      refine ⟨joins.1, fun other => (joins.2 other).trans ?_⟩
      simp only [covers_append, covers_cons, covers_nil, or_false]
      have : (last.1 ≤ other ∧ other ≤ max last.2 number) ↔
          other = number ∨ (last.1 ≤ other ∧ other ≤ last.2) := by omega
      simp only [this, or_assoc, or_left_comm]
    · refine behind_spec ordered ?_ above
      intro earlier member
      rcases mem_append.mp member with early | own
      · have := lastAcross earlier early last (by simp)
        omega
      · rw [mem_singleton.mp own]
        omega

end Spans

/-- A set of integers as its maximal runs. -/
structure SpanSet where
  spans : List (Int × Int)
  ordered : Spans.Ordered spans

namespace SpanSet

instance : Membership Int SpanSet := ⟨fun set number => Spans.Covers set.spans number⟩

def empty : SpanSet := ⟨[], ⟨by simp, List.Pairwise.nil⟩⟩

def contains (set : SpanSet) (number : Int) : Bool :=
  (set.spans.takeWhile (·.1 ≤ number)).getLast?.any (number ≤ ·.2)

def add (set : SpanSet) (number : Int) : SpanSet :=
  ⟨Spans.insert number set.spans, (Spans.insert_spec set.ordered number).1⟩

@[simp] theorem not_mem_empty (number : Int) : number ∉ empty := Spans.covers_nil number

@[simp] theorem mem_add (set : SpanSet) (number other : Int) :
    other ∈ set.add number ↔ other = number ∨ other ∈ set :=
  (Spans.insert_spec set.ordered number).2 other

@[simp] theorem contains_iff (set : SpanSet) (number : Int) :
    set.contains number = true ↔ number ∈ set := by
  have split := List.takeWhile_append_dropWhile (p := fun span : Int × Int => decide (span.1 ≤ number))
    (l := set.spans)
  have above : ∀ next ∈ (set.spans.dropWhile (·.1 ≤ number)).head?, number < next.1 := by
    intro next first
    have reached := List.head?_dropWhile_not (fun span : Int × Int => decide (span.1 ≤ number)) set.spans
    rw [Option.mem_def.mp first] at reached
    simpa using reached
  have below : ∀ span ∈ set.spans.takeWhile (·.1 ≤ number), span.1 ≤ number :=
    fun span member => by simpa using List.mem_takeWhile_imp member
  have ordered := set.ordered
  change _ ↔ Spans.Covers set.spans number
  unfold contains
  generalize set.spans.takeWhile (·.1 ≤ number) = front at split below ⊢
  generalize set.spans.dropWhile (·.1 ≤ number) = back at split above
  rw [← split] at ordered ⊢
  obtain ⟨before, after, across⟩ := Spans.ordered_append.mp ordered
  -- No run behind the last one that starts in time reaches down to the number.
  have beyond : ¬ Spans.Covers back number := by
    rintro ⟨span, member, starts, _⟩
    cases back with
    | nil => simp at member
    | cons next later =>
      have first := above next rfl
      obtain ⟨own, behind, _⟩ := Spans.ordered_cons.mp after
      rcases List.mem_cons.mp member with rfl | further
      · omega
      · have := behind span further
        omega
  rcases List.eq_nil_or_concat front with rfl | ⟨init, last, rfl⟩
  · simpa using beyond
  · simp only [List.concat_eq_append] at *
    obtain ⟨_, lastOrdered, lastAcross⟩ := Spans.ordered_append.mp before
    have outside : ¬ Spans.Covers init number := by
      rintro ⟨span, member, _, ends⟩
      have := lastAcross span member last (by simp)
      have := below last (by simp)
      omega
    have starts := below last (by simp)
    simp [outside, beyond, starts]

end SpanSet
end KrxAlpha
