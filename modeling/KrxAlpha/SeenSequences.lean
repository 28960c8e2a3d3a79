import KrxAlpha.Bisect
import KrxAlpha.SpanSet

/-! The sequence numbers seen on a connection, as the auditor stores them: the
starts and the ends of the runs in two lists, searched by bisection and changed
in place. They hold the set of the numbers added, by its maximal runs. -/
namespace KrxAlpha
open List hiding contains

structure SeenSequences where
  starts : List Int := []
  ends : List Int := []
  deriving DecidableEq

namespace SeenSequences

/-- Whether the number was seen; no answer would be an index out of range. -/
def contains (seen : SeenSequences) (seq : Int) : Option Bool :=
  match bisectRight seen.starts seq with
  | 0 => some false
  | idx + 1 => do
    let stop ← seen.ends[idx]?
    return decide (seq ≤ stop)

/-- The runs behind `idx` that it touches are deleted, and it reaches as far as they do. -/
def closeGaps (idx : Nat) (seen : SeenSequences) : Option SeenSequences :=
  if inside : idx + 1 < seen.starts.length then do
    let stop ← seen.ends[idx]?
    if seen.starts[idx + 1] - 1 ≤ stop then
      let next ← seen.ends[idx + 1]?
      let ends := if stop < next then seen.ends.set idx next else seen.ends
      closeGaps idx ⟨seen.starts.eraseIdx (idx + 1), ends.eraseIdx (idx + 1)⟩
    else return seen
  else return seen
termination_by seen.starts.length
decreasing_by
  simp only [List.length_eraseIdx_of_lt inside]
  omega

/-- Write the run at `idx`, then join what it touches. -/
def widen (seen : SeenSequences) (idx : Nat) (start stop : Int) : Option SeenSequences :=
  closeGaps idx ⟨seen.starts.set idx start, seen.ends.set idx stop⟩

/-- A run of its own, at `idx`. -/
def insertRun (seen : SeenSequences) (idx : Nat) (seq : Int) : SeenSequences :=
  ⟨seen.starts.insertIdx idx seq, seen.ends.insertIdx idx seq⟩

/-- The part of `add` in which the run in front of `idx` does not take the number. -/
def addBehind (seen : SeenSequences) (seq : Int) (idx : Nat) : Option SeenSequences :=
  match seen.starts[idx]? with
  | none => some (seen.insertRun idx seq)
  | some start =>
    if start - 1 ≤ seq then do
      let stop ← seen.ends[idx]?
      if seq ≤ stop + 1 then
        seen.widen idx (if start ≤ seq then start else seq) (if seq ≤ stop then stop else seq)
      else return seen.insertRun idx seq
    else some (seen.insertRun idx seq)

def add (seen : SeenSequences) (seq : Int) : Option SeenSequences :=
  match bisectLeft seen.starts seq with
  | 0 => seen.addBehind seq 0
  | idx + 1 => do
    let stop ← seen.ends[idx]?
    if seq ≤ stop + 1 then
      let start ← seen.starts[idx]?
      seen.widen idx start (if seq ≤ stop then stop else seq)
    else seen.addBehind seq (idx + 1)

/-- The numbers of a journal, added one after the other. -/
def addAll (seqs : List Int) : Option SeenSequences :=
  seqs.foldlM add {}

/-! ### The two lists of a set of runs -/

def ofSpans (spans : List (Int × Int)) : SeenSequences :=
  ⟨spans.map (·.1), spans.map (·.2)⟩

private theorem close_gaps_read {start stop next : Int}
    (starts : seen.starts[idx + 1]? = some start) (ends : seen.ends[idx]? = some stop)
    (behind : seen.ends[idx + 1]? = some next) :
    closeGaps idx seen =
      if start - 1 ≤ stop then
        closeGaps idx ⟨seen.starts.eraseIdx (idx + 1), (seen.ends.set idx (max stop next)).eraseIdx (idx + 1)⟩
      else some seen := by
  obtain ⟨inside, rfl⟩ := List.getElem?_eq_some_iff.mp starts
  have kept : seen.ends.set idx stop = seen.ends := by
    obtain ⟨within, rfl⟩ := List.getElem?_eq_some_iff.mp ends
    exact set_getElem_self within
  rw [closeGaps, dif_pos inside, Int.max_def]
  simp only [ends, behind, Option.bind_eq_bind, Option.bind_some]
  by_cases reaches : stop < next
  · rw [if_pos reaches, if_pos (Int.le_of_lt reaches)]
    rfl
  · have same : (if stop ≤ next then next else stop) = stop := by omega
    rw [if_neg reaches, same, kept]
    rfl

/-- The loop over the lists is the recursion over the runs behind the widened one. -/
theorem close_gaps_of_spans (front rest : List (Int × Int)) (span : Int × Int) :
    closeGaps front.length (ofSpans (front ++ span :: rest)) =
      some (ofSpans (front ++ Spans.swallow span rest)) := by
  induction rest generalizing span with
  | nil =>
    rw [closeGaps, dif_neg (by simp [ofSpans])]
    rfl
  | cons next rest ih =>
    have erased : (⟨(ofSpans (front ++ span :: next :: rest)).starts.eraseIdx (front.length + 1),
        ((ofSpans (front ++ span :: next :: rest)).ends.set front.length
          (max span.2 next.2)).eraseIdx (front.length + 1)⟩ : SeenSequences) =
        ofSpans (front ++ (span.1, max span.2 next.2) :: rest) := by
      simp [ofSpans, eraseIdx_append_of_length_le]
    rw [@close_gaps_read front.length _ next.1 span.2 next.2 (by simp [ofSpans])
      (by simp [ofSpans]) (by simp [ofSpans]), Spans.swallow, erased, ih]
    split_ifs <;> rfl

theorem widen_of_spans (front rest : List (Int × Int)) (span : Int × Int) (start stop : Int) :
    (ofSpans (front ++ span :: rest)).widen front.length start stop =
      some (ofSpans (front ++ Spans.swallow (start, stop) rest)) := by
  rw [← close_gaps_of_spans]
  simp [widen, ofSpans]

private theorem insert_run_of_spans (front back : List (Int × Int)) (seq : Int) :
    (ofSpans (front ++ back)).insertRun front.length seq = ofSpans (front ++ (seq, seq) :: back) := by
  induction front with
  | nil => rfl
  | cons first front ih =>
    simp only [ofSpans, insertRun, cons_append, map_cons, length_cons,
      insertIdx_succ_cons, SeenSequences.mk.injEq, cons.injEq, true_and] at ih ⊢
    exact ih

theorem add_behind_of_spans (front back : List (Int × Int)) (seq : Int) :
    (ofSpans (front ++ back)).addBehind seq front.length =
      some (ofSpans (Spans.insertBehind seq front back)) := by
  have fresh := insert_run_of_spans front back seq
  cases back with
  | nil =>
    have none : (ofSpans (front ++ [])).starts[front.length]? = none := by simp [ofSpans]
    simp only [addBehind, none, fresh]
    rfl
  | cons next later =>
    have start : (ofSpans (front ++ next :: later)).starts[front.length]? = some next.1 := by
      simp [ofSpans]
    have stop : (ofSpans (front ++ next :: later)).ends[front.length]? = some next.2 := by
      simp [ofSpans]
    have least : (if next.1 ≤ seq then next.1 else seq) = min next.1 seq := by omega
    have most : (if seq ≤ next.2 then next.2 else seq) = max next.2 seq := by omega
    simp only [addBehind, start, stop, fresh, widen_of_spans, Spans.insertBehind, Option.bind_eq_bind,
      Option.bind_some, least, most]
    split_ifs <;> first | rfl | omega

private theorem search_starts (test : Int → Bool) {spans : List (Int × Int)}
    (down : spans.Pairwise fun first second => test second.1 → test first.1) :
    bisect test (spans.map (·.1)) 0 (spans.map (·.1)).length =
      (spans.takeWhile fun span => test span.1).length := by
  rw [bisect_eq_count test (pairwise_map.mpr down) (Nat.zero_le _) countP_le_length
    (Nat.le_refl _), countP_map]
  exact count_eq_length_takeWhile _ down

section

variable (ordered : Spans.Ordered spans)
include ordered

private theorem starts_rise : spans.Pairwise fun first second => first.1 < second.1 := by
  refine ordered.apart.imp_of_mem ?_
  intro first second member _ apart
  have := ordered.filled first member
  omega

/-- One addition to the lists is one addition to the set of runs. -/
theorem add_of_spans (seq : Int) :
    (ofSpans spans).add seq = some (ofSpans (Spans.insert seq spans)) := by
  have place := search_starts (· < seq)
    ((starts_rise ordered).imp fun rise => by simp only [decide_eq_true_eq]; omega)
  have split := takeWhile_append_dropWhile (p := fun span : Int × Int => decide (span.1 < seq))
    (l := spans)
  change bisectLeft (ofSpans spans).starts seq = _ at place
  simp only [add, place, Spans.insert]
  generalize spans.takeWhile (fun span => decide (span.1 < seq)) = front at split ⊢
  generalize spans.dropWhile (fun span => decide (span.1 < seq)) = back at split ⊢
  subst split
  rcases eq_nil_or_concat front with rfl | ⟨init, last, rfl⟩
  · exact add_behind_of_spans [] back seq
  · simp only [concat_eq_append, append_assoc, singleton_append, length_append,
      length_singleton, getLast?_append, getLast?_singleton, Option.some_or,
      dropLast_concat]
    have start : (ofSpans (init ++ last :: back)).starts[init.length]? = some last.1 := by
      simp [ofSpans]
    have stop : (ofSpans (init ++ last :: back)).ends[init.length]? = some last.2 := by
      simp [ofSpans]
    have most : (if seq ≤ last.2 then last.2 else seq) = max last.2 seq := by omega
    simp only [start, stop, Option.bind_eq_bind, Option.bind_some, most, widen_of_spans]
    split_ifs with reaches
    · rfl
    · have behind := add_behind_of_spans (init ++ [last]) back seq
      rwa [append_assoc, length_append, length_singleton] at behind

theorem contains_of_spans (seq : Int) :
    (ofSpans spans).contains seq = some ((SpanSet.mk spans ordered).contains seq) := by
  have place := search_starts (· ≤ seq)
    ((starts_rise ordered).imp fun rise => by simp only [decide_eq_true_eq]; omega)
  have split := takeWhile_append_dropWhile (p := fun span : Int × Int => decide (span.1 ≤ seq))
    (l := spans)
  change bisectRight (ofSpans spans).starts seq = _ at place
  simp only [contains, place, SpanSet.contains]
  generalize spans.takeWhile (fun span => decide (span.1 ≤ seq)) = front at split ⊢
  rcases eq_nil_or_concat front with rfl | ⟨init, last, rfl⟩
  · rfl
  · have stop : (ofSpans spans).ends[init.length]? = some last.2 := by
      rw [← split]
      simp [ofSpans]
    simp [stop]

end

/-- A whole run of additions, seen as additions to the set of runs. -/
theorem add_all_of_spans (seqs : List Int) (set : SpanSet) :
    seqs.foldlM add (ofSpans set.spans) = some (ofSpans (seqs.foldl SpanSet.add set).spans) := by
  induction seqs generalizing set with
  | nil => rfl
  | cons seq seqs ih =>
    rw [foldlM_cons, add_of_spans set.ordered]
    exact ih (set.add seq)

theorem mem_fold_add (seqs : List Int) (set : SpanSet) (number : Int) :
    number ∈ seqs.foldl SpanSet.add set ↔ number ∈ seqs ∨ number ∈ set := by
  induction seqs generalizing set with
  | nil => simp
  | cons seq seqs ih =>
    rw [foldl_cons, ih, SpanSet.mem_add, mem_cons]
    exact or_left_comm.trans (by rw [or_assoc])

/-- A number starts a stored run if it is in the set and the one before it is not. -/
theorem mem_starts_iff (ordered : Spans.Ordered spans) (number : Int) :
    number ∈ spans.map (·.1) ↔ Spans.Covers spans number ∧ ¬ Spans.Covers spans (number - 1) := by
  induction spans with
  | nil => simp
  | cons span spans ih =>
    obtain ⟨own, behind, rest⟩ := Spans.ordered_cons.mp ordered
    -- Whatever the later runs hold lies beyond the gap.
    have beyond {other : Int} : Spans.Covers spans other → span.2 + 1 < other := by
      rintro ⟨later, member, starts, -⟩
      have := behind later member
      omega
    rw [map_cons, mem_cons, ih rest, Spans.covers_cons, Spans.covers_cons]
    constructor
    · rintro (rfl | ⟨held, first⟩)
      · refine ⟨.inl ⟨Int.le_refl _, own⟩, ?_⟩
        rintro (inside | inside)
        · omega
        · have := beyond inside
          omega
      · have := beyond held
        exact ⟨.inr held, by rintro (inside | inside) <;> [omega; exact first inside]⟩
    · rintro ⟨inside | held, first⟩
      · left
        omega
      · exact .inr ⟨held, fun before => first (.inr before)⟩

/-- The store never fails, answers exactly for the numbers added, in whatever order
they came, and keeps sorted runs with a gap between any two: one run for each number
that has no predecessor in the set. -/
theorem seen_sequences_exact (seqs : List Int) :
    ∃ seen, addAll seqs = some seen ∧
      (∀ seq, seen.contains seq = some (decide (seq ∈ seqs))) ∧
      seen.starts.length = seen.ends.length ∧
      Spans.Ordered (seen.starts.zip seen.ends) ∧
      ∀ seq, seq ∈ seen.starts ↔ seq ∈ seqs ∧ seq - 1 ∉ seqs := by
  have holds (number : Int) : Spans.Covers (seqs.foldl SpanSet.add .empty).spans number ↔
      number ∈ seqs := by
    have := mem_fold_add seqs .empty number
    rwa [or_iff_left (SpanSet.not_mem_empty number)] at this
  generalize found : seqs.foldl SpanSet.add .empty = set at holds
  refine ⟨ofSpans set.spans, found ▸ add_all_of_spans seqs .empty, fun seq => ?_, ?_, ?_, fun seq => ?_⟩
  · rw [contains_of_spans set.ordered, Option.some_inj, Bool.eq_iff_iff, decide_eq_true_eq, ← holds]
    exact SpanSet.contains_iff set seq
  · simp [ofSpans]
  · have whole : (ofSpans set.spans).starts.zip (ofSpans set.spans).ends = set.spans := by
      simp [ofSpans, zip_map', map_id']
    rw [whole]
    exact set.ordered
  · rw [← holds, ← holds]
    exact mem_starts_iff set.ordered seq

end SeenSequences
end KrxAlpha
