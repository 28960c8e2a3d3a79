import KrxAlpha.TapeWalk

/-! What a walk over a symbol's tape certifies, with and without a callback for the days it has
read whole. Whichever way a walk ends, it has read a first part of the tape; a day with an older
trade in that part lies in it wholly, and only the end of the tape says anything of the days
before the oldest trade. -/
namespace KrxAlpha
open List

/-! ### What a walk has read -/

/-- The answers bring no trade but those of the tape. -/
theorem CutFrom.start (cut : CutFrom tape fetches) : fetchedTicks fetches <+: tape := by
  induction fetches generalizing tape with
  | nil => exact nil_prefix
  | cons fetch rest ih =>
    cases fetch with
    | boundary => exact nil_prefix
    | failed failure => exact nil_prefix
    | page page =>
      obtain ⟨remaining, rfl, -, cut⟩ := cut
      exact (prefix_append_right_inj _).mpr (ih cut)

/-- The newest and the oldest day read. -/
structure Spans (read : List TapeTick) (walk : WalkState) : Prop where
  newest : ∀ day ∈ walk.newest, ∃ tick ∈ read, tick.day = day
  oldest : ∀ tick ∈ read, ∃ day ∈ walk.oldest, day ≤ tick.day

namespace Spans

variable {read : List TapeTick} {walk next : WalkState}

section

variable (spans : Spans read walk)
include spans

theorem take_tick (taken : walk.takeTick tick = .ok next) : Spans (read ++ [tick]) next := by
  unfold WalkState.takeTick at taken
  split at taken
  · cases taken
  cases taken
  constructor
  · rintro day ⟨⟩
    cases earlier : walk.newest with
    | none => exact ⟨tick, by simp, rfl⟩
    | some before =>
      obtain ⟨newer, within, at_⟩ := spans.newest before earlier
      rcases max_choice before tick.day with stays | moves
      · exact ⟨newer, mem_append_left _ within, at_.trans stays.symm⟩
      · exact ⟨tick, by simp, moves.symm⟩
  · intro other held
    refine ⟨_, rfl, ?_⟩
    rcases mem_append.mp held with before | last
    · obtain ⟨day, known, below⟩ := spans.oldest other before
      rw [Option.mem_def] at known
      simp only [known, Option.elim_some]
      omega
    · rw [mem_singleton.mp last]
      cases walk.oldest with
      | none => simp
      | some day => simp

theorem take_ticks
    (taken : ticks.foldlM WalkState.takeTick walk = .ok next) : Spans (read ++ ticks) next := by
  induction ticks generalizing read walk with
  | nil =>
    cases taken
    simpa using spans
  | cons tick rest step =>
    rw [foldlM_cons] at taken
    obtain ⟨middle, first, later⟩ := bind_ok taken
    rw [← singleton_append, ← append_assoc]
    exact step (spans.take_tick first) later

theorem emit_day (handed : walk.emitDay stageable day = .ok next) : Spans read next := by
  unfold WalkState.emitDay at handed
  split at handed
  · cases handed
  · cases handed
    exact ⟨spans.newest, spans.oldest⟩

theorem read_page (paged : walk.readPage callback page = .ok next) (cursors : List String) :
    Spans (read ++ page.ticks) { next with cursors } := by
  obtain ⟨taken, ticks, handed⟩ := bind_ok paged
  have taking := spans.take_ticks ticks
  cases callback with
  | none =>
    cases handed
    exact ⟨taking.newest, taking.oldest⟩
  | some stageable =>
    have given := foldlM_keeps (fun _ _ _ _ held => held.emit_day) taking handed
    exact ⟨given.newest, given.oldest⟩

end

end Spans

/-! ### What it certifies -/

section Finish

variable {tape read : List TapeTick} {wanted : List Int} {walk : WalkState} {termination : Termination}

variable {day : Int}

theorem Reads.older (reads : Reads tape wanted read walk)
    (older : (walk.oldest.any (· < day)) = true) : ∃ tick ∈ read, tick.day < day := by
  cases known : walk.oldest with
  | none => simp [known] at older
  | some oldest =>
    obtain ⟨tick, within, same⟩ := reads.oldest oldest known
    exact ⟨tick, within, by simpa [known, same] using older⟩

/-- What a walk says of a day it did not hand on is said from the trades it has read of it. -/
theorem Reads.rows_eq (reads : Reads tape wanted read walk) (asked : day ∈ wanted)
    (unemitted : day ∉ walk.emitted.map Prod.fst) : walk.rows day = read.filter (·.day = day) := by
  simp [WalkState.rows, reads.held day asked unemitted]

/-- The wanted days that were not handed on, and at an oversized day only those after it. -/
theorem mem_left
    (left : day ∈ wanted.filter fun day => !(walk.emitted.map Prod.fst).contains day &&
      match termination with
      | .oversize largest => decide (largest < day)
      | _ => true) : day ∈ wanted ∧ day ∉ walk.emitted.map Prod.fst := by
  simp only [mem_filter, Bool.and_eq_true, Bool.not_eq_true', contains_eq_mem,
    decide_eq_false_iff_not] at left
  exact ⟨left.1, left.2.1⟩

theorem finish_edge (edge : day ∈ (walk.finish wanted termination).edgePartial) :
    termination = .tapeEnd ∧ walk.oldest = some day := by
  simp only [WalkState.finish] at edge
  split at edge
  · exact ⟨‹_›, by simpa using edge⟩
  · simp at edge

section

variable (ordered : NewestFirst tape) (reads : Reads tape wanted read walk)
include ordered reads

theorem finish_complete
    {entry : Int × List TapeTick} (held : entry ∈ (walk.finish wanted termination).complete) :
    entry.1 ∈ wanted ∧ entry.1 ∉ walk.emitted.map Prod.fst ∧ walk.rows entry.1 ≠ [] ∧
      entry.2 = (tape.filter (·.day = entry.1)).reverse ∧
      entry.1 ∉ (walk.finish wanted termination).edgePartial := by
  simp only [WalkState.finish, mem_map] at held
  obtain ⟨day, chosen, rfl⟩ := held
  obtain ⟨left, certified⟩ := mem_filter.mp chosen
  obtain ⟨asked, unemitted⟩ := mem_left left
  simp only [Bool.and_eq_true, Bool.not_eq_true', isEmpty_eq_false_iff, bne_iff_ne] at certified
  obtain ⟨⟨some_rows, older⟩, inside⟩ := certified
  refine ⟨asked, unemitted, some_rows, ?_, fun edge => ?_⟩
  · rw [Reads.filter_eq ordered reads.start (reads.older older), reads.rows_eq asked unemitted]
  · obtain ⟨tape_end, oldest⟩ := finish_edge edge
    exact inside (by simp [tape_end, oldest])

theorem finish_vendor_empty (spans : Spans read walk) (whole : termination = .tapeEnd → read = tape)
    (empty : day ∈ (walk.finish wanted termination).vendorEmpty) :
    day ∉ walk.emitted.map Prod.fst ∧ walk.rows day = [] ∧ (∀ tick ∈ tape, tick.day ≠ day) ∧
      day ∉ (walk.finish wanted termination).edgePartial := by
  simp only [WalkState.finish] at empty
  obtain ⟨left, said⟩ := List.mem_filter.mp ((List.perm_insertionSort _ _).mem_iff.mp empty)
  obtain ⟨asked, unemitted⟩ := mem_left left
  simp only [Bool.and_eq_true, Bool.or_eq_true, List.isEmpty_iff, bne_iff_ne] at said
  obtain ⟨no_rows, between | before⟩ := said
  · obtain ⟨⟨_, older⟩, inside⟩ := between
    refine ⟨unemitted, no_rows, ?_, fun edge => ?_⟩
    · have read_all := Reads.filter_eq ordered reads.start (reads.older older)
      rw [← reads.rows_eq asked unemitted, no_rows] at read_all
      simpa [List.filter_eq_nil_iff] using read_all
    · obtain ⟨tape_end, oldest⟩ := finish_edge edge
      exact inside (by simp [tape_end, oldest])
  · -- At the end of the tape every trade is at the oldest day or after it.
    split at before
    · rename_i tape_end
      cases known : walk.oldest with
      | none => simp [known] at before
      | some oldest =>
        have earlier : day < oldest := by simpa [known] using before
        refine ⟨unemitted, no_rows, fun tick held same => ?_, fun edge => ?_⟩
        · rw [← whole tape_end] at held
          obtain ⟨least, found, below⟩ := spans.oldest tick held
          rw [known] at found
          cases found
          omega
        · have at_edge := (finish_edge edge).2
          rw [known] at at_edge
          cases at_edge
          omega
    · simp at before

end

theorem finish_emitted_past_edge (reads : Reads tape wanted read walk) (spans : Spans read walk)
    (handed : day ∈ walk.emitted.map Prod.fst) :
    day ∉ (walk.finish wanted termination).edgePartial := by
  intro edge
  obtain ⟨_, tick, held, before⟩ := reads.passed day handed
  obtain ⟨oldest, known, below⟩ := spans.oldest tick held
  rw [(finish_edge edge).2] at known
  cases known
  omega

theorem finish_complete_nodup (walk : WalkState) (distinct : wanted.Nodup) (termination : Termination) :
    ((walk.finish wanted termination).complete.map Prod.fst).Nodup := by
  simp only [WalkState.finish, map_map, Function.comp_def, map_id']
  exact distinct.sublist (filter_sublist.trans filter_sublist)

/-- No day gets two verdicts. -/
theorem finish_disjoint (ordered : NewestFirst tape) (reads : Reads tape wanted read walk)
    (spans : Spans read walk) (whole : termination = .tapeEnd → read = tape) :
    [(walk.finish wanted termination).complete.map Prod.fst, walk.emitted.map Prod.fst,
      (walk.finish wanted termination).vendorEmpty,
      (walk.finish wanted termination).edgePartial].Pairwise List.Disjoint := by
  simp only [pairwise_cons, mem_cons, not_mem_nil, or_false, forall_eq_or_imp,
    forall_eq, List.Pairwise.nil, and_true, IsEmpty.forall_iff, implies_true]
  refine ⟨⟨?_, ?_, ?_⟩, ⟨?_, ?_⟩, ?_⟩
  · rintro day complete handed
    obtain ⟨entry, held, rfl⟩ := mem_map.mp complete
    exact (finish_complete ordered reads held).2.1 handed
  · rintro day complete empty
    obtain ⟨entry, held, rfl⟩ := mem_map.mp complete
    exact (finish_complete ordered reads held).2.2.1
      (finish_vendor_empty ordered reads spans whole empty).2.1
  · rintro day complete edge
    obtain ⟨entry, held, rfl⟩ := mem_map.mp complete
    exact (finish_complete ordered reads held).2.2.2.2 edge
  · exact fun day handed empty => (finish_vendor_empty ordered reads spans whole empty).1 handed
  · exact fun day handed edge => finish_emitted_past_edge reads spans handed edge
  · exact fun day empty edge => (finish_vendor_empty ordered reads spans whole empty).2.2.2 edge

end Finish

/-- However the vendor cuts the tape and however the walk ends, with a callback or without: a day it
calls complete or hands on has all its trades, oldest first, and is given once; a day it calls empty
has none; and no day is given two of its four verdicts. -/
theorem certified_days_whole (tape : List TapeTick) (ordered : NewestFirst tape) (wanted : List Int)
    (distinct : wanted.Nodup) (maxPages : Nat) (maxTicks : Option Nat)
    (callback : Option (Option Nat)) (fetches : List Fetch) (cut : CutFrom tape fetches)
    (walk : TapeWalk)
    (walked : walkSymbolTapeWith wanted maxPages maxTicks callback fetches = .ok walk) :
    (∀ entry ∈ walk.complete ++ walk.emitted,
        entry.1 ∈ wanted ∧ entry.2 = (tape.filter (·.day = entry.1)).reverse) ∧
      ((walk.complete ++ walk.emitted).map Prod.fst).Nodup ∧
      (∀ day ∈ walk.vendorEmpty, ∀ tick ∈ tape, tick.day ≠ day) ∧
      [walk.complete.map Prod.fst, walk.emitted.map Prod.fst, walk.vendorEmpty,
        walk.edgePartial].Pairwise List.Disjoint := by
  unfold walkSymbolTapeWith at walked
  split at walked
  · cases walked
  split at walked
  · cases walked
    simp
  obtain ⟨⟨last, termination⟩, pages, rfl⟩ := map_ok walked
  have kept {read walk page next} (held : Reads tape wanted read walk ∧ Spans read walk)
      (start : read ++ page.ticks <+: tape) (paged : walk.readPage callback page = .ok next) cursors :
      Reads tape wanted (read ++ page.ticks) { next with cursors } ∧
        Spans (read ++ page.ticks) { next with cursors } :=
    ⟨held.1.read_page ordered start paged cursors, held.2.read_page paged cursors⟩
  obtain ⟨read, ⟨reads, spans⟩, ended⟩ := walk_pages_keeps kept
    ⟨Reads.initial tape distinct, ⟨by simp, by simp⟩⟩ cut.start pages
  have whole (atEnd : termination = .tapeEnd) : read = tape := ended atEnd tape (nil_append tape).symm cut
  have disjoint := finish_disjoint ordered reads spans whole
  refine ⟨fun entry held => ?_, ?_, fun day empty => ?_, disjoint⟩
  · rcases mem_append.mp held with complete | emitted
    · obtain ⟨asked, _, _, all, _⟩ := finish_complete ordered reads complete
      exact ⟨asked, all⟩
    · exact ⟨(reads.whole entry emitted).1, (reads.whole entry emitted).2.2⟩
  · rw [map_append]
    refine (finish_complete_nodup last distinct termination).append reads.distinct ?_
    exact (pairwise_cons.mp disjoint).1 _ (mem_cons_self ..)
  · exact (finish_vendor_empty ordered reads spans whole empty).2.2.1

namespace Sample

/-- Two trades of one day on a page, and the last trade of the tape on the next. -/
def pageOfTen : List TapeTick := [⟨10, 90001, 71100, 5⟩, ⟨10, 90000, 71000, 3⟩]

def pageOfNine : List TapeTick := [⟨9, 152000, 70900, 1⟩]

def twoPages : List Fetch :=
  [.page { ticks := pageOfTen, nextKey := some "k" }, .page { ticks := pageOfNine }]

end Sample

open Sample

theorem certified_days_whole_two_pages :
    ∃ walk, walkSymbolTapeWith [10, 8] 5 none none twoPages = .ok walk ∧
      walk.complete = [(10, pageOfTen.reverse)] ∧ walk.vendorEmpty = [8] ∧
      ∀ day ∈ walk.vendorEmpty, ∀ tick ∈ pageOfTen ++ pageOfNine, tick.day ≠ day := by
  have cut : CutFrom (pageOfTen ++ pageOfNine) twoPages :=
    ⟨pageOfNine, rfl, by simp [pageOfNine], [], rfl, by simp, trivial⟩
  refine ⟨_, rfl, by decide, by decide, ?_⟩
  exact (certified_days_whole (pageOfTen ++ pageOfNine) (by unfold NewestFirst; decide)
    [10, 8] (by decide) 5 none none twoPages cut _ rfl).2.2.1

end KrxAlpha
