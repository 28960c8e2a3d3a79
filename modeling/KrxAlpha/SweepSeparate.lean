import KrxAlpha.Sweep

/-! Passes over distinct items whose visits do not interfere. Every visit reads
and writes only its own item's view of the state, so what a whole pass did is
what each visit would have done first, up to the item that stopped it. -/
namespace KrxAlpha
open List

universe u

variable {σ α ρ ε β : Type u}

/-- The items a pass gets to: the first one that halts it is the last. -/
def reach (halts : α → Bool) : List α → List α
  | [] => []
  | item :: rest => item :: if halts item then [] else reach halts rest

theorem mem_of_reach {halts : α → Bool} (reached : item ∈ reach halts items) : item ∈ items := by
  induction items with
  | nil => exact reached
  | cons first rest ih =>
    rcases mem_cons.mp reached with rfl | later
    · exact mem_cons_self
    · split at later
      · cases later
      · exact mem_cons_of_mem _ (ih later)

theorem reach_of_quiet {halts : α → Bool}
    (quiet : ∀ item ∈ items, halts item = false) : reach halts items = items := by
  induction items with
  | nil => rfl
  | cons first rest ih =>
    simp only [reach, quiet first mem_cons_self, Bool.false_eq_true, if_false]
    rw [ih fun item member => quiet item (mem_cons_of_mem _ member)]

theorem reach_congr {halts other : α → Bool}
    (same : ∀ item ∈ items, halts item = other item) : reach halts items = reach other items := by
  induction items with
  | nil => rfl
  | cons first rest ih =>
    simp only [reach, same first mem_cons_self,
      ih fun item member => same item (mem_cons_of_mem _ member)]

/-- Visits to different items do not see each other. -/
structure Separate (visit : σ → α → Visit σ α ρ ε) (view : σ → α → β) : Prop where
  framed : ∀ state {item other}, other ≠ item →
    view (visit state item).state other = view state other
  emits : ∀ {first second item}, view first item = view second item →
    (visit first item).emitted = (visit second item).emitted
  stops : ∀ {first second item}, view first item = view second item →
    (visit first item).stop = (visit second item).stop
  writes : ∀ {first second item}, view first item = view second item →
    view (visit first item).state item = view (visit second item).state item

namespace Separate
variable {visit : σ → α → Visit σ α ρ ε} {view : σ → α → β} (separate : Separate visit view)
include separate

private theorem rest_view {rest : List α} (apart : item ∉ rest)
    (member : other ∈ rest) : view (visit state item).state other = view state other :=
  separate.framed state fun same => apart (same ▸ member)

private theorem rest_reach {rest : List α} (apart : item ∉ rest) :
    reach (fun other => (visit (visit state item).state other).stop.isSome) rest =
      reach (fun other => (visit state other).stop.isSome) rest :=
  reach_congr fun _ member => by rw [separate.stops (separate.rest_view apart member)]

/-- The records of a pass are those of its visits, each taken from the start. -/
theorem emitted (distinct : items.Nodup) (state : σ) :
    (sweep visit state items).emitted =
      (reach (fun item => (visit state item).stop.isSome) items).flatMap
        fun item => (visit state item).emitted := by
  induction items generalizing state with
  | nil => rfl
  | cons item rest ih =>
    obtain ⟨apart, others⟩ := nodup_cons.mp distinct
    cases stopped : (visit state item).stop with
    | some err => simp [sweep_cons_stop stopped, reach, stopped]
    | none =>
      rw [sweep_cons_next stopped, ih others, separate.rest_reach apart]
      simp only [reach, stopped, Option.isSome_none, Bool.false_eq_true, if_false,
        flatMap_cons]
      congr 1
      apply flatMap_congr
      intro other member
      exact separate.emits (separate.rest_view apart (mem_of_reach member))

/-- A pass stops exactly when one of its visits would. -/
theorem stop_none_iff (distinct : items.Nodup) (state : σ) :
    (sweep visit state items).stop = none ↔ ∀ item ∈ items, (visit state item).stop = none := by
  induction items generalizing state with
  | nil => simp
  | cons item rest ih =>
    obtain ⟨apart, others⟩ := nodup_cons.mp distinct
    cases stopped : (visit state item).stop with
    | some err => simp [sweep_cons_stop stopped, stopped]
    | none =>
      rw [sweep_cons_next stopped, forall_mem_cons]
      simp only [ih others, stopped, true_and]
      apply forall₂_congr
      intro other member
      rw [separate.stops (separate.rest_view apart member)]

/-- An item the pass does not get to keeps its view. -/
theorem view_unreached (distinct : items.Nodup) (state : σ)
    (unreached : item ∉ reach (fun item => (visit state item).stop.isSome) items) :
    view (sweep visit state items).state item = view state item := by
  induction items generalizing state with
  | nil => rfl
  | cons first rest ih =>
    obtain ⟨apart, others⟩ := nodup_cons.mp distinct
    obtain ⟨different, later⟩ := not_or.mp (mem_cons.not.mp unreached)
    cases stopped : (visit state first).stop with
    | some err =>
      rw [sweep_cons_stop stopped]
      exact separate.framed state different
    | none =>
      simp only [stopped, Option.isSome_none, Bool.false_eq_true, if_false] at later
      rw [← separate.rest_reach apart] at later
      rw [sweep_cons_next stopped]
      exact (ih others _ later).trans (separate.framed state different)

/-- An item the pass got to ends as its own visit left it. -/
theorem view_reached (distinct : items.Nodup) (state : σ)
    (reached : item ∈ reach (fun item => (visit state item).stop.isSome) items) :
    view (sweep visit state items).state item = view (visit state item).state item := by
  induction items generalizing state with
  | nil => cases reached
  | cons first rest ih =>
    obtain ⟨apart, others⟩ := nodup_cons.mp distinct
    cases stopped : (visit state first).stop with
    | some err =>
      simp only [reach, stopped, Option.isSome_some, if_true, mem_singleton] at reached
      rw [sweep_cons_stop stopped, reached]
    | none =>
      rw [sweep_cons_next stopped]
      simp only [reach, stopped, Option.isSome_none, Bool.false_eq_true, if_false] at reached
      rcases mem_cons.mp reached with rfl | later
      · exact separate.view_unreached others _ fun later => apart (mem_of_reach later)
      · have member := mem_of_reach later
        rw [← separate.rest_reach apart] at later
        exact (ih others _ later).trans (separate.writes (separate.rest_view apart member))

end Separate
end KrxAlpha
