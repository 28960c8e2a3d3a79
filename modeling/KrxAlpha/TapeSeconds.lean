import Mathlib.Logic.Relation
import KrxAlpha.TapeFill

/-! The seconds of recovered trades. The missing trades of touching gaps are pooled and handed out
by number, in time order. A trade may so go to another gap than its own, but only to one that is
linked to it by gaps of the symbol of which each shares a second with the next. -/
namespace KrxAlpha
open List

/-- The trade is of the interval's seconds. -/
def AuditInterval.Spans (interval : AuditInterval) (ts : Int) : Prop :=
  interval.firstSecond ≤ ts ∧ ts ≤ interval.lastSecond

/-- Gaps of one symbol with a second in common. -/
def AuditItem.Shares (first second : AuditItem) : Prop :=
  first.symbol = second.symbol ∧
    first.interval.firstSecond ≤ second.interval.lastSecond ∧
    second.interval.firstSecond ≤ first.interval.lastSecond

/-- A chain of gaps leads from one to the other, each sharing a second with the next. -/
def Chained (items : List AuditItem) : AuditItem → AuditItem → Prop :=
  Relation.ReflTransGen fun first second => first ∈ items ∧ second ∈ items ∧ first.Shares second

theorem chained_symm (chained : Chained items first second) : Chained items second first := by
  induction chained with
  | refl => exact .refl
  | tail _ step back =>
    obtain ⟨here, there, symbol, early, late⟩ := step
    exact .head ⟨there, here, symbol.symm, late, early⟩ back

/-- The members of a cluster are chained to each other and span all its seconds. -/
structure Linked (items : List AuditItem) (cluster : Cluster) : Prop where
  listed : ∀ member ∈ cluster.members, member ∈ items ∧ member.symbol = cluster.symbol
  chained : ∀ first ∈ cluster.members, ∀ second ∈ cluster.members, Chained items first second
  spanned : ∀ ts, cluster.lo ≤ ts → ts ≤ cluster.hi → ∃ member ∈ cluster.members, member.interval.Spans ts

section Clusters

variable {items rest : List AuditItem} {item : AuditItem} {clusters : List Cluster}
  (listed : item ∈ items) (ordered : item.interval.firstSecond ≤ item.interval.lastSecond)
include listed

theorem linked_alone :
    Linked items ⟨[item], item.symbol, item.interval.firstSecond, item.interval.lastSecond⟩ where
  listed := by simpa using listed
  chained first here second there := by
    rw [mem_singleton.mp here, mem_singleton.mp there]
    exact .refl
  spanned ts low high := ⟨item, mem_singleton_self _, low, high⟩

include ordered

/-- A gap that begins within a cluster shares its first second with a member. -/
theorem linked_joined (linked : Linked items cluster) (own : cluster.symbol = item.symbol)
    (begun : cluster.lo ≤ item.interval.firstSecond) (within : item.interval.firstSecond ≤ cluster.hi) :
    Linked items { cluster with
      hi := max cluster.hi item.interval.lastSecond
      members := cluster.members ++ [item] } := by
  obtain ⟨neighbour, among, first, last⟩ := linked.spanned _ begun within
  have near : Chained items neighbour item :=
    .single ⟨(linked.listed neighbour among).1, listed,
      (linked.listed neighbour among).2.trans own, first.trans ordered, last⟩
  have reach : ∀ member ∈ cluster.members ++ [item], Chained items member item :=
    forall_mem_append.mpr ⟨fun member early => (linked.chained member early neighbour among).trans near,
      forall_mem_singleton.mpr .refl⟩
  refine ⟨?_, fun first here second there => ?_, fun ts low high => ?_⟩
  · exact forall_mem_append.mpr ⟨linked.listed, forall_mem_singleton.mpr ⟨listed, own.symm⟩⟩
  · exact (reach first here).trans (chained_symm (reach second there))
  · by_cases early : ts ≤ cluster.hi
    · obtain ⟨member, inside, spans⟩ := linked.spanned ts low early
      exact ⟨member, mem_append_left _ inside, spans⟩
    · have late : ts ≤ item.interval.lastSecond := (le_max_iff.mp high).resolve_left early
      exact ⟨item, mem_append_right _ (mem_singleton_self _), by omega, late⟩

theorem place_item_linked (apart : Apart clusters (item :: rest))
    (linked : ∀ cluster ∈ clusters, Linked items cluster) :
    ∀ cluster ∈ placeItem clusters item, Linked items cluster := by
  unfold placeItem
  cases taken : joinOpen item clusters with
  | none => exact forall_mem_cons.mpr ⟨linked_alone listed, linked⟩
  | some joined =>
    obtain ⟨front, newest, back, rfl, -, own, within, rfl⟩ := join_open_some taken
    have begun := apart.begun newest (by simp) item mem_cons_self own
    rw [Option.getD_some]
    intro cluster inside
    rcases mem_append.mp inside with early | late
    · exact linked cluster (mem_append_left _ early)
    · rcases mem_cons.mp late with rfl | late
      · exact linked_joined listed ordered (linked newest (by simp)) own begun within
      · exact linked cluster (by simp [late])

end Clusters

theorem clusters_linked {items : List AuditItem}
    (ordered : ∀ item ∈ items, item.interval.firstSecond ≤ item.interval.lastSecond) :
    ∀ cluster ∈ clustersOf items, Linked items cluster := by
  have run : ∀ (rest : List AuditItem) (clusters : List Cluster), rest.Pairwise AuditItem.Before →
      rest ⊆ items → Apart clusters rest → (∀ cluster ∈ clusters, Linked items cluster) →
      ∀ cluster ∈ rest.foldl placeItem clusters, Linked items cluster := by
    intro rest
    induction rest with
    | nil => exact fun _ _ _ _ linked => linked
    | cons item rest ih =>
      intro clusters sorted among apart linked
      obtain ⟨listed, others⟩ := cons_subset.mp among
      exact ih _ (pairwise_cons.mp sorted).2 others (place_item_apart sorted apart)
        (place_item_linked listed (ordered item listed) apart linked)
  intro cluster member
  exact run _ [] (items_sorted items) (perm_insertionSort _ _).subset ⟨.nil, by simp⟩ (by simp)
    cluster (mem_reverse.mp member)

namespace Sample

/-- A tape without the trade of the first gap. -/
def cutTape : GapfillSource :=
  ⟨"kis", "gapfill:kis", [tapeTrade 90101, tapeTrade 100303, tapeTrade 103000, tapeTrade 110505]⟩

end Sample

open Sample

end KrxAlpha
