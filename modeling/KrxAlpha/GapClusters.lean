import KrxAlpha.GapfillBookkeeping
import KrxAlpha.TapePool
import KrxAlpha.TextOrder

/-! Clusters of touching gaps. Items come in the order of their first seconds, so the
clusters of one symbol follow each other with their seconds apart. What a cluster hands out
is a first part of its pool, cut into one piece for each member. -/
namespace KrxAlpha
open List

/-! ### Clusters of a symbol lie apart -/

theorem items_sorted (items : List AuditItem) :
    (items.insertionSort AuditItem.Before).Pairwise AuditItem.Before :=
  haveI : Std.Total AuditItem.Before := ⟨TextOrder.text_first_total AuditItem.symbol _
    fun first second => le_total first.interval.firstSecond second.interval.firstSecond⟩
  haveI : IsTrans AuditItem AuditItem.Before := ⟨TextOrder.text_first_trans AuditItem.symbol _
    fun _ _ _ => le_trans⟩
  pairwise_insertionSort ..

/-- Newest first, with what is still to come: clusters of a symbol lie apart, and none
begins after an item of the symbol that is to come. -/
structure Apart (clusters : List Cluster) (rest : List AuditItem) : Prop where
  ranges : clusters.Pairwise fun newer older => newer.symbol = older.symbol → older.hi < newer.lo
  begun : ∀ cluster ∈ clusters, ∀ item ∈ rest, cluster.symbol = item.symbol →
    cluster.lo ≤ item.interval.firstSecond

/-- The cluster that takes an item in is the newest of its symbol, and nothing else changes. -/
theorem join_open_some (taken : joinOpen item clusters = some joined) :
    ∃ front newest back, clusters = front ++ newest :: back ∧
      (∀ cluster ∈ front, cluster.symbol ≠ item.symbol) ∧ newest.symbol = item.symbol ∧
      item.interval.firstSecond ≤ newest.hi ∧
      joined = front ++ { newest with
        hi := max newest.hi item.interval.lastSecond
        members := newest.members ++ [item] } :: back := by
  induction clusters generalizing joined with
  | nil => cases taken
  | cons cluster older ih =>
    rw [joinOpen] at taken
    split at taken
    · rename_i same
      split at taken
      · rename_i within
        cases taken
        exact ⟨[], cluster, older, rfl, by simp, same, within, rfl⟩
      · cases taken
    · rename_i other
      obtain ⟨rest, found, rfl⟩ := Option.map_eq_some_iff.mp taken
      obtain ⟨front, newest, back, rfl, others, own, within, rfl⟩ := ih found
      exact ⟨cluster :: front, newest, back, rfl, forall_mem_cons.mpr ⟨other, others⟩, own, within,
        rfl⟩

/-- Where no cluster takes an item in, all of its symbol have ended. -/
theorem join_open_none
    (untaken : joinOpen item clusters = none) (apart : Apart clusters (item :: rest)) :
    ∀ cluster ∈ clusters, cluster.symbol = item.symbol → cluster.hi < item.interval.firstSecond := by
  induction clusters with
  | nil => simp
  | cons newest older ih =>
    obtain ⟨below, ranges⟩ := pairwise_cons.mp apart.ranges
    obtain ⟨here, begun⟩ := forall_mem_cons.mp apart.begun
    rw [joinOpen] at untaken
    intro cluster member same
    split at untaken
    · rename_i own
      split at untaken
      · cases untaken
      · rename_i ended
        rcases mem_cons.mp member with rfl | member
        · omega
        · have earlier := below cluster member (own.trans same.symm)
          have start := here item mem_cons_self own
          omega
    · rename_i other
      rcases mem_cons.mp member with rfl | member
      · exact absurd same other
      · exact ih (Option.map_eq_none_iff.mp untaken) ⟨ranges, begun⟩ cluster member same

theorem place_item_apart
    (sorted : (item :: rest).Pairwise AuditItem.Before) (apart : Apart clusters (item :: rest)) :
    Apart (placeItem clusters item) rest := by
  have later : ∀ other ∈ rest, item.symbol = other.symbol →
      item.interval.firstSecond ≤ other.interval.firstSecond := by
    intro other member same
    rcases (pairwise_cons.mp sorted).1 other member with less | ⟨-, order⟩
    · exact absurd same (String.ne_of_lt less)
    · exact order
  have begun : ∀ cluster ∈ clusters, ∀ other ∈ rest, cluster.symbol = other.symbol →
      cluster.lo ≤ other.interval.firstSecond :=
    fun cluster member other listed => apart.begun cluster member other (mem_cons_of_mem _ listed)
  unfold placeItem
  cases taken : joinOpen item clusters with
  | none =>
    rw [Option.getD_none]
    refine ⟨pairwise_cons.mpr ⟨fun older member same => ?_, apart.ranges⟩,
      forall_mem_cons.mpr ⟨later, begun⟩⟩
    exact join_open_none taken apart older member same.symm
  | some joined =>
    obtain ⟨front, newest, back, rfl, others, own, -, rfl⟩ := join_open_some taken
    rw [Option.getD_some]
    have ranges := apart.ranges
    rw [pairwise_append, pairwise_cons] at ranges
    obtain ⟨first, ⟨below, second⟩, between⟩ := ranges
    refine ⟨?_, ?_⟩
    · rw [pairwise_append, pairwise_cons]
      refine ⟨first, ⟨below, second⟩, fun cluster member older listed same => ?_⟩
      rcases mem_cons.mp listed with rfl | listed
      · exact absurd (same.trans own) (others cluster member)
      · exact between cluster member older (mem_cons_of_mem _ listed) same
    · intro cluster member
      rcases mem_append.mp member with early | late
      · exact begun cluster (mem_append_left _ early)
      · rcases mem_cons.mp late with rfl | late
        · exact begun newest (by simp)
        · exact begun cluster (by simp [late])

/-- The clusters of a symbol follow each other with their seconds apart. -/
theorem clusters_apart (items : List AuditItem) :
    (clustersOf items).Pairwise fun older newer => older.symbol = newer.symbol → older.hi < newer.lo := by
  have run : ∀ (rest : List AuditItem) (clusters : List Cluster), rest.Pairwise AuditItem.Before →
      Apart clusters rest → Apart (rest.foldl placeItem clusters) [] := by
    intro rest
    induction rest with
    | nil => exact fun _ _ apart => apart
    | cons item rest ih =>
      intro clusters sorted apart
      exact ih _ (pairwise_cons.mp sorted).2 (place_item_apart sorted apart)
  have apart := run _ [] (items_sorted items) ⟨.nil, by simp⟩
  rw [clustersOf, pairwise_reverse]
  exact apart.ranges.imp fun ranges same => ranges same.symm

/-- A second of a symbol lies in one cluster at most. -/
theorem clusters_disjoint
    (shape : clustersOf items = front ++ cluster :: back) (listed : other ∈ front ++ back)
    (same : other.symbol = cluster.symbol) (here : cluster.lo ≤ ts ∧ ts ≤ cluster.hi) :
    ¬ (other.lo ≤ ts ∧ ts ≤ other.hi) := by
  have apart := clusters_apart items
  rw [shape, pairwise_append, pairwise_cons] at apart
  obtain ⟨-, ⟨behind, -⟩, before⟩ := apart
  rcases mem_append.mp listed with early | late
  · have order := before other early cluster mem_cons_self same
    omega
  · have order := behind other late same.symm
    omega

/-! ### What each member is handed -/

/-- The row of a pooled trade that is handed to a member. -/
def memberRow (source : GapfillSource) (symbol : String) (item : AuditItem) (pooled : Int × TapeRow) :
    FillRow :=
  { symbol
    chetime := pooled.1
    price := pooled.2.price
    volume := pooled.2.volume
    tapeSeq := pooled.2.seq
    intervalId := item.id
    cumPrev := item.interval.cumPrev
    cumNext := item.interval.cumNext
    vendor := source.vendor
    provenance := source.provenance }

/-- The trades of the pool the next member takes. -/
def takenBy (pool : List (Int × TapeRow)) (item : AuditItem) : Nat :=
  (min item.interval.missingTrades pool.length).toNat

/-- The pool cut into the members' pieces. -/
def pieces : List (Int × TapeRow) → List AuditItem → List (AuditItem × List (Int × TapeRow))
  | _, [] => []
  | pool, item :: rest =>
    (item, pool.take (takenBy pool item)) :: pieces (pool.drop (takenBy pool item)) rest

section Pieces

variable {pool : List (Int × TapeRow)} {items : List AuditItem}

theorem pieces_members (pool : List (Int × TapeRow)) (items : List AuditItem) :
    (pieces pool items).map Prod.fst = items := by
  induction items generalizing pool with
  | nil => rfl
  | cons item rest ih => simp [pieces, ih]

theorem piece_owner (listed : piece ∈ pieces pool items) : piece.1 ∈ items := by
  rw [← pieces_members pool items]
  exact mem_map_of_mem listed

/-- The pieces together are the first part of the pool, as long as the pool and the missing
trades allow. -/
theorem pieces_flatten (missing : ∀ item ∈ items, 0 ≤ item.interval.missingTrades) :
    (pieces pool items).flatMap Prod.snd =
      pool.take (min (pool.length : Int) (items.map (·.interval.missingTrades)).sum).toNat := by
  induction items generalizing pool with
  | nil => simp [pieces]
  | cons item rest ih =>
    obtain ⟨here, others⟩ := forall_mem_cons.mp missing
    have later : 0 ≤ (rest.map (·.interval.missingTrades)).sum :=
      sum_nonneg (by simpa using others)
    rw [pieces, flatMap_cons, ih others, ← take_add, length_drop, map_cons,
      sum_cons]
    congr 1
    simp only [takenBy]
    omega

theorem cluster_rows_pieces (source : GapfillSource) (symbol : String) (surplus : Int)
    (prior : Dict Nat Nat) (missing : ∀ item ∈ items, 0 ≤ item.interval.missingTrades) :
    clusterRows source pool (clusterOutcomes symbol surplus prior pool.length items) =
      (pieces pool items).flatMap fun piece => piece.2.map (memberRow source symbol piece.1) := by
  induction items generalizing pool with
  | nil => rfl
  | cons item rest ih =>
    obtain ⟨here, others⟩ := forall_mem_cons.mp missing
    have taken : (memberOutcome symbol surplus rest.isEmpty item ((prior.get? item.id).getD 0)
        (min item.interval.missingTrades pool.length)).recovered -
        (memberOutcome symbol surplus rest.isEmpty item ((prior.get? item.id).getD 0)
          (min item.interval.missingTrades pool.length)).recoveredXvendor =
        min item.interval.missingTrades pool.length := by
      simp [memberOutcome]
    have left : (pool.length : Int) - min item.interval.missingTrades pool.length =
        ((pool.drop (takenBy pool item)).length : Int) := by
      rw [length_drop, takenBy]
      omega
    rw [clusterOutcomes, clusterRows, pieces, flatMap_cons, ← ih others, taken, left]
    rfl

end Pieces

end KrxAlpha
