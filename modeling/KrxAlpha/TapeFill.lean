import KrxAlpha.GapClusters
import KrxAlpha.RepairedLoss

/-! What the tape fills. Over the whole output every row stands for a trade of a tape of its
own, a cluster is given as many trades as its pool and its missing count allow, and no
interval is given more than it misses. -/
namespace KrxAlpha
open List

/-- The rows a cluster contributes. -/
def clusterFill (sources : List GapfillSource) (received : Option Received) (cluster : Cluster) :
    List FillRow :=
  match handedPool sources received cluster with
  | none => []
  | some (source, pool) =>
    (pieces pool cluster.members).flatMap fun piece =>
      piece.2.map (memberRow source cluster.symbol piece.1)

/-- The trades pooled for a cluster. -/
def poolSize (sources : List GapfillSource) (received : Option Received) (cluster : Cluster) : Nat :=
  ((choosePool sources received cluster).map (·.2.length)).getD 0

/-- The row is the trade under a number of one source's tape. -/
def FillRow.ReadFrom (sources : List GapfillSource) (row : FillRow) (origin : GapfillSource × Nat) :
    Prop :=
  origin.1 ∈ sources ∧
    origin.1.tape[origin.2]? = some ⟨row.symbol, row.chetime, row.price, row.volume⟩ ∧
    row.tapeSeq = origin.2 ∧ row.vendor = origin.1.vendor ∧ row.provenance = origin.1.provenance

/-- No trade of a tape stands behind both rows. -/
def FillRow.OtherTrade (sources : List GapfillSource) (first second : FillRow) : Prop :=
  ∀ origin, first.ReadFrom sources origin → ¬ second.ReadFrom sources origin

/-- A source the cluster's trades come from: the chosen one, or any where none has a trade
to pool. -/
def Cluster.Supplied (cluster : Cluster) (sources : List GapfillSource) (received : Option Received)
    (source : GapfillSource) : Prop :=
  match choosePool sources received cluster with
  | some (chosen, _) => source = chosen
  | none => source ∈ sources

section Cluster

variable {sources : List GapfillSource} {received : Option Received} {cluster : Cluster}

theorem cluster_missing_nonneg (missing : ∀ item ∈ cluster.members, 0 ≤ item.interval.missingTrades) :
    0 ≤ cluster.missing :=
  sum_nonneg (by simpa using missing)

theorem fill_cluster_rows (prior : Dict Nat Nat)
    (missing : ∀ item ∈ cluster.members, 0 ≤ item.interval.missingTrades) :
    (fillCluster sources received prior cluster).1 = clusterFill sources received cluster := by
  unfold fillCluster clusterFill handedPool
  cases choosePool sources received cluster with
  | none => rfl
  | some chosen => exact cluster_rows_pieces _ _ _ prior missing

theorem mem_cluster_fill : row ∈ clusterFill sources received cluster ↔
    ∃ source pool, handedPool sources received cluster = some (source, pool) ∧
      ∃ piece ∈ pieces pool cluster.members, ∃ pooled ∈ piece.2,
        row = memberRow source cluster.symbol piece.1 pooled := by
  unfold clusterFill
  cases handedPool sources received cluster with
  | none => simp
  | some chosen =>
    obtain ⟨source, pool⟩ := chosen
    simp [eq_comm]

section

variable (missing : ∀ item ∈ cluster.members, 0 ≤ item.interval.missingTrades)
include missing

section

variable (listed : row ∈ clusterFill sources received cluster)
include listed

/-- A row of a cluster is a trade of its pool, handed to one of its members. -/
theorem cluster_fill_mem :
    ∃ source pool item pooled, handedPool sources received cluster = some (source, pool) ∧
      item ∈ cluster.members ∧ pooled ∈ pool ∧ row = memberRow source cluster.symbol item pooled := by
  obtain ⟨source, pool, handed, piece, member, pooled, taken, rfl⟩ := mem_cluster_fill.mp listed
  have kept : pooled ∈ pool := by
    have flat : pooled ∈ (pieces pool cluster.members).flatMap Prod.snd :=
      mem_flatMap.mpr ⟨piece, member, taken⟩
    rw [pieces_flatten missing] at flat
    exact mem_of_mem_take flat
  exact ⟨source, pool, piece.1, pooled, handed, piece_owner member, kept, rfl⟩

/-- A row of a cluster names the cluster's symbol, one of its members and one of its
seconds. -/
theorem cluster_fill_row :
    row.symbol = cluster.symbol ∧ (∃ item ∈ cluster.members, row.intervalId = item.id) ∧
      cluster.lo ≤ row.chetime ∧ row.chetime ≤ cluster.hi := by
  obtain ⟨source, pool, item, pooled, handed, owner, kept, rfl⟩ := cluster_fill_mem missing listed
  obtain ⟨-, -, -, -, -, drawn⟩ := handed_pool_some (cluster_missing_nonneg missing) handed
  obtain ⟨low, high, -⟩ := drawn.read pooled kept
  exact ⟨rfl, ⟨item, owner, rfl⟩, low, high⟩

end

/-- The trades of a cluster's rows are a first part of the pool it hands out. -/
theorem cluster_fill_pool (handed : handedPool sources received cluster = some (source, pool))
    (view : FillRow → β) (shown : Int × TapeRow → β)
    (same : ∀ item pooled, view (memberRow source cluster.symbol item pooled) = shown pooled) :
    (clusterFill sources received cluster).map view = pool.map shown := by
  obtain ⟨found, -, -, length, -⟩ := handed_pool_some (cluster_missing_nonneg missing) handed
  have whole : (pieces pool cluster.members).flatMap Prod.snd = pool := by
    rw [pieces_flatten missing]
    exact take_of_length_le (by rw [Cluster.missing] at length; omega)
  unfold clusterFill
  simp only [handed, map_flatMap, map_map, Function.comp_def, same]
  rw [← map_flatMap]
  exact congrArg (map shown) whole

theorem cluster_fill_length :
    ((clusterFill sources received cluster).length : Int) =
      min (poolSize sources received cluster : Int) cluster.missing := by
  have nonneg := cluster_missing_nonneg missing
  cases handed : handedPool sources received cluster with
  | none =>
    have unchosen := Option.map_eq_none_iff.mp handed
    simp only [clusterFill, handed, poolSize, unchosen, length_nil, Option.map_none,
      Option.getD_none]
    omega
  | some chosen =>
    obtain ⟨source, pool⟩ := chosen
    obtain ⟨found, choice, -, length, -⟩ := handed_pool_some nonneg handed
    have same := congrArg List.length
      (cluster_fill_pool missing handed (fun _ => ()) (fun _ => ()) fun _ _ => rfl)
    rw [length_map, length_map] at same
    rw [same, length, poolSize, choice]
    rfl

/-- Each row of a cluster is a trade of the chosen tape. -/
theorem cluster_fill_read (listed : row ∈ clusterFill sources received cluster) :
    ∃ origin, row.ReadFrom sources origin := by
  obtain ⟨source, pool, item, pooled, handed, -, kept, rfl⟩ := cluster_fill_mem missing listed
  obtain ⟨found, choice, -, -, -, drawn⟩ := handed_pool_some (cluster_missing_nonneg missing) handed
  exact ⟨(source, pooled.2.seq), (choose_pool_some choice).1, (drawn.read pooled kept).2.2, rfl, rfl, rfl⟩

/-- No trade is taken twice in a cluster. -/
theorem cluster_fill_once :
    (clusterFill sources received cluster).Pairwise (FillRow.OtherTrade sources) := by
  cases handed : handedPool sources received cluster with
  | none => simp [clusterFill, handed]
  | some chosen =>
    obtain ⟨source, pool⟩ := chosen
    obtain ⟨-, -, -, -, -, drawn⟩ := handed_pool_some (cluster_missing_nonneg missing) handed
    have numbers : (clusterFill sources received cluster).map (·.tapeSeq.toNat) = pool.map (·.2.seq) :=
      cluster_fill_pool missing handed _ _ fun _ _ => rfl
    have distinct := drawn.distinct
    rw [← numbers, List.Nodup, pairwise_map] at distinct
    refine distinct.imp fun {first second} differ origin early late => differ ?_
    obtain ⟨-, -, here, -⟩ := early
    obtain ⟨-, -, there, -⟩ := late
    rw [here, there]

/-- With live frames known and no surplus, the rows of a second are the tape's excess over
the live trades. -/
theorem cluster_fill_count (fits : (poolSize sources (some live) cluster : Int) ≤ cluster.missing)
    (supplied : cluster.Supplied sources (some live) source)
    (within : cluster.lo ≤ ts ∧ ts ≤ cluster.hi) (price volume : Int) :
    (clusterFill sources (some live) cluster).countP
        (fun row => row.chetime = ts ∧ row.price = price ∧ row.volume = volume) =
      tapeCount source.tape cluster.symbol ts price volume -
        liveCount cluster.symbol live ts price volume := by
  rw [← pooled_rows_count source.tape cluster.symbol within live price volume]
  unfold Cluster.Supplied at supplied
  cases choice : choosePool sources (some live) cluster with
  | none =>
    rw [choice] at supplied
    have handed : handedPool sources (some live) cluster = none := by simp [handedPool, choice]
    rw [choose_pool_none choice supplied, clusterFill, handed]
    rfl
  | some chosen =>
    obtain ⟨chosen, found⟩ := chosen
    simp only [choice] at supplied
    subst supplied
    obtain ⟨pool, handed⟩ : ∃ pool, handedPool sources (some live) cluster = some (source, pool) :=
      ⟨_, by rw [handedPool, choice]; rfl⟩
    obtain ⟨again, same, -, -, whole, -⟩ := handed_pool_some (cluster_missing_nonneg missing) handed
    rw [choice] at same
    cases same
    have room : (found.length : Int) ≤ cluster.missing := by simpa [poolSize, choice] using fits
    have viewed := cluster_fill_pool missing handed
      (fun row => decide (row.chetime = ts ∧ row.price = price ∧ row.volume = volume))
      (fun pooled => decide (pooled.1 = ts ∧ pooled.2.price = price ∧ pooled.2.volume = volume))
      fun _ _ => rfl
    have counted := congrArg (countP id) viewed
    rw [countP_map, countP_map, whole room, (choose_pool_some choice).2] at counted
    exact counted

end

end Cluster

/-! ### The whole output -/

section Output

variable {audit : AuditDocument} {sources : List GapfillSource} {received : Option Received}
  {ids : Option (List Nat)} {items : List AuditItem}

/-- The items are the audited intervals, under ids of their own. -/
theorem pinned_items_ok (pinned : pinnedItems (auditIntervals audit.symbols) ids = .ok items) :
    (items.map (·.id)).Nodup ∧ ∀ item ∈ items, 0 < item.interval.missingTrades := by
  have audited : ∀ pair ∈ auditIntervals audit.symbols, 0 < pair.2.missingTrades := by
    intro pair listed
    obtain ⟨ledger, -, inside⟩ := mem_flatMap.mp listed
    obtain ⟨interval, kept, rfl⟩ := mem_map.mp inside
    exact (of_decide_eq_true (mem_filter.mp kept).2).1
  cases ids with
  | none =>
    cases pinned
    refine ⟨?_, fun item listed => ?_⟩
    · simp only [map_map, Function.comp_def]
      rw [zipIdx_map_snd]
      exact nodup_range' ..
    · obtain ⟨pair, member, rfl⟩ := mem_map.mp listed
      exact audited pair.1 (fst_mem_of_mem_zipIdx member)
  | some given =>
    simp only [pinnedItems] at pinned
    split at pinned
    · cases pinned
    · rename_i fits
      push Not at fits
      cases pinned
      rw [← map_uncurry_zip_eq_zipWith]
      refine ⟨?_, fun item listed => ?_⟩
      · rw [map_map]
        have first : (given.zip (auditIntervals audit.symbols)).map Prod.fst = given :=
          map_fst_zip (by omega)
        exact (congrArg List.Nodup first).mpr fits.2
      · obtain ⟨pair, member, rfl⟩ := mem_map.mp listed
        exact audited pair.2 (of_mem_zip member).2

theorem cluster_member_listed (listed : cluster ∈ clustersOf items)
    (member : item ∈ cluster.members) : item ∈ items :=
  (clusters_clustered items).members.mem_iff.mp (mem_flatMap.mpr ⟨cluster, listed, member⟩)

theorem cluster_members_missing (pinned : pinnedItems (auditIntervals audit.symbols) ids = .ok items)
    (listed : cluster ∈ clustersOf items) :
    ∀ item ∈ cluster.members, 0 ≤ item.interval.missingTrades := fun item member =>
  ((pinned_items_ok pinned).2 item (cluster_member_listed listed member)).le

theorem derive_gapfill_rows (sources : List GapfillSource) (received : Option Received)
    (prior : Dict Nat Nat)
    (pinned : pinnedItems (auditIntervals audit.symbols) ids = .ok items) :
    ∃ rows outcomes, deriveGapfill audit sources received ids prior = .ok (rows, outcomes) ∧
      rows.Perm ((clustersOf items).flatMap (clusterFill sources received)) ∧
      Filled prior items rows outcomes := by
  obtain ⟨rows, outcomes, derived, filled⟩ : ∃ rows outcomes,
      deriveGapfill audit sources received ids prior = .ok (rows, outcomes) ∧
        Filled prior items rows outcomes :=
    derive_gapfill_filled pinned fun item listed => ((pinned_items_ok pinned).2 item listed).le
  refine ⟨rows, outcomes, derived, ?_, filled⟩
  rw [deriveGapfill, pinned] at derived
  cases derived
  refine (perm_insertionSort _ _).trans (.of_eq ?_)
  rw [flatMap_map]
  apply flatMap_congr
  intro cluster listed
  exact fill_cluster_rows prior (cluster_members_missing pinned listed)

/-- What only one cluster's rows can meet is counted in that cluster. -/
theorem count_own
    (shape : clusters = front ++ cluster :: back) (fill : Cluster → List FillRow) {test : FillRow → Bool}
    (others : ∀ other ∈ clusters, other ∈ front ++ back → ∀ row ∈ fill other, test row = false) :
    (clusters.flatMap fill).countP test = (fill cluster).countP test := by
  have silent : ∀ part : List Cluster, (∀ other ∈ part, other ∈ clusters ∧ other ∈ front ++ back) →
      (part.flatMap fill).countP test = 0 := by
    intro part inside
    rw [countP_eq_zero]
    intro row listed
    obtain ⟨other, member, held⟩ := mem_flatMap.mp listed
    obtain ⟨among, apart⟩ := inside other member
    simp [others other among apart row held]
  subst shape
  rw [flatMap_append, flatMap_cons, countP_append, countP_append,
    silent front (fun other member => by simp [member]),
    silent back (fun other member => by simp [member])]
  omega

/-- An item is a member of one cluster only. -/
theorem members_apart (distinct : (items.map (·.id)).Nodup)
    (shape : clustersOf items = front ++ cluster :: back)
    (listed : other ∈ front ++ back) (here : item ∈ cluster.members)
    (there : twin ∈ other.members) : twin.id ≠ item.id := by
  have ids := ((clusters_clustered items).members.map (·.id)).nodup_iff.mpr distinct
  rw [shape, flatMap_append, flatMap_cons, map_append, map_append,
    nodup_append, nodup_append] at ids
  obtain ⟨-, ⟨-, -, behind⟩, before⟩ := ids
  intro same
  rcases mem_append.mp listed with early | late
  · exact before twin.id (mem_map_of_mem (mem_flatMap.mpr ⟨other, early, there⟩)) item.id
      (mem_append_left _ (mem_map_of_mem here)) same
  · exact behind item.id (mem_map_of_mem here) twin.id
      (mem_map_of_mem (mem_flatMap.mpr ⟨other, late, there⟩)) same.symm

section

variable (pinned : pinnedItems (auditIntervals audit.symbols) ids = .ok items)
include pinned

theorem output_read (listed : row ∈ (clustersOf items).flatMap (clusterFill sources received)) :
    ∃ origin, row.ReadFrom sources origin := by
  obtain ⟨cluster, member, inside⟩ := mem_flatMap.mp listed
  exact cluster_fill_read (cluster_members_missing pinned member) inside

/-- Clusters of one symbol lie apart, so a trade belongs to one of them only. -/
theorem output_once :
    ((clustersOf items).flatMap (clusterFill sources received)).Pairwise
      (FillRow.OtherTrade sources) := by
  rw [pairwise_flatMap]
  refine ⟨fun cluster member => cluster_fill_once (cluster_members_missing pinned member), ?_⟩
  refine (clusters_apart items).imp_of_mem fun {older newer} first second apart early here late there
    origin fromHere fromThere => ?_
  obtain ⟨symbol, -, -, ended⟩ := cluster_fill_row (cluster_members_missing pinned first) here
  obtain ⟨other, -, begun, -⟩ := cluster_fill_row (cluster_members_missing pinned second) there
  have same := fromHere.2.1.symm.trans fromThere.2.1
  simp only [Option.some.injEq, TapeTrade.mk.injEq] at same
  have order := apart (symbol.symm.trans (same.1.trans other))
  omega

end

theorem interval_rows_le
    (distinct : (items.map (·.id)).Nodup) (filled : Filled prior items rows outcomes)
    (listed : item ∈ items) :
    (rows.countP (·.intervalId = item.id) : Int) ≤ item.interval.missingTrades := by
  obtain ⟨outcome, settled, same⟩ := mem_map.mp
    (filled.ids.mem_iff.mpr (mem_map_of_mem listed))
  have counted := filled.counted (· = item.id)
  rw [← same, filter_own (filled.ids.nodup_iff.mpr distinct) settled, same] at counted
  obtain ⟨owner, member, surplus, last, taken, -, most, rfl⟩ := filled.settled outcome settled
  cases inj_on_of_nodup_map distinct member listed same
  simp only [map_cons, map_nil, sum_cons, sum_nil, GapfillInterval.fromTape,
    memberOutcome] at counted
  omega

section

variable (pinned : pinnedItems (auditIntervals audit.symbols) ids = .ok items)
  (listed : cluster ∈ clustersOf items)
include pinned listed

theorem cluster_rows_own :
    (((clustersOf items).flatMap (clusterFill sources received)).countP
        (fun row => row.intervalId ∈ cluster.members.map (·.id)) : Int) =
      min (poolSize sources received cluster : Int) cluster.missing := by
  have missing {other : Cluster} (member : other ∈ clustersOf items) :=
    cluster_members_missing pinned member
  obtain ⟨front, back, shape⟩ := append_of_mem listed
  rw [count_own shape (clusterFill sources received), ← cluster_fill_length (missing listed),
    countP_eq_length.mpr]
  · intro row inside
    obtain ⟨-, ⟨item, owner, id⟩, -⟩ := cluster_fill_row (missing listed) inside
    exact decide_eq_true (id ▸ mem_map_of_mem owner)
  · intro other elsewhere outside row inside
    obtain ⟨-, ⟨twin, there, id⟩, -⟩ := cluster_fill_row (missing elsewhere) inside
    refine decide_eq_false fun claimed => ?_
    obtain ⟨item, here, same⟩ := mem_map.mp claimed
    exact members_apart (pinned_items_ok pinned).1 shape outside here there (id.symm.trans same.symm)

theorem second_rows_own (within : cluster.lo ≤ ts ∧ ts ≤ cluster.hi) (price volume : Int) :
    ((clustersOf items).flatMap (clusterFill sources received)).countP
        (fun row => row.symbol = cluster.symbol ∧ row.chetime = ts ∧ row.price = price ∧
          row.volume = volume) =
      (clusterFill sources received cluster).countP
        (fun row => row.chetime = ts ∧ row.price = price ∧ row.volume = volume) := by
  have missing {other : Cluster} (member : other ∈ clustersOf items) :=
    cluster_members_missing pinned member
  obtain ⟨front, back, shape⟩ := append_of_mem listed
  rw [count_own shape (clusterFill sources received)]
  · apply countP_congr
    intro row inside
    obtain ⟨symbol, -⟩ := cluster_fill_row (missing listed) inside
    simp [symbol]
  · intro other elsewhere outside row inside
    obtain ⟨symbol, -, begun, ended⟩ := cluster_fill_row (missing elsewhere) inside
    refine decide_eq_false fun ⟨same, second, _⟩ => ?_
    exact clusters_disjoint shape outside (symbol.symm.trans same) (second ▸ within) ⟨begun, ended⟩

end

end Output

/-- The tape's fill takes each trade once and only what is missing. Every row is a trade of
a tape and no trade stands behind two rows; an interval is given no more than it misses, and
a cluster as many trades as its pool and its missing count allow. Where the live frames are
known and the pool has no surplus, a second of a cluster is given the trades by which the
tape exceeds the live frames. -/
theorem tape_fill_exact (audit : AuditDocument) (sources : List GapfillSource)
    (received : Option Received) (ids : Option (List Nat)) (prior : Dict Nat Nat)
    (items : List AuditItem) (pinned : pinnedItems (auditIntervals audit.symbols) ids = .ok items) :
    ∃ rows outcomes, deriveGapfill audit sources received ids prior = .ok (rows, outcomes) ∧
      (∀ row ∈ rows, ∃ origin, row.ReadFrom sources origin) ∧
      rows.Pairwise (FillRow.OtherTrade sources) ∧
      (∀ item ∈ items,
        (rows.countP (·.intervalId = item.id) : Int) ≤ item.interval.missingTrades) ∧
      ∀ cluster ∈ clustersOf items,
        (rows.countP (fun row => row.intervalId ∈ cluster.members.map (·.id)) : Int) =
          min (poolSize sources received cluster : Int) cluster.missing ∧
        ∀ live, received = some live → (poolSize sources received cluster : Int) ≤ cluster.missing →
          ∀ source, cluster.Supplied sources received source →
            ∀ ts, cluster.lo ≤ ts → ts ≤ cluster.hi → ∀ price volume,
              (rows.countP (fun row => row.symbol = cluster.symbol ∧ row.chetime = ts ∧
                  row.price = price ∧ row.volume = volume) : Int) =
                max 0 ((tapeCount source.tape cluster.symbol ts price volume : Int) -
                  liveCount cluster.symbol live ts price volume) := by
  obtain ⟨rows, outcomes, derived, perm, filled⟩ := derive_gapfill_rows sources received prior pinned
  have symmetric : ∀ {first second : FillRow}, first.OtherTrade sources second →
      second.OtherTrade sources first := fun apart origin late early => apart origin early late
  refine ⟨rows, outcomes, derived, fun row listed => output_read pinned (perm.mem_iff.mp listed),
    (perm.pairwise_iff symmetric).mpr (output_once pinned),
    fun item listed => interval_rows_le (pinned_items_ok pinned).1 filled listed,
    fun cluster listed => ⟨?_, ?_⟩⟩
  · rw [perm.countP_eq]
    exact cluster_rows_own pinned listed
  · rintro live rfl fits source supplied ts first last price volume
    rw [perm.countP_eq, second_rows_own pinned listed ⟨first, last⟩,
      cluster_fill_count (cluster_members_missing pinned listed) fits supplied ⟨first, last⟩]
    omega

namespace Sample

/-- The second and the fourth trade are missing, with the third between them. -/
def touchingGaps : AuditDocument :=
  phasedAuditor.document [hourly 9 1, hourly 10 3, hourly 11 5]

def tapeTrade (tsHms : Int) : TapeTrade := ⟨"005930", tsHms, 100, 1⟩

def wholeTape : GapfillSource :=
  ⟨"kis", "gapfill:kis", [tapeTrade 90101, tapeTrade 93000, tapeTrade 100303, tapeTrade 103000,
    tapeTrade 110505]⟩

/-- What the live frames of the day hold. -/
def liveFrames : Received :=
  Dict.ofList [(("005930", 90101), [(1, 100, 1)]), (("005930", 100303), [(3, 100, 1)]),
    (("005930", 110505), [(5, 100, 1)])]

end Sample

open Sample

/-- The two missing trades are read off the tape, one for each gap. -/
theorem tape_fill_exact_touching :
    ∃ rows outcomes, deriveGapfill touchingGaps [wholeTape] (some liveFrames) none
        ∅ = .ok (rows, outcomes) ∧
      rows.Pairwise (FillRow.OtherTrade [wholeTape]) ∧
      ∀ cluster ∈ clustersOf (indexedAuditIntervals touchingGaps.symbols),
        (rows.countP (fun row => row.intervalId ∈ cluster.members.map (·.id)) : Int) = 2 := by
  obtain ⟨rows, outcomes, derived, -, once, -, clusters⟩ := tape_fill_exact touchingGaps
    [wholeTape] (some liveFrames) none ∅ _ rfl
  have sizes : ∀ cluster ∈ clustersOf (indexedAuditIntervals touchingGaps.symbols),
      min (poolSize [wholeTape] (some liveFrames) cluster : Int) cluster.missing = 2 := by
    decide +kernel
  refine ⟨rows, outcomes, derived, once, fun cluster listed => ?_⟩
  rw [← sizes cluster listed]
  exact (clusters cluster listed).1

end KrxAlpha
